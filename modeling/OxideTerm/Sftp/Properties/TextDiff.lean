import OxideTerm.Lib.Loops
import OxideTerm.Sftp.TextDiff

/-!
# The comparison is an edit script

Read from the left and from the right, the lines of a comparison are those of the two texts with
their numbers, and as many are unchanged as can be.
-/

namespace OxideTerm.Sftp

open OxideTerm.Lib

namespace TextDiff

/-! ## Lines with their numbers -/

/-- Lines with numbers that count up. -/
def numbered (start : Nat) (lines : List String) : List (String × Option Nat) :=
  (lines.zipIdx start).map fun line => (line.1, some line.2)

theorem numbered_append (start : Nat) (a b : List String) :
    numbered start (a ++ b) = numbered start a ++ numbered (start + a.length) b := by
  rw [numbered, List.zipIdx_append, List.map_append, Nat.add_comm]
  rfl

theorem numbered_take_succ (start : Nat) {lines : List String} {i : Nat} (h : i < lines.length) :
    numbered start (lines.take (i + 1)) =
      numbered start (lines.take i) ++ [(lines.getD i "", some (start + i))] := by
  rw [List.take_succ_eq_append_getElem h, numbered_append, List.length_take,
    Nat.min_eq_left (Nat.le_of_lt h), List.getD_eq_getElem?_getD, List.getElem?_eq_getElem h]
  rfl

/-- What the comparison says of the left text. -/
def leftEntries (lines : List TextDiffLine) : List (String × Option Nat) :=
  (lines.filter fun line => line.kind ≠ .added).map fun line => (line.content, line.leftLineNum)

/-- What the comparison says of the right text. -/
def rightEntries (lines : List TextDiffLine) : List (String × Option Nat) :=
  (lines.filter fun line => line.kind ≠ .removed).map fun line => (line.content, line.rightLineNum)

def countUnchanged (lines : List TextDiffLine) : Nat :=
  lines.countP fun line => line.kind = .unchanged

@[simp] theorem leftEntries_append (a b : List TextDiffLine) :
    leftEntries (a ++ b) = leftEntries a ++ leftEntries b := by
  rw [leftEntries, List.filter_append, List.map_append]
  rfl

@[simp] theorem rightEntries_append (a b : List TextDiffLine) :
    rightEntries (a ++ b) = rightEntries a ++ rightEntries b := by
  rw [rightEntries, List.filter_append, List.map_append]
  rfl

@[simp] theorem countUnchanged_append (a b : List TextDiffLine) :
    countUnchanged (a ++ b) = countUnchanged a + countUnchanged b := List.countP_append

@[simp] theorem countUnchanged_unchanged (content : String) (i j : Nat)
    (lines : List TextDiffLine) :
    countUnchanged (unchanged content i j :: lines) = countUnchanged lines + 1 :=
  List.countP_cons_of_pos rfl

@[simp] theorem countUnchanged_added (content : String) (j : Nat) (lines : List TextDiffLine) :
    countUnchanged (added content j :: lines) = countUnchanged lines :=
  List.countP_cons_of_neg (by simp [added])

@[simp] theorem countUnchanged_removed (content : String) (i : Nat) (lines : List TextDiffLine) :
    countUnchanged (removed content i :: lines) = countUnchanged lines :=
  List.countP_cons_of_neg (by simp [removed])

/-- The summary counts the lines of each kind. -/
theorem textDiffStats_eq (lines : List TextDiffLine) : textDiffStats lines =
    { added := lines.countP fun line => line.kind = .added
      removed := lines.countP fun line => line.kind = .removed
      unchanged := countUnchanged lines } := by
  have hfold : ∀ (lines : List TextDiffLine) (a r u : Nat),
      lines.foldl TextDiffStats.count { added := a, removed := r, unchanged := u } =
        { added := a + lines.countP fun line => line.kind = .added
          removed := r + lines.countP fun line => line.kind = .removed
          unchanged := u + countUnchanged lines } := by
    intro lines
    induction lines with
    | nil => exact fun a r u => rfl
    | cons line lines ih =>
      intro a r u
      obtain ⟨kind, content, left, right⟩ := line
      cases kind <;>
        simp [TextDiffStats.count, ih, countUnchanged, Nat.add_assoc, Nat.add_comm]
  rw [textDiffStats, hfold]
  simp

/-! ## The table -/

theorem cell_inj {right : List String} {i j i' j' : Nat} (hj : j ≤ right.length)
    (hj' : j' ≤ right.length) (h : cell right i j = cell right i' j') : i = i' ∧ j = j' := by
  have hlt : j < rowWidth right := Nat.lt_succ_of_le hj
  have hlt' : j' < rowWidth right := Nat.lt_succ_of_le hj'
  rw [cell, cell, Nat.mul_comm i, Nat.mul_comm i'] at h
  have hcolumn := congrArg (· % rowWidth right) h
  simp only [Nat.mul_add_mod, Nat.mod_eq_of_lt hlt, Nat.mod_eq_of_lt hlt'] at hcolumn
  refine ⟨?_, hcolumn⟩
  rw [hcolumn] at h
  exact Nat.eq_of_mul_eq_mul_left (Nat.succ_pos right.length) (Nat.add_right_cancel h)

theorem cell_lt {left right : List String} {i j : Nat} (hi : i ≤ left.length)
    (hj : j ≤ right.length) : cell right i j < cellCount left right := by
  calc cell right i j < i * rowWidth right + rowWidth right :=
        Nat.add_lt_add_left (Nat.lt_succ_of_le hj) _
    _ = (i + 1) * rowWidth right := (Nat.succ_mul i _).symm
    _ ≤ cellCount left right := Nat.mul_le_mul_right _ (Nat.succ_le_succ hi)

/-- The value at a place of the table. -/
def value (right : List String) (table : Array Nat) (i j : Nat) : Nat :=
  table.getD (cell right i j) 0

/-- The table is filled up to row `i`, and in the row after it up to column `j`. -/
structure Filled (left right : List String) (i j : Nat) (table : Array Nat) : Prop where
  size_eq : table.size = cellCount left right
  longest : ∀ r c, r ≤ left.length → c ≤ right.length → (r ≤ i ∨ c = 0 ∨ (r = i + 1 ∧ c ≤ j)) →
    LongestCommon (value right table r c) (left.take r) (right.take c)

theorem filled_replicate (left right : List String) :
    Filled left right 0 0 (Array.replicate (cellCount left right) 0) := by
  refine ⟨Array.size_replicate, ?_⟩
  intro r c hr hc hdone
  have hzero : value right (Array.replicate (cellCount left right) 0) r c = 0 := by
    simp [value, cell_lt hr hc]
  rw [hzero]
  by_cases hcolumn : c = 0
  · rw [hcolumn, List.take_zero]
    exact LongestCommon.nil_right _
  · obtain rfl : r = 0 := by omega
    rw [List.take_zero]
    exact LongestCommon.nil_left _

theorem value_fillCell {left right : List String} {table : Array Nat} {i j : Nat}
    (hsize : table.size = cellCount left right) (hi : i < left.length) (hj : j < right.length) :
    value right (fillCell left right table (i + 1) (j + 1)) (i + 1) (j + 1) =
      if left[i] = right[j] then value right table i j + 1
      else max (value right table i (j + 1)) (value right table (i + 1) j) := by
  have hlt : cell right (i + 1) (j + 1) < table.size := by
    rw [hsize]
    exact cell_lt hi hj
  have hset : ∀ x, (table.setIfInBounds (cell right (i + 1) (j + 1)) x).getD
      (cell right (i + 1) (j + 1)) 0 = x := by
    intro x
    simp [hlt]
  rw [value, fillCell, hset]
  simp only [Nat.add_sub_cancel, List.getElem?_eq_getElem hi, List.getElem?_eq_getElem hj,
    Option.some.injEq]
  rfl

theorem value_fillCell_ne {left right : List String} (table : Array Nat) {i j r c : Nat}
    (hj : j ≤ right.length) (hc : c ≤ right.length) (hne : ¬ (r = i ∧ c = j)) :
    value right (fillCell left right table i j) r c = value right table r c := by
  have hcell : cell right i j ≠ cell right r c := by
    intro heq
    obtain ⟨rfl, rfl⟩ := cell_inj hj hc heq
    exact hne ⟨rfl, rfl⟩
  simp [value, fillCell, Array.getD_eq_getD_getElem?, Array.getElem?_setIfInBounds_ne hcell]

/-- **One more cell.** -/
theorem Filled.fillCell {left right : List String} {table : Array Nat} {i j : Nat}
    (h : Filled left right i j table) (hi : i < left.length) (hj : j < right.length) :
    Filled left right i (j + 1) (fillCell left right table (i + 1) (j + 1)) := by
  refine ⟨by rw [TextDiff.fillCell, Array.size_setIfInBounds, h.size_eq], ?_⟩
  intro r c hr hc hdone
  by_cases hnew : r = i + 1 ∧ c = j + 1
  · obtain ⟨rfl, rfl⟩ := hnew
    have hdiagonal := h.longest i j (Nat.le_of_lt hi) (Nat.le_of_lt hj) (Or.inl (Nat.le_refl i))
    have habove := h.longest i (j + 1) (Nat.le_of_lt hi) hj (Or.inl (Nat.le_refl i))
    have hbefore := h.longest (i + 1) j hi (Nat.le_of_lt hj) (Or.inr (Or.inr ⟨rfl, Nat.le_refl j⟩))
    rw [value_fillCell h.size_eq hi hj]
    rw [List.take_succ_eq_append_getElem hi] at hbefore ⊢
    rw [List.take_succ_eq_append_getElem hj] at habove ⊢
    split
    · next heq =>
      rw [heq]
      exact hdiagonal.concat_concat _
    · next hne => exact habove.concat_ne hbefore hne
  · rw [value_fillCell_ne table hj hc hnew]
    exact h.longest r c hr hc (by omega)

/-- **The table has the lengths of the longest common subsequences** of all fronts. -/
theorem filled_lcsLengths (left right : List String) :
    Filled left right left.length 0 (lcsLengths left right) := by
  refine foldl_range'_keeps (P := fun i => Filled left right i 0) (filled_replicate left right) ?_
  intro i hi table htable
  have hrow : Filled left right i right.length (fillRow left right table (i + 1)) :=
    foldl_range'_keeps (P := fun j => Filled left right i j) htable
      fun j hj table htable => htable.fillCell hi hj
  refine ⟨hrow.size_eq, ?_⟩
  intro r c hr hc hdone
  exact hrow.longest r c hr hc (by omega)

/-! ## The way back -/

theorem numbered_take {lines : List String} (start : Nat) {i : Nat} (hpos : 0 < i)
    (h : i ≤ lines.length) : numbered start (lines.take i) =
      numbered start (lines.take (i - 1)) ++ [(lines.getD (i - 1) "", some (start + (i - 1)))] := by
  obtain ⟨k, rfl⟩ : ∃ k, i = k + 1 := ⟨i - 1, by omega⟩
  exact numbered_take_succ start h

theorem entries_walkBack {left right : List String} (offset : Nat) (table : Array Nat) (i j : Nat)
    (hi : i ≤ left.length) (hj : j ≤ right.length) :
    leftEntries (walkBack left right offset table i j).reverse =
        numbered (offset + 1) (left.take i) ∧
      rightEntries (walkBack left right offset table i j).reverse =
        numbered (offset + 1) (right.take j) := by
  fun_induction walkBack left right offset table i j with
  | case1 i j _ hsame ih =>
    obtain ⟨hipos, hjpos, hline⟩ := hsame
    obtain ⟨ihleft, ihright⟩ := ih (by omega) (by omega)
    have hcontent : right.getD (j - 1) "" = left.getD (i - 1) "" := by
      rw [List.getD_eq_getElem?_getD, List.getD_eq_getElem?_getD, hline]
    rw [List.reverse_cons, leftEntries_append, rightEntries_append, ihleft, ihright,
      numbered_take _ hipos hi, numbered_take _ hjpos hj, hcontent,
      show offset + 1 + (i - 1) = offset + i by omega,
      show offset + 1 + (j - 1) = offset + j by omega]
    exact ⟨rfl, rfl⟩
  | case2 i j _ _ hright ih =>
    obtain ⟨ihleft, ihright⟩ := ih hi (by omega)
    rw [List.reverse_cons, leftEntries_append, rightEntries_append, ihleft, ihright,
      numbered_take _ hright.1 hj, show offset + 1 + (j - 1) = offset + j by omega]
    exact ⟨List.append_nil _, rfl⟩
  | case3 i j hrest _ hright ih =>
    have hipos : 0 < i := by omega
    obtain ⟨ihleft, ihright⟩ := ih (by omega) hj
    rw [List.reverse_cons, leftEntries_append, rightEntries_append, ihleft, ihright,
      numbered_take _ hipos hi, show offset + 1 + (i - 1) = offset + i by omega]
    exact ⟨rfl, List.append_nil _⟩
  | case4 i j hend =>
    obtain ⟨rfl, rfl⟩ : i = 0 ∧ j = 0 := by omega
    exact ⟨rfl, rfl⟩

theorem take_eq_take_append {lines : List String} {i : Nat} (hpos : 0 < i) (h : i ≤ lines.length) :
    ∃ line, lines[i - 1]? = some line ∧ lines.take i = lines.take (i - 1) ++ [line] := by
  obtain ⟨k, rfl⟩ : ∃ k, i = k + 1 := ⟨i - 1, by omega⟩
  exact ⟨lines[k], List.getElem?_eq_getElem h, List.take_succ_eq_append_getElem h⟩

/-- **The way back passes as many unchanged lines as can be.** -/
theorem longest_walkBack {left right : List String} (offset : Nat) {table : Array Nat}
    (htable : Filled left right left.length 0 table) (i j : Nat) (hi : i ≤ left.length)
    (hj : j ≤ right.length) :
    LongestCommon (countUnchanged (walkBack left right offset table i j)) (left.take i)
      (right.take j) := by
  have hvalue : ∀ r c, r ≤ left.length → c ≤ right.length →
      LongestCommon (value right table r c) (left.take r) (right.take c) :=
    fun r c hr hc => htable.longest r c hr hc (Or.inl hr)
  fun_induction walkBack left right offset table i j with
  | case1 i j _ hsame ih =>
    obtain ⟨hipos, hjpos, hline⟩ := hsame
    obtain ⟨x, hx, hleft⟩ := take_eq_take_append hipos hi
    obtain ⟨y, hy, hright⟩ := take_eq_take_append hjpos hj
    obtain rfl : x = y := Option.some.inj (hx.symm.trans (hline.trans hy))
    rw [hleft, hright, countUnchanged_unchanged]
    exact (ih (by omega) (by omega)).concat_concat x
  | case2 i j _ hdiffer hright ih =>
    have hfewer := ih hi (by omega)
    rw [countUnchanged_added]
    by_cases hzero : i = 0
    · subst hzero
      rw [List.take_zero] at hfewer ⊢
      rw [hfewer.unique (LongestCommon.nil_left _)]
      exact LongestCommon.nil_left _
    · have hipos : 0 < i := Nat.pos_of_ne_zero hzero
      have hle := hright.2.resolve_left hzero
      obtain ⟨x, hx, hlast⟩ := take_eq_take_append hipos hi
      obtain ⟨y, hy, hlast'⟩ := take_eq_take_append hright.1 hj
      have habove := hvalue (i - 1) j (by omega) hj
      have hbefore := hvalue i (j - 1) hi (by omega)
      have hcell : cell right i (j - 1) = cell right i j - 1 := by
        have hpos := hright.1
        unfold cell
        omega
      have hne : x ≠ y := by
        rintro rfl
        exact hdiffer ⟨hipos, hright.1, hx.trans hy.symm⟩
      have hsame := hfewer.unique hbefore
      rw [value, hcell] at hsame
      rw [hlast] at hfewer ⊢
      rw [hlast'] at habove ⊢
      have hmax := habove.concat_ne hfewer hne
      rwa [Nat.max_eq_right (by rw [hsame]; exact hle)] at hmax
  | case3 i j hrest hdiffer hright ih =>
    have hipos : 0 < i := by omega
    have hfewer := ih (by omega) hj
    rw [countUnchanged_removed]
    by_cases hzero : j = 0
    · subst hzero
      rw [List.take_zero] at hfewer ⊢
      rw [hfewer.unique (LongestCommon.nil_right _)]
      exact LongestCommon.nil_right _
    · have hjpos : 0 < j := Nat.pos_of_ne_zero hzero
      have hle : ¬ table.getD (cell right (i - 1) j) 0 ≤ table.getD (cell right i j - 1) 0 :=
        fun hle => hright ⟨hjpos, Or.inr hle⟩
      obtain ⟨x, hx, hlast⟩ := take_eq_take_append hipos hi
      obtain ⟨y, hy, hlast'⟩ := take_eq_take_append hjpos hj
      have habove := hvalue (i - 1) j (by omega) hj
      have hbefore := hvalue i (j - 1) hi (by omega)
      have hcell : cell right i (j - 1) = cell right i j - 1 := by
        unfold cell
        omega
      have hne : x ≠ y := by
        rintro rfl
        exact hdiffer ⟨hipos, hjpos, hx.trans hy.symm⟩
      have hsame := hfewer.unique habove
      rw [value, hcell] at hbefore
      rw [value] at hsame
      rw [hlast'] at hfewer ⊢
      rw [hlast] at hbefore ⊢
      have hmax := hfewer.concat_ne hbefore hne
      rwa [Nat.max_eq_left (by omega)] at hmax
  | case4 i j hend =>
    obtain ⟨rfl, rfl⟩ : i = 0 ∧ j = 0 := by omega
    exact LongestCommon.nil_left _

/-! ## What is between -/

theorem entries_mapIdx_removed (offset : Nat) (lines : List String) :
    leftEntries (lines.mapIdx fun index content => removed content (offset + index + 1)) =
        numbered (offset + 1) lines ∧
      rightEntries (lines.mapIdx fun index content => removed content (offset + index + 1)) = [] := by
  induction lines generalizing offset with
  | nil => exact ⟨rfl, rfl⟩
  | cons line lines ih =>
    have hstep : (fun index content => removed content (offset + (index + 1) + 1)) =
        fun index content => removed content (offset + 1 + index + 1) := by
      funext index content
      rw [Nat.add_comm index 1, ← Nat.add_assoc offset 1 index]
    rw [List.mapIdx_cons, hstep]
    exact ⟨congrArg (_ :: ·) (ih (offset + 1)).1, (ih (offset + 1)).2⟩

theorem entries_mapIdx_added (offset : Nat) (lines : List String) :
    leftEntries (lines.mapIdx fun index content => added content (offset + index + 1)) = [] ∧
      rightEntries (lines.mapIdx fun index content => added content (offset + index + 1)) =
        numbered (offset + 1) lines := by
  induction lines generalizing offset with
  | nil => exact ⟨rfl, rfl⟩
  | cons line lines ih =>
    have hstep : (fun index content => added content (offset + (index + 1) + 1)) =
        fun index content => added content (offset + 1 + index + 1) := by
      funext index content
      rw [Nat.add_comm index 1, ← Nat.add_assoc offset 1 index]
    rw [List.mapIdx_cons, hstep]
    exact ⟨(ih (offset + 1)).1, congrArg (_ :: ·) (ih (offset + 1)).2⟩

theorem entries_middleLines (left right : List String) (offset : Nat) :
    leftEntries (middleLines left right offset) = numbered (offset + 1) left ∧
      rightEntries (middleLines left right offset) = numbered (offset + 1) right := by
  rw [middleLines]
  split
  · rw [leftEntries_append, rightEntries_append, (entries_mapIdx_removed offset left).1,
      (entries_mapIdx_removed offset left).2, (entries_mapIdx_added offset right).1,
      (entries_mapIdx_added offset right).2]
    exact ⟨List.append_nil _, rfl⟩
  · have hback := entries_walkBack offset (lcsLengths left right) left.length right.length
      (Nat.le_refl _) (Nat.le_refl _)
    rwa [List.take_length, List.take_length] at hback

theorem longest_middleLines (left right : List String) (offset : Nat)
    (h : cellCount left right ≤ maxLcsCells) :
    LongestCommon (countUnchanged (middleLines left right offset)) left right := by
  have hback := longest_walkBack offset (filled_lcsLengths left right) left.length right.length
    (Nat.le_refl _) (Nat.le_refl _)
  rw [List.take_length, List.take_length] at hback
  rwa [middleLines, if_neg (Nat.not_lt.mpr h), countUnchanged, List.countP_reverse]

/-! ## What both texts have -/

/-- The texts are the same in front of what is between, and behind it. -/
structure Trimmed (left right front back : List String) : Prop where
  left_eq : left = front ++ leftMiddle left right ++ back
  right_eq : right = front ++ rightMiddle left right ++ back
  front_eq : front = left.take (leadingEqual left right)
  back_eq : back = left.drop (left.length - trailingEqual left right)
  length_front : front.length = leadingEqual left right
  length_back : back.length = trailingEqual left right

theorem take_append_drop_append {lines : List String} {i j : Nat} (hij : i ≤ j) :
    lines = lines.take i ++ (lines.take j).drop i ++ lines.drop j := by
  have htake : lines.take i = (lines.take j).take i := by
    rw [List.take_take, Nat.min_eq_left hij]
  rw [htake, List.take_append_drop, List.take_append_drop]

theorem drop_trailingEqual (left right : List String) :
    left.drop (left.length - trailingEqual left right) =
      right.drop (right.length - trailingEqual left right) := by
  obtain ⟨hleft, hright⟩ := sharedPrefix_le left right
  obtain ⟨hleft', hright'⟩ := sharedPrefix_le (left.drop (leadingEqual left right)).reverse
    (right.drop (leadingEqual left right)).reverse
  have hsame := take_sharedPrefix (left.drop (leadingEqual left right)).reverse
    (right.drop (leadingEqual left right)).reverse
  rw [List.length_reverse, List.length_drop] at hleft' hright'
  rw [List.take_reverse, List.take_reverse, List.reverse_inj, List.drop_drop, List.drop_drop,
    List.length_drop, List.length_drop] at hsame
  rw [← leadingEqual] at hleft hright
  rw [← trailingEqual] at hsame hleft' hright'
  rwa [show leadingEqual left right + (left.length - leadingEqual left right -
      trailingEqual left right) = left.length - trailingEqual left right by omega,
    show leadingEqual left right + (right.length - leadingEqual left right -
      trailingEqual left right) = right.length - trailingEqual left right by omega] at hsame

theorem leadingEqual_add_trailingEqual_le (left right : List String) :
    leadingEqual left right + trailingEqual left right ≤ left.length ∧
      leadingEqual left right + trailingEqual left right ≤ right.length := by
  obtain ⟨hleft, hright⟩ := sharedPrefix_le left right
  obtain ⟨hleft', hright'⟩ := sharedPrefix_le (left.drop (leadingEqual left right)).reverse
    (right.drop (leadingEqual left right)).reverse
  rw [List.length_reverse, List.length_drop, ← trailingEqual] at hleft' hright'
  rw [← leadingEqual] at hleft hright
  omega

theorem trimmed (left right : List String) : Trimmed left right
    (left.take (leadingEqual left right)) (left.drop (left.length - trailingEqual left right)) := by
  obtain ⟨hleft, hright⟩ := leadingEqual_add_trailingEqual_le left right
  refine ⟨take_append_drop_append (by omega), ?_, rfl, rfl, ?_, ?_⟩
  · have hfront : left.take (leadingEqual left right) = right.take (leadingEqual left right) :=
      take_sharedPrefix left right
    rw [drop_trailingEqual, hfront]
    exact take_append_drop_append (by omega)
  · rw [List.length_take]
    omega
  · rw [List.length_drop]
    omega

theorem leftEntries_map_unchanged {α : Type} (content : α → String) (i j : α → Nat) (l : List α) :
    leftEntries (l.map fun a => unchanged (content a) (i a) (j a)) =
      l.map fun a => (content a, some (i a)) := by
  rw [leftEntries, List.filter_map, List.map_map]
  simp [Function.comp_def, unchanged]

theorem rightEntries_map_unchanged {α : Type} (content : α → String) (i j : α → Nat) (l : List α) :
    rightEntries (l.map fun a => unchanged (content a) (i a) (j a)) =
      l.map fun a => (content a, some (j a)) := by
  rw [rightEntries, List.filter_map, List.map_map]
  simp [Function.comp_def, unchanged]

theorem countUnchanged_map_unchanged {α : Type} (content : α → String) (i j : α → Nat)
    (l : List α) : countUnchanged (l.map fun a => unchanged (content a) (i a) (j a)) = l.length := by
  rw [countUnchanged, List.countP_map, List.countP_eq_length]
  simp [unchanged]

theorem map_range_getD {lines : List String} : ∀ {n : Nat}, n ≤ lines.length →
    (List.range n).map (fun index => (lines.getD index "", some (index + 1))) =
      numbered 1 (lines.take n)
  | 0, _ => rfl
  | n + 1, h => by
    rw [List.range_succ, List.map_append, map_range_getD (Nat.le_of_succ_le h),
      numbered_take_succ 1 h, List.map_singleton, Nat.add_comm 1 n]

theorem map_reverse_range_getD (lines : List String) (total : Nat) : ∀ {n : Nat},
    n ≤ lines.length → n ≤ total →
      (List.range n).reverse.map
          (fun offset => (lines.getD (lines.length - offset - 1) "", some (total - offset))) =
        numbered (total - n + 1) (lines.drop (lines.length - n))
  | 0, _, _ => by
    rw [Nat.sub_zero, Nat.sub_zero, List.drop_length]
    rfl
  | n + 1, h, htotal => by
    have hindex : lines.length - (n + 1) < lines.length := by omega
    have hstep : lines.length - (n + 1) + 1 = lines.length - n := by omega
    rw [List.range_succ, List.reverse_append, List.reverse_singleton, List.singleton_append,
      List.map_cons, map_reverse_range_getD lines total (Nat.le_of_succ_le h)
        (Nat.le_of_succ_le htotal),
      List.drop_eq_getElem_cons hindex, hstep, Nat.sub_sub, List.getD_eq_getElem?_getD,
      List.getElem?_eq_getElem hindex, show total - n = total - (n + 1) + 1 by omega]
    rfl

/-! ## Main result -/

/-- **The comparison is a faithful edit script, and a shortest one** unless the table would be too
large. -/
theorem computeTextDiff_faithful (left right : String) :
    leftEntries (computeTextDiff left right) = numbered 1 (textLines left) ∧
    rightEntries (computeTextDiff left right) = numbered 1 (textLines right) ∧
    (cellCount (leftMiddle (textLines left) (textLines right))
        (rightMiddle (textLines left) (textLines right)) ≤ maxLcsCells →
      LongestCommon (countUnchanged (computeTextDiff left right)) (textLines left)
        (textLines right)) := by
  rw [computeTextDiff]
  generalize textLines left = a
  generalize textLines right = b
  obtain ⟨hleft, hright⟩ := leadingEqual_add_trailingEqual_le a b
  have htrim := trimmed a b
  have hmiddle := entries_middleLines (leftMiddle a b) (rightMiddle a b) (leadingEqual a b)
  have hlengthLeft := congrArg List.length htrim.left_eq
  have hlengthRight := congrArg List.length htrim.right_eq
  rw [List.length_append, List.length_append, htrim.length_front, htrim.length_back]
    at hlengthLeft hlengthRight
  refine ⟨?_, ?_, ?_⟩
  · have hback := map_reverse_range_getD a a.length
      (Nat.le_of_add_left_le hleft) (Nat.le_of_add_left_le hleft)
    rw [diffLines, leftEntries_append, leftEntries_append, leadingLines, trailingLines,
      leftEntries_map_unchanged, leftEntries_map_unchanged, hmiddle.1,
      map_range_getD (Nat.le_of_add_right_le hleft), hback]
    conv_rhs => rw [htrim.left_eq]
    rw [numbered_append, numbered_append, List.length_append, htrim.length_front,
      Nat.add_comm 1 (leadingEqual a b),
      show 1 + (leadingEqual a b + (leftMiddle a b).length) = a.length - trailingEqual a b + 1 by
        omega]
  · have hback := map_reverse_range_getD a b.length
      (Nat.le_of_add_left_le hleft) (Nat.le_of_add_left_le hright)
    rw [diffLines, rightEntries_append, rightEntries_append, leadingLines, trailingLines,
      rightEntries_map_unchanged, rightEntries_map_unchanged, hmiddle.2,
      map_range_getD (Nat.le_of_add_right_le hleft), hback]
    conv_rhs => rw [htrim.right_eq]
    rw [numbered_append, numbered_append, List.length_append, htrim.length_front,
      Nat.add_comm 1 (leadingEqual a b),
      show 1 + (leadingEqual a b + (rightMiddle a b).length) = b.length - trailingEqual a b + 1 by
        omega]
  · intro hcells
    have hlongest := longest_middleLines _ _ (leadingEqual a b) hcells
    have hfull := (hlongest.append_left (a.take (leadingEqual a b))).append_right
      (a.drop (a.length - trailingEqual a b))
    rw [← htrim.left_eq, ← htrim.right_eq, htrim.length_front, htrim.length_back] at hfull
    rwa [diffLines, countUnchanged_append, countUnchanged_append, leadingLines, trailingLines,
      countUnchanged_map_unchanged, countUnchanged_map_unchanged, List.length_range,
      List.length_reverse, List.length_range]

theorem computeTextDiff_faithful_alpha :
    LongestCommon 1 (textLines "alpha\nbeta") (textLines "alpha\ngamma") := by
  have hcount : countUnchanged (computeTextDiff "alpha\nbeta" "alpha\ngamma") = 1 := by
    decide +kernel
  rw [← hcount]
  exact (computeTextDiff_faithful "alpha\nbeta" "alpha\ngamma").2.2 (by decide +kernel)

end TextDiff

end OxideTerm.Sftp
