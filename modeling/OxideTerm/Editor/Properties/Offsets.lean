import OxideTerm.Editor.Chunks

/-!
# Offsets do not depend on the pieces

Both conversions are those of the whole text: each goes to the last boundary that is not behind the
position, in its own unit. On boundaries one undoes the other.
-/

namespace OxideTerm.Editor

open Lib Lib.Text

variable {chunks : List (List Char)} {chunk front back text : List Char}
  {byte offset units base n m : Nat}

/-! ## From bytes to UTF-16 units -/

/-- Past the end of the first part, the floor is in the second. -/
theorem IsFloor.append_right {w : Char → Nat} (hw : ∀ ch, 0 < w ch)
    (h : IsFloor w back n m) : IsFloor w (front ++ back) (weight w front + n)
      (weight w front + m) := by
  obtain ⟨hboundary, hle, hlast⟩ := h
  refine ⟨hboundary.right, Nat.add_le_add_left hle _, fun k hk hkn => ?_⟩
  rcases Nat.le_total k (weight w front) with hless | hmore
  · exact Nat.le_trans hless (Nat.le_add_right _ _)
  · obtain ⟨j, rfl⟩ := Nat.exists_eq_add_of_le hmore
    have hj := hlast j (isBoundary_append_right.mp hk) (Nat.le_of_add_le_add_left hkn)
    exact Nat.add_le_add_left hj _

/-- Within the first part, the floor is that of the first part. -/
theorem IsFloor.append_left {w : Char → Nat} (hw : ∀ ch, 0 < w ch) (hn : n ≤ weight w front)
    (h : IsFloor w front n m) : IsFloor w (front ++ back) n m := by
  obtain ⟨hboundary, hle, hlast⟩ := h
  refine ⟨hboundary.left, hle, fun k hk hkn => ?_⟩
  exact hlast k ((isBoundary_append_left hw (Nat.le_trans hkn hn)).mp hk) hkn

/-- The loop counts the units before the floor. -/
theorem utf16OffsetFrom_eq (chunks : List (List Char)) (remaining units : Nat)
    (hremaining : remaining ≤ byteLength chunks.flatten) : ∃ front back,
      chunks.flatten = front ++ back ∧
      IsFloor Char.utf8Size chunks.flatten remaining (byteLength front) ∧
      utf16OffsetFrom chunks remaining units = some (units + utf16Length front) := by
  induction chunks generalizing remaining units with
  | nil =>
    obtain rfl : remaining = 0 := Nat.eq_zero_of_le_zero hremaining
    exact ⟨[], [], rfl, isBoundary_zero.isFloor, rfl⟩
  | cons chunk chunks ih =>
    rw [List.flatten_cons, byteLength_append] at hremaining
    have hfloor := floorCharBoundary_isFloor chunk (min remaining (byteLength chunk))
    generalize hstop : floorCharBoundary chunk (min remaining (byteLength chunk)) = stop at hfloor
    obtain ⟨front, back, rfl, rfl⟩ := hfloor.1
    have hslice : sliceTo (front ++ back) (weight Char.utf8Size front) = some front :=
      sliceTo_byteLength back front
    rw [utf16OffsetFrom]
    rw [hstop, hslice, Option.bind_some, List.flatten_cons]
    split
    next hle =>
      rw [Nat.min_eq_left hle] at hfloor
      exact ⟨front, back ++ chunks.flatten, by rw [List.append_assoc],
        IsFloor.append_left utf8Size_pos hle hfloor, rfl⟩
    next hlt =>
      -- the floor of the length of the piece is the end of the piece
      have hwhole : back = [] := by
        rw [Nat.min_eq_right (Nat.le_of_not_le hlt)] at hfloor
        have hend := hfloor.2.2 _ isBoundary_weight (Nat.le_refl _)
        rw [weight_append] at hend
        exact weight_eq_zero utf8Size_pos (by omega)
      subst hwhole
      rw [List.append_nil] at hlt hremaining ⊢
      obtain ⟨front', back', htext, hfloor', hrun⟩ :=
        ih (remaining - byteLength front) (units + utf16Length front) (by omega)
      refine ⟨front ++ front', back', by rw [htext, List.append_assoc], ?_, ?_⟩
      · have hright := @IsFloor.append_right front _ _ _ _ utf8Size_pos hfloor'
        rw [← byteLength_eq_weight, Nat.add_sub_cancel' (Nat.le_of_not_le hlt)] at hright
        rw [byteLength_append]
        exact hright
      · rw [hrun, utf16Length_append, Nat.add_assoc]

/-- **The offset in UTF-16 units counts what is before the last boundary.** -/
theorem utf16Offset_eq (chunks : List (List Char)) (byte : Nat) : ∃ front back,
    chunks.flatten = front ++ back ∧
    IsFloor Char.utf8Size chunks.flatten byte (byteLength front) ∧
    utf16Offset chunks byte = some (utf16Length front) := by
  obtain ⟨front, back, htext, hfloor, hrun⟩ :=
    utf16OffsetFrom_eq chunks (min byte (chunksLength chunks)) 0 (Nat.min_le_right _ _)
  refine ⟨front, back, htext, ?_, by rw [utf16Offset, hrun, Nat.zero_add]⟩
  rcases Nat.le_total byte (chunksLength chunks) with hle | hle
  · rw [Nat.min_eq_left hle] at hfloor
    exact hfloor
  · -- past the end, the last boundary is the end
    rw [Nat.min_eq_right hle] at hfloor
    refine ⟨hfloor.1, Nat.le_trans hfloor.2.1 hle, fun k hk _ => hfloor.2.2 k hk hk.le⟩

theorem utf16Offset_of_append (h : chunks.flatten = front ++ back) :
    utf16Offset chunks (byteLength front) = some (utf16Length front) := by
  obtain ⟨front', back', htext, hfloor, hrun⟩ := utf16Offset_eq chunks (byteLength front)
  have hboundary : IsByteBoundary chunks.flatten (byteLength front) := ⟨front, back, h, rfl⟩
  have hlength : byteLength front' = byteLength front := hfloor.unique hboundary.isFloor
  obtain ⟨rfl, -⟩ := append_inj_of_weight utf8Size_pos (htext.symm.trans h) hlength
  exact hrun

/-! ## From UTF-16 units to bytes -/

/-- The text is cut at the last scalar boundary that is not behind an offset. -/
structure IsCut (offset : Nat) (front back : List Char) : Prop where
  le : utf16Length front ≤ offset
  lt : ∀ ch rest, back = ch :: rest → offset < utf16Length front + lenUtf16 ch

/-- An offset that is reached exactly cuts whatever follows. -/
theorem isCut_of_eq (h : utf16Length front = offset) : IsCut offset front back := by
  refine ⟨Nat.le_of_eq h, fun ch rest _ => ?_⟩
  have hpos := lenUtf16_pos ch
  omega

/-- There is one cut. -/
theorem IsCut.unique {front' back' : List Char} (h : IsCut offset front back)
    (h' : IsCut offset front' back') (htext : front ++ back = front' ++ back') :
    front = front' := by
  have shorter : ∀ {front back front' back' : List Char}, IsCut offset front back →
      IsCut offset front' back' → front ++ back = front' ++ back' →
      utf16Length front ≤ utf16Length front' → front = front' := by
    intro front back front' back' h h' htext hle
    obtain ⟨middle, rfl, rfl⟩ := exists_between lenUtf16_pos htext hle
    cases middle with
    | nil => rw [List.append_nil]
    | cons ch middle =>
      have hlt := h.lt ch (middle ++ back') rfl
      have hle' := h'.le
      rw [utf16Length_append, utf16Length_cons] at hle'
      omega
  rcases Nat.le_total (utf16Length front) (utf16Length front') with hle | hle
  · exact shorter h h' htext hle
  · exact (shorter h' h htext.symm hle).symm

/-- The loop over a piece stops at the cut, or has counted all of it. -/
theorem byteOffsetInChunk_cases (chunk : List Char) (k : Nat) (hunits : units ≤ offset) :
    (∃ front back, chunk = front ++ back ∧
      byteOffsetInChunk offset base (charIndices chunk k) units =
        .found (base + (k + byteLength front)) ∧
      (units + utf16Length front = offset ∨
        ∃ ch rest, back = ch :: rest ∧ units + utf16Length front ≤ offset ∧
          offset < units + utf16Length front + lenUtf16 ch)) ∨
    (byteOffsetInChunk offset base (charIndices chunk k) units =
      .passed (units + utf16Length chunk) ∧ units + utf16Length chunk ≤ offset) := by
  induction chunk generalizing k units with
  | nil => exact .inr ⟨rfl, hunits⟩
  | cons ch chunk ih =>
    rw [charIndices, byteOffsetInChunk]
    split
    next hlt => exact .inl ⟨[], ch :: chunk, rfl, rfl, .inr ⟨ch, chunk, rfl, hunits, hlt⟩⟩
    next hge =>
      split
      next heq =>
        refine .inl ⟨[ch], chunk, rfl, ?_, .inl ?_⟩
        · rw [byteLength_cons, byteLength_nil, Nat.add_zero, Nat.add_assoc]
        · rw [utf16Length_cons, utf16Length_nil, Nat.add_zero, heq]
      next =>
        rcases ih (k + ch.utf8Size) (Nat.le_of_not_lt hge) with
          ⟨front, back, rfl, hrun, hcut⟩ | ⟨hrun, hle⟩
        · refine .inl ⟨ch :: front, back, rfl, ?_, ?_⟩
          · rw [hrun, byteLength_cons, Nat.add_assoc k]
          · rw [utf16Length_cons, ← Nat.add_assoc]
            exact hcut
        · refine .inr ⟨?_, ?_⟩
          · rw [hrun, utf16Length_cons, Nat.add_assoc]
          · rw [utf16Length_cons, ← Nat.add_assoc]
            exact hle

/-- In an ASCII piece bytes, characters and units are one. -/
theorem length_of_isAscii (h : isAscii chunk = true) :
    byteLength chunk = chunk.length ∧ utf16Length chunk = chunk.length := by
  induction chunk with
  | nil => exact ⟨rfl, rfl⟩
  | cons ch chunk ih =>
    rw [isAscii, List.all_cons, Bool.and_eq_true, decide_eq_true_eq] at h
    obtain ⟨hbytes, hunits⟩ := ih h.2
    have hsize : ch.utf8Size = 1 := Char.utf8Size_eq_one_iff.mpr (by
      have hval : ch.val.toNat < 128 := h.1
      exact UInt32.le_iff_toNat_le.mpr (Nat.le_of_lt_succ hval))
    have hlen : lenUtf16 ch = 1 := if_pos (by omega)
    rw [byteLength_cons, utf16Length_cons, hbytes, hunits, hsize, hlen, List.length_cons,
      Nat.add_comm]
    exact ⟨rfl, rfl⟩

theorem isAscii_take (h : isAscii chunk = true) (n : Nat) : isAscii (chunk.take n) = true := by
  rw [isAscii, List.all_eq_true] at h ⊢
  exact fun ch hch => h ch (List.mem_of_mem_take hch)

/-- The loop has passed `seen` and stops at the cut of the whole text; it never counts past the
offset, so that no subtraction wraps. -/
theorem byteOffsetForUtf16From_eq (len : Nat) (chunks : List (List Char)) (seen : List Char)
    (hseen : utf16Length seen ≤ offset) (hlen : len = byteLength (seen ++ chunks.flatten)) :
    ∃ front back, seen ++ chunks.flatten = front ++ back ∧ IsCut offset front back ∧
      byteOffsetForUtf16From len offset chunks (utf16Length seen) (byteLength seen) =
        some (byteLength front) := by
  induction chunks generalizing seen with
  | nil =>
    refine ⟨seen, [], rfl, ⟨hseen, fun ch rest h => ?_⟩, ?_⟩
    · cases h
    · rw [byteOffsetForUtf16From, hlen, List.flatten_nil, List.append_nil]
  | cons chunk chunks ih =>
    rw [List.flatten_cons, ← List.append_assoc] at hlen ⊢
    rw [byteOffsetForUtf16From]
    split
    next hascii =>
      obtain ⟨hbytes, hunits⟩ := length_of_isAscii hascii
      rw [checkedSub, if_pos hseen, Option.bind_some]
      split
      next hle =>
        -- the offset is reached within the piece
        have hlength : (chunk.take (offset - utf16Length seen)).length =
            offset - utf16Length seen := by
          rw [List.length_take]
          omega
        obtain ⟨htakeBytes, htakeUnits⟩ :=
          length_of_isAscii (isAscii_take hascii (offset - utf16Length seen))
        refine ⟨seen ++ chunk.take (offset - utf16Length seen),
          chunk.drop (offset - utf16Length seen) ++ chunks.flatten, ?_, ?_, ?_⟩
        · rw [List.append_assoc, List.append_assoc, ← List.append_assoc (chunk.take _),
            List.take_append_drop]
        · refine isCut_of_eq ?_
          rw [utf16Length_append, htakeUnits, hlength]
          omega
        · rw [checkedSub, if_pos (by omega), byteLength_append, htakeBytes, hlength]
          congr 1
          omega
      next hlt =>
        have hnext := ih (seen ++ chunk) (by rw [utf16Length_append]; omega) hlen
        rw [utf16Length_append, byteLength_append, hunits, ← hbytes] at hnext
        exact hnext
    next =>
      rcases @byteOffsetInChunk_cases _ _ (byteLength seen) chunk 0 hseen with
        ⟨front, back, rfl, hrun, hcut⟩ | ⟨hrun, hle⟩
      · refine ⟨seen ++ front, back ++ chunks.flatten, by simp only [List.append_assoc], ?_, ?_⟩
        · rcases hcut with heq | ⟨ch, rest, rfl, hle, hlt⟩
          · exact isCut_of_eq (by rw [utf16Length_append, heq])
          · refine ⟨by rw [utf16Length_append]; exact hle, ?_⟩
            intro ch' rest' h
            rw [List.cons_append] at h
            obtain ⟨rfl, -⟩ := List.cons.inj h
            rw [utf16Length_append]
            exact hlt
        · simp only [hrun, byteLength_append, Nat.zero_add]
      · rw [hrun]
        have hnext := ih (seen ++ chunk) (by rw [utf16Length_append]; exact hle) hlen
        rw [utf16Length_append, byteLength_append] at hnext
        exact hnext

/-- **An offset is resolved to the cut of the whole text.** -/
theorem byteOffsetForUtf16_eq (chunks : List (List Char)) (offset : Nat) :
    ∃ front back, chunks.flatten = front ++ back ∧ IsCut offset front back ∧
      byteOffsetForUtf16 chunks offset = some (byteLength front) :=
  byteOffsetForUtf16From_eq (chunksLength chunks) chunks [] (Nat.zero_le _) rfl

theorem byteOffsetForUtf16_of_isCut (h : chunks.flatten = front ++ back)
    (hcut : IsCut offset front back) :
    byteOffsetForUtf16 chunks offset = some (byteLength front) := by
  obtain ⟨front', back', htext, hcut', hrun⟩ := byteOffsetForUtf16_eq chunks offset
  rw [hcut.unique hcut' (h.symm.trans htext)]
  exact hrun

/-! ## Both ways -/

/-- **Offsets are those of the whole text, and the conversions undo each other on boundaries.** -/
theorem utf16_offsets_of_pieces (chunks : List (List Char)) :
    (∀ byte, ∃ front back, chunks.flatten = front ++ back ∧
      IsFloor Char.utf8Size chunks.flatten byte (byteLength front) ∧
      utf16Offset chunks byte = some (utf16Length front)) ∧
    (∀ byte, IsByteBoundary chunks.flatten byte →
      (utf16Offset chunks byte).bind (byteOffsetForUtf16 chunks) = some byte) ∧
    (∀ front ch back offset, chunks.flatten = front ++ ch :: back →
      utf16Length front < offset → offset < utf16Length front + lenUtf16 ch →
      byteOffsetForUtf16 chunks offset = some (byteLength front)) ∧
    (∀ offset, utf16Length chunks.flatten ≤ offset →
      byteOffsetForUtf16 chunks offset = some (chunksLength chunks)) ∧
    ∀ offset, byteOffsetForUtf16 chunks offset ≠ none := by
  refine ⟨utf16Offset_eq chunks, ?_, ?_, ?_, ?_⟩
  · rintro byte ⟨front, back, htext, rfl⟩
    have hunits := utf16Offset_of_append htext
    rw [byteLength_eq_weight] at hunits
    rw [hunits, Option.bind_some]
    exact byteOffsetForUtf16_of_isCut htext (isCut_of_eq rfl)
  · intro front ch back offset htext hlt hoffset
    refine byteOffsetForUtf16_of_isCut htext ⟨Nat.le_of_lt hlt, fun ch' rest h => ?_⟩
    obtain ⟨rfl, -⟩ := List.cons.inj h
    exact hoffset
  · intro offset hle
    refine byteOffsetForUtf16_of_isCut (List.append_nil _).symm ⟨hle, fun ch rest h => ?_⟩
    cases h
  · intro offset hnone
    obtain ⟨front, back, -, -, hrun⟩ := byteOffsetForUtf16_eq chunks offset
    rw [hrun] at hnone
    cases hnone

end OxideTerm.Editor
