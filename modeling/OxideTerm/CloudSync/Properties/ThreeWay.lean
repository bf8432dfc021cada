import OxideTerm.CloudSync.StructuredMerge

/-!
# The merge on every path

At each path that leads through objects on all three sides the merge takes the side that changed.
Where both sides changed, it goes on with the fields if all three sides are objects there, and
takes the preferred side otherwise.
-/

namespace OxideTerm.CloudSync

open OxideTerm.Lib

variable {N : Type}

/-! ## Paths -/

/-- The value at a path. -/
def atPath : Option (JsonValue N) → List String → Option (JsonValue N)
  | value, [] => value
  | some (.object fields), key :: path => atPath (fields.get key) path
  | _, _ :: _ => none

/-- All sides are objects on the way along a path. -/
inductive ObjectsDownTo : Option (JsonValue N) → Option (JsonValue N) → Option (JsonValue N) →
    List String → Prop where
  | here (base localValue remote : Option (JsonValue N)) :
      ObjectsDownTo base localValue remote []
  | field {base localFields remote : JsonFields N} {key : String} {path : List String} :
      ObjectsDownTo (base.get key) (localFields.get key) (remote.get key) path →
      ObjectsDownTo (some (.object base)) (some (.object localFields)) (some (.object remote))
        (key :: path)

/-- The value is an object. -/
def IsObject (value : Option (JsonValue N)) : Prop := ∃ fields, value = some (.object fields)

/-- The side that is preferred. -/
def preferred (prefersLocal : Bool) (localValue remote : Option (JsonValue N)) :
    Option (JsonValue N) :=
  if prefersLocal then localValue else remote

/-- What the merge is to take: the side that changed, what both sides agree on, and the preferred
side, or an object again, where both changed. -/
structure Resolved (prefersLocal : Bool) (base localValue remote merged : Option (JsonValue N)) :
    Prop where
  agree : localValue = remote → merged = remote
  remote_changed : base = localValue → merged = remote
  local_changed : base = remote → merged = localValue
  conflict : localValue ≠ remote → base ≠ localValue → base ≠ remote →
    ¬ (IsObject base ∧ IsObject localValue ∧ IsObject remote) →
    merged = preferred prefersLocal localValue remote
  objects : localValue ≠ remote → base ≠ localValue → base ≠ remote → IsObject base →
    IsObject localValue → IsObject remote → IsObject merged

variable {base localValue remote : Option (JsonValue N)} {prefersLocal : Bool}

theorem resolved_agree (h : localValue = remote) :
    Resolved prefersLocal base localValue remote remote :=
  ⟨fun _ => rfl, fun _ => rfl, fun _ => h.symm, fun hne => absurd h hne, fun hne => absurd h hne⟩

theorem resolved_remote (h : base = localValue) :
    Resolved prefersLocal base localValue remote remote :=
  ⟨fun _ => rfl, fun _ => rfl, fun h' => h'.symm.trans h, fun _ hne => absurd h hne,
    fun _ hne => absurd h hne⟩

theorem resolved_local (h : base = remote) :
    Resolved prefersLocal base localValue remote localValue :=
  ⟨fun h' => h', fun h' => h'.symm.trans h, fun _ => rfl, fun _ _ hne => absurd h hne,
    fun _ _ hne => absurd h hne⟩

/-! ## One object -/

variable [DecidableEq N] {strategy : ConflictStrategy}

/-- The merged fields of three objects. -/
def mergedFields (strategy : ConflictStrategy) (base localFields remote : JsonFields N) :
    JsonFields N :=
  .select (fun key => (mergeStructuredJsonValue strategy (base.get key) (localFields.get key)
    (remote.get key)).1) (unionKeys base localFields remote)

theorem merge_agree (h : localValue = remote) :
    mergeStructuredJsonValue strategy base localValue remote = (remote, false) := by
  rw [mergeStructuredJsonValue.eq_def, if_pos h]

theorem merge_remote (hne : localValue ≠ remote) (h : base = localValue) :
    mergeStructuredJsonValue strategy base localValue remote = (remote, false) := by
  rw [mergeStructuredJsonValue.eq_def, if_neg hne, if_pos h]

theorem merge_local (hne : localValue ≠ remote) (hne' : base ≠ localValue) (h : base = remote) :
    mergeStructuredJsonValue strategy base localValue remote = (localValue, true) := by
  rw [mergeStructuredJsonValue.eq_def, if_neg hne, if_neg hne', if_pos h]

theorem merge_objects {b l r : JsonFields N} (hne : l ≠ r) (hne' : b ≠ l) (hne'' : b ≠ r) :
    mergeStructuredJsonValue strategy (some (.object b)) (some (.object l)) (some (.object r)) =
      (some (.object (mergedFields strategy b l r)),
        (unionKeys b l r).any fun key =>
          (mergeStructuredJsonValue strategy (b.get key) (l.get key) (r.get key)).2) := by
  rw [mergeStructuredJsonValue.eq_def, if_neg (by simpa using hne), if_neg (by simpa using hne'),
    if_neg (by simpa using hne'')]
  simp only
  rw [List.filterMap_map, List.any_map]
  rfl

theorem merge_conflict (hne : localValue ≠ remote) (hne' : base ≠ localValue) (hne'' : base ≠ remote)
    (hobjects : ¬ (IsObject base ∧ IsObject localValue ∧ IsObject remote)) :
    mergeStructuredJsonValue strategy base localValue remote =
      if mergeConflictPrefersLocal strategy then (localValue, true) else (remote, false) := by
  rw [mergeStructuredJsonValue.eq_def, if_neg hne, if_neg hne', if_neg hne'']
  split
  · next b l r => exact absurd ⟨⟨b, rfl⟩, ⟨l, rfl⟩, ⟨r, rfl⟩⟩ hobjects
  · rfl

theorem get_mergedFields (b l r : JsonFields N) (key : String) :
    (mergedFields strategy b l r).get key =
      (mergeStructuredJsonValue strategy (b.get key) (l.get key) (r.get key)).1 := by
  rw [mergedFields, JsonFields.get_select]
  split
  · rfl
  · next hkey =>
    rw [unionKeys, mem_inOrder, Finset.mem_union, Finset.mem_union, List.mem_toFinset,
      List.mem_toFinset, List.mem_toFinset, not_or, not_or] at hkey
    rw [JsonFields.get_eq_none hkey.1.1, JsonFields.get_eq_none hkey.1.2,
      JsonFields.get_eq_none hkey.2, merge_agree rfl]

/-! ## Every path -/

/-- **The merge takes the right side on every path.** -/
theorem resolved_merge : ∀ {path : List String} {base localValue remote : Option (JsonValue N)},
    ObjectsDownTo base localValue remote path →
    Resolved (mergeConflictPrefersLocal strategy) (atPath base path) (atPath localValue path)
      (atPath remote path) (atPath (mergeStructuredJsonValue strategy base localValue remote).1 path)
  | [], base, localValue, remote, _ => by
    show Resolved _ base localValue remote (mergeStructuredJsonValue strategy base localValue remote).1
    by_cases hagree : localValue = remote
    · rw [merge_agree hagree]
      exact resolved_agree hagree
    by_cases hlocal : base = localValue
    · rw [merge_remote hagree hlocal]
      exact resolved_remote hlocal
    by_cases hremote : base = remote
    · rw [merge_local hagree hlocal hremote]
      exact resolved_local hremote
    refine ⟨fun h => absurd h hagree, fun h => absurd h hlocal, fun h => absurd h hremote,
      fun _ _ _ hobjects => ?_, fun _ _ _ hb hl hr => ?_⟩
    · rw [merge_conflict hagree hlocal hremote hobjects, preferred]
      split
      · rfl
      · rfl
    · obtain ⟨b, rfl⟩ := hb
      obtain ⟨l, rfl⟩ := hl
      obtain ⟨r, rfl⟩ := hr
      rw [merge_objects (by rintro rfl; exact hagree rfl) (by rintro rfl; exact hlocal rfl)
        (by rintro rfl; exact hremote rfl)]
      exact ⟨_, rfl⟩
  | key :: path, _, _, _, h => by
    cases h with
    | @field b l r _ _ h =>
      by_cases hagree : l = r
      · subst hagree
        rw [merge_agree rfl]
        exact resolved_agree rfl
      by_cases hlocal : b = l
      · subst hlocal
        rw [merge_remote (by simpa using hagree) rfl]
        exact resolved_remote rfl
      by_cases hremote : b = r
      · subst hremote
        rw [merge_local (by simpa using hagree) (by simpa using hlocal) rfl]
        exact resolved_local rfl
      rw [merge_objects hagree hlocal hremote]
      show Resolved _ (atPath (b.get key) path) (atPath (l.get key) path) (atPath (r.get key) path)
        (atPath ((mergedFields strategy b l r).get key) path)
      rw [get_mergedFields]
      exact resolved_merge h

/-! ## Induction over three sides -/

omit [DecidableEq N] in
/-- Induction over the objects that are on all three sides. -/
theorem three_induction
    {P : Option (JsonValue N) → Option (JsonValue N) → Option (JsonValue N) → Prop}
    (hleaf : ∀ base localValue remote, ¬ (IsObject base ∧ IsObject localValue ∧ IsObject remote) →
      P base localValue remote)
    (hobjects : ∀ b l r : JsonFields N, (∀ key, P (b.get key) (l.get key) (r.get key)) →
      P (some (.object b)) (some (.object l)) (some (.object r)))
    (base localValue remote : Option (JsonValue N)) : P base localValue remote := by
  induction hsize : sizeOf base using Nat.strong_induction_on generalizing base localValue remote with
  | h n ih =>
    by_cases h : IsObject base ∧ IsObject localValue ∧ IsObject remote
    · obtain ⟨⟨b, rfl⟩, ⟨l, rfl⟩, ⟨r, rfl⟩⟩ := h
      refine hobjects b l r fun key => ih _ ?_ _ _ _ rfl
      have hlt := JsonFields.sizeOf_get b key
      rw [Option.some.sizeOf_spec, JsonValue.object.sizeOf_spec] at hsize
      omega
    · exact hleaf _ _ _ h

/-! ## What is taken from the local side -/

omit [DecidableEq N] in
theorem unionKeys_sorted (b l r : JsonFields N) : (unionKeys b l r).Pairwise (· < ·) :=
  pairwise_inOrder _

/-- **A merge that takes nothing from the local side is the remote side.** -/
theorem merge_of_not_usedLocal (base localValue remote : Option (JsonValue N)) :
    (∀ value, remote = some value → value.WellFormed) →
    (mergeStructuredJsonValue strategy base localValue remote).2 = false →
    (mergeStructuredJsonValue strategy base localValue remote).1 = remote := by
  refine three_induction (P := fun base localValue remote =>
    (∀ value, remote = some value → value.WellFormed) →
    (mergeStructuredJsonValue strategy base localValue remote).2 = false →
    (mergeStructuredJsonValue strategy base localValue remote).1 = remote) ?_ ?_
    base localValue remote
  · intro base localValue remote hobjects _ hused
    by_cases hagree : localValue = remote
    · rw [merge_agree hagree]
    by_cases hlocal : base = localValue
    · rw [merge_remote hagree hlocal]
    by_cases hremote : base = remote
    · rw [merge_local hagree hlocal hremote] at hused
      cases hused
    rw [merge_conflict hagree hlocal hremote hobjects] at hused ⊢
    split at hused
    · cases hused
    · next hstrategy => rw [if_neg hstrategy]
  · intro b l r ih hwf hused
    by_cases hagree : l = r
    · rw [merge_agree (by rw [hagree])]
    by_cases hlocal : b = l
    · rw [merge_remote (by simpa using hagree) (by rw [hlocal])]
    by_cases hremote : b = r
    · rw [merge_local (by simpa using hagree) (by simpa using hlocal) (by rw [hremote])] at hused
      cases hused
    rw [merge_objects hagree hlocal hremote] at hused ⊢
    have hfields := hwf _ rfl
    rw [JsonValue.WellFormed] at hfields
    have hselect : mergedFields strategy b l r = .select r.get (unionKeys b l r) := by
      refine JsonFields.select_congr fun key hkey => ih key ?_ ?_
      · exact fun value hvalue => JsonFields.wellFormed_of_get hfields.2 hvalue
      · exact Bool.not_eq_true _ |>.mp (List.any_eq_false.mp hused key hkey)
    have hkeys : ∀ key ∈ r.keys, key ∈ unionKeys b l r := by
      intro key hkey
      rw [unionKeys, mem_inOrder, Finset.mem_union, List.mem_toFinset (l := r.keys)]
      exact .inr hkey
    simp only
    rw [hselect, JsonFields.select_get hfields.1 (unionKeys_sorted b l r) hkeys]

/-- The sides may be swapped where two of three agree. -/
theorem merge_swap_of_same {strategy' : ConflictStrategy}
    (h : localValue = remote ∨ base = localValue ∨ base = remote) :
    (mergeStructuredJsonValue strategy' base remote localValue).1 =
      (mergeStructuredJsonValue strategy base localValue remote).1 := by
  by_cases hagree : localValue = remote
  · rw [merge_agree hagree, merge_agree hagree.symm]
    exact hagree
  by_cases hlocal : base = localValue
  · have hremote : base ≠ remote := fun h => hagree (hlocal.symm.trans h)
    rw [merge_remote hagree hlocal, merge_local (Ne.symm hagree) hremote hlocal]
  · have hremote := (h.resolve_left hagree).resolve_left hlocal
    rw [merge_local hagree hlocal hremote, merge_remote (Ne.symm hagree) hremote]

/-- **The sides may be swapped**, if the preference is. -/
theorem merge_swap {strategy' : ConflictStrategy}
    (hpreference : mergeConflictPrefersLocal strategy' = !mergeConflictPrefersLocal strategy)
    (base localValue remote : Option (JsonValue N)) :
    (mergeStructuredJsonValue strategy' base remote localValue).1 =
      (mergeStructuredJsonValue strategy base localValue remote).1 := by
  refine three_induction (P := fun base localValue remote =>
    (mergeStructuredJsonValue strategy' base remote localValue).1 =
      (mergeStructuredJsonValue strategy base localValue remote).1) ?_ ?_ base localValue remote
  · intro base localValue remote hobjects
    by_cases hsame : localValue = remote ∨ base = localValue ∨ base = remote
    · exact merge_swap_of_same hsame
    rw [not_or, not_or] at hsame
    obtain ⟨hagree, hlocal, hremote⟩ := hsame
    rw [merge_conflict hagree hlocal hremote hobjects, merge_conflict (Ne.symm hagree) hremote hlocal
      fun h => hobjects ⟨h.1, h.2.2, h.2.1⟩, hpreference]
    cases mergeConflictPrefersLocal strategy with
    | true => rfl
    | false => rfl
  · intro b l r ih
    by_cases hsame : l = r ∨ b = l ∨ b = r
    · refine merge_swap_of_same ?_
      rcases hsame with rfl | rfl | rfl
      · exact .inl rfl
      · exact .inr (.inl rfl)
      · exact .inr (.inr rfl)
    rw [not_or, not_or] at hsame
    obtain ⟨hagree, hlocal, hremote⟩ := hsame
    have hkeys : unionKeys b r l = unionKeys b l r := by
      rw [unionKeys, unionKeys, Finset.union_right_comm]
    rw [merge_objects hagree hlocal hremote, merge_objects (Ne.symm hagree) hremote hlocal]
    simp only
    rw [mergedFields, mergedFields, hkeys, JsonFields.select_congr fun key _ => ih key]

/-- A merge of values is a value. -/
theorem merge_some (b l r : JsonValue N) :
    ∃ merged, (mergeStructuredJsonValue strategy (some b) (some l) (some r)).1 = some merged := by
  by_cases hagree : some l = some r
  · exact ⟨r, by rw [merge_agree hagree]⟩
  by_cases hlocal : some b = some l
  · exact ⟨r, by rw [merge_remote hagree hlocal]⟩
  by_cases hremote : some b = some r
  · exact ⟨l, by rw [merge_local hagree hlocal hremote]⟩
  by_cases hobjects : IsObject (some b) ∧ IsObject (some l) ∧ IsObject (some r)
  · obtain ⟨⟨b', hb⟩, ⟨l', hl⟩, ⟨r', hr⟩⟩ := hobjects
    rw [hb, hl] at hlocal
    rw [hl, hr] at hagree
    rw [hb, hr] at hremote
    rw [hb, hl, hr, merge_objects (by rintro rfl; exact hagree rfl)
      (by rintro rfl; exact hlocal rfl) (by rintro rfl; exact hremote rfl)]
    exact ⟨_, rfl⟩
  · rw [merge_conflict hagree hlocal hremote hobjects]
    split
    · exact ⟨l, rfl⟩
    · exact ⟨r, rfl⟩

/-- **A merge of models changes nothing iff the merged value is the remote one.** -/
theorem mergeModelFields_eq_none_iff {T : Type} {toValue : T → Except String (JsonValue N)}
    {fromValue : JsonValue N → Except String T}
    (hwf : ∀ model value, toValue model = .ok value → value.WellFormed) {base localModel remote : T}
    {b l r : JsonValue N} (hb : toValue base = .ok b) (hl : toValue localModel = .ok l)
    (hr : toValue remote = .ok r) :
    mergeStructuredModelFields toValue fromValue strategy base localModel remote = .ok none ↔
      (mergeStructuredJsonValue strategy (some b) (some l) (some r)).1 = some r := by
  obtain ⟨merged, hmerged⟩ := @merge_some N _ strategy b l r
  have hremote := @merge_of_not_usedLocal N _ strategy (some b) (some l) (some r)
    fun value hvalue => hwf remote value (by rw [hr, Option.some.inj hvalue])
  have hunfold : mergeStructuredModelFields toValue fromValue strategy base localModel remote =
      if !(mergeStructuredJsonValue strategy (some b) (some l) (some r)).2 || merged = r then
        .ok none
      else (fromValue merged).map some := by
    unfold mergeStructuredModelFields
    rw [hb, hl, hr]
    simp only [bind, Except.bind, pure, Except.pure, hmerged]
    split
    · rfl
    · cases fromValue merged with
      | error e => rfl
      | ok model => rfl
  rw [hunfold]
  constructor
  · intro hnone
    split at hnone
    · next hsame =>
      rcases Bool.or_eq_true _ _ |>.mp hsame with hunused | heq
      · exact hremote (Bool.not_eq_true' _ |>.mp hunused)
      · rw [hmerged, of_decide_eq_true heq]
    · cases hmodel : fromValue merged with
      | error e =>
        rw [hmodel] at hnone
        cases hnone
      | ok model =>
        rw [hmodel] at hnone
        cases hnone
  · intro heq
    rw [hmerged] at heq
    rw [if_pos]
    rw [Option.some.inj heq, decide_eq_true rfl, Bool.or_true]

/-! ## The merge as a whole -/

/-- **The three-way merge is exact**: it takes the right side on every path, is the remote side if
nothing is taken from the local one, is the same with the sides and the preference swapped, and
tells whether it changed a model. -/
theorem structured_merge_exact (strategy : ConflictStrategy)
    (base localValue remote : Option (JsonValue N))
    (hwf : ∀ value, remote = some value → value.WellFormed) :
    (∀ path, ObjectsDownTo base localValue remote path →
      Resolved (mergeConflictPrefersLocal strategy) (atPath base path) (atPath localValue path)
        (atPath remote path)
        (atPath (mergeStructuredJsonValue strategy base localValue remote).1 path)) ∧
    ((mergeStructuredJsonValue strategy base localValue remote).2 = false →
      (mergeStructuredJsonValue strategy base localValue remote).1 = remote) ∧
    (∀ strategy', mergeConflictPrefersLocal strategy' = !mergeConflictPrefersLocal strategy →
      (mergeStructuredJsonValue strategy' base remote localValue).1 =
        (mergeStructuredJsonValue strategy base localValue remote).1) ∧
    ∀ (T : Type) (toValue : T → Except String (JsonValue N))
      (fromValue : JsonValue N → Except String T) (baseModel localModel remoteModel : T)
      (b l r : JsonValue N), (∀ model value, toValue model = .ok value → value.WellFormed) →
      toValue baseModel = .ok b → toValue localModel = .ok l → toValue remoteModel = .ok r →
      (mergeStructuredModelFields toValue fromValue strategy baseModel localModel remoteModel =
          .ok none ↔
        (mergeStructuredJsonValue strategy (some b) (some l) (some r)).1 = some r) :=
  ⟨fun _ hpath => resolved_merge hpath, merge_of_not_usedLocal base localValue remote hwf,
    fun _ hpreference => merge_swap hpreference base localValue remote,
    fun _ _ _ _ _ _ _ _ _ hvalues hb hl hr => mergeModelFields_eq_none_iff hvalues hb hl hr⟩

/-- An object with one number. -/
def oneField (key : String) (n : Nat) : JsonValue Nat :=
  .object (.cons key (.number n) .nil)

theorem structured_merge_exact_added :
    (∀ path, ObjectsDownTo (none : Option (JsonValue Nat)) none (some (oneField "b" 2)) path →
      Resolved (mergeConflictPrefersLocal .merge) (atPath none path) (atPath none path)
        (atPath (some (oneField "b" 2)) path)
        (atPath (mergeStructuredJsonValue .merge none none (some (oneField "b" 2))).1 path)) ∧
    ((mergeStructuredJsonValue .merge none none (some (oneField "b" 2))).2 = false →
      (mergeStructuredJsonValue .merge none none (some (oneField "b" 2))).1 =
        some (oneField "b" 2)) := by
  have h := structured_merge_exact .merge none none (some (oneField "b" 2)) (by
    intro value hvalue
    rw [← Option.some.inj hvalue, oneField, JsonValue.WellFormed]
    exact ⟨List.pairwise_singleton _ _, by simp [JsonFields.WellFormed, JsonValue.WellFormed]⟩)
  exact ⟨h.1, h.2.1⟩

theorem objects_are_merged_by_field :
    ObjectsDownTo (some (.object .nil)) (some (oneField "a" 1)) (some (oneField "b" 2)) [] ∧
    oneField "a" 1 ≠ oneField "b" 2 ∧ (.object .nil) ≠ oneField "a" 1 ∧
    (.object .nil) ≠ oneField "b" 2 ∧
    ∀ strategy, (mergeStructuredJsonValue strategy (some (.object .nil)) (some (oneField "a" 1))
      (some (oneField "b" 2))).1 ≠
        preferred (mergeConflictPrefersLocal strategy) (some (oneField "a" 1))
          (some (oneField "b" 2)) := by
  refine ⟨.here _ _ _, by decide, by decide, by decide, fun strategy hmerged => ?_⟩
  have hpath : ∀ key, ObjectsDownTo (some (.object .nil)) (some (oneField "a" 1))
      (some (oneField "b" 2)) [key] := fun key => .field (.here _ _ _)
  have ha := (@resolved_merge Nat _ strategy ["a"] _ _ _ (hpath "a")).local_changed (by decide)
  have hb := (@resolved_merge Nat _ strategy ["b"] _ _ _ (hpath "b")).remote_changed (by decide)
  rw [hmerged, preferred] at ha hb
  cases hprefers : mergeConflictPrefersLocal strategy with
  | true =>
    rw [hprefers] at hb
    exact absurd hb (by decide)
  | false =>
    rw [hprefers] at ha
    exact absurd ha (by decide)

end OxideTerm.CloudSync
