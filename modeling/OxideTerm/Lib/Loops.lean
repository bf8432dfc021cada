import Mathlib.Data.List.Basic

/-!
# Loops that can fail

A loop in `Except` succeeds if and only if each of its rounds does.
-/

namespace OxideTerm.Lib

variable {ε α β : Type}

theorem toOption_eq_some {x : Except ε α} {a : α} : x.toOption = some a ↔ x = .ok a := by
  cases x <;> simp [Except.toOption]

theorem forM_eq_ok {f : α → Except ε Unit} :
    (l : List α) → (l.forM f = .ok () ↔ ∀ a ∈ l, f a = .ok ())
  | [] => by simp [List.forM_nil, pure, Except.pure]
  | a :: l => by
    rw [List.forM_eq_forM, List.forM_cons, List.forall_mem_cons]
    cases h : f a with
    | error e => simp [bind, Except.bind]
    | ok u => simpa [bind, Except.bind] using forM_eq_ok l

theorem mapM_eq_ok {f : α → Except ε β} {g : α → β} :
    (l : List α) → (∀ a ∈ l, f a = .ok (g a)) → l.mapM f = .ok (l.map g)
  | [], _ => rfl
  | a :: l, h => by
    rw [List.mapM_cons, h a List.mem_cons_self,
      mapM_eq_ok l fun b hb => h b (List.mem_cons_of_mem a hb)]
    rfl

/-- What every round of a loop keeps, the loop keeps. -/
theorem foldlM_keeps {f : β → α → Except ε β} {P : β → Prop}
    (hstep : ∀ b a b', f b a = .ok b' → P b → P b') :
    (l : List α) → {b b' : β} → l.foldlM f b = .ok b' → P b → P b'
  | [], b, b', h, hb => by
    obtain rfl : b = b' := Except.ok.inj h
    exact hb
  | a :: l, b, b', h, hb => by
    rw [List.foldlM_cons] at h
    cases hf : f b a with
    | error e => simp [hf, bind, Except.bind] at h
    | ok b₁ =>
      rw [hf] at h
      exact foldlM_keeps hstep l h (hstep b a b₁ hf hb)

/-- A loop whose rounds all succeed. -/
theorem foldlM_eq_ok {f : β → α → Except ε β} {g : β → α → β} :
    (l : List α) → (∀ b, ∀ a ∈ l, f b a = .ok (g b a)) → ∀ b, l.foldlM f b = .ok (l.foldl g b)
  | [], _, _ => rfl
  | a :: l, h, b => by
    rw [List.foldlM_cons, h b a List.mem_cons_self]
    exact foldlM_eq_ok l (fun b c hc => h b c (List.mem_cons_of_mem a hc)) (g b a)

/-- What the rounds of a counting loop keep. -/
theorem foldl_range'_keeps {f : β → Nat → β} {P : Nat → β → Prop} {b : β} {n : Nat} (hstart : P 0 b)
    (hstep : ∀ k < n, ∀ b, P k b → P (k + 1) (f b (k + 1))) :
    P n ((List.range' 1 n).foldl f b) := by
  induction n with
  | zero => exact hstart
  | succ n ih =>
    have hfront := ih fun k hk => hstep k (Nat.lt_succ_of_lt hk)
    rw [List.range'_1_concat, List.foldl_append, List.foldl_cons, List.foldl_nil, Nat.add_comm 1 n]
    exact hstep n (Nat.lt_succ_self n) _ hfront

/-- In a loop that succeeds, each item has had its round. -/
theorem exists_of_foldlM_ok {f : β → α → Except ε β} :
    (l : List α) → {b b' : β} → l.foldlM f b = .ok b' → ∀ a ∈ l, ∃ b₁ b₂, f b₁ a = .ok b₂
  | [], _, _, _, _, ha => by cases ha
  | a :: l, b, b', h, c, hc => by
    rw [List.foldlM_cons] at h
    cases hf : f b a with
    | error e => simp [hf, bind, Except.bind] at h
    | ok b₁ =>
      rw [hf] at h
      rcases List.mem_cons.mp hc with rfl | hc
      · exact ⟨b, b₁, hf⟩
      · exact exists_of_foldlM_ok l h c hc

end OxideTerm.Lib
