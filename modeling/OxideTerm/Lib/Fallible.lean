import Mathlib.Data.List.Basic

/-!
# Procedures that may fail half way

A procedure works on a state, and ends in a result or in an error. What it did before an error stays
done. `Spec` is a Hoare triple with a second postcondition for errors and the states they leave.
-/

namespace OxideTerm.Lib

/-- A chain that succeeds has succeeded at its first part. -/
theorem exists_of_bind_ok {ε α β : Type} {x : Except ε α} {f : α → Except ε β} {b : β}
    (h : (x >>= f) = .ok b) : ∃ a, x = .ok a ∧ f a = .ok b := by
  cases x with
  | error e => cases h
  | ok a => exact ⟨a, rfl, h⟩

theorem bind_eq_ok_iff {ε α β : Type} {x : Except ε α} {f : α → Except ε β} {b : β} :
    (x >>= f) = .ok b ↔ ∃ a, x = .ok a ∧ f a = .ok b := by
  constructor
  · exact exists_of_bind_ok
  · rintro ⟨a, rfl, hf⟩
    exact hf

/-- From a state to a result and a state. -/
def Fallible (σ ε α : Type) : Type := σ → Except ε α × σ

namespace Fallible

variable {σ ε α β : Type}

protected def pure (a : α) : Fallible σ ε α := fun s => (.ok a, s)

protected def bind (x : Fallible σ ε α) (f : α → Fallible σ ε β) : Fallible σ ε β := fun s =>
  match x s with
  | (.ok a, s) => f a s
  | (.error e, s) => (.error e, s)

instance instMonadFallible : Monad (Fallible σ ε) where
  pure := Fallible.pure
  bind := Fallible.bind

def raise (e : ε) : Fallible σ ε α := fun s => (.error e, s)

/-- An error of its own ends the procedure. -/
def ofExcept : Except ε α → Fallible σ ε α
  | .error e => raise e
  | .ok a => Fallible.pure a

/-- Reads the state. -/
def gets (f : σ → α) : Fallible σ ε α := fun s => (.ok (f s), s)

/-- Changes the state, which cannot fail. -/
def update (f : σ → σ) : Fallible σ ε Unit := fun s => (.ok (), f s)

/-- An access that returns something and changes the state. -/
def access (f : σ → α × σ) : Fallible σ ε α := fun s => (.ok (f s).1, (f s).2)

theorem bind_of_ok {x : Fallible σ ε α} {f : α → Fallible σ ε β} {s s' : σ} {a : α}
    (h : x s = (.ok a, s')) : (x >>= f) s = f a s' := by
  show Fallible.bind x f s = _
  unfold Fallible.bind
  rw [h]

theorem bind_of_error {x : Fallible σ ε α} {f : α → Fallible σ ε β} {s s' : σ} {e : ε}
    (h : x s = (.error e, s')) : (x >>= f) s = (.error e, s') := by
  show Fallible.bind x f s = _
  unfold Fallible.bind
  rw [h]

/-- What succeeds has succeeded at its first part. -/
theorem exists_of_bind_run {x : Fallible σ ε α} {f : α → Fallible σ ε β} {s s' : σ} {b : β}
    (h : (x >>= f) s = (.ok b, s')) : ∃ a t, x s = (.ok a, t) ∧ f a t = (.ok b, s') := by
  rcases hx : x s with ⟨e | a, t⟩
  · rw [bind_of_error hx] at h
    cases h
  · exact ⟨a, t, rfl, (bind_of_ok hx).symm.trans h⟩

theorem bind_assoc {γ : Type} (x : Fallible σ ε α) (f : α → Fallible σ ε β)
    (g : β → Fallible σ ε γ) : x >>= f >>= g = x >>= fun a => f a >>= g := by
  funext s
  rcases hrun : x s with ⟨e | a, s'⟩
  · rw [bind_of_error hrun, bind_of_error (bind_of_error hrun)]
  · rw [bind_of_ok hrun]
    rcases hnext : f a s' with ⟨e | b, s''⟩
    · rw [bind_of_error ((bind_of_ok hrun).trans hnext), bind_of_error hnext]
    · rw [bind_of_ok ((bind_of_ok hrun).trans hnext), bind_of_ok hnext]

/-! ## Triples -/

variable {P P' : σ → Prop} {Q Q' : α → σ → Prop} {R : β → σ → Prop} {x : Fallible σ ε α}

/-- From a state with `P` the procedure returns in one with `Q`, or fails as `E` says. -/
def Spec (P : σ → Prop) (x : Fallible σ ε α) (Q : α → σ → Prop) (E : ε → σ → Prop) : Prop :=
  ∀ s, P s → (∀ a s', x s = (.ok a, s') → Q a s') ∧ ∀ e s', x s = (.error e, s') → E e s'

namespace Spec

variable {F F' : ε → σ → Prop}

theorem weaken (h : Spec P x Q F) (hpre : ∀ s, P' s → P s) (hpost : ∀ a s, Q a s → Q' a s)
    (herror : ∀ e s, F e s → F' e s) : Spec P' x Q' F' := by
  intro s hs
  obtain ⟨hok, hfail⟩ := h s (hpre s hs)
  exact ⟨fun a s' hrun => hpost a s' (hok a s' hrun), fun e s' hrun => herror e s' (hfail e s' hrun)⟩

theorem pure {a : α} (h : ∀ s, P s → Q a s) : Spec P (Pure.pure a : Fallible σ ε α) Q F := by
  intro s hs
  refine ⟨fun a' s' hrun => ?_, fun e s' hrun => ?_⟩
  · cases hrun
    exact h s hs
  · cases hrun

theorem bind {f : α → Fallible σ ε β} (hx : Spec P x Q F) (hf : ∀ a, Spec (Q a) (f a) R F) :
    Spec P (x >>= f) R F := by
  intro s hs
  obtain ⟨hok, hfail⟩ := hx s hs
  rcases hrun : x s with ⟨e | a, s'⟩
  · rw [bind_of_error hrun]
    refine ⟨fun b s'' hb => ?_, fun e' s'' he => ?_⟩
    · cases hb
    · cases he
      exact hfail e s' hrun
  · rw [bind_of_ok hrun]
    exact hf a s' (hok a s' hrun)

theorem raise {e : ε} (h : ∀ s, P s → F e s) : Spec P (Fallible.raise e : Fallible σ ε α) Q F := by
  intro s hs
  refine ⟨fun a s' hrun => ?_, fun e' s' hrun => ?_⟩
  · cases hrun
  · cases hrun
    exact h s hs

theorem gets {f : σ → α} (h : ∀ s, P s → Q (f s) s) :
    Spec P (Fallible.gets f : Fallible σ ε α) Q F := by
  intro s hs
  refine ⟨fun a s' hrun => ?_, fun e s' hrun => ?_⟩
  · cases hrun
    exact h s hs
  · cases hrun

theorem update {f : σ → σ} {Q : Unit → σ → Prop} (h : ∀ s, P s → Q () (f s)) :
    Spec P (Fallible.update f : Fallible σ ε Unit) Q F := by
  intro s hs
  refine ⟨fun a s' hrun => ?_, fun e s' hrun => ?_⟩
  · cases hrun
    exact h s hs
  · cases hrun

theorem access {f : σ → α × σ} (h : ∀ s, P s → Q (f s).1 (f s).2) :
    Spec P (Fallible.access f : Fallible σ ε α) Q F := by
  intro s hs
  refine ⟨fun a s' hrun => ?_, fun e s' hrun => ?_⟩
  · cases hrun
    exact h s hs
  · cases hrun

/-- What is known besides the state. -/
theorem known {p : Prop} (h : p → Spec P x Q F) : Spec (fun s => p ∧ P s) x Q F :=
  fun s hs => h hs.1 s hs.2

/-- A condition that does not depend on the state. -/
theorem ite {c : Prop} [Decidable c] {y : Fallible σ ε α} (hx : c → Spec P x Q F)
    (hy : ¬ c → Spec P y Q F) : Spec P (if c then x else y) Q F := by
  by_cases h : c
  · rw [if_pos h]
    exact hx h
  · rw [if_neg h]
    exact hy h

end Spec

/-! ## States that are alike -/

/-- From states that are alike the procedure ends alike, in states that are alike. -/
def Respects (A : σ → σ → Prop) (x : Fallible σ ε α) : Prop :=
  ∀ s t, A s t → (x s).1 = (x t).1 ∧ A (x s).2 (x t).2

namespace Respects

variable {A : σ → σ → Prop}

theorem pure {a : α} : Respects A (Pure.pure a : Fallible σ ε α) := fun _ _ h => ⟨rfl, h⟩

theorem raise {e : ε} : Respects A (Fallible.raise e : Fallible σ ε α) := fun _ _ h => ⟨rfl, h⟩

theorem bind {f : α → Fallible σ ε β} (hx : Respects A x) (hf : ∀ a, Respects A (f a)) :
    Respects A (x >>= f) := by
  intro s t h
  obtain ⟨heq, hafter⟩ := hx s t h
  rcases hs : x s with ⟨e | a, s'⟩
  · rcases ht : x t with ⟨e' | a', t'⟩
    · rw [hs, ht] at heq hafter
      rw [bind_of_error hs, bind_of_error ht]
      exact ⟨by cases heq; rfl, hafter⟩
    · rw [hs, ht] at heq
      cases heq
  · rcases ht : x t with ⟨e' | a', t'⟩
    · rw [hs, ht] at heq
      cases heq
    · rw [hs, ht] at heq hafter
      cases heq
      rw [bind_of_ok hs, bind_of_ok ht]
      exact hf a s' t' hafter

theorem update {f : σ → σ} (h : ∀ s t, A s t → A (f s) (f t)) :
    Respects A (Fallible.update f : Fallible σ ε Unit) := fun s t hst => ⟨rfl, h s t hst⟩

theorem gets {f : σ → α} (h : ∀ s t, A s t → f s = f t) :
    Respects A (Fallible.gets f : Fallible σ ε α) := fun s t hst => ⟨by
      rw [Fallible.gets, Fallible.gets, h s t hst], hst⟩

theorem ite {c : Prop} [Decidable c] {y : Fallible σ ε α} (hx : Respects A x)
    (hy : Respects A y) : Respects A (if c then x else y) := by
  split
  · exact hx
  · exact hy

end Respects

end Fallible

end OxideTerm.Lib
