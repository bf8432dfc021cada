import Mathlib

/-!
# Procedures that are cut off

A procedure works on a state of which a part survives the process. The environment decides what
becomes of each access to that part. A schedule is what it decides, access by access: where the
schedule ends, the process is gone.

`Triple` is a Hoare triple with a second postcondition for the states in which the procedure
raises an error or is cut off.
-/

namespace OxideTerm.Lib

/-- What becomes of a write to the disk: it takes place or not, and a write that takes place may be
reported as failed. -/
inductive WriteOutcome where
  | written
  | failed
  | unreported
deriving DecidableEq

/-- Whether the disk was written. -/
def WriteOutcome.persists : WriteOutcome → Bool
  | .written => true
  | .failed => false
  | .unreported => true

/-- How a procedure ends. -/
inductive Ending (ε α : Type) where
  | returned (value : α)
  | raised (error : ε)
  | cutOff

/-- From a state and a schedule to an ending, a state and what is left of the schedule. -/
def Procedure (σ ε α : Type) : Type := σ → List WriteOutcome → Ending ε α × σ × List WriteOutcome

namespace Procedure

variable {σ ε α β : Type}

protected def pure (a : α) : Procedure σ ε α := fun s os => (.returned a, s, os)

protected def bind (x : Procedure σ ε α) (f : α → Procedure σ ε β) : Procedure σ ε β := fun s os =>
  match x s os with
  | (.returned a, s, os) => f a s os
  | (.raised e, s, os) => (.raised e, s, os)
  | (.cutOff, s, os) => (.cutOff, s, os)

instance procedureMonad : Monad (Procedure σ ε) where
  pure := Procedure.pure
  bind := Procedure.bind

def raise (e : ε) : Procedure σ ε α := fun s os => (.raised e, s, os)

/-- Runs the handler in the state in which the error was raised. -/
def handle (x : Procedure σ ε α) (handler : ε → Procedure σ ε α) : Procedure σ ε α := fun s os =>
  match x s os with
  | (.returned a, s, os) => (.returned a, s, os)
  | (.raised e, s, os) => handler e s os
  | (.cutOff, s, os) => (.cutOff, s, os)

def ofExcept : Except ε α → Procedure σ ε α
  | .error e => raise e
  | .ok a => Procedure.pure a

/-- Reads what is in memory. -/
def gets (f : σ → α) : Procedure σ ε α := fun s os => (.returned (f s), s, os)

/-- Changes what is in memory, which cannot fail. -/
def update (f : σ → σ) : Procedure σ ε Unit := fun s os => (.returned (), f s, os)

/-- One access to what survives the process. -/
def access (f : σ → WriteOutcome → σ × Except ε α) : Procedure σ ε α
  | s, [] => (.cutOff, s, [])
  | s, o :: os =>
    match f s o with
    | (s, .ok a) => (.returned a, s, os)
    | (s, .error e) => (.raised e, s, os)

/-- An atomic write. -/
def write (e : ε) (f : σ → σ) : Procedure σ ε Unit :=
  access fun s o =>
    match o with
    | .written => (f s, .ok ())
    | .failed => (s, .error e)
    | .unreported => (f s, .error e)

/-- An access that only reads, and may fail. -/
def attempt (e : ε) : Procedure σ ε Unit :=
  access fun s o => (s, if o = .written then .ok () else .error e)

/-- The state that the procedure leaves. -/
def after (x : Procedure σ ε α) (s : σ) (os : List WriteOutcome) : σ := (x s os).2.1

/-! ## Triples -/

/-- From a state that satisfies `P`, the procedure returns in one that satisfies `Q`, or it ends
early in one that satisfies `E`. -/
def Triple (P : σ → Prop) (x : Procedure σ ε α) (Q : α → σ → Prop) (E : σ → Prop) : Prop :=
  ∀ s os, P s →
    match x s os with
    | (.returned a, s', _) => Q a s'
    | (.raised _, s', _) => E s'
    | (.cutOff, s', _) => E s'

namespace Triple

variable {P P' : σ → Prop} {Q : α → σ → Prop} {R : β → σ → Prop} {E E' : σ → Prop}
  {x : Procedure σ ε α}

theorem pure {a : α} (h : ∀ s, P s → Q a s) : Triple P (Pure.pure a : Procedure σ ε α) Q E :=
  fun s _ hs => h s hs

theorem bind {f : α → Procedure σ ε β} (hx : Triple P x Q E)
    (hf : ∀ a, Triple (Q a) (f a) R E) : Triple P (x >>= f) R E := by
  intro s os hs
  have hstep := hx s os hs
  show match Procedure.bind x f s os with
    | (.returned a, s', _) => R a s'
    | (.raised _, s', _) => E s'
    | (.cutOff, s', _) => E s'
  unfold Procedure.bind
  rcases hrun : x s os with ⟨a | e | _, s', os'⟩
  · rw [hrun] at hstep
    exact hf a s' os' hstep
  · rw [hrun] at hstep
    exact hstep
  · rw [hrun] at hstep
    exact hstep

/-- Nothing is asked of it. -/
theorem any : Triple P x (fun _ _ => True) (fun _ => True) := by
  intro s os _
  rcases x s os with ⟨a | e | _, s', os'⟩ <;> trivial

theorem raise {e : ε} (h : ∀ s, P s → E s) : Triple P (Procedure.raise e : Procedure σ ε α) Q E :=
  fun s _ hs => h s hs

/-- The handler starts from where the procedure may end early. -/
theorem handle {handler : ε → Procedure σ ε α} (hx : Triple P x Q E)
    (hhandler : ∀ e, Triple E (handler e) Q E') (hcut : ∀ s, E s → E' s) :
    Triple P (x.handle handler) Q E' := by
  intro s os hs
  have hstep := hx s os hs
  unfold Procedure.handle
  rcases hrun : x s os with ⟨a | e | _, s', os'⟩
  · rw [hrun] at hstep
    exact hstep
  · rw [hrun] at hstep
    exact hhandler e s' os' hstep
  · rw [hrun] at hstep
    exact hcut s' hstep

theorem ofExcept {r : Except ε α} (hok : ∀ a s, r = .ok a → P s → Q a s)
    (herror : ∀ s, P s → E s) : Triple P (Procedure.ofExcept r : Procedure σ ε α) Q E := by
  intro s os hs
  cases r with
  | error e => exact herror s hs
  | ok a => exact hok a s rfl hs

theorem gets {f : σ → α} (h : ∀ s, P s → Q (f s) s) :
    Triple P (Procedure.gets f : Procedure σ ε α) Q E := fun s _ hs => h s hs

theorem update {f : σ → σ} {Q : Unit → σ → Prop} (h : ∀ s, P s → Q () (f s)) :
    Triple P (Procedure.update f : Procedure σ ε Unit) Q E := fun s _ hs => h s hs

/-- Before an access the process may be gone already. -/
theorem access {f : σ → WriteOutcome → σ × Except ε α} (hcut : ∀ s, P s → E s)
    (hok : ∀ s o s' a, P s → f s o = (s', .ok a) → Q a s')
    (herror : ∀ s o s' e, P s → f s o = (s', .error e) → E s') :
    Triple P (Procedure.access f) Q E := by
  intro s os hs
  cases os with
  | nil => exact hcut s hs
  | cons o os =>
    rcases hrun : f s o with ⟨s', e | a⟩
    · simpa only [Procedure.access, hrun] using herror s o s' e hs hrun
    · simpa only [Procedure.access, hrun] using hok s o s' a hs hrun

theorem write {e : ε} {f : σ → σ} {Q : Unit → σ → Prop} (hcut : ∀ s, P s → E s)
    (hok : ∀ s, P s → Q () (f s)) (herror : ∀ s, P s → E (f s)) :
    Triple P (Procedure.write e f) Q E := by
  refine access hcut ?_ ?_
  · intro s o s' a hs hrun
    cases o with
    | written =>
      obtain ⟨rfl, -⟩ := Prod.mk.inj hrun
      exact hok s hs
    | failed => simp at hrun
    | unreported => simp at hrun
  · intro s o s' e' hs hrun
    cases o with
    | written => simp at hrun
    | failed =>
      obtain ⟨rfl, -⟩ := Prod.mk.inj hrun
      exact hcut s hs
    | unreported =>
      obtain ⟨rfl, -⟩ := Prod.mk.inj hrun
      exact herror s hs

theorem attempt {e : ε} {Q : Unit → σ → Prop} (hcut : ∀ s, P s → E s) (hok : ∀ s, P s → Q () s) :
    Triple P (Procedure.attempt e) Q E := by
  refine access hcut ?_ ?_
  · intro s o s' a hs hrun
    obtain ⟨rfl, -⟩ := Prod.mk.inj hrun
    exact hok s hs
  · intro s o s' e' hs hrun
    obtain ⟨rfl, -⟩ := Prod.mk.inj hrun
    exact hcut s hs

theorem before (hx : Triple P x Q E) (h : ∀ s, P' s → P s) : Triple P' x Q E :=
  fun s os hs => hx s os (h s hs)

theorem weaken {Q' : α → σ → Prop} (hx : Triple P x Q E) (hQ : ∀ a s, Q a s → Q' a s)
    (hE : ∀ s, E s → E' s) : Triple P x Q' E' := by
  intro s os hs
  have hstep := hx s os hs
  rcases hrun : x s os with ⟨a | e | _, s', os'⟩
  · rw [hrun] at hstep
    exact hQ a s' hstep
  · rw [hrun] at hstep
    exact hE s' hstep
  · rw [hrun] at hstep
    exact hE s' hstep

/-- One state at a time. -/
theorem of_eq (h : ∀ s₀, P s₀ → Triple (fun s => s = s₀) x Q E) : Triple P x Q E :=
  fun s os hs => h s hs s os rfl

/-- What does not depend on the state may be used outside. -/
theorem assuming {p : Prop} (h : p → Triple P x Q E) : Triple (fun s => p ∧ P s) x Q E :=
  fun s os hs => h hs.1 s os hs.2

theorem and {Q' : α → σ → Prop} (hx : Triple P x Q E) (hx' : Triple P' x Q' E') :
    Triple (fun s => P s ∧ P' s) x (fun a s => Q a s ∧ Q' a s) (fun s => E s ∧ E' s) := by
  intro s os hs
  have hstep := hx s os hs.1
  have hstep' := hx' s os hs.2
  rcases hrun : x s os with ⟨a | e | _, s', os'⟩
  · rw [hrun] at hstep hstep'
    exact ⟨hstep, hstep'⟩
  · rw [hrun] at hstep hstep'
    exact ⟨hstep, hstep'⟩
  · rw [hrun] at hstep hstep'
    exact ⟨hstep, hstep'⟩

theorem forM_each_from {γ : Type} {f : γ → Procedure σ ε Unit} {I : σ → Prop} {D : γ → σ → Prop} :
    (l done : List γ) →
    (∀ a ∈ l, ∀ done, Triple (fun s => I s ∧ ∀ b ∈ done, D b s) (f a)
      (fun _ s => I s ∧ ∀ b ∈ a :: done, D b s) E) →
    Triple (fun s => I s ∧ ∀ b ∈ done, D b s) (l.forM f)
      (fun _ s => I s ∧ ∀ b, b ∈ l ∨ b ∈ done → D b s) E
  | [], done, _ => Triple.pure fun s hs => ⟨hs.1, fun b hb => hs.2 b (hb.resolve_left (by simp))⟩
  | a :: rest, done, h => by
    refine (h a List.mem_cons_self done).bind fun _ => ?_
    refine (forM_each_from rest (a :: done) fun b hb => h b (List.mem_cons_of_mem a hb)).weaken
      (fun _ s hs => ⟨hs.1, fun b hb => hs.2 b ?_⟩) fun _ hs => hs
    rcases hb with hb | hb
    · rcases List.mem_cons.mp hb with rfl | hb
      · exact Or.inr List.mem_cons_self
      · exact Or.inl hb
    · exact Or.inr (List.mem_cons_of_mem a hb)

/-- A loop whose rounds establish something each, and keep what was established. -/
theorem forM_each {γ : Type} {f : γ → Procedure σ ε Unit} {I : σ → Prop} {D : γ → σ → Prop}
    {l : List γ} (h : ∀ a ∈ l, ∀ done, Triple (fun s => I s ∧ ∀ b ∈ done, D b s) (f a)
      (fun _ s => I s ∧ ∀ b ∈ a :: done, D b s) E) :
    Triple I (l.forM f) (fun _ s => I s ∧ ∀ b ∈ l, D b s) E :=
  ((forM_each_from l [] h).before fun s hs => ⟨hs, by simp⟩).weaken
    (fun _ s hs => ⟨hs.1, fun b hb => hs.2 b (Or.inl hb)⟩) fun _ hs => hs

/-- A loop with an accumulator, with what holds before each round. -/
theorem foldlM {γ : Type} {f : β → γ → Procedure σ ε β} {P : List γ → β → σ → Prop}
    (h : ∀ a rest b, Triple (P (a :: rest) b) (f b a) (P rest) E) :
    (l : List γ) → (b : β) → Triple (P l b) (l.foldlM f b) (P []) E
  | [], _ => Triple.pure fun _ hs => hs
  | a :: rest, b => (h a rest b).bind fun next => foldlM h rest next

/-- What every ending leaves. -/
theorem after_of {I : σ → Prop} (hx : Triple P x Q E) (hQ : ∀ a s, Q a s → I s)
    (hE : ∀ s, E s → I s) {s : σ} {os : List WriteOutcome} (hs : P s) : I (x.after s os) := by
  have hstep := hx s os hs
  unfold Procedure.after
  rcases hrun : x s os with ⟨a | e | _, s', os'⟩
  · rw [hrun] at hstep
    exact hQ a s' hstep
  · rw [hrun] at hstep
    exact hE s' hstep
  · rw [hrun] at hstep
    exact hE s' hstep

/-- What a procedure leaves that returned. -/
theorem returned (hx : Triple P x Q E) {s : σ} {os : List WriteOutcome} (hs : P s) {a : α}
    (ha : (x s os).1 = .returned a) : Q a (x.after s os) := by
  have hstep := hx s os hs
  unfold Procedure.after
  rcases hrun : x s os with ⟨b | e | _, s', os'⟩
  · rw [hrun] at hstep ha
    obtain rfl : b = a := Ending.returned.inj ha
    exact hstep
  · rw [hrun] at ha
    simp at ha
  · rw [hrun] at ha
    simp at ha

end Triple

/-! ## Runs of composed procedures -/

theorem bind_assoc {γ : Type} (x : Procedure σ ε α) (f : α → Procedure σ ε β)
    (g : β → Procedure σ ε γ) : (x >>= f) >>= g = x >>= fun a => f a >>= g := by
  funext s os
  show Procedure.bind (Procedure.bind x f) g s os =
    Procedure.bind x (fun a => Procedure.bind (f a) g) s os
  unfold Procedure.bind
  rcases x s os with ⟨a | e | _, s', os'⟩ <;> rfl

theorem bind_of_returned {x : Procedure σ ε α} {f : α → Procedure σ ε β} {s s' : σ}
    {os os' : List WriteOutcome} {a : α} (h : x s os = (.returned a, s', os')) :
    (x >>= f) s os = f a s' os' := by
  show Procedure.bind x f s os = f a s' os'
  unfold Procedure.bind
  rw [h]

/-- What a procedure leaves that goes on when the first one returns. -/
theorem after_bind {x : Procedure σ ε α} {f : α → Procedure σ ε β} {I : σ → Prop} {s : σ}
    {os : List WriteOutcome}
    (hearly : (∀ a, (x s os).1 ≠ .returned a) → I (x.after s os))
    (hreturned : ∀ a s' os', x s os = (.returned a, s', os') → I ((f a).after s' os')) :
    I ((x >>= f).after s os) := by
  show I (Procedure.bind x f s os).2.1
  unfold Procedure.bind
  rcases hrun : x s os with ⟨a | e | _, s', os'⟩
  · exact hreturned a s' os' hrun
  · unfold after at hearly
    rw [hrun] at hearly
    exact hearly (by simp)
  · unfold after at hearly
    rw [hrun] at hearly
    exact hearly (by simp)

/-- The same, where an error of the first one or of what it goes on with is handled. -/
theorem after_handle_bind {γ : Type} {x : Procedure σ ε α} {f : α → Procedure σ ε β}
    {handler : ε → Procedure σ ε β} {g : β → Procedure σ ε γ} {I : σ → Prop} {s : σ}
    {os : List WriteOutcome}
    (hcut : I (x.after s os))
    (hraised : ∀ e s' os', x s os = (.raised e, s', os') → I ((handler e >>= g).after s' os'))
    (hreturned : ∀ a s' os', x s os = (.returned a, s', os') →
      I (((f a).handle handler >>= g).after s' os')) :
    I (((x >>= f).handle handler >>= g).after s os) := by
  have hrun : ((x >>= f).handle handler) s os = match x s os with
      | (.returned a, s', os') => ((f a).handle handler) s' os'
      | (.raised e, s', os') => handler e s' os'
      | (.cutOff, s', os') => (.cutOff, s', os') := by
    show Procedure.handle (Procedure.bind x f) handler s os = _
    unfold Procedure.handle Procedure.bind
    rcases x s os with ⟨a | e | _, s', os'⟩ <;> rfl
  unfold after at hcut
  show I (Procedure.bind ((x >>= f).handle handler) g s os).2.1
  unfold Procedure.bind
  rcases hx : x s os with ⟨a | e | _, s', os'⟩
  · rw [hrun, hx]
    exact hreturned a s' os' hx
  · rw [hrun, hx]
    exact hraised e s' os' hx
  · rw [hrun, hx]
    rwa [hx] at hcut

end Procedure

end OxideTerm.Lib
