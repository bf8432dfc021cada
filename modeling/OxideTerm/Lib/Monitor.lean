import OxideTerm.Lib.Program

/-!
# Watching a program

A monitor watches the actions of a program with their answers. It has a state of its own, and says
of each action whether it is allowed. Rules in the manner of pre- and postconditions show that all
actions of a program are allowed, whatever the answers are.
-/

namespace OxideTerm.Lib

open Program

/-- What is noted of each action, and which actions are allowed. -/
structure Monitor (A : Type) (B : A → Type) (ε S : Type) where
  start : S
  next : S → Exchange A B ε → S
  Allows : S → Exchange A B ε → Prop

namespace Monitor

variable {A : Type} {B : A → Type} {ε α β σ S : Type} (m : Monitor A B ε S)

/-- The state after these actions. -/
def after (s : S) (events : List (Exchange A B ε)) : S := events.foldl m.next s

/-- Each of these actions is allowed when it is taken. -/
def AllowsAll : S → List (Exchange A B ε) → Prop
  | _, [] => True
  | s, event :: events => m.Allows s event ∧ AllowsAll (m.next s event) events

/-- What is noted of all actions. -/
def observe (events : List (Exchange A B ε)) : S := m.after m.start events

/-- All actions are allowed. -/
def Safe (events : List (Exchange A B ε)) : Prop := m.AllowsAll m.start events

/-- From every state with `P` all actions of the program are allowed, and when it returns `Q` holds. -/
def Meets (p : Program A B ε α) (P : S → Prop) (Q : α → S → Prop) : Prop :=
  ∀ s events q, P s → Runs p events q →
    m.AllowsAll s events ∧ ∀ a, q = .done (.ok a) → Q a (m.after s events)

variable {m}

theorem after_append (s : S) (events more : List (Exchange A B ε)) :
    m.after s (events ++ more) = m.after (m.after s events) more := List.foldl_append

theorem observe_concat (events : List (Exchange A B ε)) (event : Exchange A B ε) :
    m.observe (events ++ [event]) = m.next (m.observe events) event := after_append _ _ _

theorem allowsAll_append :
    ∀ (events : List (Exchange A B ε)) {more : List (Exchange A B ε)} {s : S},
      m.AllowsAll s (events ++ more) ↔ m.AllowsAll s events ∧ m.AllowsAll (m.after s events) more
  | [], more, s => (iff_of_eq (true_and _)).symm
  | event :: events, more, s => by
    have hrest := @allowsAll_append events more (m.next s event)
    show _ ∧ _ ↔ (_ ∧ _) ∧ _
    rw [and_assoc]
    exact and_congr_right fun _ => hrest

theorem safe_concat {events : List (Exchange A B ε)} {event : Exchange A B ε} :
    m.Safe (events ++ [event]) ↔ m.Safe events ∧ m.Allows (m.observe events) event := by
  refine (allowsAll_append events).trans (and_congr_right fun _ => ?_)
  exact iff_of_eq (and_true _)

variable {P P' : S → Prop} {Q Q' : α → S → Prop}

theorem Meets.weaken {p : Program A B ε α} (h : m.Meets p P Q) (hpre : ∀ s, P' s → P s)
    (hpost : ∀ a s, Q a s → Q' a s) : m.Meets p P' Q' := by
  intro s events q hs hruns
  obtain ⟨hall, hdone⟩ := h s events q (hpre s hs) hruns
  exact ⟨hall, fun a ha => hpost a _ (hdone a ha)⟩

theorem meets_exists {γ : Type} {p : Program A B ε α} {P : γ → S → Prop}
    (h : ∀ c, m.Meets p (P c) Q) : m.Meets p (fun s => ∃ c, P c s) Q := by
  rintro s events q ⟨c, hs⟩ hruns
  exact h c s events q hs hruns

theorem meets_ok {a : α} (h : ∀ s, P s → Q a s) :
    m.Meets (.done (.ok a) : Program A B ε α) P Q := by
  intro s events q hs hruns
  obtain ⟨rfl, rfl⟩ := runs_done hruns
  refine ⟨trivial, fun b hb => ?_⟩
  obtain rfl : a = b := by simpa using hb
  exact h s hs

theorem meets_error (e : ε) : m.Meets (.done (.error e) : Program A B ε α) P Q := by
  intro s events q hs hruns
  obtain ⟨rfl, rfl⟩ := runs_done hruns
  exact ⟨trivial, fun b hb => absurd hb (by simp)⟩

/-- A program that only returns leaves the state as it is. -/
theorem meets_result (result : Except ε α) :
    m.Meets (.done result : Program A B ε α) P fun _ => P := by
  cases result with
  | ok a => exact meets_ok fun _ h => h
  | error e => exact meets_error e

theorem meets_spin : m.Meets (.spin : Program A B ε α) P Q := by
  intro s events q hs hruns
  obtain ⟨rfl, rfl⟩ := runs_spin hruns
  exact ⟨trivial, fun b hb => absurd hb (by simp)⟩

/-- What an action needs, and what holds for each of its answers. -/
theorem meets_act {a : A} {next : Except ε (B a) → Program A B ε α}
    (hallows : ∀ s answer, P s → m.Allows s ⟨a, answer⟩)
    (hnext : ∀ answer, m.Meets (next answer)
      (fun s' => ∃ s, P s ∧ s' = m.next s ⟨a, answer⟩) Q) : m.Meets (.act a next) P Q := by
  intro s events q hs hruns
  cases hruns with
  | stay => exact ⟨trivial, fun b hb => absurd hb (by simp)⟩
  | @go _ _ answer trace _ hruns =>
    obtain ⟨hall, hdone⟩ := hnext answer _ trace q ⟨s, hs, rfl⟩ hruns
    exact ⟨⟨hallows s answer hs, hall⟩, hdone⟩

theorem meets_call {a : A} {Q : B a → S → Prop}
    (hallows : ∀ s answer, P s → m.Allows s ⟨a, answer⟩)
    (hpost : ∀ s b, P s → Q b (m.next s ⟨a, .ok b⟩)) : m.Meets (call a) P Q := by
  refine meets_act hallows fun answer => ?_
  cases answer with
  | ok b =>
    refine meets_ok ?_
    rintro _ ⟨s, hs, rfl⟩
    exact hpost s b hs
  | error e => exact meets_error e

theorem meets_attempt_call {a : A} {Q : Except ε (B a) → S → Prop}
    (hallows : ∀ s answer, P s → m.Allows s ⟨a, answer⟩)
    (hpost : ∀ s answer, P s → Q answer (m.next s ⟨a, answer⟩)) :
    m.Meets (call a : Program A B ε (B a)).attempt P Q := by
  refine meets_act hallows fun answer => meets_ok ?_
  rintro _ ⟨s, hs, rfl⟩
  exact hpost s answer hs

theorem meets_bind {p : Program A B ε α} {f : α → Program A B ε β} {R : α → S → Prop}
    {Q : β → S → Prop} (hp : m.Meets p P R) (hf : ∀ a, m.Meets (f a) (R a) Q) :
    m.Meets (p.bind f) P Q := by
  intro s events q hs hruns
  rcases runs_bind hruns with ⟨p', hp', rfl⟩ | ⟨t₁, t₂, a, rfl, hp', hf'⟩
  · obtain ⟨hall, hmid⟩ := hp s events p' hs hp'
    refine ⟨hall, fun b hb => ?_⟩
    cases p' with
    | done r =>
      cases r with
      | ok a => exact (hf a _ [] (f a) (hmid a rfl) (.stay _)).2 b hb
      | error e => exact absurd hb (by simp)
    | act a next => exact absurd hb (by simp)
    | spin => exact absurd hb (by simp)
  · obtain ⟨hall, hmid⟩ := hp s t₁ _ hs hp'
    obtain ⟨hrest, hdone⟩ := hf a _ t₂ q (hmid a rfl) hf'
    rw [allowsAll_append, after_append]
    exact ⟨⟨hall, hrest⟩, hdone⟩

/-- What every round keeps, the loop keeps. -/
theorem meets_loop {body : σ → Program A B ε (σ ⊕ α)} {I : σ → S → Prop}
    (hbody : ∀ x, m.Meets (body x) (I x) (Sum.elim I Q)) :
    ∀ fuel x, m.Meets (loop body fuel x) (I x) Q
  | 0, x => meets_spin
  | fuel + 1, x => by
    refine meets_bind (hbody x) fun result => ?_
    cases result with
    | inl y => exact meets_loop hbody fuel y
    | inr a => exact meets_ok fun s h => h

end Monitor

end OxideTerm.Lib
