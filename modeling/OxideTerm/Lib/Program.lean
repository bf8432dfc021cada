import Mathlib.Data.List.Basic

/-!
# Programs that act and wait for an answer

A program acts on its surroundings and goes on with what they answer, which may be an error. What
the surroundings do is left open: a run is any sequence of actions with any answers. A program in
terms of larger actions becomes one in terms of smaller actions when each larger action is a program
itself.
-/

namespace OxideTerm.Lib

/-- A program that returns an `α` or fails. A loop that has used up its rounds spins. -/
inductive Program (A : Type) (B : A → Type) (ε α : Type) where
  | done (result : Except ε α)
  | act (action : A) (next : Except ε (B action) → Program A B ε α)
  | spin

namespace Program

variable {A A' : Type} {B : A → Type} {B' : A' → Type} {ε α β γ σ : Type}

/-- Goes on with what a program returns. -/
def bind : Program A B ε α → (α → Program A B ε β) → Program A B ε β
  | done (.ok a), f => f a
  | done (.error e), _ => done (.error e)
  | act a next, f => act a fun answer => (next answer).bind f
  | spin, _ => spin

instance instMonadProgram : Monad (Program A B ε) where
  pure a := done (.ok a)
  bind := bind

/-- An action whose error ends the program. -/
def call (a : A) : Program A B ε (B a) := act a done

/-- Ends the program with an error. -/
def fail (e : ε) : Program A B ε α := done (.error e)

/-- Returns the error of a program in place of failing with it. -/
def attempt : Program A B ε α → Program A B ε (Except ε α)
  | done result => done (.ok result)
  | act a next => act a fun answer => (next answer).attempt
  | spin => spin

/-- Rounds that go on with a state, or leave the loop with a result. -/
def loop (body : σ → Program A B ε (σ ⊕ α)) : Nat → σ → Program A B ε α
  | 0, _ => spin
  | fuel + 1, s => (body s).bind fun
    | .inl s => loop body fuel s
    | .inr a => done (.ok a)

/-- What follows a round of a loop. -/
def nextRound (body : σ → Program A B ε (σ ⊕ α)) (fuel : Nat) : σ ⊕ α → Program A B ε α
  | .inl s => loop body fuel s
  | .inr a => done (.ok a)

/-- What follows a round of a loop that comes to this result. -/
def afterRound (body : σ → Program A B ε (σ ⊕ α)) (fuel : Nat) :
    Except ε (σ ⊕ α) → Program A B ε α
  | .ok next => nextRound body fuel next
  | .error e => done (.error e)

/-- A program in terms of smaller actions, where each of its actions is a program. -/
def interpret (handler : (a : A) → Program A' B' ε (B a)) :
    Program A B ε α → Program A' B' ε α
  | done result => done result
  | act a next => (handler a).attempt.bind fun answer => interpret handler (next answer)
  | spin => spin

/-! ## Binding -/

@[simp] theorem pure_eq (a : α) : (pure a : Program A B ε α) = done (.ok a) := rfl

@[simp] theorem bind_eq (p : Program A B ε α) (f : α → Program A B ε β) : p >>= f = p.bind f := rfl

@[simp] theorem done_ok_bind (a : α) (f : α → Program A B ε β) :
    (done (.ok a) : Program A B ε α).bind f = f a := rfl

@[simp] theorem done_error_bind (e : ε) (f : α → Program A B ε β) :
    (done (.error e) : Program A B ε α).bind f = done (.error e) := rfl

@[simp] theorem act_bind (a : A) (next : Except ε (B a) → Program A B ε α)
    (f : α → Program A B ε β) :
    (act a next).bind f = act a fun answer => (next answer).bind f := rfl

@[simp] theorem spin_bind (f : α → Program A B ε β) :
    (spin : Program A B ε α).bind f = spin := rfl

@[simp] theorem fail_eq (e : ε) : (fail e : Program A B ε α) = done (.error e) := rfl

theorem bind_assoc (p : Program A B ε α) (f : α → Program A B ε β) (g : β → Program A B ε γ) :
    (p.bind f).bind g = p.bind fun a => (f a).bind g := by
  induction p with
  | done result =>
    cases result with
    | ok a => rfl
    | error e => rfl
  | act a next ih => simp only [act_bind, ih]
  | spin => rfl

theorem loop_zero (body : σ → Program A B ε (σ ⊕ α)) (s : σ) : loop body 0 s = spin := rfl

theorem loop_succ (body : σ → Program A B ε (σ ⊕ α)) (fuel : Nat) (s : σ) :
    loop body (fuel + 1) s = (body s).bind (nextRound body fuel) := rfl

/-- A loop that another program follows. -/
theorem loop_bind (body : σ → Program A B ε (σ ⊕ α)) (fuel : Nat) (s : σ)
    (f : α → Program A B ε β) :
    (loop body (fuel + 1) s).bind f = (body s).bind fun next => (nextRound body fuel next).bind f := by
  rw [loop_succ, bind_assoc]

/-- What a loop does after a round. -/
theorem done_bind_round (body : σ → Program A B ε (σ ⊕ α)) (fuel : Nat)
    (result : Except ε (σ ⊕ α)) :
    (done result).bind (nextRound body fuel) = afterRound body fuel result := by
  cases result <;> rfl

/-! ## Runs -/

/-- An action with its answer. -/
abbrev Exchange (A : Type) (B : A → Type) (ε : Type) := (a : A) × Except ε (B a)

/-- The program gets as far as another one, through actions with any answers. -/
inductive Runs : Program A B ε α → List (Exchange A B ε) → Program A B ε α → Prop
  | stay (p : Program A B ε α) : Runs p [] p
  | go {a : A} {next : Except ε (B a) → Program A B ε α} (answer : Except ε (B a))
      {trace : List (Exchange A B ε)} {q : Program A B ε α} (h : Runs (next answer) trace q) :
      Runs (act a next) (⟨a, answer⟩ :: trace) q

theorem runs_done {r : Except ε α} {trace : List (Exchange A B ε)} {q : Program A B ε α}
    (h : Runs (done r) trace q) : trace = [] ∧ q = done r := by
  cases h
  exact ⟨rfl, rfl⟩

theorem runs_spin {trace : List (Exchange A B ε)} {q : Program A B ε α}
    (h : Runs spin trace q) : trace = [] ∧ q = spin := by
  cases h
  exact ⟨rfl, rfl⟩

theorem Runs.trans {p q r : Program A B ε α} {t u : List (Exchange A B ε)} (h : Runs p t q)
    (h' : Runs q u r) : Runs p (t ++ u) r := by
  induction h with
  | stay p => exact h'
  | go answer _ ih => exact .go answer (ih h')

/-- What a program does up to some point, it does when another program follows. -/
theorem Runs.bind {p q : Program A B ε α} {t : List (Exchange A B ε)} (h : Runs p t q)
    (f : α → Program A B ε β) : Runs (p.bind f) t (q.bind f) := by
  induction h with
  | stay p => exact .stay _
  | go answer _ ih => exact .go answer ih

/-- What a program does up to some point, it does when its error is returned. -/
theorem Runs.attempt {p q : Program A B ε α} {t : List (Exchange A B ε)} (h : Runs p t q) :
    Runs p.attempt t q.attempt := by
  induction h with
  | stay p => exact .stay _
  | go answer _ ih => exact .go answer ih

/-- A run of two programs in a row is in the first one, or has finished it. -/
theorem runs_bind {p : Program A B ε α} {f : α → Program A B ε β} {t : List (Exchange A B ε)}
    {q : Program A B ε β} (h : Runs (p.bind f) t q) :
    (∃ p', Runs p t p' ∧ q = p'.bind f) ∨
    ∃ t₁ t₂ a, t = t₁ ++ t₂ ∧ Runs p t₁ (done (.ok a)) ∧ Runs (f a) t₂ q := by
  induction p generalizing t with
  | done result =>
    cases result with
    | ok a => exact .inr ⟨[], t, a, rfl, .stay _, h⟩
    | error e =>
      obtain ⟨rfl, rfl⟩ := runs_done h
      exact .inl ⟨_, .stay _, rfl⟩
  | act a next ih =>
    cases h with
    | stay => exact .inl ⟨_, .stay _, rfl⟩
    | go answer h =>
      rcases ih answer h with ⟨p', hp, rfl⟩ | ⟨t₁, t₂, b, rfl, hp, hf⟩
      · exact .inl ⟨p', .go answer hp, rfl⟩
      · exact .inr ⟨⟨a, answer⟩ :: t₁, t₂, b, rfl, .go answer hp, hf⟩
  | spin =>
    obtain ⟨rfl, rfl⟩ := runs_spin h
    exact .inl ⟨_, .stay _, rfl⟩

/-- When two programs in a row return, both do. -/
theorem runs_bind_ok {p : Program A B ε α} {f : α → Program A B ε β} {t : List (Exchange A B ε)}
    {b : β} (h : Runs (p.bind f) t (done (.ok b))) :
    ∃ t₁ t₂ a, t = t₁ ++ t₂ ∧ Runs p t₁ (done (.ok a)) ∧ Runs (f a) t₂ (done (.ok b)) := by
  rcases runs_bind h with ⟨p', hp, hdone⟩ | hboth
  · cases p' with
    | done result =>
      cases result with
      | ok a =>
        rw [done_ok_bind] at hdone
        exact ⟨t, [], a, (List.append_nil t).symm, hp, hdone ▸ .stay _⟩
      | error e => exact absurd hdone (by simp)
    | act a next => exact absurd hdone (by simp)
    | spin => exact absurd hdone (by simp)
  · exact hboth

/-- **What every round of a loop keeps, a loop that returns ends with.** -/
theorem runs_loop_ok {body : σ → Program A B ε (σ ⊕ α)} {P : σ → Prop} {Q : α → Prop}
    (hround : ∀ s t next, P s → Runs (body s) t (done (.ok next)) →
      (∀ s', next = .inl s' → P s') ∧ ∀ a, next = .inr a → Q a) :
    ∀ (fuel : Nat) {s : σ} {t : List (Exchange A B ε)} {a : α}, P s →
      Runs (loop body fuel s) t (done (.ok a)) → Q a
  | 0, _, _, _, _, h => by
    rw [loop_zero] at h
    exact absurd (runs_spin h).2 (by simp)
  | fuel + 1, s, t, a, hs, h => by
    rw [loop_succ] at h
    obtain ⟨t₁, t₂, next, rfl, hbody, hnext⟩ := runs_bind_ok h
    obtain ⟨hleft, hright⟩ := hround s t₁ next hs hbody
    cases next with
    | inl s' => exact runs_loop_ok hround fuel (hleft s' rfl) hnext
    | inr b =>
      have hdone : done (.ok a) = (done (.ok b) : Program A B ε α) := (runs_done hnext).2
      simp only [done.injEq, Except.ok.injEq] at hdone
      subst hdone
      exact hright a rfl

theorem runs_attempt {p : Program A B ε α} {t : List (Exchange A B ε)}
    {q : Program A B ε (Except ε α)} (h : Runs p.attempt t q) :
    ∃ p', Runs p t p' ∧ q = p'.attempt := by
  induction p generalizing t with
  | done result =>
    obtain ⟨rfl, rfl⟩ := runs_done h
    exact ⟨_, .stay _, rfl⟩
  | act a next ih =>
    cases h with
    | stay => exact ⟨_, .stay _, rfl⟩
    | go answer h =>
      obtain ⟨p', hp, rfl⟩ := ih answer h
      exact ⟨p', .go answer hp, rfl⟩
  | spin =>
    obtain ⟨rfl, rfl⟩ := runs_spin h
    exact ⟨_, .stay _, rfl⟩

/-! ## Runs in terms of smaller actions -/

/-- The small actions carry out the large ones, one after the other. -/
inductive Realizes (handler : (a : A) → Program A' B' ε (B a)) :
    List (Exchange A B ε) → List (Exchange A' B' ε) → Prop
  | nil : Realizes handler [] []
  | cons {a : A} {answer : Except ε (B a)} {part rest : List (Exchange A' B' ε)}
      {trace : List (Exchange A B ε)} (hpart : Runs (handler a) part (done answer))
      (hrest : Realizes handler trace rest) : Realizes handler (⟨a, answer⟩ :: trace) (part ++ rest)

/-- A run in terms of large actions is carried out in terms of small ones. -/
theorem Runs.interpret {handler : (a : A) → Program A' B' ε (B a)} {p q : Program A B ε α}
    {events : List (Exchange A B ε)} {t : List (Exchange A' B' ε)} (h : Runs p events q)
    (hrealizes : Realizes handler events t) :
    Runs (p.interpret handler) t (q.interpret handler) := by
  induction h generalizing t with
  | stay p =>
    cases hrealizes
    exact .stay _
  | go answer _ ih =>
    cases hrealizes with
    | cons hpart hrest => exact (hpart.attempt.bind _).trans (ih hrest)

/-- The part of a run that follows the last large action that is complete. -/
inductive Underway (handler : (a : A) → Program A' B' ε (B a)) :
    Program A B ε α → List (Exchange A' B' ε) → Program A' B' ε α → Prop
  | between (p : Program A B ε α) : Underway handler p [] (p.interpret handler)
  | within {a : A} {next : Except ε (B a) → Program A B ε α} {part : List (Exchange A' B' ε)}
      {p : Program A' B' ε (B a)} (h : Runs (handler a) part p)
      (hopen : ∀ answer, p ≠ done answer) :
      Underway handler (act a next) part
        (p.attempt.bind fun answer => (next answer).interpret handler)

/-- The part of the small actions that carries out one large action. -/
theorem Realizes.split {handler : (a : A) → Program A' B' ε (B a)} {a : A}
    {answer : Except ε (B a)} {later : List (Exchange A B ε)} :
    ∀ {before : List (Exchange A B ε)} {t : List (Exchange A' B' ε)},
      Realizes handler (before ++ ⟨a, answer⟩ :: later) t →
      ∃ t₁ part t₂, t = t₁ ++ (part ++ t₂) ∧ Realizes handler before t₁ ∧
        Runs (handler a) part (done answer) ∧ Realizes handler later t₂
  | [], _, .cons hpart hrest => ⟨[], _, _, rfl, .nil, hpart, hrest⟩
  | _ :: before, _, @Realizes.cons _ _ _ _ _ _ _ _ first _ _ hfirst hrest => by
    obtain ⟨t₁, part, t₂, rfl, hbefore, hpart, hlater⟩ := Realizes.split hrest
    exact ⟨first ++ t₁, part, t₂, (List.append_assoc _ _ _).symm, .cons hfirst hbefore, hpart,
      hlater⟩

/-- Where every large action takes a small one, a program that has ended has no action under way. -/
theorem Underway.eq_done {handler : (a : A) → Program A' B' ε (B a)}
    (hacts : ∀ a answer, handler a ≠ done answer) {p : Program A B ε α}
    {t : List (Exchange A' B' ε)} {result : Except ε α}
    (h : Underway handler p t (done result)) : t = [] ∧ p = done result := by
  have hopen : ∀ {a : A} {q : Program A' B' ε (B a)} {f : Except ε (B a) → Program A' B' ε α},
      (∀ answer, q ≠ done answer) → q.attempt.bind f ≠ done result := by
    intro a q f hq
    cases q with
    | done answer => exact absurd rfl (hq answer)
    | act b next => exact fun h => by simp [attempt] at h
    | spin => exact fun h => by simp [attempt] at h
  generalize hq : done result = q at h
  cases h with
  | between p =>
    refine ⟨rfl, ?_⟩
    cases p with
    | done r => exact congrArg done (done.inj hq).symm
    | act a next => exact absurd hq.symm (hopen (hacts a))
    | spin => exact absurd hq (by simp [interpret])
  | within _ hwithin => exact absurd hq.symm (hopen hwithin)

/-- **A run in terms of small actions is a run in terms of large ones**, up to an action that is
under way. -/
theorem runs_interpret {handler : (a : A) → Program A' B' ε (B a)} {p : Program A B ε α}
    {t : List (Exchange A' B' ε)} {q : Program A' B' ε α}
    (h : Runs (p.interpret handler) t q) :
    ∃ trace p' t₁ t₂, t = t₁ ++ t₂ ∧ Runs p trace p' ∧ Realizes handler trace t₁ ∧
      Underway handler p' t₂ q := by
  induction p generalizing t with
  | done result =>
    obtain ⟨rfl, rfl⟩ := runs_done h
    exact ⟨[], done result, [], [], rfl, .stay _, .nil, .between _⟩
  | act a next ih =>
    have hfinished : ∀ {t₁ t₂ answer}, Runs (handler a) t₁ (done answer) →
        Runs ((next answer).interpret handler) t₂ q →
        ∃ trace p' u₁ u₂, t₁ ++ t₂ = u₁ ++ u₂ ∧ Runs (act a next) trace p' ∧
          Realizes handler trace u₁ ∧ Underway handler p' u₂ q := by
      intro t₁ t₂ answer hpart hnext
      obtain ⟨trace, p', u₁, u₂, rfl, hruns, hreal, hunder⟩ := ih answer hnext
      exact ⟨⟨a, answer⟩ :: trace, p', t₁ ++ u₁, u₂, (List.append_assoc _ _ _).symm,
        .go answer hruns, .cons hpart hreal, hunder⟩
    rcases runs_bind h with ⟨m, hm, rfl⟩ | ⟨t₁, t₂, answer, rfl, hm, hnext⟩
    · obtain ⟨p', hp, rfl⟩ := runs_attempt hm
      cases p' with
      | done answer =>
        obtain ⟨trace, p', u₁, u₂, htrace, hrest⟩ :=
          @hfinished _ [] _ hp (.stay _)
        rw [List.append_nil] at htrace
        exact ⟨trace, p', u₁, u₂, htrace, hrest⟩
      | act b next' =>
        exact ⟨[], act a next, [], t, rfl, .stay _, .nil, .within hp (fun answer => by simp)⟩
      | spin =>
        exact ⟨[], act a next, [], t, rfl, .stay _, .nil, .within hp (fun answer => by simp)⟩
    · obtain ⟨p', hp, hdone⟩ := runs_attempt hm
      cases p' with
      | done result =>
        obtain rfl : answer = result := by simpa [attempt] using hdone
        exact hfinished hp hnext
      | act b next' => simp [attempt] at hdone
      | spin => simp [attempt] at hdone
  | spin =>
    obtain ⟨rfl, rfl⟩ := runs_spin h
    exact ⟨[], spin, [], [], rfl, .stay _, .nil, .between _⟩

end Program

end OxideTerm.Lib
