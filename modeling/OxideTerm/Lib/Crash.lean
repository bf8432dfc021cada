import OxideTerm.Lib.Program

/-!
# What makes a program crash

Some errors of a program are crashes. A program crashes by certain exchanges when each of its runs
has crashed just if it has made one of them: nothing else crashes it, and it does nothing more after
one.
-/

namespace OxideTerm.Lib

namespace Program

variable {A : Type} {B : A → Type} {ε α β σ : Type}

/-- Goes on with the result of a program, an error included, unless it has crashed. -/
def catching (crash : ε → Bool) (p : Program A B ε α) (handler : Except ε α → Program A B ε β) :
    Program A B ε β :=
  p.attempt.bind fun result =>
    match result with
    | .ok a => handler (.ok a)
    | .error e => if crash e then done (.error e) else handler (.error e)

/-- Does the same whether a program fails or not. -/
def ignoring (crash : ε → Bool) (p : Program A B ε α) : Program A B ε Unit :=
  p.catching crash fun _ => done (.ok ())

/-- What is to be done after an error, which stays the result. -/
def cleaning (cleanup : Program A B ε Unit) : Except ε α → Program A B ε α
  | .ok a => done (.ok a)
  | .error e => cleanup.bind fun _ => done (.error e)

/-- Cleans up when a program fails. -/
def onError (crash : ε → Bool) (p : Program A B ε α) (cleanup : Program A B ε Unit) :
    Program A B ε α :=
  p.catching crash (cleaning cleanup)

/-- Has ended in a crash. -/
def Crashed (crash : ε → Bool) (q : Program A B ε α) : Prop :=
  ∃ e, q = done (.error e) ∧ crash e = true

/-- The runs that have crashed are those with a harmful exchange. -/
def CrashesBy (crash : ε → Bool) (Harmful : Exchange A B ε → Prop) (p : Program A B ε α) : Prop :=
  ∀ t q, Runs p t q → (Crashed crash q ↔ ∃ exchange ∈ t, Harmful exchange)

section

variable {crash : ε → Bool}

@[simp] theorem crashed_error {e : ε} :
    Crashed crash (done (.error e) : Program A B ε α) ↔ crash e = true := by
  constructor
  · rintro ⟨e', he, hcrash⟩
    cases he
    exact hcrash
  · intro hcrash
    exact ⟨e, rfl, hcrash⟩

@[simp] theorem not_crashed_ok {a : α} : ¬ Crashed crash (done (.ok a) : Program A B ε α) := by
  rintro ⟨e, he, -⟩
  cases he

@[simp] theorem not_crashed_act {a : A} {next : Except ε (B a) → Program A B ε α} :
    ¬ Crashed crash (act a next) := by
  rintro ⟨e, he, -⟩
  cases he

@[simp] theorem not_crashed_spin : ¬ Crashed crash (spin : Program A B ε α) := by
  rintro ⟨e, he, -⟩
  cases he

end

namespace CrashesBy

variable {crash : ε → Bool} {Harmful : Exchange A B ε → Prop}

/-- A program that has no exchanges and has not crashed. -/
theorem of_quiet {p : Program A B ε α} (hquiet : ∀ t q, Runs p t q → t = [] ∧ q = p)
    (hcrash : ¬ Crashed crash p) : CrashesBy crash Harmful p := by
  intro t q h
  obtain ⟨rfl, rfl⟩ := hquiet t q h
  simp [hcrash]

theorem ok (a : α) : CrashesBy crash Harmful (done (.ok a) : Program A B ε α) := by
  exact of_quiet (fun t q h => runs_done h) not_crashed_ok

theorem error {e : ε} (he : crash e = false) :
    CrashesBy crash Harmful (done (.error e) : Program A B ε α) := by
  refine of_quiet (fun t q h => runs_done h) ?_
  rw [crashed_error, he]
  exact Bool.false_ne_true

theorem spin : CrashesBy crash Harmful (spin : Program A B ε α) := by
  exact of_quiet (fun t q h => runs_spin h) not_crashed_spin

/-- Each answer is harmful and crashes the program, or leads on to a program of this kind. -/
theorem act {a : A} {next : Except ε (B a) → Program A B ε α}
    (hharmful : ∀ answer, Harmful ⟨a, answer⟩ → Crashed crash (next answer))
    (hnext : ∀ answer, ¬ Harmful ⟨a, answer⟩ → CrashesBy crash Harmful (next answer)) :
    CrashesBy crash Harmful (Program.act a next) := by
  intro t q h
  cases h with
  | stay =>
    simp
  | @go _ _ answer trace _ h =>
    by_cases hanswer : Harmful ⟨a, answer⟩
    · obtain ⟨e, hdone, hcrash⟩ := hharmful answer hanswer
      rw [hdone] at h
      obtain ⟨rfl, rfl⟩ := runs_done h
      exact ⟨fun _ => ⟨_, List.mem_cons_self, hanswer⟩, fun _ => ⟨e, rfl, hcrash⟩⟩
    · rw [hnext answer hanswer trace q h]
      constructor
      · rintro ⟨exchange, hmem, hharm⟩
        exact ⟨exchange, List.mem_cons_of_mem _ hmem, hharm⟩
      · rintro ⟨exchange, hmem, hharm⟩
        rcases List.mem_cons.mp hmem with rfl | hmem
        · exact absurd hharm hanswer
        · exact ⟨exchange, hmem, hharm⟩

/-- A call that is harmful just when it crashes. -/
theorem call {a : A} (h : ∀ answer : Except ε (B a), Harmful ⟨a, answer⟩ ↔
    ∃ e, answer = .error e ∧ crash e = true) :
    CrashesBy crash Harmful (Program.call a : Program A B ε (B a)) := by
  refine act ?_ ?_
  · intro answer hanswer
    obtain ⟨e, rfl, hcrash⟩ := (h answer).mp hanswer
    exact ⟨e, rfl, hcrash⟩
  · intro answer hanswer
    cases answer with
    | ok b => exact ok b
    | error e =>
      refine error (Bool.eq_false_iff.mpr ?_)
      intro hcrash
      exact hanswer ((h _).mpr ⟨e, rfl, hcrash⟩)

theorem bind {p : Program A B ε α} {f : α → Program A B ε β}
    (hp : CrashesBy crash Harmful p) (hf : ∀ a, CrashesBy crash Harmful (f a)) :
    CrashesBy crash Harmful (p.bind f) := by
  intro t q h
  rcases runs_bind h with ⟨p', hp', rfl⟩ | ⟨t₁, t₂, a, rfl, hp', hf'⟩
  · rw [← hp t p' hp']
    cases p' with
    | done result =>
      cases result with
      | ok a =>
        -- The first program has returned, and the second has not begun.
        have hsecond := hf a [] _ (.stay _)
        simp only [List.not_mem_nil, false_and, exists_false, iff_false] at hsecond
        exact iff_of_false hsecond not_crashed_ok
      | error e => simp
    | act b next => simp
    | spin => simp
  · have hfirst : ¬ ∃ exchange ∈ t₁, Harmful exchange := by
      rw [← hp t₁ _ hp']
      exact not_crashed_ok
    rw [hf a t₂ q hf']
    constructor
    · rintro ⟨exchange, hmem, hharm⟩
      exact ⟨exchange, List.mem_append_right _ hmem, hharm⟩
    · rintro ⟨exchange, hmem, hharm⟩
      rcases List.mem_append.mp hmem with hmem | hmem
      · exact absurd ⟨exchange, hmem, hharm⟩ hfirst
      · exact ⟨exchange, hmem, hharm⟩

/-- What follows a program that does not crash. -/
theorem catching {p : Program A B ε α} {handler : Except ε α → Program A B ε β}
    (hp : CrashesBy crash Harmful p)
    (hhandler : ∀ result, (∀ e, result = .error e → crash e = false) →
      CrashesBy crash Harmful (handler result)) :
    CrashesBy crash Harmful (p.catching crash handler) := by
  have hafter : ∀ result t q, Runs p t (done result) →
      ∀ t', Runs ((done result : Program A B ε α).catching crash handler) t' q →
        (Crashed crash q ↔ ∃ exchange ∈ t ++ t', Harmful exchange) := by
    intro result t q hp' t' h
    have hbefore := hp t _ hp'
    by_cases hcrashed : Crashed crash (done result : Program A B ε α)
    · -- The crash is what is left.
      obtain ⟨e, he, hcrash⟩ := hcrashed
      cases he
      have hdone : (done (.error e) : Program A B ε α).catching crash handler =
          done (.error e) := if_pos hcrash
      rw [hdone] at h
      obtain ⟨rfl, rfl⟩ := runs_done h
      rw [List.append_nil, ← hbefore]
      simp [hcrash]
    · have hdone : (done result : Program A B ε α).catching crash handler = handler result := by
        cases result with
        | ok a => rfl
        | error e => exact if_neg (by rwa [crashed_error] at hcrashed)
      have hkeeps : ∀ e, result = .error e → crash e = false := by
        rintro e rfl
        rw [crashed_error] at hcrashed
        exact Bool.eq_false_iff.mpr hcrashed
      rw [hdone] at h
      rw [iff_false_left hcrashed] at hbefore
      rw [hhandler result hkeeps t' q h]
      constructor
      · rintro ⟨exchange, hmem, hharm⟩
        exact ⟨exchange, List.mem_append_right _ hmem, hharm⟩
      · rintro ⟨exchange, hmem, hharm⟩
        rcases List.mem_append.mp hmem with hmem | hmem
        · exact absurd ⟨exchange, hmem, hharm⟩ hbefore
        · exact ⟨exchange, hmem, hharm⟩
  intro t q h
  rcases runs_bind h with ⟨m, hm, rfl⟩ | ⟨t₁, t₂, result, rfl, hm, hf⟩
  · obtain ⟨p', hp', rfl⟩ := runs_attempt hm
    cases p' with
    | done result =>
      have hdone := hafter result t _ hp' [] (.stay _)
      rw [List.append_nil] at hdone
      exact hdone
    | act a next =>
      rw [← hp t _ hp']
      exact iff_of_false not_crashed_act not_crashed_act
    | spin =>
      rw [← hp t _ hp']
      exact iff_of_false not_crashed_spin not_crashed_spin
  · obtain ⟨p', hp', hdone⟩ := runs_attempt hm
    cases p' with
    | done r =>
      obtain rfl : result = r := by simpa [attempt] using hdone
      exact hafter result t₁ q hp' t₂ hf
    | act a next => cases hdone
    | spin => cases hdone

theorem ignoring {p : Program A B ε α} (hp : CrashesBy crash Harmful p) :
    CrashesBy crash Harmful (p.ignoring crash) := by
  refine catching hp ?_
  rintro - -
  exact ok ()

theorem onError {p : Program A B ε α} {cleanup : Program A B ε Unit}
    (hp : CrashesBy crash Harmful p) (hcleanup : CrashesBy crash Harmful cleanup) :
    CrashesBy crash Harmful (p.onError crash cleanup) := by
  refine catching hp ?_
  intro result hkeeps
  cases result with
  | ok a => exact ok a
  | error e => exact bind hcleanup fun _ => error (hkeeps e rfl)

/-- A loop of rounds of this kind. -/
theorem loop {body : σ → Program A B ε (σ ⊕ α)} (hbody : ∀ s, CrashesBy crash Harmful (body s)) :
    ∀ (fuel : Nat) (s : σ), CrashesBy crash Harmful (Program.loop body fuel s)
  | 0, _ => spin
  | fuel + 1, s => by
    rw [loop_succ]
    refine bind (hbody s) ?_
    intro next
    cases next with
    | inl s' => exact loop hbody fuel s'
    | inr a => exact ok a

end CrashesBy

end Program

end OxideTerm.Lib
