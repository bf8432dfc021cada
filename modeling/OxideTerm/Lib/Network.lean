import OxideTerm.Lib.Program

/-!
# Two programs with a line in each direction

Two programs run side by side, each with an inbox to which the other one writes. Either may take
the next step, so that what was sent waits for any time. What the surroundings of a program decide (a read
that is given up, how what is written arrives, the answers to other actions) is fixed by their
state, and different surroundings give different behaviours.

The order of the steps does not matter: when one run ends, every run comes to this end
(`Network.steps_to_end`). So one convenient order shows what every order leads to.
-/

namespace OxideTerm.Lib

/-! ## Actions on a line -/

/-- An action of a program with a line. -/
inductive Port (β L : Type) where
  | read
  | write (items : List β)
  | host (l : L)

namespace Port

variable {β L : Type}

/-- What an action is answered with, if it does not fail. -/
abbrev Answer (β : Type) {L : Type} (B : L → Type) : Port β L → Type
  | read => β
  | write _ => Unit
  | host l => B l

end Port

/-- What surrounds a program, in a state that changes with each of its actions. -/
structure Surroundings (β L : Type) (B : L → Type) (ε H : Type) where
  /-- The error of a read that is given up. -/
  late : H → Option ε
  /-- How what is written arrives. -/
  arrives : H → List β → List β
  answer : (l : L) → H → Except ε (B l)
  after : Port β L → H → H

/-- The surroundings of a program whose actions on the host go by other names. -/
def Surroundings.comap {β L L' : Type} {B' : L' → Type} {ε H : Type}
    (env : Surroundings β L' B' ε H) (f : L → L') :
    Surroundings β L (fun l => B' (f l)) ε H where
  late := env.late
  arrives := env.arrives
  answer l := env.answer (f l)
  after
    | .read => env.after .read
    | .write items => env.after (.write items)
    | .host l => env.after (.host (f l))

/-- A line that loses nothing and keeps nothing back, the use of which nothing takes note of. -/
structure Surroundings.Lossless {β L : Type} {B : L → Type} {ε H : Type}
    (env : Surroundings β L B ε H) : Prop where
  late_eq : ∀ h, env.late h = none
  arrives_eq : ∀ h items, env.arrives h items = items
  after_read : ∀ h, env.after .read h = h
  after_write : ∀ h items, env.after (.write items) h = h

theorem Surroundings.Lossless.comap {β L L' : Type} {B' : L' → Type} {ε H : Type}
    {env : Surroundings β L' B' ε H} (h : env.Lossless) (f : L → L') : (env.comap f).Lossless :=
  ⟨h.late_eq, h.arrives_eq, h.after_read, h.after_write⟩

section

variable {β L : Type} {B : L → Type} {ε α γ H : Type}

/-- A program of a station. -/
abbrev LineProgram (β L : Type) (B : L → Type) (ε α : Type) := Program (Port β L) (Port.Answer β B) ε α

/-- The actions of a program, where the actions on the host go by other names. -/
def Port.rename {L' : Type} {B' : L' → Type} (f : L → L') :
    (action : Port β L) → LineProgram β L' B' ε (Port.Answer β (fun l => B' (f l)) action)
  | .read => .act .read .done
  | .write items => .act (.write items) .done
  | .host l => .act (.host (f l)) .done

/-- A program with its surroundings and what it can read. -/
structure Station (β L : Type) (B : L → Type) (ε H α : Type) where
  program : LineProgram β L B ε α
  state : H
  inbox : List β

namespace Station

/-- The next action of a station, with what it sends; there is none at an end and while it waits. -/
def step (env : Surroundings β L B ε H) (s : Station β L B ε H α) :
    Option (Station β L B ε H α × List β) :=
  match s.program with
  | .done _ => none
  | .spin => none
  | .act .read next =>
    match env.late s.state with
    | some e =>
      some ({ program := next (.error e), state := env.after .read s.state, inbox := s.inbox }, [])
    | none =>
      match s.inbox with
      | [] => none
      | item :: rest =>
        some ({ program := next (.ok item), state := env.after .read s.state, inbox := rest }, [])
  | .act (.write items) next =>
    some ({ program := next (.ok ()), state := env.after (.write items) s.state, inbox := s.inbox },
      env.arrives s.state items)
  | .act (.host l) next =>
    some ({ program := next (env.answer l s.state), state := env.after (.host l) s.state,
            inbox := s.inbox }, [])

/-- What arrives waits in the inbox. -/
def deliver (s : Station β L B ε H α) (items : List β) : Station β L B ε H α :=
  { s with inbox := s.inbox ++ items }

@[simp] theorem deliver_program (s : Station β L B ε H α) (items : List β) :
    (s.deliver items).program = s.program := rfl

@[simp] theorem deliver_state (s : Station β L B ε H α) (items : List β) :
    (s.deliver items).state = s.state := rfl

@[simp] theorem deliver_nil (s : Station β L B ε H α) : s.deliver [] = s := by
  simp only [deliver, List.append_nil]

theorem deliver_deliver (s : Station β L B ε H α) (items more : List β) :
    (s.deliver items).deliver more = s.deliver (items ++ more) := by
  simp only [deliver, List.append_assoc]

/-- What waits behind does not change the next action. -/
theorem step_deliver {env : Surroundings β L B ε H} {s s' : Station β L B ε H α} {sent : List β}
    (h : s.step env = some (s', sent)) (items : List β) :
    (s.deliver items).step env = some (s'.deliver items, sent) := by
  obtain ⟨program, state, inbox⟩ := s
  unfold step at h ⊢
  simp only [deliver_program, deliver_state]
  cases program with
  | done result => simp at h
  | spin => simp at h
  | act action next =>
    cases action with
    | write written =>
      obtain ⟨rfl, rfl⟩ := Prod.mk.inj (Option.some.inj h)
      rfl
    | host l =>
      obtain ⟨rfl, rfl⟩ := Prod.mk.inj (Option.some.inj h)
      rfl
    | read =>
      simp only at h ⊢
      cases hlate : env.late state with
      | some e =>
        rw [hlate] at h
        obtain ⟨rfl, rfl⟩ := Prod.mk.inj (Option.some.inj h)
        rfl
      | none =>
        rw [hlate] at h
        cases inbox with
        | nil => simp at h
        | cons item rest =>
          obtain ⟨rfl, rfl⟩ := Prod.mk.inj (Option.some.inj h)
          rfl

/-- A step of a station is an action of its program. -/
theorem runs_of_step {env : Surroundings β L B ε H} {s s' : Station β L B ε H α} {sent : List β}
    (h : s.step env = some (s', sent)) : ∃ t, Program.Runs s.program t s'.program := by
  obtain ⟨program, state, inbox⟩ := s
  unfold step at h
  cases program with
  | done result => simp at h
  | spin => simp at h
  | act action next =>
    cases action with
    | write written =>
      obtain ⟨rfl, rfl⟩ := Prod.mk.inj (Option.some.inj h)
      exact ⟨_, .go (.ok ()) (.stay _)⟩
    | host l =>
      obtain ⟨rfl, rfl⟩ := Prod.mk.inj (Option.some.inj h)
      exact ⟨_, @Program.Runs.go _ _ _ _ (Port.host l) _ (env.answer l state) _ _ (.stay _)⟩
    | read =>
      simp only at h
      cases hlate : env.late state with
      | some e =>
        rw [hlate] at h
        obtain ⟨rfl, rfl⟩ := Prod.mk.inj (Option.some.inj h)
        exact ⟨_, .go (.error e) (.stay _)⟩
      | none =>
        rw [hlate] at h
        cases inbox with
        | nil => simp at h
        | cons item rest =>
          obtain ⟨rfl, rfl⟩ := Prod.mk.inj (Option.some.inj h)
          exact ⟨_, .go (.ok item) (.stay _)⟩

end Station

/-! ## A station by itself -/

/-- Given that input, the program gets as far as another one and sends that. -/
inductive Goes (env : Surroundings β L B ε H) :
    LineProgram β L B ε α → H → List β → List β → LineProgram β L B ε α → H → Prop
  | stay (p : LineProgram β L B ε α) (h : H) : Goes env p h [] [] p h
  | read {next : Except ε β → LineProgram β L B ε α} {q : LineProgram β L B ε α} {h h' : H}
      {item : β} {input sent : List β} (hlate : env.late h = none)
      (hrest : Goes env (next (.ok item)) (env.after .read h) input sent q h') :
      Goes env (.act .read next) h (item :: input) sent q h'
  | late {next : Except ε β → LineProgram β L B ε α} {q : LineProgram β L B ε α} {h h' : H}
      {e : ε} {input sent : List β} (hlate : env.late h = some e)
      (hrest : Goes env (next (.error e)) (env.after .read h) input sent q h') :
      Goes env (.act .read next) h input sent q h'
  | write {items : List β} {next : Except ε Unit → LineProgram β L B ε α}
      {q : LineProgram β L B ε α} {h h' : H} {input sent : List β}
      (hrest : Goes env (next (.ok ())) (env.after (.write items) h) input sent q h') :
      Goes env (.act (.write items) next) h input (env.arrives h items ++ sent) q h'
  | host {l : L} {next : Except ε (B l) → LineProgram β L B ε α} {q : LineProgram β L B ε α}
      {h h' : H} {input sent : List β}
      (hrest : Goes env (next (env.answer l h)) (env.after (.host l) h) input sent q h') :
      Goes env (.act (.host l) next) h input sent q h'

/-- What a program makes of an input: its result, if it ends, and what it leaves. A read at the end
of the input is given up, and an action other than on the line fails. -/
def onInput (late : ε) : LineProgram β L B ε α → List β → Option (Except ε α) × List β
  | .done result, input => (some result, input)
  | .spin, input => (none, input)
  | .act .read next, item :: rest => onInput late (next (.ok item)) rest
  | .act .read next, [] => onInput late (next (.error late)) []
  | .act (.write _) next, input => onInput late (next (.ok ())) input
  | .act (.host _) next, input => onInput late (next (.error late)) input

/-- The surroundings in which an input is read. -/
def Surroundings.reading (late : ε) : Surroundings β L B ε Unit where
  late _ := none
  arrives _ items := items
  answer _ _ := .error late
  after _ _ := ()

namespace Goes

variable {env : Surroundings β L B ε H}

theorem trans {p q r : LineProgram β L B ε α} {h h' h'' : H} {input input' sent sent' : List β}
    (hpq : Goes env p h input sent q h') (hqr : Goes env q h' input' sent' r h'') :
    Goes env p h (input ++ input') (sent ++ sent') r h'' := by
  induction hpq with
  | stay p h => exact hqr
  | read hlate _ ih => exact .read hlate (ih hqr)
  | late hlate _ ih => exact .late hlate (ih hqr)
  | write _ ih =>
    rw [List.append_assoc]
    exact .write (ih hqr)
  | host _ ih => exact .host (ih hqr)

/-- What a program does in some surroundings is one of its runs. -/
theorem runs {p q : LineProgram β L B ε α} {h h' : H} {input sent : List β}
    (hgoes : Goes env p h input sent q h') : ∃ t, Program.Runs p t q := by
  induction hgoes with
  | stay p h => exact ⟨[], .stay p⟩
  | @read _ _ _ _ item _ _ _ _ ih =>
    obtain ⟨t, ht⟩ := ih
    exact ⟨_, .go (.ok item) ht⟩
  | @late _ _ _ _ e _ _ _ _ ih =>
    obtain ⟨t, ht⟩ := ih
    exact ⟨_, .go (.error e) ht⟩
  | write _ ih =>
    obtain ⟨t, ht⟩ := ih
    exact ⟨_, .go (.ok ()) ht⟩
  | @host l _ _ h _ _ _ _ ih =>
    obtain ⟨t, ht⟩ := ih
    exact ⟨_, @Program.Runs.go _ _ _ _ (Port.host l) _ (env.answer l h) _ _ ht⟩

/-- What is read is taken from the front of an input. -/
theorem onInput_eq {late : ε} {p q : LineProgram β L B ε α} {h h' : Unit} {input sent : List β}
    (hgoes : Goes (.reading late) p h input sent q h') (rest : List β) :
    onInput late p (input ++ rest) = onInput late q rest := by
  induction hgoes with
  | stay p h => rfl
  | read hlate _ ih => exact ih
  | late hlate _ ih => cases hlate
  | write _ ih => exact ih
  | host _ ih => exact ih

/-- What a program does, it does when another program follows. -/
theorem bind {p q : LineProgram β L B ε α} {h h' : H} {input sent : List β}
    (hpq : Goes env p h input sent q h') (f : α → LineProgram β L B ε γ) :
    Goes env (p.bind f) h input sent (q.bind f) h' := by
  induction hpq with
  | stay p h => exact .stay _ _
  | read hlate _ ih => exact .read hlate ih
  | late hlate _ ih => exact .late hlate ih
  | write _ ih => exact .write ih
  | host _ ih => exact .host ih

theorem attempt {p q : LineProgram β L B ε α} {h h' : H} {input sent : List β}
    (hpq : Goes env p h input sent q h') : Goes env p.attempt h input sent q.attempt h' := by
  induction hpq with
  | stay p h => exact .stay _ _
  | read hlate _ ih => exact .read hlate ih
  | late hlate _ ih => exact .late hlate ih
  | write _ ih => exact .write ih
  | host _ ih => exact .host ih

/-- A program that returns hands on its result. -/
theorem bind_ok {p : LineProgram β L B ε α} {a : α} {f : α → LineProgram β L B ε γ}
    {q : LineProgram β L B ε γ} {h h' h'' : H} {input input' sent sent' : List β}
    (hp : Goes env p h input sent (.done (.ok a)) h') (hf : Goes env (f a) h' input' sent' q h'') :
    Goes env (p.bind f) h (input ++ input') (sent ++ sent') q h'' :=
  (hp.bind f).trans hf

/-- A program that reads all there is before another one follows. -/
theorem bind_reading {p : LineProgram β L B ε α} {a : α} {f : α → LineProgram β L B ε γ}
    {q : LineProgram β L B ε γ} {h h' h'' : H} {input sent : List β}
    (hp : Goes env p h input [] (.done (.ok a)) h') (hf : Goes env (f a) h' [] sent q h'') :
    Goes env (p.bind f) h input sent q h'' := by
  have hall := hp.bind_ok hf
  rwa [List.append_nil, List.nil_append] at hall

/-- A round of a loop. -/
theorem loop_round {σ : Type} {body : σ → LineProgram β L B ε (σ ⊕ α)} {fuel : Nat} {s : σ}
    {result : Except ε (σ ⊕ α)} {h h' : H} {input sent : List β}
    (hround : Goes env (body s) h input sent (.done result) h') :
    Goes env (Program.loop body (fuel + 1) s) h input sent (Program.afterRound body fuel result)
      h' := by
  rw [Program.loop_succ, ← Program.done_bind_round]
  exact hround.bind _

/-- What a program does with its own names, it does with the other ones. -/
theorem interpret_rename {L' : Type} {B' : L' → Type} {f : L → L'}
    {env : Surroundings β L' B' ε H} {p q : LineProgram β L (fun l => B' (f l)) ε α} {h h' : H}
    {input sent : List β} (hgoes : Goes (env.comap f) p h input sent q h') :
    Goes env (p.interpret (Port.rename f)) h input sent (q.interpret (Port.rename f)) h' := by
  induction hgoes with
  | stay p h => exact .stay _ _
  | read hlate _ ih => exact .read hlate ih
  | late hlate _ ih => exact .late hlate ih
  | write _ ih => exact .write ih
  | host _ ih => exact .host ih

/-- One action of a program in terms of larger actions. -/
theorem interpret_act {A : Type} {C : A → Type} {handler : (a : A) → LineProgram β L B ε (C a)} {a : A}
    {answer : Except ε (C a)} {next : Except ε (C a) → Program A C ε γ} {h h' : H}
    {input sent : List β} (hact : Goes env (handler a) h input sent (.done answer) h') :
    Goes env ((Program.act a next).interpret handler) h input sent
      ((next answer).interpret handler) h' :=
  hact.attempt.bind _

end Goes

end

/-! ## Both stations -/

/-- The surroundings of two stations. -/
structure Network (β L₁ L₂ : Type) (B₁ : L₁ → Type) (B₂ : L₂ → Type) (ε H₁ H₂ : Type) where
  left : Surroundings β L₁ B₁ ε H₁
  right : Surroundings β L₂ B₂ ε H₂

namespace Network

variable {β L₁ L₂ : Type} {B₁ : L₁ → Type} {B₂ : L₂ → Type} {ε H₁ H₂ α₁ α₂ γ₁ γ₂ : Type}

/-- Two stations, where what one sends is in the inbox of the other. -/
structure Config (β L₁ L₂ : Type) (B₁ : L₁ → Type) (B₂ : L₂ → Type)
    (ε H₁ H₂ α₁ α₂ : Type) where
  left : Station β L₁ B₁ ε H₁ α₁
  right : Station β L₂ B₂ ε H₂ α₂

variable (net : Network β L₁ L₂ B₁ B₂ ε H₁ H₂)

/-- Either station takes a step. -/
inductive Step : Config β L₁ L₂ B₁ B₂ ε H₁ H₂ α₁ α₂ → Config β L₁ L₂ B₁ B₂ ε H₁ H₂ α₁ α₂ → Prop
  | left {s s' : Station β L₁ B₁ ε H₁ α₁} {t : Station β L₂ B₂ ε H₂ α₂} {sent : List β}
      (h : s.step net.left = some (s', sent)) : Step ⟨s, t⟩ ⟨s', t.deliver sent⟩
  | right {s : Station β L₁ B₁ ε H₁ α₁} {t t' : Station β L₂ B₂ ε H₂ α₂} {sent : List β}
      (h : t.step net.right = some (t', sent)) : Step ⟨s, t⟩ ⟨s.deliver sent, t'⟩

/-- A run of so many steps. -/
inductive Steps : Nat → Config β L₁ L₂ B₁ B₂ ε H₁ H₂ α₁ α₂ →
    Config β L₁ L₂ B₁ B₂ ε H₁ H₂ α₁ α₂ → Prop
  | none (c : Config β L₁ L₂ B₁ B₂ ε H₁ H₂ α₁ α₂) : Steps 0 c c
  | more {n : Nat} {c d e : Config β L₁ L₂ B₁ B₂ ε H₁ H₂ α₁ α₂} (h : net.Step c d)
      (hrest : Steps n d e) : Steps (n + 1) c e

/-- Some run leads there. -/
def Reaches (c d : Config β L₁ L₂ B₁ B₂ ε H₁ H₂ α₁ α₂) : Prop := ∃ n, net.Steps n c d

/-- No step is possible. -/
def Stuck (c : Config β L₁ L₂ B₁ B₂ ε H₁ H₂ α₁ α₂) : Prop := ∀ d, ¬ net.Step c d

variable {net} {c d e final : Config β L₁ L₂ B₁ B₂ ε H₁ H₂ α₁ α₂}

theorem step_left {s s' : Station β L₁ B₁ ε H₁ α₁} {t : Station β L₂ B₂ ε H₂ α₂}
    (h : s.step net.left = some (s', [])) : net.Step ⟨s, t⟩ ⟨s', t⟩ := by
  have hstep := @Step.left _ _ _ _ _ _ _ _ _ _ net _ _ t _ h
  rwa [Station.deliver_nil] at hstep

theorem step_right {s : Station β L₁ B₁ ε H₁ α₁} {t t' : Station β L₂ B₂ ε H₂ α₂}
    (h : t.step net.right = some (t', [])) : net.Step ⟨s, t⟩ ⟨s, t'⟩ := by
  have hstep := @Step.right _ _ _ _ _ _ _ _ _ _ net s _ _ _ h
  rwa [Station.deliver_nil] at hstep

/-- Steps of different stations can be taken in either order. -/
theorem step_diamond (h : net.Step c d) (h' : net.Step c e) :
    d = e ∨ ∃ f, net.Step d f ∧ net.Step e f := by
  cases h with
  | left h =>
    cases h' with
    | left h' =>
      obtain ⟨rfl, rfl⟩ := Prod.mk.inj (Option.some.inj (h.symm.trans h'))
      exact .inl rfl
    | right h' =>
      exact .inr ⟨_, .right (Station.step_deliver h' _), .left (Station.step_deliver h _)⟩
  | right h =>
    cases h' with
    | left h' =>
      exact .inr ⟨_, .left (Station.step_deliver h' _), .right (Station.step_deliver h _)⟩
    | right h' =>
      obtain ⟨rfl, rfl⟩ := Prod.mk.inj (Option.some.inj (h.symm.trans h'))
      exact .inl rfl

theorem steps_of_step {n : Nat} (h : net.Steps n c final) (hend : net.Stuck final)
    (hstep : net.Step c d) : ∃ m, n = m + 1 ∧ net.Steps m d final := by
  induction h generalizing d with
  | none c => exact absurd hstep (hend d)
  | @more n c e final hfirst hrest ih =>
    rcases step_diamond hfirst hstep with rfl | ⟨f, hef, hdf⟩
    · exact ⟨n, rfl, hrest⟩
    · obtain ⟨m, rfl, hm⟩ := ih hend hef
      exact ⟨m + 1, rfl, .more hdf hm⟩

/-- **When one run ends, every run comes to this end**, and none is longer. -/
theorem steps_to_end {n m : Nat} (h : net.Steps n c final) (hend : net.Stuck final)
    (hrun : net.Steps m c d) : m ≤ n ∧ net.Steps (n - m) d final := by
  induction hrun generalizing n with
  | none c => exact ⟨Nat.zero_le n, h⟩
  | @more m c e d hfirst hrest ih =>
    obtain ⟨k, rfl, hk⟩ := steps_of_step h hend hfirst
    obtain ⟨hle, hsteps⟩ := ih hk
    refine ⟨Nat.succ_le_succ hle, ?_⟩
    rw [Nat.add_sub_add_right]
    exact hsteps

theorem Steps.snoc {n : Nat} (h : net.Steps n c d) (hstep : net.Step d e) :
    net.Steps (n + 1) c e := by
  induction h with
  | none c => exact .more hstep (.none e)
  | more hfirst _ ih => exact .more hfirst (ih hstep)

theorem Reaches.refl (c : Config β L₁ L₂ B₁ B₂ ε H₁ H₂ α₁ α₂) : net.Reaches c c := ⟨0, .none c⟩

theorem Reaches.head (h : net.Step c d) (h' : net.Reaches d e) : net.Reaches c e := by
  obtain ⟨n, hn⟩ := h'
  exact ⟨n + 1, .more h hn⟩

theorem Reaches.trans (h : net.Reaches c d) (h' : net.Reaches d e) : net.Reaches c e := by
  obtain ⟨n, hn⟩ := h
  induction hn with
  | none c => exact h'
  | more hfirst _ ih => exact (ih h').head hfirst

theorem Reaches.to_end (h : net.Reaches c final) (hend : net.Stuck final) (hrun : net.Reaches c d) :
    net.Reaches d final := by
  obtain ⟨n, hn⟩ := h
  obtain ⟨m, hm⟩ := hrun
  exact ⟨n - m, (steps_to_end hn hend hm).2⟩

/-- Two stations that have ended take no step. -/
theorem stuck_of_done {left : Except ε α₁} {right : Except ε α₂} (hleft : c.left.program = .done left)
    (hright : c.right.program = .done right) : net.Stuck c := by
  intro d h
  cases h with
  | @left s s' t sent h =>
    have hnone : s.step net.left = none := by
      simp only [Station.step, show s.program = .done left from hleft]
    exact absurd (h.symm.trans hnone) (by simp)
  | @right s t t' sent h =>
    have hnone : t.step net.right = none := by
      simp only [Station.step, show t.program = .done right from hright]
    exact absurd (h.symm.trans hnone) (by simp)

/-- **What one run ends with, every run ends with**, after no more steps. -/
theorem Reaches.every_run (h : net.Reaches c final) (hend : net.Stuck final) :
    ∃ bound, ∀ n d, net.Steps n c d → n ≤ bound ∧ (net.Stuck d → d = final) := by
  obtain ⟨bound, hbound⟩ := h
  refine ⟨bound, fun n d hrun => ?_⟩
  obtain ⟨hle, hrest⟩ := steps_to_end hbound hend hrun
  refine ⟨hle, fun hstuck => ?_⟩
  generalize bound - n = left at hrest
  cases hrest with
  | none => rfl
  | more hstep _ => exact absurd hstep (hstuck _)

/-- There is a run that ends, when no run is longer than this. -/
theorem exists_stuck {bound : Nat} (hbound : ∀ n d, net.Steps n c d → n ≤ bound) :
    ∃ n d, net.Steps n c d ∧ net.Stuck d := by
  by_contra hnone
  have hlonger : ∀ n, ∃ d, net.Steps n c d := by
    intro n
    induction n with
    | zero => exact ⟨c, .none c⟩
    | succ n ih =>
      obtain ⟨d, hd⟩ := ih
      by_contra hlast
      refine hnone ⟨n, d, hd, fun e hstep => hlast ⟨e, ?_⟩⟩
      exact hd.snoc hstep
  obtain ⟨d, hd⟩ := hlonger (bound + 1)
  exact absurd (hbound _ d hd) (Nat.not_succ_le_self bound)

/-- What the right station has done is a run of its program. -/
theorem Steps.runs_right {n : Nat} (h : net.Steps n c d) :
    ∃ t, Program.Runs c.right.program t d.right.program := by
  induction h with
  | none c => exact ⟨[], .stay _⟩
  | @more n c d e hstep _ ih =>
    obtain ⟨t, ht⟩ := ih
    cases hstep with
    | left h => exact ⟨t, ht⟩
    | @right s station station' sent h =>
      obtain ⟨exchange, hfirst⟩ := Station.runs_of_step h
      exact ⟨exchange ++ t, hfirst.trans ht⟩

/-- A station that has ended stays as it is. -/
theorem Reaches.right_done {result : Except ε α₂} (h : net.Reaches c d)
    (hdone : c.right.program = .done result) :
    d.right.program = .done result ∧ d.right.state = c.right.state := by
  obtain ⟨n, hn⟩ := h
  induction hn with
  | none c => exact ⟨hdone, rfl⟩
  | @more n c d e hstep _ ih =>
    cases hstep with
    | left h => exact ih hdone
    | @right s t t' sent h =>
      have hnone : t.step net.right = none := by
        simp only [Station.step, show t.program = .done result from hdone]
      exact absurd (h.symm.trans hnone) (by simp)

/-- What the left station does by itself is a run. -/
theorem reaches_left {p q : LineProgram β L₁ B₁ ε α₁} {h h' : H₁} {input sent : List β}
    (hgoes : Goes net.left p h input sent q h') (rest : List β)
    (right : Station β L₂ B₂ ε H₂ α₂) :
    net.Reaches ⟨⟨p, h, input ++ rest⟩, right⟩ ⟨⟨q, h', rest⟩, right.deliver sent⟩ := by
  induction hgoes generalizing right with
  | stay p h =>
    rw [Station.deliver_nil]
    exact .refl _
  | read hlate _ ih =>
    refine Reaches.head (step_left ?_) (ih right)
    simp only [Station.step, hlate, List.cons_append]
  | late hlate _ ih =>
    refine Reaches.head (step_left ?_) (ih right)
    simp only [Station.step, hlate]
  | @write items next q h h' input sent _ ih =>
    have hrest := ih (right.deliver (net.left.arrives h items))
    rw [Station.deliver_deliver] at hrest
    exact Reaches.head (.left rfl) hrest
  | host _ ih =>
    exact Reaches.head (step_left rfl) (ih right)

/-- What the right station does by itself is a run. -/
theorem reaches_right {p q : LineProgram β L₂ B₂ ε α₂} {h h' : H₂} {input sent : List β}
    (hgoes : Goes net.right p h input sent q h') (rest : List β)
    (left : Station β L₁ B₁ ε H₁ α₁) :
    net.Reaches ⟨left, ⟨p, h, input ++ rest⟩⟩ ⟨left.deliver sent, ⟨q, h', rest⟩⟩ := by
  induction hgoes generalizing left with
  | stay p h =>
    rw [Station.deliver_nil]
    exact .refl _
  | read hlate _ ih =>
    refine Reaches.head (step_right ?_) (ih left)
    simp only [Station.step, hlate, List.cons_append]
  | late hlate _ ih =>
    refine Reaches.head (step_right ?_) (ih left)
    simp only [Station.step, hlate]
  | @write items next q h h' input sent _ ih =>
    have hrest := ih (left.deliver (net.right.arrives h items))
    rw [Station.deliver_deliver] at hrest
    exact Reaches.head (.right rfl) hrest
  | host _ ih =>
    exact Reaches.head (step_right rfl) (ih left)

end Network

end OxideTerm.Lib
