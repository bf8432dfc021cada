import Mathlib.Data.List.Induction

/-!
# Labelled machines and their runs

A machine has one initial state and, for every label, the next state and what is
observed. A component with several entry points is one machine whose labels are the
calls. Whatever the environment decides (the bytes that arrive, the clock) is in the label,
so a run is a list of labels.

`run_invariant` packages the induction over runs once: a relation between the state and the
trace so far that holds initially and is kept by every step holds after every run.
-/

namespace OxideTerm.Lib

universe u v w

/-- A deterministic labelled machine. -/
structure Machine (σ : Type u) (ι : Type v) (ο : Type w) where
  init : σ
  step : σ → ι → σ × ο

/-- One step of a run, with the states on both sides. -/
structure Event (σ : Type u) (ι : Type v) (ο : Type w) where
  pre : σ
  label : ι
  output : ο
  post : σ

namespace Machine

variable {σ : Type u} {ι : Type v} {ο : Type w} (m : Machine σ ι ο)

/-- The event of taking the step labelled `i` from `s`. -/
def event (s : σ) (i : ι) : Event σ ι ο :=
  { pre := s, label := i, output := (m.step s i).2, post := (m.step s i).1 }

@[simp] theorem event_pre (s : σ) (i : ι) : (m.event s i).pre = s := rfl
@[simp] theorem event_label (s : σ) (i : ι) : (m.event s i).label = i := rfl
@[simp] theorem event_output (s : σ) (i : ι) : (m.event s i).output = (m.step s i).2 := rfl
@[simp] theorem event_post (s : σ) (i : ι) : (m.event s i).post = (m.step s i).1 := rfl

/-- The state and the trace after a list of labels. -/
def run (labels : List ι) : σ × List (Event σ ι ο) :=
  labels.foldl (fun acc i => ((m.step acc.1 i).1, acc.2 ++ [m.event acc.1 i])) (m.init, [])

/-- The state a run ends in. -/
def final (labels : List ι) : σ := (m.run labels).1

/-- The events of a run, oldest first. -/
def trace (labels : List ι) : List (Event σ ι ο) := (m.run labels).2

@[simp] theorem final_nil : m.final [] = m.init := rfl
@[simp] theorem trace_nil : m.trace [] = [] := rfl

theorem final_snoc (labels : List ι) (i : ι) :
    m.final (labels ++ [i]) = (m.step (m.final labels) i).1 := by
  simp [final, run]

theorem trace_snoc (labels : List ι) (i : ι) :
    m.trace (labels ++ [i]) = m.trace labels ++ [m.event (m.final labels) i] := by
  simp [trace, final, run]

theorem final_append (xs ys : List ι) :
    m.final (xs ++ ys) = ys.foldl (fun s i => (m.step s i).1) (m.final xs) := by
  induction ys using List.reverseRecOn with
  | nil => simp
  | append_singleton ys i ih =>
    rw [← List.append_assoc, final_snoc, ih, List.foldl_append, List.foldl_cons, List.foldl_nil]

/-- What happened in the first part of a run stays in its trace. -/
theorem mem_trace_append {xs : List ι} {e : Event σ ι ο} (h : e ∈ m.trace xs) (ys : List ι) :
    e ∈ m.trace (xs ++ ys) := by
  induction ys using List.reverseRecOn with
  | nil => simpa using h
  | append_singleton ys i ih =>
    rw [← List.append_assoc, trace_snoc]
    exact List.mem_append_left _ ih

/-! ## Constrained runs -/

/-- Every step of the run is taken in a state, after a past and under a label that meet `C`. -/
def AlongTrace (C : σ → List (Event σ ι ο) → ι → Prop) (labels : List ι) : Prop :=
  ∀ pre i post, labels = pre ++ i :: post → C (m.final pre) (m.trace pre) i

/-- Every step of the run is taken in a state and under a label that meet `C`. -/
def Along (C : σ → ι → Prop) (labels : List ι) : Prop := m.AlongTrace (fun s _ i => C s i) labels

@[simp] theorem alongTrace_nil (C : σ → List (Event σ ι ο) → ι → Prop) : m.AlongTrace C [] := by
  intro pre i post h
  simp at h

theorem alongTrace_snoc {C : σ → List (Event σ ι ο) → ι → Prop} {labels : List ι} {i : ι} :
    m.AlongTrace C (labels ++ [i]) ↔
      m.AlongTrace C labels ∧ C (m.final labels) (m.trace labels) i := by
  constructor
  · intro h
    refine ⟨fun pre j post hj => h pre j (post ++ [i]) (by simp [hj]), h labels i [] rfl⟩
  · rintro ⟨h, hi⟩ pre j post hj
    rcases List.eq_nil_or_concat post with rfl | ⟨rest, k, rfl⟩
    · obtain ⟨rfl, hij⟩ := List.append_inj' hj rfl
      obtain rfl : i = j := by simpa using hij
      exact hi
    · have hsplit : labels ++ [i] = (pre ++ j :: rest) ++ [k] := by simpa using hj
      obtain ⟨hl, -⟩ := List.append_inj' hsplit rfl
      exact h pre j rest hl

@[simp] theorem along_nil (C : σ → ι → Prop) : m.Along C [] := m.alongTrace_nil _

theorem along_snoc {C : σ → ι → Prop} {labels : List ι} {i : ι} :
    m.Along C (labels ++ [i]) ↔ m.Along C labels ∧ C (m.final labels) i := m.alongTrace_snoc

/-- The first part of a constrained run is constrained. -/
theorem along_append {C : σ → ι → Prop} {xs ys : List ι} (h : m.Along C (xs ++ ys)) :
    m.Along C xs := fun pre i post hpre => h pre i (post ++ ys) (by simp [hpre])

theorem along_of_forall {C : σ → ι → Prop} (h : ∀ s i, C s i) (labels : List ι) :
    m.Along C labels := fun _ _ _ _ => h _ _

/--
**Induction over constrained runs.**

The relation may speak of the trace: what it says about the past is carried along with what
it says about the state.
-/
theorem run_invariant_alongTrace {C : σ → List (Event σ ι ο) → ι → Prop}
    {P : σ → List (Event σ ι ο) → Prop} (hinit : P m.init [])
    (hstep : ∀ s tr i, P s tr → C s tr i → P (m.step s i).1 (tr ++ [m.event s i]))
    {labels : List ι} (h : m.AlongTrace C labels) : P (m.final labels) (m.trace labels) := by
  induction labels using List.reverseRecOn with
  | nil => exact hinit
  | append_singleton labels i ih =>
    obtain ⟨hl, hi⟩ := m.alongTrace_snoc.mp h
    rw [final_snoc, trace_snoc]
    exact hstep _ _ i (ih hl) hi

theorem run_invariant_along {C : σ → ι → Prop} {P : σ → List (Event σ ι ο) → Prop}
    (hinit : P m.init [])
    (hstep : ∀ s tr i, P s tr → C s i → P (m.step s i).1 (tr ++ [m.event s i]))
    {labels : List ι} (h : m.Along C labels) : P (m.final labels) (m.trace labels) :=
  m.run_invariant_alongTrace hinit hstep h

/-- Induction over all runs. -/
theorem run_invariant {P : σ → List (Event σ ι ο) → Prop} (hinit : P m.init [])
    (hstep : ∀ s tr i, P s tr → P (m.step s i).1 (tr ++ [m.event s i])) (labels : List ι) :
    P (m.final labels) (m.trace labels) :=
  m.run_invariant_along (C := fun _ _ => True) hinit (fun s tr i hp _ => hstep s tr i hp)
    (m.along_of_forall (fun _ _ => trivial) labels)

/-- A property of the state alone that every step keeps. -/
theorem final_invariant {P : σ → Prop} (hinit : P m.init)
    (hstep : ∀ s i, P s → P (m.step s i).1) (labels : List ι) : P (m.final labels) :=
  m.run_invariant (P := fun s _ => P s) hinit (fun s _ i => hstep s i) labels

/-- Every event of a run is a step of the machine, taken from the state a prefix ends in. -/
theorem mem_trace {labels : List ι} {e : Event σ ι ο} (h : e ∈ m.trace labels) :
    ∃ pre i post, labels = pre ++ i :: post ∧ e = m.event (m.final pre) i := by
  induction labels using List.reverseRecOn with
  | nil => simp at h
  | append_singleton labels i ih =>
    rw [trace_snoc, List.mem_append] at h
    rcases h with h | h
    · obtain ⟨pre, j, post, hl, he⟩ := ih h
      exact ⟨pre, j, post ++ [i], by simp [hl], he⟩
    · exact ⟨labels, i, [], rfl, by simpa using h⟩

/-- The step after a prefix of a run is an event of the run. -/
theorem event_mem_trace (pre : List ι) (i : ι) (post : List ι) :
    m.event (m.final pre) i ∈ m.trace (pre ++ i :: post) := by
  have h : m.event (m.final pre) i ∈ m.trace (pre ++ [i]) := by
    rw [trace_snoc]
    exact List.mem_append_right _ List.mem_cons_self
  rw [List.append_cons]
  exact m.mem_trace_append h post

end Machine

end OxideTerm.Lib
