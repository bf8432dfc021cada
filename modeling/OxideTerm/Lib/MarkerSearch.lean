import Mathlib.Data.List.Infix

/-!
# Searching a stream for a marker

A marker whose first symbol occurs nowhere else in it can be searched for without going back: what
has matched so far is released as soon as the next symbol does not fit, and the search goes on with
that symbol. A search that is interrupted is described by the number of symbols that have matched;
it stands for these symbols (`scan_resume`).
-/

namespace OxideTerm.Lib

/-- A marker. -/
structure Marker (α : Type) where
  first : α
  others : List α
  /-- The marker cannot start within itself. -/
  apart : first ∉ others

namespace Marker

variable {α : Type} {m : Marker α}

def symbols (m : Marker α) : List α := m.first :: m.others

theorem symbols_zero : m.symbols[0]? = some m.first := rfl

/-- No symbol but the first is like the first. -/
theorem symbols_ne_first {k : Nat} (h : m.symbols[k + 1]? = some m.first) : False :=
  m.apart (List.mem_of_getElem? (show m.others[k]? = some m.first from h))

/-- How a search goes: the symbols that are not part of the marker, and what follows it or how much
of it has matched at the end. -/
inductive Scan (α : Type) where
  | found (released rest : List α)
  | pending (released : List α) (matched : Nat)
deriving DecidableEq

def Scan.release (front : List α) : Scan α → Scan α
  | found released rest => found (front ++ released) rest
  | pending released matched => pending (front ++ released) matched

@[simp] theorem release_nil (s : Scan α) : s.release [] = s := by
  cases s <;> rfl

theorem release_release (x y : List α) (s : Scan α) :
    (s.release y).release x = s.release (x ++ y) := by
  cases s <;> simp [Scan.release]

variable [DecidableEq α]

/-- Searches with so many symbols matched. -/
def scan (m : Marker α) : Nat → List α → Scan α
  | k, [] => .pending [] k
  | k, a :: rest =>
    if m.symbols[k]? = some a then
      if k + 1 = m.symbols.length then .found [] rest else scan m (k + 1) rest
    else if a = m.first then (scan m 1 rest).release (m.symbols.take k)
    else (scan m 0 rest).release (m.symbols.take k ++ [a])

theorem scan_match {k : Nat} {a : α} (h : m.symbols[k]? = some a) (hk : k + 1 < m.symbols.length)
    (rest : List α) : m.scan k (a :: rest) = m.scan (k + 1) rest := by
  rw [scan, if_pos h, if_neg (by omega)]

theorem scan_last {k : Nat} {a : α} (h : m.symbols[k]? = some a) (hk : k + 1 = m.symbols.length)
    (rest : List α) : m.scan k (a :: rest) = .found [] rest := by
  rw [scan, if_pos h, if_pos hk]

/-- A symbol that does not fit is searched anew. -/
theorem scan_mismatch {k : Nat} {a : α} (h : m.symbols[k]? ≠ some a) (hk : 1 < m.symbols.length)
    (rest : List α) : m.scan k (a :: rest) = (m.scan 0 (a :: rest)).release (m.symbols.take k) := by
  by_cases hfirst : a = m.first
  · subst hfirst
    rw [scan, if_neg h, if_pos rfl, scan_match symbols_zero hk]
  · have hzero : m.symbols[0]? ≠ some a := fun hsome =>
      hfirst (Option.some.inj (symbols_zero.symm.trans hsome)).symm
    rw [scan, if_neg h, if_neg hfirst, scan, if_neg hzero, if_neg hfirst, release_release]
    rfl

/-- **What has matched stands for itself.** -/
theorem scan_resume {k : Nat} (hk : k < m.symbols.length) (rest : List α) :
    m.scan 0 (m.symbols.take k ++ rest) = m.scan k rest := by
  suffices h : ∀ n i, i + n = k → m.scan i ((m.symbols.drop i).take n ++ rest) = m.scan k rest from
    h k 0 (Nat.zero_add k)
  intro n
  induction n with
  | zero =>
    intro i hi
    rw [List.take_zero, List.nil_append, ← hi, Nat.add_zero]
  | succ n ih =>
    intro i hi
    have hlt : i < m.symbols.length := by omega
    rw [List.drop_eq_getElem_cons hlt, List.take_succ_cons, List.cons_append,
      scan_match (List.getElem?_eq_getElem hlt) (by omega)]
    exact ih (i + 1) (by omega)

/-- The marker itself is found. -/
theorem scan_symbols (rest : List α) : m.scan 0 (m.symbols ++ rest) = .found [] rest := by
  obtain ⟨k, hk⟩ : ∃ k, m.symbols.length = k + 1 := ⟨m.others.length, rfl⟩
  have hsplit : m.symbols ++ rest = m.symbols.take k ++ (m.symbols[k] :: rest) := by
    conv_lhs => rw [← List.take_append_drop k m.symbols, List.drop_eq_getElem_cons (by omega),
      List.drop_eq_nil_of_le (by omega), List.append_assoc]
    rfl
  rw [hsplit, scan_resume (by omega), scan_last (List.getElem?_eq_getElem (by omega)) hk.symm]

/-- A start of the marker is kept back. -/
theorem scan_prefix {h : List α} (hstarts : h <+: m.symbols) (hne : h ≠ m.symbols) :
    m.scan 0 h = .pending [] h.length := by
  have hlt : h.length < m.symbols.length :=
    lt_of_le_of_ne hstarts.length_le fun hlength => hne (hstarts.eq_of_length hlength)
  have htake : h = m.symbols.take h.length := List.prefix_iff_eq_take.mp hstarts
  have hresume := scan_resume hlt (m := m) []
  rw [← htake, List.append_nil] at hresume
  rw [hresume, scan]

/-- Where so much of the marker stands before symbols that go on in another way, the marker does
not start. -/
theorem scan_diverge :
    (s : List α) → (k : Nat) → 0 < k → k < m.symbols.length → ¬ m.symbols.drop k <+: s →
      ¬ s <+: m.symbols.drop k → m.scan k s = (m.scan 0 s).release (m.symbols.take k)
  | [], k, _, _, _, hs => absurd (List.nil_prefix) hs
  | a :: s, k, hpos, hk, hd, hs => by
    by_cases hmatch : m.symbols[k]? = some a
    · have hdrop : m.symbols.drop k = a :: m.symbols.drop (k + 1) := by
        rw [List.drop_eq_getElem_cons hk]
        congr 1
        exact Option.some.inj ((List.getElem?_eq_getElem hk).symm.trans hmatch)
      rw [hdrop, List.cons_prefix_cons] at hd hs
      have hd' : ¬ m.symbols.drop (k + 1) <+: s := fun h => hd ⟨rfl, h⟩
      have hs' : ¬ s <+: m.symbols.drop (k + 1) := fun h => hs ⟨rfl, h⟩
      have hk' : k + 1 < m.symbols.length := by
        by_contra hge
        rw [List.drop_eq_nil_of_le (by omega)] at hd'
        exact hd' List.nil_prefix
      obtain ⟨j, rfl⟩ : ∃ j, k = j + 1 := ⟨k - 1, by omega⟩
      have hfirst : a ≠ m.first := by
        rintro rfl
        exact symbols_ne_first hmatch
      have hzero : m.symbols[0]? ≠ some a := fun hsome =>
        hfirst (Option.some.inj (symbols_zero.symm.trans hsome)).symm
      rw [scan_match hmatch hk', scan_diverge s (j + 1 + 1) (by omega) hk' hd' hs']
      conv_rhs => rw [scan, if_neg hzero, if_neg hfirst, release_release]
      rw [List.take_zero, List.nil_append, List.take_add_one, hmatch]
      rfl
    · exact scan_mismatch hmatch (by omega) s

/-- **A symbol at which the marker does not start is released.** -/
theorem scan_cons {a : α} {s : List α} (hlong : 1 < m.symbols.length)
    (hstart : ¬ m.symbols <+: a :: s) (hheld : ¬ a :: s <+: m.symbols) :
    m.scan 0 (a :: s) = (m.scan 0 s).release [a] := by
  by_cases hfirst : a = m.first
  · subst hfirst
    rw [scan_match symbols_zero hlong]
    refine (scan_diverge s 1 Nat.one_pos hlong ?_ ?_).trans rfl
    · exact fun h => hstart (List.cons_prefix_cons.mpr ⟨rfl, h⟩)
    · exact fun h => hheld (List.cons_prefix_cons.mpr ⟨rfl, h⟩)
  · have hzero : m.symbols[0]? ≠ some a := fun hsome =>
      hfirst (Option.some.inj (symbols_zero.symm.trans hsome)).symm
    rw [scan, if_neg hzero, if_neg hfirst]
    rfl

/-- Symbols at which the marker does not start are released. -/
theorem scan_append (hlong : 1 < m.symbols.length) :
    (x s : List α) →
      (∀ y z, x = y ++ z → z ≠ [] → ¬ m.symbols <+: z ++ s ∧ ¬ z ++ s <+: m.symbols) →
        m.scan 0 (x ++ s) = (m.scan 0 s).release x
  | [], s, _ => by simp
  | a :: x, s, h => by
    obtain ⟨hstart, hheld⟩ := h [] (a :: x) rfl (by simp)
    have hcons : m.scan 0 (a :: x ++ s) = (m.scan 0 (x ++ s)).release [a] :=
      scan_cons hlong hstart hheld
    rw [hcons, scan_append hlong x s fun y z hyz hz => h (a :: y) z (by rw [hyz]; rfl) hz, release_release]
    rfl

end Marker

end OxideTerm.Lib
