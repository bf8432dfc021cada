import OxideTerm.Lib.Utf8

/-!
# Lower case

`str::to_lowercase`, over the tables of Unicode. Only the capital sigma depends on what stands around
it. What is in lower case stays as it is, and marks and white space come from themselves alone.
-/

namespace OxideTerm.Lib

open Text

/-- The tables, and what is relied on of them. -/
structure Casing where
  lower : Char → List Char
  cased : Char → Bool
  caseIgnorable : Char → Bool
  nonempty : ∀ c, lower c ≠ []
  settled : ∀ c, ∀ x ∈ lower c, lower x = [x] ∧ x ≠ 'Σ'
  sigma : lower 'σ' = ['σ']
  finalSigma : lower 'ς' = ['ς']
  ascii : ∀ c, c.toNat < 128 → lower c = [c.toLower]
  mark : ∀ c, ∀ x ∈ lower c, x.toNat < 128 → x.isAlpha = false → x = c
  whitespace : ∀ c, ∀ x ∈ lower c, isWhitespace x = true → x = c

namespace Casing

variable (casing : Casing)

def caseIgnorableThenCased (text : List Char) : Bool :=
  match text.dropWhile casing.caseIgnorable with
  | c :: _ => casing.cased c
  | [] => false

/-- A small sigma, between what is in front of it, backwards, and what follows. -/
def mapUppercaseSigma (front rest : List Char) : Char :=
  if casing.caseIgnorableThenCased front && !casing.caseIgnorableThenCased rest then 'ς' else 'σ'

def toLowercaseFrom (front : List Char) : List Char → List Char
  | [] => []
  | c :: rest =>
    (if c = 'Σ' then [casing.mapUppercaseSigma front rest] else casing.lower c) ++
      toLowercaseFrom (c :: front) rest

def toLowercase (text : List Char) : List Char := casing.toLowercaseFrom [] text

/-! ## What is in lower case -/

def Settled (c : Char) : Prop := casing.lower c = [c] ∧ c ≠ 'Σ'

variable {casing}

theorem settled_mapUppercaseSigma (front rest : List Char) :
    casing.Settled (casing.mapUppercaseSigma front rest) := by
  rw [mapUppercaseSigma]
  split
  · exact ⟨casing.finalSigma, by decide⟩
  · exact ⟨casing.sigma, by decide⟩

theorem settled_of_mem_from : ∀ (text front : List Char), ∀ c ∈ casing.toLowercaseFrom front text,
    casing.Settled c
  | [], _, c, hc => by cases hc
  | x :: text, front, c, hc => by
    rcases List.mem_append.mp hc with hc | hc
    · split at hc
      · rw [List.mem_singleton.mp hc]
        exact settled_mapUppercaseSigma _ _
      · exact casing.settled x c hc
    · exact settled_of_mem_from text _ c hc

theorem settled_of_mem {text : List Char} {c : Char} (hc : c ∈ casing.toLowercase text) :
    casing.Settled c := settled_of_mem_from text [] c hc

theorem toLowercaseFrom_eq_self : ∀ (text front : List Char), (∀ c ∈ text, casing.Settled c) →
    casing.toLowercaseFrom front text = text
  | [], _, _ => rfl
  | c :: text, front, h => by
    obtain ⟨hc, htext⟩ := List.forall_mem_cons.mp h
    rw [toLowercaseFrom, if_neg hc.2, hc.1, toLowercaseFrom_eq_self text _ htext,
      List.singleton_append]

theorem toLowercase_eq_self {text : List Char} (h : ∀ c ∈ text, casing.Settled c) :
    casing.toLowercase text = text := toLowercaseFrom_eq_self text [] h

/-- **Lower case is reached at once.** -/
theorem toLowercase_toLowercase (text : List Char) :
    casing.toLowercase (casing.toLowercase text) = casing.toLowercase text :=
  toLowercase_eq_self fun _ => settled_of_mem

/-! ## Marks -/

theorem settled_of_ascii {c : Char} (hc : c.toNat < 128) (hlower : c.toLower = c) :
    casing.Settled c := by
  refine ⟨by rw [casing.ascii c hc, hlower], ?_⟩
  rintro rfl
  exact absurd hc (by decide)

/-- What is neither a letter nor a sigma comes from itself. -/
theorem mem_of_mem_from {c : Char} (hc : ∀ x, c ∈ casing.lower x → c = x) (hs : c ≠ 'σ')
    (hf : c ≠ 'ς') : ∀ (text front : List Char), c ∈ casing.toLowercaseFrom front text → c ∈ text
  | [], _, h => by cases h
  | x :: text, front, h => by
    rcases List.mem_append.mp h with h | h
    · split at h
      · rw [List.mem_singleton, mapUppercaseSigma] at h
        split at h
        · exact absurd h hf
        · exact absurd h hs
      · rw [hc x h]
        exact List.mem_cons_self
    · exact List.mem_cons_of_mem x (mem_of_mem_from hc hs hf text _ h)

theorem mem_of_mark {c : Char} {text : List Char} (hc : c.toNat < 128) (halpha : c.isAlpha = false)
    (h : c ∈ casing.toLowercase text) : c ∈ text := by
  refine mem_of_mem_from (fun x hx => casing.mark x c hx hc halpha) ?_ ?_ text [] h
  · rintro rfl
    exact absurd hc (by decide)
  · rintro rfl
    exact absurd hc (by decide)

theorem mem_of_whitespace {c : Char} {text : List Char} (hc : isWhitespace c = true)
    (h : c ∈ casing.toLowercase text) : c ∈ text := by
  refine mem_of_mem_from (fun x hx => casing.whitespace x c hx hc) ?_ ?_ text [] h
  · rintro rfl
    exact absurd hc (by decide)
  · rintro rfl
    exact absurd hc (by decide)

end Casing

end OxideTerm.Lib
