import OxideTerm.Editor.Properties.Refinement
import OxideTerm.Editor.Properties.Streaming

/-!
# Replacing all matches

Matches may overlap, the edits of a transaction may not. So replacing all matches is refused just when
two of them overlap.
-/

namespace OxideTerm.Editor

open Lib Lib.Text

variable {isAlphanumeric : Char → Bool} {buffer : TextBuffer} {plain : Plain}
  {source query replacement front : List Char} {options : FindOptions} {hits : List FindMatch}
  {n n' : Nat} {shared shared' : Bool}

/-- There is a match at a position. -/
def Matches (isAlphanumeric : Char → Bool) (options : FindOptions) (source query : List Char)
    (n : Nat) : Prop :=
  query ≠ [] ∧ ∃ front behind, source = front ++ behind ∧ byteLength front = n ∧
    isHit isAlphanumeric options query front behind = true

/-- No match begins inside another one. -/
def NoOverlap (isAlphanumeric : Char → Bool) (options : FindOptions) (source query : List Char) :
    Prop :=
  ∀ n n', Matches isAlphanumeric options source query n →
    Matches isAlphanumeric options source query n' → n < n' → n + byteLength query ≤ n'

/-- The range of a match. -/
def rangeAt (query : List Char) (n : Nat) : TextRange := ⟨n, n + byteLength query⟩

theorem matchAt_zero : matchAt 0 query front = ⟨rangeAt query (byteLength front)⟩ := by
  rw [matchAt, Nat.zero_add, Nat.zero_add, TextRange.new_of_le (Nat.le_add_right _ _), rangeAt]

/-- **Search finds the matches**, in their order. -/
theorem findAll_matches (isAlphanumeric : Char → Bool) (source query : List Char)
    (options : FindOptions) :
    ∃ positions : List Nat,
      findAll isAlphanumeric source query options =
        some (positions.map fun n => ⟨rangeAt query n⟩) ∧
      positions.Pairwise (· < ·) ∧
      ∀ n, n ∈ positions ↔ Matches isAlphanumeric options source query n := by
  by_cases hquery : query = []
  · refine ⟨[], by rw [findAll, if_pos hquery]; rfl, .nil, fun n => ?_⟩
    exact ⟨fun h => absurd h List.not_mem_nil, fun h => absurd hquery h.1⟩
  · refine ⟨(occurrences (isHit isAlphanumeric options query) [] source []).map byteLength, ?_, ?_,
      fun n => ?_⟩
    · rw [findAll_eq hquery, hitsOf, List.map_map]
      congr 1
      exact List.map_congr_left fun front _ => matchAt_zero
    · refine List.pairwise_map.mpr (pairwise_occurrences.imp ?_)
      rintro earlier later ⟨ch, between, rfl⟩
      have hpos := ch.utf8Size_pos
      rw [byteLength_append, byteLength_cons]
      omega
    · rw [List.mem_map]
      constructor
      · rintro ⟨front, hfront, rfl⟩
        obtain ⟨passed, ch, ahead, hsource, hpassed, hhit⟩ := mem_occurrences_iff.mp hfront
        rw [List.nil_append] at hpassed
        subst hpassed
        rw [List.append_nil] at hhit
        exact ⟨hquery, front, ch :: ahead, hsource, rfl, hhit⟩
      · rintro ⟨-, front, behind, hsource, rfl, hhit⟩
        cases behind with
        | nil =>
          -- a match is not empty
          rw [isHit, Bool.and_eq_true, isCandidate_iff] at hhit
          obtain ⟨⟨part, rest, hnil, hpart⟩, -⟩ := hhit
          obtain ⟨rfl, -⟩ := List.append_eq_nil_iff.mp hnil.symm
          have hlength := (length_of_fold_eq hpart).1
          exact absurd (List.length_eq_zero_iff.mp hlength.symm) hquery
        | cons ch ahead =>
          refine ⟨front, mem_occurrences_iff.mpr ⟨front, ch, ahead, hsource, rfl, ?_⟩, rfl⟩
          rw [List.append_nil]
          exact hhit

theorem Matches.inText (h : Matches isAlphanumeric options source query n) :
    TextEdit.InText source ⟨rangeAt query n, replacement⟩ := by
  obtain ⟨-, front, behind, rfl, rfl, hhit⟩ := h
  rw [isHit, Bool.and_eq_true, isCandidate_iff] at hhit
  obtain ⟨⟨part, rest, rfl, hpart⟩, -⟩ := hhit
  refine ⟨Nat.le_add_right _ _, ⟨front, part ++ rest, rfl, rfl⟩, front ++ part, rest,
    (List.append_assoc _ _ _).symm, ?_⟩
  rw [← byteLength_eq_weight, byteLength_append, (length_of_fold_eq hpart).2]
  rfl

/-- **The edits are acceptable if and only if no two matches overlap.** -/
theorem acceptable_replaceAll_iff {positions : List Nat} (hsorted : positions.Pairwise (· < ·))
    (hmem : ∀ n, n ∈ positions ↔ Matches isAlphanumeric options source query n) :
    Acceptable source (positions.map fun n => ⟨rangeAt query n, replacement⟩) ↔
      NoOverlap isAlphanumeric options source query := by
  constructor
  · intro h n n' hn hn' hlt
    have hsymm : Std.Symm fun a b : Nat =>
        TextEdit.Apart ⟨rangeAt query a, replacement⟩ ⟨rangeAt query b, replacement⟩ :=
      ⟨fun _ _ hapart => hapart.symm⟩
    have hapart := (List.pairwise_map.mp h.apart).forall ((hmem n).mpr hn) ((hmem n').mpr hn')
      (Nat.ne_of_lt hlt)
    rcases hapart with hbefore | hafter
    · exact hbefore
    · have hafter : n' + byteLength query ≤ n := hafter
      omega
  · intro h
    refine ⟨?_, ?_⟩
    · intro edit hedit
      obtain ⟨n, hn, rfl⟩ := List.mem_map.mp hedit
      exact ((hmem n).mp hn).inText
    · refine List.pairwise_map.mpr (hsorted.imp_of_mem fun {n n'} hn hn' hlt => .inl ?_)
      exact h n n' ((hmem n).mp hn) ((hmem n').mp hn') hlt

/-- Replacing all matches succeeds, and one undo brings the text back. -/
def TextBuffer.ReplacesAll (isAlphanumeric : Char → Bool) (buffer : TextBuffer)
    (shared shared' : Bool) (source query replacement : List Char) (options : FindOptions) :
    Prop :=
  ∃ transaction applied undone result,
    replaceAllTransaction isAlphanumeric source query replacement options = some transaction ∧
    buffer.applyTransaction shared transaction = some (.ok (), applied) ∧
    applied.undo shared' = some (.ok result, undone) ∧ undone.Shows source

theorem TextBuffer.Shows.unique {text text' : List Char} (h : buffer.Shows text)
    (h' : buffer.Shows text') : text = text' := by
  obtain ⟨read, hread⟩ := h.whole
  obtain ⟨read', hread'⟩ := h'.whole
  rw [hread] at hread'
  exact congrArg Prod.fst (Option.some.inj hread')

/-- One undo shows the version in front, or what was there. -/
theorem TextBuffer.Refines.undo_shows_iff (h : buffer.Refines plain) :
    (∃ undone result, buffer.undo shared = some (.ok result, undone) ∧
      undone.Shows plain.current.text) ↔
      ∀ version ∈ plain.undo.head?, version.text = plain.current.text := by
  have hleads := h.undo
  cases hstack : buffer.undoStack with
  | nil =>
    rw [hstack] at hleads
    rw [hleads.nil]
    refine ⟨fun _ version hversion => absurd hversion (by simp), fun _ => ?_⟩
    exact ⟨buffer, false, by rw [TextBuffer.undo, hstack], h.holds.shows⟩
  | cons entry entries =>
    rw [hstack] at hleads
    obtain ⟨version, versions, hversions, ⟨inverse, hexchange⟩, -⟩ := hleads.cons
    obtain ⟨redo, undone, hrun, -, hholds, -⟩ := h.holds.undo shared hstack hexchange
    rw [hrun, hversions]
    constructor
    · rintro ⟨undone, result, heq, hshows⟩ version' hversion'
      cases heq
      obtain rfl : version = version' := Option.some.inj hversion'
      exact hholds.shows.unique hshows
    · intro hsame
      refine ⟨undone, true, rfl, ?_⟩
      rw [← hsame version rfl]
      exact hholds.shows

theorem TextBuffer.Refines.replacesAll_iff (h : buffer.Refines plain) :
    buffer.ReplacesAll isAlphanumeric shared shared' plain.current.text query replacement options ↔
      NoOverlap isAlphanumeric options plain.current.text query ∧
      ((∃ n, Matches isAlphanumeric options plain.current.text query n) ∨
        ∀ version ∈ plain.undo.head?, version.text = plain.current.text) := by
  obtain ⟨positions, hfind, hsorted, hmem⟩ :=
    findAll_matches isAlphanumeric plain.current.text query options
  have hacceptable := @acceptable_replaceAll_iff isAlphanumeric plain.current.text query replacement
    options positions hsorted hmem
  have htransaction : replaceAllTransaction isAlphanumeric plain.current.text query replacement
      options = some ⟨positions.map fun n => ⟨rangeAt query n, replacement⟩⟩ := by
    rw [replaceAllTransaction, hfind, Option.map_some, List.map_map]
    rfl
  have hiff : buffer.ReplacesAll isAlphanumeric shared shared' plain.current.text query replacement
      options ↔ ∃ applied undone result,
        buffer.applyTransaction shared ⟨positions.map fun n => ⟨rangeAt query n, replacement⟩⟩ =
          some (.ok (), applied) ∧
        applied.undo shared' = some (.ok result, undone) ∧ undone.Shows plain.current.text := by
    rw [TextBuffer.ReplacesAll, htransaction]
    constructor
    · rintro ⟨transaction, applied, undone, result, heq, hrest⟩
      cases heq
      exact ⟨applied, undone, result, hrest⟩
    · rintro ⟨applied, undone, result, hrest⟩
      exact ⟨_, applied, undone, result, rfl, hrest⟩
  rw [hiff]
  cases hpositions : positions with
  | nil =>
    -- nothing is found: the transaction is empty, and undo meets an older entry
    have hnone : ∀ n, ¬ Matches isAlphanumeric options plain.current.text query n := by
      intro n hn
      rw [← hmem, hpositions] at hn
      exact absurd hn List.not_mem_nil
    have happly : buffer.applyTransaction shared ⟨[]⟩ = some (.ok (), buffer) := rfl
    rw [List.map_nil, happly]
    rw [show (∃ n, Matches isAlphanumeric options plain.current.text query n) ↔ False from
      ⟨fun ⟨n, hn⟩ => hnone n hn, False.elim⟩, false_or, ← @undo_shows_iff _ _ shared' h]
    constructor
    · rintro ⟨applied, undone, result, heq, hrest⟩
      cases heq
      exact ⟨fun n _ hn => absurd hn (hnone n), undone, result, hrest⟩
    · rintro ⟨-, undone, result, hrest⟩
      exact ⟨buffer, undone, result, rfl, hrest⟩
  | cons n rest =>
    have hsome : ∃ n, Matches isAlphanumeric options plain.current.text query n :=
      ⟨n, (hmem n).mp (hpositions ▸ List.mem_cons_self)⟩
    rw [← hpositions, ← hacceptable]
    have hne : (⟨positions.map fun n => ⟨rangeAt query n, replacement⟩⟩ : EditTransaction).edits ≠
        [] := by simp [hpositions]
    rcases h.holds.applyTransaction_cases shared hne with
      ⟨text', applied, inverse, hedited, hrun, haccepted⟩ | ⟨hno, error, applied, hrun, -⟩
    · refine ⟨fun _ => ⟨hedited.acceptable, .inl hsome⟩, fun _ => ?_⟩
      obtain ⟨redo, undone, hundo, -, hholds, -⟩ :=
        haccepted.holds.undo shared' haccepted.undoStack haccepted.exchange.symm
      exact ⟨applied, undone, true, hrun, hundo, hholds.shows⟩
    · refine ⟨?_, fun hyes => absurd hyes.1 hno⟩
      rintro ⟨applied', undone, result, heq, -⟩
      rw [hrun] at heq
      cases heq

/-- **Replace-all applies if and only if no two matches overlap**, and one undo takes it back if it
did anything; where nothing is found, the undo meets the version before. -/
theorem replaceAll_applies_iff (isAlphanumeric : Char → Bool) (text : List Char)
    (operations : List Operation) : ∃ opened buffer plain, TextBuffer.new text = some opened ∧
      opened.run operations = some buffer ∧ (Plain.opened text).Run operations plain ∧
      ∀ query replacement options shared shared',
        buffer.ReplacesAll isAlphanumeric shared shared' plain.current.text query replacement
            options ↔
          NoOverlap isAlphanumeric options plain.current.text query ∧
          ((∃ n, Matches isAlphanumeric options plain.current.text query n) ∨
            ∀ version ∈ plain.undo.head?, version.text = plain.current.text) := by
  obtain ⟨opened, hopened, hrefines, -⟩ := TextBuffer.opened text
  obtain ⟨buffer, plain, hrun, hplain, hrefines', -⟩ :=
    @TextBuffer.Refines.run _ _ operations (fun _ _ _ => True) (fun _ _ => trivial) hrefines trivial
  exact ⟨opened, buffer, plain, hopened, hrun, hplain,
    fun _ _ _ _ _ => hrefines'.replacesAll_iff⟩

/-- The second match of `aa` in `aaa` begins inside the first. -/
theorem replaceAll_refuses_overlap : ¬ ∀ (isAlphanumeric : Char → Bool)
    (source query replacement : List Char) (options : FindOptions) (shared shared' : Bool),
      ∃ buffer, TextBuffer.new source = some buffer ∧
        buffer.ReplacesAll isAlphanumeric shared shared' source query replacement options := by
  intro h
  obtain ⟨buffer, hnew, hreplaces⟩ :=
    h (fun _ => false) ['a', 'a', 'a'] ['a', 'a'] ['b'] ⟨true, false⟩ false false
  obtain ⟨opened, hopened, hrefines, -⟩ := TextBuffer.opened ['a', 'a', 'a']
  obtain rfl : opened = buffer := Option.some.inj (hopened.symm.trans hnew)
  have hoverlap := (hrefines.replacesAll_iff.mp hreplaces).1 0 1
    ⟨by simp, [], ['a', 'a', 'a'], rfl, rfl, by decide⟩
    ⟨by simp, ['a'], ['a', 'a'], rfl, by decide, by decide⟩ Nat.zero_lt_one
  exact absurd hoverlap (by decide)

end OxideTerm.Editor
