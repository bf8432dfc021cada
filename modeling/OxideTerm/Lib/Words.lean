import OxideTerm.Lib.Separated
import OxideTerm.Lib.Utf8

/-!
# Words and lines

`str::split_whitespace`, `str::trim` and `str::lines`.
-/

namespace OxideTerm.Lib.Text

/-! ## Words -/

/-- `str::split_whitespace`. -/
def splitWhitespace (text : List Char) : List (List Char) :=
  (text.splitOnP isWhitespace).filter fun word => !word.isEmpty

/-- `str::trim`. -/
def trim (text : List Char) : List Char :=
  (text.dropWhile isWhitespace).rdropWhile isWhitespace

/-- A word has no white space and is not empty. -/
def IsWord (word : List Char) : Prop := word ≠ [] ∧ ∀ c ∈ word, isWhitespace c = false

@[simp] theorem splitWhitespace_nil : splitWhitespace [] = [] := rfl

theorem splitWhitespace_append {c : Char} (hc : isWhitespace c = true) (a b : List Char) :
    splitWhitespace (a ++ c :: b) = splitWhitespace a ++ splitWhitespace b := by
  rw [splitWhitespace, List.splitOnP_append_cons _ _ hc, List.filter_append]
  rfl

theorem splitWhitespace_cons {c : Char} (hc : isWhitespace c = true) (text : List Char) :
    splitWhitespace (c :: text) = splitWhitespace text :=
  splitWhitespace_append hc [] text

theorem splitWhitespace_word {word : List Char} (h : IsWord word) :
    splitWhitespace word = [word] := by
  rw [splitWhitespace, List.splitOnP_eq_singleton h.2]
  obtain ⟨c, rest, rfl⟩ := List.exists_cons_of_ne_nil h.1
  rfl

theorem splitWhitespace_of_forall {word : List Char} (h : ∀ c ∈ word, isWhitespace c = false) :
    splitWhitespace word = if word = [] then [] else [word] := by
  split
  · next hword =>
    rw [hword]
    rfl
  · next hword => exact splitWhitespace_word ⟨hword, h⟩

/-- The words of a text with blanks between them, as far as they are not empty. -/
theorem splitWhitespace_intercalate : ∀ {words : List (List Char)},
    (∀ word ∈ words, ∀ c ∈ word, isWhitespace c = false) →
      splitWhitespace ([' '].intercalate words) = words.filter fun word => !word.isEmpty
  | [], _ => rfl
  | [word], h => by
    rw [List.intercalate_singleton, splitWhitespace_of_forall (h word List.mem_cons_self)]
    cases word <;> rfl
  | word :: next :: words, h => by
    obtain ⟨hword, hwords⟩ := List.forall_mem_cons.mp h
    rw [List.intercalate_cons_of_ne_nil (List.cons_ne_nil _ _), List.append_assoc,
      List.singleton_append, splitWhitespace_append (by decide),
      splitWhitespace_intercalate hwords, splitWhitespace_of_forall hword,
      List.filter_cons (x := word)]
    cases word <;> rfl

/-- White space in front does not matter. -/
theorem splitWhitespace_blank_append {blank : List Char} (h : ∀ c ∈ blank, isWhitespace c = true)
    (text : List Char) : splitWhitespace (blank ++ text) = splitWhitespace text := by
  induction blank with
  | nil => rfl
  | cons c blank ih =>
    obtain ⟨hc, hblank⟩ := List.forall_mem_cons.mp h
    rw [List.cons_append, splitWhitespace_cons hc, ih hblank]

theorem splitWhitespace_append_blank {blank : List Char} (h : ∀ c ∈ blank, isWhitespace c = true)
    (text : List Char) : splitWhitespace (text ++ blank) = splitWhitespace text := by
  cases blank with
  | nil => rw [List.append_nil]
  | cons c blank =>
    obtain ⟨hc, hblank⟩ := List.forall_mem_cons.mp h
    have hnone := splitWhitespace_blank_append hblank []
    rw [List.append_nil] at hnone
    rw [splitWhitespace_append hc, hnone, splitWhitespace_nil, List.append_nil]

theorem splitWhitespace_trim (text : List Char) :
    splitWhitespace (trim text) = splitWhitespace text := by
  have hfront := List.takeWhile_append_dropWhile (p := isWhitespace) (l := text)
  have hback : trim text ++ (text.dropWhile isWhitespace).rtakeWhile isWhitespace =
      text.dropWhile isWhitespace := List.rdropWhile_append_rtakeWhile
  calc
    splitWhitespace (trim text)
      = splitWhitespace
          (trim text ++ (text.dropWhile isWhitespace).rtakeWhile isWhitespace) :=
        (splitWhitespace_append_blank (fun _ hc => List.mem_rtakeWhile_imp hc) _).symm
    _ = splitWhitespace (text.takeWhile isWhitespace ++ text.dropWhile isWhitespace) := by
        rw [hback, splitWhitespace_blank_append fun _ hc => List.mem_takeWhile_imp hc]
    _ = splitWhitespace text := by rw [hfront]

/-- The pieces have no separators. -/
theorem sep_of_mem_splitOnP {α : Type*} {sep : α → Bool} : ∀ {text piece : List α},
    piece ∈ text.splitOnP sep → ∀ x ∈ piece, sep x = false
  | [], piece, h => by
    rw [List.mem_singleton.mp h]
    intro x hx
    cases hx
  | x :: text, piece, h => by
    rw [List.splitOnP_cons_eq_if_modifyHead] at h
    split at h
    · rcases List.mem_cons.mp h with rfl | h
      · intro y hy
        cases hy
      · exact sep_of_mem_splitOnP h
    · next hx =>
      obtain ⟨first, rest, hsplit⟩ := List.exists_cons_of_ne_nil (List.splitOnP_ne_nil sep text)
      rw [hsplit] at h
      rcases List.mem_cons.mp h with rfl | h
      · intro y hy
        rcases List.mem_cons.mp hy with rfl | hy
        · simpa using hx
        · exact sep_of_mem_splitOnP (hsplit ▸ List.mem_cons_self) y hy
      · exact sep_of_mem_splitOnP (hsplit ▸ List.mem_cons_of_mem first h)

theorem isWord_of_mem {text word : List Char} (h : word ∈ splitWhitespace text) : IsWord word := by
  obtain ⟨hword, hne⟩ := List.mem_filter.mp h
  exact ⟨by simpa using hne, sep_of_mem_splitOnP hword⟩

theorem splitWhitespace_of_nonblank {c : Char} (hc : isWhitespace c = false) (text : List Char) :
    ∃ word words, splitWhitespace (c :: text) = (c :: word) :: words := by
  rw [splitWhitespace, List.splitOnP_cons_eq_if_modifyHead, hc]
  obtain ⟨word, words, hwords⟩ :=
    List.exists_cons_of_ne_nil (List.splitOnP_ne_nil isWhitespace text)
  rw [hwords]
  exact ⟨word, words.filter fun word => !word.isEmpty, rfl⟩

/-- The first character that is not white space begins the first word. -/
theorem head?_trim (text : List Char) :
    (trim text).head? = (splitWhitespace text).head?.bind List.head? := by
  rw [← splitWhitespace_trim]
  cases htrim : trim text with
  | nil => rfl
  | cons c rest =>
    have hprefix : trim text <+: text.dropWhile isWhitespace := List.rdropWhile_prefix _ _
    rw [htrim] at hprefix
    obtain ⟨back, hback⟩ := hprefix
    have hc : isWhitespace c = false := by
      have hhead := List.head?_dropWhile_not isWhitespace text
      rw [← hback] at hhead
      simpa using hhead
    obtain ⟨word, words, hwords⟩ := splitWhitespace_of_nonblank hc rest
    rw [hwords]
    rfl

/-! ## The last piece -/

/-- A list has complete pieces and a last one, which is what is continued behind the list. -/
theorem exists_lastPiece {α : Type*} (sep : α → Bool) : ∀ text : List α, ∃ front last,
    ∀ more, (∀ x ∈ more, sep x = false) →
      (text ++ more).splitOnP sep = front ++ [last ++ more]
  | [] => ⟨[], [], fun more hmore => List.splitOnP_eq_singleton hmore⟩
  | x :: text => by
    obtain ⟨front, last, hsplit⟩ := exists_lastPiece sep text
    cases hx : sep x with
    | true =>
      refine ⟨[] :: front, last, fun more hmore => ?_⟩
      rw [List.cons_append, List.splitOnP_cons_eq_if_modifyHead, if_pos hx, hsplit more hmore,
        List.cons_append]
    | false =>
      have hne : ¬ sep x = true := by simp [hx]
      cases front with
      | nil =>
        refine ⟨[], x :: last, fun more hmore => ?_⟩
        rw [List.cons_append, List.splitOnP_cons_eq_if_modifyHead, if_neg hne, hsplit more hmore]
        rfl
      | cons first front =>
        refine ⟨(x :: first) :: front, last, fun more hmore => ?_⟩
        rw [List.cons_append, List.splitOnP_cons_eq_if_modifyHead, if_neg hne, hsplit more hmore]
        rfl

/-- What is written behind a text continues its last word. -/
theorem exists_lastWord (text : List Char) : ∃ front last,
    ∀ more, (∀ c ∈ more, isWhitespace c = false) → splitWhitespace (text ++ more) =
      front ++ if last ++ more = [] then [] else [last ++ more] := by
  obtain ⟨front, last, hsplit⟩ := exists_lastPiece isWhitespace text
  refine ⟨front.filter fun word => !word.isEmpty, last, fun more hmore => ?_⟩
  rw [splitWhitespace, hsplit more hmore, List.filter_append]
  congr 1
  cases hlast : last ++ more <;> rfl

/-! ## Lines -/

/-- A line without the carriage return at its end. -/
def trimReturn (line : List Char) : List Char :=
  if line.getLast? = some '\r' then line.dropLast else line

/-- `str::lines`. -/
def lines (text : List Char) : List (List Char) :=
  let pieces := text.splitOn '\n'
  (pieces.dropLast.map trimReturn) ++
    match pieces.getLast? with
    | some [] => []
    | some last => [last]
    | none => []

theorem splitWhitespace_trimReturn (line : List Char) :
    splitWhitespace (trimReturn line) = splitWhitespace line := by
  rw [trimReturn]
  split
  · next hlast =>
    obtain ⟨front, rfl⟩ := List.getLast?_eq_some_iff.mp hlast
    rw [List.dropLast_concat, splitWhitespace_append_blank]
    simp [isWhitespace]
  · rfl

theorem newline_notMem_of_mem_lines {text line : List Char} (h : line ∈ lines text) :
    '\n' ∉ line := by
  have hpiece : ∀ piece ∈ text.splitOn '\n', '\n' ∉ piece := by
    intro piece hpiece hmem
    rw [List.splitOn_eq_splitOnP] at hpiece
    exact absurd (sep_of_mem_splitOnP hpiece _ hmem) (by simp)
  rcases List.mem_append.mp h with h | h
  · obtain ⟨piece, hmem, rfl⟩ := List.mem_map.mp h
    have hfree := hpiece piece (List.mem_of_mem_dropLast hmem)
    rw [trimReturn]
    split
    · exact fun hnewline => hfree (List.mem_of_mem_dropLast hnewline)
    · exact hfree
  · split at h
    · cases h
    · next last _ hlast =>
      rw [List.mem_singleton.mp h]
      exact hpiece last (List.mem_of_getLast? hlast)
    · cases h

/-- A reader that does not care for carriage returns reads all that stands between line breaks. -/
theorem flatMap_lines {α : Type*} {read : List Char → List α} (hnil : read [] = [])
    (hreturn : ∀ line, read (trimReturn line) = read line) (text : List Char) :
    (lines text).flatMap read = (text.splitOn '\n').flatMap read := by
  obtain ⟨front, last, hsplit⟩ := exists_lastPiece (· == '\n') text
  have hpieces : text.splitOn '\n' = front ++ [last] := by
    have hpieces := hsplit [] (by simp)
    rwa [List.append_nil, List.append_nil] at hpieces
  rw [lines, hpieces, List.dropLast_concat, List.getLast?_concat, List.flatMap_append, List.flatMap_append,
    List.flatMap_map, List.flatMap_singleton]
  congr 1
  · exact List.flatMap_congr fun line _ => hreturn line
  · cases last with
    | nil => exact hnil.symm
    | cons c last => exact List.append_nil _

end OxideTerm.Lib.Text
