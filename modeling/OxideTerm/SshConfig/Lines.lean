import OxideTerm.Lib.Text
import OxideTerm.Lib.Words

/-!
# Lines of an SSH configuration

A line goes through three passes. The comment is cut off, which heeds quotes and no backslashes. Then
the words are taken apart, which heeds both. A keyword with its value behind `=` is recognised last,
when there is one word only. The value of `RemoteCommand` is taken from the line as it stands.
-/

namespace OxideTerm.SshConfig

open OxideTerm.Lib.Text

/-- `str::to_ascii_lowercase`. -/
def toAsciiLowercase (text : List Char) : List Char := text.map Char.toLower

/-- `str::eq_ignore_ascii_case`. -/
def eqIgnoreAsciiCase (a b : List Char) : Bool := toAsciiLowercase a == toAsciiLowercase b

/-! ## Passes -/

def remoteCommandValue (line : List Char) : Option (List Char) :=
  let line := trim line
  if line = [] ∨ line.head? = some '#' then none
  else
    let isKeyword := fun c : Char => !(isWhitespace c || c == '=')
    if !eqIgnoreAsciiCase (line.takeWhile isKeyword) "remotecommand".toList then none
    else
      let value := (line.dropWhile isKeyword).dropWhile isWhitespace
      let value := trim (if value.head? = some '=' then value.tail else value)
      if value = [] then none else some value

/-- What is left in front of the comment, from a place inside or outside quotes. -/
def stripCommentFrom (inQuotes : Bool) : List Char → List Char
  | [] => []
  | c :: rest =>
    if c = '"' then c :: stripCommentFrom (!inQuotes) rest
    else if c = '#' ∧ inQuotes = false then []
    else c :: stripCommentFrom inQuotes rest

def stripComment (line : List Char) : List Char := stripCommentFrom false line

/-- The characters a backslash may stand in front of. -/
def isEscapable (c : Char) : Bool := isWhitespace c || c == '"' || c == '#'

def splitSshWordsFrom (current : List Char) (inQuotes : Bool) : List Char → List (List Char)
  | [] => if current = [] then [] else [current]
  | c :: rest =>
    if c = '\\' then
      match rest with
      | [] => splitSshWordsFrom (current ++ ['\\']) inQuotes []
      | next :: rest' =>
        -- Backslashes in front of anything else are separators of Windows paths.
        if isEscapable next then splitSshWordsFrom (current ++ [next]) inQuotes rest'
        else splitSshWordsFrom (current ++ ['\\']) inQuotes (next :: rest')
    else if c = '"' then splitSshWordsFrom current (!inQuotes) rest
    else if isWhitespace c && !inQuotes then
      if current = [] then splitSshWordsFrom [] inQuotes rest
      else current :: splitSshWordsFrom [] inQuotes rest
    else splitSshWordsFrom (current ++ [c]) inQuotes rest

def splitSshWords (line : List Char) : List (List Char) := splitSshWordsFrom [] false line

/-! ## Lines -/

inductive ConfigLine where
  | blank
  | remoteCommand (value : List Char)
  | option (key : List Char) (values : List (List Char))
deriving DecidableEq

/-- The keyword and its values, of the words of a line. -/
def splitKeyword (keyword : List Char) (values : List (List Char)) :
    List Char × List (List Char) :=
  match values, splitOnce '=' keyword with
  | [], some (key, value) => (key, [value])
  | values, _ => (keyword, values)

/-- What the loop of the parser does with one line. -/
def readLine (rawLine : List Char) : ConfigLine :=
  match remoteCommandValue rawLine with
  | some value => .remoteCommand value
  | none =>
    let line := trim (stripComment rawLine)
    if line = [] then .blank
    else
      match splitSshWords line with
      | [] => .blank
      | keyword :: values =>
        let (keyword, values) := splitKeyword keyword values
        .option (toAsciiLowercase keyword) values

/-! ## White space -/

theorem isEscapable_of_isWhitespace {c : Char} (h : isWhitespace c = true) :
    isEscapable c = true := by
  simp [isEscapable, h]

@[simp] theorem isEscapable_backslash : isEscapable '\\' = false := by decide

/-! ## Stripping -/

@[simp] theorem stripCommentFrom_nil (inQuotes : Bool) : stripCommentFrom inQuotes [] = [] := rfl

@[simp] theorem stripCommentFrom_quote (inQuotes : Bool) (rest : List Char) :
    stripCommentFrom inQuotes ('"' :: rest) = '"' :: stripCommentFrom (!inQuotes) rest := rfl

@[simp] theorem stripCommentFrom_hash (rest : List Char) :
    stripCommentFrom false ('#' :: rest) = [] := rfl

@[simp] theorem stripCommentFrom_hash_quoted (rest : List Char) :
    stripCommentFrom true ('#' :: rest) = '#' :: stripCommentFrom true rest := rfl

theorem stripCommentFrom_cons {c : Char} (hquote : c ≠ '"') (hhash : c ≠ '#') (inQuotes : Bool)
    (rest : List Char) :
    stripCommentFrom inQuotes (c :: rest) = c :: stripCommentFrom inQuotes rest := by
  rw [stripCommentFrom, if_neg hquote, if_neg (fun h => hhash h.1)]

/-- Nothing happens where there is no quote and no hash. -/
theorem stripCommentFrom_append {text : List Char} (h : ∀ c ∈ text, c ≠ '"' ∧ c ≠ '#')
    (inQuotes : Bool) (rest : List Char) :
    stripCommentFrom inQuotes (text ++ rest) = text ++ stripCommentFrom inQuotes rest := by
  induction text with
  | nil => rfl
  | cons c text ih =>
    obtain ⟨hc, htext⟩ := List.forall_mem_cons.mp h
    rw [List.cons_append, stripCommentFrom_cons hc.1 hc.2, ih htext, List.cons_append]

/-! ## Splitting -/

/-- One character, or two of them where a backslash stands in front of the other. -/
theorem splitSshWordsFrom_cons (current : List Char) (inQuotes : Bool) (c : Char)
    (rest : List Char) :
    splitSshWordsFrom current inQuotes (c :: rest) =
      if c = '\\' then
        if rest.head?.any isEscapable then
          splitSshWordsFrom (current ++ rest.take 1) inQuotes (rest.drop 1)
        else splitSshWordsFrom (current ++ ['\\']) inQuotes rest
      else if c = '"' then splitSshWordsFrom current (!inQuotes) rest
      else if isWhitespace c && !inQuotes then
        if current = [] then splitSshWordsFrom [] inQuotes rest
        else current :: splitSshWordsFrom [] inQuotes rest
      else splitSshWordsFrom (current ++ [c]) inQuotes rest := by
  cases rest <;> rfl

theorem splitSshWordsFrom_escaped {c : Char} (h : isEscapable c = true) (current : List Char)
    (inQuotes : Bool) (rest : List Char) :
    splitSshWordsFrom current inQuotes ('\\' :: c :: rest) =
      splitSshWordsFrom (current ++ [c]) inQuotes rest := by
  rw [splitSshWordsFrom_cons, if_pos rfl, if_pos (by simpa using h)]
  rfl

theorem splitSshWordsFrom_backslash {rest : List Char}
    (h : ∀ c ∈ rest.head?, isEscapable c = false) (current : List Char) (inQuotes : Bool) :
    splitSshWordsFrom current inQuotes ('\\' :: rest) =
      splitSshWordsFrom (current ++ ['\\']) inQuotes rest := by
  rw [splitSshWordsFrom_cons, if_pos rfl, if_neg]
  rw [Option.any_eq_true]
  rintro ⟨c, hc, hescapable⟩
  rw [h c hc] at hescapable
  cases hescapable

@[simp] theorem splitSshWordsFrom_quote (current : List Char) (inQuotes : Bool)
    (rest : List Char) :
    splitSshWordsFrom current inQuotes ('"' :: rest) =
      splitSshWordsFrom current (!inQuotes) rest := by
  rw [splitSshWordsFrom_cons, if_neg (by decide), if_pos rfl]

theorem splitSshWordsFrom_plain {c : Char} (h : c ≠ '\\' ∧ c ≠ '"') {inQuotes : Bool}
    (hblank : isWhitespace c = false ∨ inQuotes = true) (current rest : List Char) :
    splitSshWordsFrom current inQuotes (c :: rest) =
      splitSshWordsFrom (current ++ [c]) inQuotes rest := by
  rw [splitSshWordsFrom_cons, if_neg h.1, if_neg h.2, if_neg]
  rcases hblank with hblank | hblank <;> simp [hblank]

theorem ne_of_isWhitespace {c : Char} (h : isWhitespace c = true) :
    c ≠ '\\' ∧ c ≠ '"' ∧ c ≠ '#' ∧ c ≠ '=' := by
  refine ⟨?_, ?_, ?_, ?_⟩ <;> · rintro rfl; exact absurd h (by decide)

/-- White space ends a word. -/
theorem splitSshWordsFrom_blank {c : Char} (h : isWhitespace c = true) (current rest : List Char) :
    splitSshWordsFrom current false (c :: rest) =
      if current = [] then splitSshWordsFrom [] false rest
      else current :: splitSshWordsFrom [] false rest := by
  obtain ⟨hbackslash, hquote, -, -⟩ := ne_of_isWhitespace h
  rw [splitSshWordsFrom_cons, if_neg hbackslash, if_neg hquote, if_pos (by simp [h])]

theorem splitSshWordsFrom_blanks {blank : List Char} (h : ∀ c ∈ blank, isWhitespace c = true)
    (rest : List Char) :
    splitSshWordsFrom [] false (blank ++ rest) = splitSshWordsFrom [] false rest := by
  induction blank with
  | nil => rfl
  | cons c blank ih =>
    obtain ⟨hc, hblank⟩ := List.forall_mem_cons.mp h
    rw [List.cons_append, splitSshWordsFrom_blank hc, if_pos rfl, ih hblank]

/-- A gap ends the word in front of it. -/
theorem splitSshWordsFrom_gap {gap current : List Char} (hgap : gap ≠ [])
    (h : ∀ c ∈ gap, isWhitespace c = true) (hcurrent : current ≠ []) (rest : List Char) :
    splitSshWordsFrom current false (gap ++ rest) =
      current :: splitSshWordsFrom [] false rest := by
  obtain ⟨c, gap, rfl⟩ := List.exists_cons_of_ne_nil hgap
  obtain ⟨hc, hrest⟩ := List.forall_mem_cons.mp h
  rw [List.cons_append, splitSshWordsFrom_blank hc, if_neg hcurrent,
    splitSshWordsFrom_blanks hrest]

theorem splitSshWordsFrom_append {text : List Char}
    (h : ∀ c ∈ text, isWhitespace c = false ∧ c ≠ '\\' ∧ c ≠ '"') (current rest : List Char) :
    splitSshWordsFrom current false (text ++ rest) =
      splitSshWordsFrom (current ++ text) false rest := by
  induction text generalizing current with
  | nil => rw [List.nil_append, List.append_nil]
  | cons c text ih =>
    obtain ⟨hc, htext⟩ := List.forall_mem_cons.mp h
    rw [List.cons_append, splitSshWordsFrom_plain hc.2 (.inl hc.1), ih htext, List.append_assoc,
      List.singleton_append]

/-- **What has been read of a word begins the first word.** -/
theorem exists_head_splitSshWordsFrom (text : List Char) {current : List Char} (inQuotes : Bool)
    (h : current ≠ []) :
    ∃ more words, splitSshWordsFrom current inQuotes text = (current ++ more) :: words := by
  cases text with
  | nil => exact ⟨[], [], by rw [splitSshWordsFrom, if_neg h, List.append_nil]⟩
  | cons c rest =>
    have hgrow : ∀ {d rest : List Char},
        (∃ more words, splitSshWordsFrom (current ++ d) inQuotes rest =
          (current ++ d ++ more) :: words) →
        ∃ more words, splitSshWordsFrom (current ++ d) inQuotes rest =
          (current ++ more) :: words := by
      rintro d rest ⟨more, words, hwords⟩
      exact ⟨d ++ more, words, by rw [hwords, List.append_assoc]⟩
    have hne : ∀ d : List Char, current ++ d ≠ [] := fun d =>
      List.append_ne_nil_of_left_ne_nil h d
    rw [splitSshWordsFrom_cons]
    split
    · split
      · exact hgrow (exists_head_splitSshWordsFrom (rest.drop 1) inQuotes (hne _))
      · exact hgrow (exists_head_splitSshWordsFrom rest inQuotes (hne _))
    split
    · exact exists_head_splitSshWordsFrom rest _ h
    split
    · exact ⟨[], _, by rw [List.append_nil]⟩
    · exact hgrow (exists_head_splitSshWordsFrom rest inQuotes (hne _))
termination_by text.length
decreasing_by all_goals simp; try omega

end OxideTerm.SshConfig
