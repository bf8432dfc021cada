import OxideTerm.SshConfig.Lines

/-!
# Lines read back

A line is written from a keyword and words, each with backslashes or in quotes. It is read back just
when the passes agree on it: cutting the comment off must not take a hash inside a word for one, the
last word must not end in white space that trimming takes away, no other word may end in a backslash
that would go with the gap behind it, and `=` must stand alone between the keyword and a single word.
-/

namespace OxideTerm.SshConfig

open OxideTerm.Lib.Text

/-! ## Lines as they are written -/

/-- White space, if any. -/
abbrev Blank := { text : List Char // ∀ c ∈ text, isWhitespace c = true }

/-- White space between words. -/
abbrev Gap := { text : List Char // text ≠ [] ∧ ∀ c ∈ text, isWhitespace c = true }

/-- A keyword, of which `RemoteCommand` is not one. -/
structure Keyword where
  text : List Char
  nonempty : text ≠ []
  plain : ∀ c ∈ text, isWhitespace c = false ∧ c ∉ ['\\', '"', '#', '=']
  notRemoteCommand : eqIgnoreAsciiCase text "remotecommand".toList = false

inductive Rendering where
  | escaped
  | quoted
deriving DecidableEq

/-- A word with the way it is written. -/
structure RenderedWord where
  text : List Char
  rendering : Rendering
  nonempty : text ≠ []
  quotable : rendering = .quoted → '"' ∉ text ∧ '\\' ∉ text

/-- A backslash in front of each character that may have one. -/
def escape (text : List Char) : List Char :=
  text.flatMap fun c => if isEscapable c then ['\\', c] else [c]

def RenderedWord.render (word : RenderedWord) : List Char :=
  match word.rendering with
  | .escaped => escape word.text
  | .quoted => '"' :: (word.text ++ ['"'])

inductive Separator where
  | blank (gap : Gap)
  | equals (before after : Blank)

def Separator.render : Separator → List Char
  | .blank gap => gap.1
  | .equals before after => before.1 ++ '=' :: after.1

structure Line where
  indent : Blank
  keyword : Keyword
  separator : Separator
  word : RenderedWord
  more : List (Gap × RenderedWord)
  trailing : Blank
  comment : Option (List Char)

/-- Words with gaps between them, in front of the end of a line. -/
def renderWords (word : RenderedWord) : List (Gap × RenderedWord) → List Char → List Char
  | [], back => word.render ++ back
  | (gap, next) :: more, back => word.render ++ (gap.1 ++ renderWords next more back)

/-- White space and the comment at the end of a line. -/
def renderEnd (trailing : Blank) : Option (List Char) → List Char
  | none => trailing.1
  | some comment => trailing.1 ++ '#' :: comment

namespace Line

def words (line : Line) : List RenderedWord := line.word :: line.more.map Prod.snd

def text (line : Line) : List Char :=
  line.indent.1 ++ (line.keyword.text ++ (line.separator.render ++
    renderWords line.word line.more (renderEnd line.trailing line.comment)))

/-- The keyword and the words. -/
def meaning (line : Line) : ConfigLine :=
  .option (toAsciiLowercase line.keyword.text) (line.words.map RenderedWord.text)

end Line

/-! ## Lines that are read back -/

/-- Quotes behind backslashes. -/
def RenderedWord.escapedQuotes (word : RenderedWord) : Nat :=
  match word.rendering with
  | .escaped => word.text.count '"'
  | .quoted => 0

/-- Behind so many quotes, the hashes of a word do not look like comments. -/
def RenderedWord.HashesKept (quotes : Nat) (word : RenderedWord) : Prop :=
  ∀ u v, word.text = u ++ '#' :: v →
    match word.rendering with
    | .escaped => Odd (quotes + u.count '"')
    | .quoted => Even quotes

/-- The backslash at the end of a word would go with what follows it. -/
def RenderedWord.Runs (word : RenderedWord) : Prop :=
  word.rendering = .escaped ∧ word.text.getLast? = some '\\'

/-- The white space at the end of a word would be trimmed, and its backslash left. -/
def RenderedWord.EndsBlank (word : RenderedWord) : Prop :=
  word.rendering = .escaped ∧ ∃ c ∈ word.text.getLast?, isWhitespace c = true

def quotesIn (words : List RenderedWord) : Nat := (words.map RenderedWord.escapedQuotes).sum

/-- What makes the passes agree on a line. -/
structure Line.Readable (line : Line) : Prop where
  separator : ∀ before after, line.separator = .equals before after →
    before.1 = [] ∧ after.1 = [] ∧ line.more = []
  hashes : ∀ front word back, line.words = front ++ word :: back →
    word.HashesKept (quotesIn front)
  comment : line.comment ≠ none → Even (quotesIn line.words)
  inner : ∀ word ∈ line.words.dropLast, ¬ word.Runs
  last : ∀ word ∈ line.words.getLast?, ¬ word.EndsBlank

/-- The words of a line behind so many quotes are readable. -/
def ReadableFrom (comment : Option (List Char)) (quotes : Nat) (word : RenderedWord) :
    List (Gap × RenderedWord) → Prop
  | [] => word.HashesKept quotes ∧ (comment ≠ none → Even (quotes + word.escapedQuotes)) ∧
      ¬ word.EndsBlank
  | (_, next) :: more => word.HashesKept quotes ∧ ¬ word.Runs ∧
      ReadableFrom comment (quotes + word.escapedQuotes) next more

theorem readableFrom_iff {comment : Option (List Char)} :
    ∀ {more : List (Gap × RenderedWord)} {word : RenderedWord} {quotes : Nat},
      ReadableFrom comment quotes word more ↔
        (∀ front next back, word :: more.map Prod.snd = front ++ next :: back →
          next.HashesKept (quotes + quotesIn front)) ∧
        (comment ≠ none → Even (quotes + quotesIn (word :: more.map Prod.snd))) ∧
        (∀ next ∈ (word :: more.map Prod.snd).dropLast, ¬ next.Runs) ∧
        ∀ next ∈ (word :: more.map Prod.snd).getLast?, ¬ next.EndsBlank
  | [], word, quotes => by
    have hquotes : quotesIn [word] = word.escapedQuotes := by simp [quotesIn]
    rw [ReadableFrom, List.map_nil, hquotes]
    constructor
    · rintro ⟨hhashes, hcomment, hlast⟩
      refine ⟨fun front next back hsplit => ?_, hcomment, by simp, by simpa using hlast⟩
      obtain ⟨rfl, rfl, -⟩ : front = [] ∧ word = next ∧ back = [] := by
        cases front with
        | nil => simpa using hsplit
        | cons first front => simp at hsplit
      exact hhashes
    · rintro ⟨hhashes, hcomment, -, hlast⟩
      exact ⟨hhashes [] word [] rfl, hcomment, by simpa using hlast⟩
  | (gap, second) :: more, word, quotes => by
    have hquotes : ∀ words, quotes + quotesIn (word :: words) =
        quotes + word.escapedQuotes + quotesIn words := by
      intro words
      rw [quotesIn, List.map_cons, List.sum_cons, Nat.add_assoc]
      rfl
    rw [ReadableFrom, readableFrom_iff, List.map_cons, hquotes, List.dropLast_cons_cons,
      List.forall_mem_cons, List.getLast?_cons_cons]
    constructor
    · rintro ⟨hhashes, hruns, hrest, hcomment, hinner, hlast⟩
      refine ⟨fun front next back hsplit => ?_, hcomment, ⟨hruns, hinner⟩, hlast⟩
      cases front with
      | nil =>
        obtain ⟨rfl, -⟩ := List.cons.inj hsplit
        exact hhashes
      | cons first front =>
        obtain ⟨rfl, htail⟩ := List.cons.inj hsplit
        rw [hquotes]
        exact hrest front next back htail
    · rintro ⟨hhashes, hcomment, ⟨hruns, hinner⟩, hlast⟩
      refine ⟨hhashes [] word _ rfl, hruns, fun front next back hsplit => ?_, hcomment, hinner,
        hlast⟩
      rw [← hquotes]
      exact hhashes (word :: front) next back (by rw [hsplit, List.cons_append])

/-! ## Rendered words -/

@[simp] theorem escape_nil : escape [] = [] := rfl

theorem escape_append (a b : List Char) : escape (a ++ b) = escape a ++ escape b :=
  List.flatMap_append

theorem escape_cons_of_escapable {c : Char} (h : isEscapable c = true) (text : List Char) :
    escape (c :: text) = '\\' :: c :: escape text := by
  rw [escape, List.flatMap_cons, if_pos h]
  rfl

theorem escape_cons_of_plain {c : Char} (h : isEscapable c = false) (text : List Char) :
    escape (c :: text) = c :: escape text := by
  rw [escape, List.flatMap_cons, if_neg (by simp [h])]
  rfl

theorem RenderedWord.render_escaped {word : RenderedWord} (h : word.rendering = .escaped) :
    word.render = escape word.text := by
  rw [render, h]

theorem RenderedWord.render_quoted {word : RenderedWord} (h : word.rendering = .quoted) :
    word.render = '"' :: (word.text ++ ['"']) := by
  rw [render, h]

/-! ## The comment -/

/-- The first place where a property of the front fails. -/
theorem exists_first_split {α : Type*} {x : α} {P : List α → Prop} (l : List α)
    (h : ¬ ∀ u v, l = u ++ x :: v → P u) :
    ∃ u v, l = u ++ x :: v ∧ ¬ P u ∧ ∀ u' v', u = u' ++ x :: v' → P u' := by
  simp only [not_forall] at h
  obtain ⟨u, v, rfl, hu⟩ := h
  by_cases hfirst : ∀ u' v', u = u' ++ x :: v' → P u'
  · exact ⟨u, v, rfl, hu, hfirst⟩
  · obtain ⟨u', v', rfl, hu', hfirst'⟩ := exists_first_split u hfirst
    exact ⟨u', v' ++ x :: v, by simp, hu', hfirst'⟩
termination_by l.length
decreasing_by subst_vars; simp

theorem stripCommentFrom_escape {text : List Char} {quotes : Nat}
    (h : ∀ u v, text = u ++ '#' :: v → Odd (quotes + u.count '"')) (rest : List Char) :
    stripCommentFrom (decide (Odd quotes)) (escape text ++ rest) =
      escape text ++ stripCommentFrom (decide (Odd (quotes + text.count '"'))) rest := by
  induction text generalizing quotes with
  | nil => rfl
  | cons c text ih =>
    by_cases hquote : c = '"'
    · subst hquote
      have hcount : ∀ n, quotes + (n + 1) = quotes + 1 + n := by omega
      have htext : ∀ u v, text = u ++ '#' :: v → Odd (quotes + 1 + u.count '"') := by
        intro u v huv
        rw [← hcount, ← List.count_cons_self]
        exact h ('"' :: u) v (by rw [huv, List.cons_append])
      rw [escape_cons_of_escapable (by decide), List.cons_append, List.cons_append,
        stripCommentFrom_cons (by decide) (by decide), stripCommentFrom_quote, List.count_cons_self,
        hcount]
      have hflip : (!decide (Odd quotes)) = decide (Odd (quotes + 1)) := by
        rw [← decide_not]
        exact decide_eq_decide.mpr Nat.odd_add_one.symm
      rw [hflip, ih htext]
      rfl
    · have hcount : ∀ l : List Char, (c :: l).count '"' = l.count '"' :=
        fun l => List.count_cons_of_ne hquote
      have htext : ∀ u v, text = u ++ '#' :: v → Odd (quotes + u.count '"') := by
        intro u v huv
        rw [← hcount]
        exact h (c :: u) v (by rw [huv, List.cons_append])
      rw [hcount]
      by_cases hhash : c = '#'
      · subst hhash
        have hodd : Odd quotes := h [] text rfl
        have ih := ih htext
        rw [decide_eq_true hodd] at ih ⊢
        rw [escape_cons_of_escapable (by decide), List.cons_append, List.cons_append,
          stripCommentFrom_cons (by decide) (by decide), stripCommentFrom_hash_quoted, ih]
        rfl
      · cases hc : isEscapable c with
        | true =>
          rw [escape_cons_of_escapable hc, List.cons_append, List.cons_append,
            stripCommentFrom_cons (by decide) (by decide), stripCommentFrom_cons hquote hhash,
            ih htext]
          rfl
        | false =>
          rw [escape_cons_of_plain hc, List.cons_append, stripCommentFrom_cons hquote hhash,
            ih htext]
          rfl

/-- A word in quotes is kept, outside quotes or without a hash in it. -/
theorem stripCommentFrom_quoted {text : List Char} (hquote : '"' ∉ text) {inQuotes : Bool}
    (h : inQuotes = false ∨ '#' ∉ text) (rest : List Char) :
    stripCommentFrom inQuotes ('"' :: (text ++ '"' :: rest)) =
      '"' :: (text ++ '"' :: stripCommentFrom inQuotes rest) := by
  have htext : stripCommentFrom (!inQuotes) (text ++ '"' :: rest) =
      text ++ stripCommentFrom (!inQuotes) ('"' :: rest) := by
    induction text with
    | nil => rfl
    | cons c text ih =>
      rw [List.mem_cons, not_or] at hquote
      have hrest : stripCommentFrom (!inQuotes) (c :: (text ++ '"' :: rest)) =
          c :: stripCommentFrom (!inQuotes) (text ++ '"' :: rest) := by
        rw [stripCommentFrom, if_neg (Ne.symm hquote.1), if_neg]
        rintro ⟨rfl, hfalse⟩
        rcases h with h | h
        · rw [h] at hfalse
          cases hfalse
        · exact h List.mem_cons_self
      rw [List.cons_append, hrest,
        ih hquote.2 (h.imp_right fun h hmem => h (List.mem_cons_of_mem c hmem)), List.cons_append]
  rw [stripCommentFrom_quote, htext, stripCommentFrom_quote, Bool.not_not]

namespace RenderedWord

theorem strip_render {word : RenderedWord} {quotes : Nat} (h : word.HashesKept quotes)
    (rest : List Char) :
    stripCommentFrom (decide (Odd quotes)) (word.render ++ rest) =
      word.render ++ stripCommentFrom (decide (Odd (quotes + word.escapedQuotes))) rest := by
  cases hrendering : word.rendering with
  | escaped =>
    rw [render_escaped hrendering, escapedQuotes, hrendering]
    refine stripCommentFrom_escape (fun u v huv => ?_) rest
    have hkept := h u v huv
    rwa [hrendering] at hkept
  | quoted =>
    rw [render_quoted hrendering, escapedQuotes, hrendering, List.cons_append, List.append_assoc,
      List.singleton_append, stripCommentFrom_quoted (word.quotable hrendering).1]
    · rw [Nat.add_zero, List.cons_append, List.append_assoc, List.singleton_append]
    · by_cases hhash : '#' ∈ word.text
      · obtain ⟨u, v, huv⟩ := List.append_of_mem hhash
        have hkept := h u v huv
        rw [hrendering] at hkept
        exact .inl (by simpa using hkept)
      · exact .inr hhash

/-- Else the line is cut inside the word. -/
theorem exists_cut {word : RenderedWord} {quotes : Nat} (h : ¬ word.HashesKept quotes)
    (rest : List Char) :
    ∃ u v, word.text = u ++ '#' :: v ∧
      stripCommentFrom (decide (Odd quotes)) (word.render ++ rest) =
        match word.rendering with
        | .escaped => escape u ++ ['\\']
        | .quoted => '"' :: u := by
  obtain ⟨u, v, huv, hu, hfirst⟩ := exists_first_split word.text h
  refine ⟨u, v, huv, ?_⟩
  cases hrendering : word.rendering with
  | escaped =>
    rw [hrendering] at hu hfirst
    rw [render_escaped hrendering, huv, escape_append, escape_cons_of_escapable (by decide),
      List.append_assoc, stripCommentFrom_escape hfirst, List.cons_append,
      stripCommentFrom_cons (by decide) (by decide), decide_eq_false hu, List.cons_append,
      stripCommentFrom_hash]
  | quoted =>
    rw [hrendering] at hu hfirst
    have hodd : Odd quotes := Nat.not_even_iff_odd.mp hu
    have hplain : ∀ c ∈ u, c ≠ '"' ∧ c ≠ '#' := by
      intro c hc
      constructor
      · rintro rfl
        exact (word.quotable hrendering).1 (huv ▸ List.mem_append_left _ hc)
      · rintro rfl
        obtain ⟨u', v', huv'⟩ := List.append_of_mem hc
        exact hu (hfirst u' v' huv')
    rw [render_quoted hrendering, huv, decide_eq_true hodd, List.cons_append,
      stripCommentFrom_quote, List.append_assoc, List.append_assoc,
      stripCommentFrom_append hplain, Bool.not_true, List.cons_append, stripCommentFrom_hash,
      List.append_nil]

end RenderedWord

/-! ## The words -/

theorem head?_escape {text : List Char} (c : Char) (hc : (escape text).head? = some c) :
    isEscapable c = false := by
  cases text with
  | nil => cases hc
  | cons d text =>
    cases hd : isEscapable d with
    | true =>
      rw [escape_cons_of_escapable hd] at hc
      obtain rfl := Option.some.inj hc
      exact isEscapable_backslash
    | false =>
      rw [escape_cons_of_plain hd] at hc
      exact Option.some.inj hc ▸ hd

/-- An escaped word is read back, unless its last backslash goes with what follows. -/
theorem splitSshWordsFrom_escape {text rest : List Char}
    (h : text.getLast? = some '\\' → ∀ c ∈ rest.head?, isEscapable c = false)
    (current : List Char) :
    splitSshWordsFrom current false (escape text ++ rest) =
      splitSshWordsFrom (current ++ text) false rest := by
  induction text generalizing current with
  | nil => rw [escape_nil, List.nil_append, List.append_nil]
  | cons c text ih =>
    have hrest : text.getLast? = some '\\' → ∀ c ∈ rest.head?, isEscapable c = false := by
      intro hlast
      exact h (List.getLast?_cons_of_ne_nil (List.getLast?_isSome.mp (by rw [hlast]; rfl)) ▸ hlast)
    have hcurrent : current ++ c :: text = current ++ [c] ++ text := by simp
    cases hc : isEscapable c with
    | true =>
      rw [escape_cons_of_escapable hc, List.cons_append, List.cons_append,
        splitSshWordsFrom_escaped hc, ih hrest, hcurrent]
    | false =>
      rw [escape_cons_of_plain hc, List.cons_append]
      by_cases hbackslash : c = '\\'
      · subst hbackslash
        rw [splitSshWordsFrom_backslash, ih hrest, hcurrent]
        intro d hd
        cases text with
        | nil => exact h rfl d hd
        | cons e text =>
          have hne : escape (e :: text) ≠ [] := by
            cases he : isEscapable e with
            | true => simp [escape_cons_of_escapable he]
            | false => simp [escape_cons_of_plain he]
          rw [List.head?_append_of_ne_nil _ hne] at hd
          exact head?_escape d hd
      · have hquote : c ≠ '"' := by
          rintro rfl
          cases hc
        have hblank : isWhitespace c = false := by
          cases hw : isWhitespace c with
          | false => rfl
          | true =>
            rw [isEscapable_of_isWhitespace hw] at hc
            cases hc
        rw [splitSshWordsFrom_plain ⟨hbackslash, hquote⟩ (.inl hblank), ih hrest, hcurrent]

/-- In quotes nothing ends a word. -/
theorem splitSshWordsFrom_inside {text : List Char} (h : '"' ∉ text ∧ '\\' ∉ text)
    (current rest : List Char) :
    splitSshWordsFrom current true (text ++ rest) =
      splitSshWordsFrom (current ++ text) true rest := by
  induction text generalizing current with
  | nil => rw [List.nil_append, List.append_nil]
  | cons c text ih =>
    rw [List.mem_cons, not_or, List.mem_cons, not_or] at h
    rw [List.cons_append, splitSshWordsFrom_plain ⟨Ne.symm h.2.1, Ne.symm h.1.1⟩ (.inr rfl),
      ih ⟨h.1.2, h.2.2⟩, List.append_assoc, List.singleton_append]

namespace RenderedWord

theorem split_render {word : RenderedWord} {rest : List Char}
    (h : word.Runs → ∀ c ∈ rest.head?, isEscapable c = false) (current : List Char) :
    splitSshWordsFrom current false (word.render ++ rest) =
      splitSshWordsFrom (current ++ word.text) false rest := by
  cases hrendering : word.rendering with
  | escaped =>
    rw [render_escaped hrendering]
    exact splitSshWordsFrom_escape (fun hlast => h ⟨hrendering, hlast⟩) current
  | quoted =>
    rw [render_quoted hrendering, List.cons_append, splitSshWordsFrom_quote, List.append_assoc,
      Bool.not_false, splitSshWordsFrom_inside (word.quotable hrendering), List.singleton_append,
      splitSshWordsFrom_quote, Bool.not_true]

end RenderedWord

/-! ## White space at the end -/

theorem rdropWhile_append_of_ne_nil {α : Type*} {p : α → Bool} {b : List α}
    (h : b.rdropWhile p ≠ []) (a : List α) :
    (a ++ b).rdropWhile p = a ++ b.rdropWhile p := by
  have hreverse : (b.reverse.dropWhile p).isEmpty = false := by
    rw [List.isEmpty_eq_false_iff]
    exact fun hnil => h (by rw [List.rdropWhile, hnil, List.reverse_nil])
  rw [List.rdropWhile, List.reverse_append, List.dropWhile_append, hreverse]
  simp [List.rdropWhile]

theorem rdropWhile_append_blank {α : Type*} {p : α → Bool} {blank : List α}
    (h : ∀ x ∈ blank, p x = true) (a : List α) :
    (a ++ blank).rdropWhile p = a.rdropWhile p := by
  have hreverse : (blank.reverse.dropWhile p).isEmpty = true := by
    rw [List.isEmpty_iff, List.dropWhile_eq_nil_iff]
    exact fun x hx => h x (List.mem_reverse.mp hx)
  rw [List.rdropWhile, List.reverse_append, List.dropWhile_append, hreverse]
  rfl

theorem rdropWhile_concat_ne_nil {α : Type*} {p : α → Bool} {x : α} (h : p x = false) (a : List α) :
    (a ++ [x]).rdropWhile p = a ++ [x] := List.rdropWhile_concat_neg _ _ _ (by simp [h])

/-! ## Misreading -/

/-- The first word that is read departs from a word at a character that is special in some pass. -/
def Misread (current text : List Char) (words : List (List Char)) : Prop :=
  ∃ u c v more, text = u ++ c :: v ∧ (c = '\\' ∨ isEscapable c = true) ∧
    words.headD [] = current ++ u ++ more ∧ more.head? ≠ some c

theorem Misread.ne {current text : List Char} {words rest : List (List Char)}
    (h : Misread current text words) (more : List Char) :
    words ≠ (current ++ text ++ more) :: rest := by
  rintro rfl
  obtain ⟨u, c, v, back, rfl, -, hhead, hne⟩ := h
  rw [List.headD_cons, List.append_assoc, List.append_assoc, List.append_assoc] at hhead
  rw [← List.append_cancel_left (List.append_cancel_left hhead)] at hne
  exact hne rfl

/-- Behind `=`, a word that is misread is not the word either. -/
theorem Misread.headD_ne {text : List Char} {words : List (List Char)}
    (h : Misread ['='] text words) : words.headD [] ≠ text := by
  intro heq
  obtain ⟨u, c, v, back, rfl, hspecial, hhead, -⟩ := h
  rw [heq] at hhead
  have htake := congrArg (fun l : List Char => (l.take (u.length + 1)).count '=') hhead
  have hleft : (u ++ c :: v).take (u.length + 1) = u ++ [c] := by
    rw [List.take_append, List.take_of_length_le (by omega), Nat.add_sub_cancel_left]
    rfl
  have hright : (['='] ++ u ++ back).take (u.length + 1) = '=' :: u := by
    rw [List.take_append, List.take_of_length_le (by simp)]
    simp
  simp only [hleft, hright, List.count_append, List.count_cons_self] at htake
  have hc : c = '=' := by
    by_contra hne
    rw [List.count_singleton, if_neg (by simpa using hne)] at htake
    omega
  subst hc
  rcases hspecial with hspecial | hspecial <;> exact absurd hspecial (by decide)

/-- Nothing but a backslash is left of what was cut. -/
theorem splitSshWordsFrom_cut (u current : List Char) :
    splitSshWordsFrom current false (escape u ++ ['\\']) = [current ++ u ++ ['\\']] := by
  have hstop : u.getLast? = some '\\' → ∀ c ∈ ['\\'].head?, isEscapable c = false := by
    rintro - c hc
    obtain rfl := Option.some.inj hc
    exact isEscapable_backslash
  rw [splitSshWordsFrom_escape hstop, splitSshWordsFrom_backslash (by simp), splitSshWordsFrom,
    if_neg (by simp)]

theorem rdropWhile_cons_of_not {α : Type*} {p : α → Bool} {x : α} (h : p x = false) (l : List α) :
    (x :: l).rdropWhile p = x :: l.rdropWhile p := by
  by_cases hnil : l.rdropWhile p = []
  · have hsingle : [x].rdropWhile p = [x] := rdropWhile_concat_ne_nil h []
    rw [hnil, ← List.singleton_append, rdropWhile_append_blank, hsingle]
    simpa using List.rdropWhile_eq_nil_iff.mp hnil
  · rw [← List.singleton_append, rdropWhile_append_of_ne_nil hnil, List.singleton_append]

/-- What is read of the rest of a line, behind so many quotes. -/
def readBack (current : List Char) (quotes : Nat) (text : List Char) : List (List Char) :=
  splitSshWordsFrom current false
    ((stripCommentFrom (decide (Odd quotes)) text).rdropWhile isWhitespace)

namespace RenderedWord

variable {word : RenderedWord} {quotes : Nat}

theorem misread_of_not_kept (h : ¬ word.HashesKept quotes) (current rest : List Char) :
    Misread current word.text (readBack current quotes (word.render ++ rest)) := by
  obtain ⟨u, v, huv, hcut⟩ := exists_cut h rest
  rw [readBack, hcut]
  cases hrendering : word.rendering with
  | escaped =>
    refine ⟨u, '#', v, ['\\'], huv, .inr (by decide), ?_, by decide⟩
    show (splitSshWordsFrom current false ((escape u ++ ['\\']).rdropWhile _)).headD [] = _
    rw [rdropWhile_concat_ne_nil (by decide), splitSshWordsFrom_cut, List.headD_cons]
  | quoted =>
    -- the quote stays open, and the white space in front of the hash is trimmed
    have hplain : '"' ∉ u.rdropWhile isWhitespace ∧ '\\' ∉ u.rdropWhile isWhitespace := by
      have hsub : ∀ c ∈ u.rdropWhile isWhitespace, c ∈ word.text := fun c hc =>
        huv ▸ List.mem_append_left _ ((List.rdropWhile_prefix _ u).subset hc)
      exact ⟨fun hc => (word.quotable hrendering).1 (hsub _ hc),
        fun hc => (word.quotable hrendering).2 (hsub _ hc)⟩
    have hwords : splitSshWordsFrom current false (('"' :: u).rdropWhile isWhitespace) =
        if current ++ u.rdropWhile isWhitespace = [] then []
        else [current ++ u.rdropWhile isWhitespace] := by
      rw [rdropWhile_cons_of_not (by decide), splitSshWordsFrom_quote]
      have hinside := splitSshWordsFrom_inside hplain current []
      rw [List.append_nil] at hinside
      rw [Bool.not_false, hinside, splitSshWordsFrom]
    have hhead : (splitSshWordsFrom current false (('"' :: u).rdropWhile isWhitespace)).headD [] =
        current ++ u.rdropWhile isWhitespace := by
      rw [hwords]
      split
      · next hnil => rw [hnil, List.headD_nil]
      · rw [List.headD_cons]
    have hsplit : u.rdropWhile isWhitespace ++ u.rtakeWhile isWhitespace = u :=
      List.rdropWhile_append_rtakeWhile
    cases hblank : u.rtakeWhile isWhitespace with
    | nil =>
      rw [hblank, List.append_nil] at hsplit
      refine ⟨u, '#', v, [], huv, .inr (by decide), ?_, by simp⟩
      rw [List.append_nil]
      exact hhead.trans (by rw [hsplit])
    | cons c blank =>
      have hc : isWhitespace c = true :=
        List.mem_rtakeWhile_imp (hblank ▸ List.mem_cons_self)
      rw [hblank] at hsplit
      refine ⟨u.rdropWhile isWhitespace, c, blank ++ '#' :: v, [], ?_,
        .inr (isEscapable_of_isWhitespace hc), ?_, by simp⟩
      · rw [huv, ← List.cons_append, ← List.append_assoc, hsplit]
      · rw [List.append_nil]
        exact hhead

theorem misread_of_runs (h : word.Runs) {c : Char} (hc : isEscapable c = true)
    (current rest : List Char) :
    Misread current word.text (splitSshWordsFrom current false (word.render ++ c :: rest)) := by
  obtain ⟨front, hfront⟩ := List.getLast?_eq_some_iff.mp h.2
  have hrender : word.render ++ c :: rest = escape front ++ '\\' :: c :: rest := by
    rw [render_escaped h.1, hfront, escape_append, escape_cons_of_plain isEscapable_backslash,
      escape_nil, List.append_assoc, List.singleton_append]
  have hstop : front.getLast? = some '\\' →
      ∀ d ∈ ('\\' :: c :: rest).head?, isEscapable d = false := by
    rintro - d hd
    obtain rfl := Option.some.inj hd
    exact isEscapable_backslash
  rw [hrender, splitSshWordsFrom_escape hstop, splitSshWordsFrom_escaped hc]
  obtain ⟨more, words, hwords⟩ := exists_head_splitSshWordsFrom rest false
    (List.append_ne_nil_of_right_ne_nil (current ++ front) (List.cons_ne_nil c []))
  refine ⟨front, '\\', [], c :: more, hfront, .inl rfl, ?_, ?_⟩
  · rw [hwords, List.headD_cons, List.append_assoc _ [c], List.singleton_append]
  · rintro heq
    obtain rfl := Option.some.inj heq
    cases hc

theorem misread_of_endsBlank (h : word.EndsBlank) {blank : List Char}
    (hblank : ∀ c ∈ blank, isWhitespace c = true) (current : List Char) :
    Misread current word.text
      (splitSshWordsFrom current false ((word.render ++ blank).rdropWhile isWhitespace)) := by
  obtain ⟨hrendering, c, hlast, hc⟩ := h
  obtain ⟨front, hfront⟩ := List.getLast?_eq_some_iff.mp hlast
  have hescapable := isEscapable_of_isWhitespace hc
  have hrender : word.render ++ blank = escape front ++ ['\\'] ++ c :: blank := by
    rw [render_escaped hrendering, hfront, escape_append, escape_cons_of_escapable hescapable,
      escape_nil]
    simp
  rw [hrender, rdropWhile_append_blank (List.forall_mem_cons.mpr ⟨hc, hblank⟩),
    rdropWhile_concat_ne_nil (by decide), splitSshWordsFrom_cut]
  refine ⟨front, c, [], ['\\'], hfront, .inr hescapable, rfl, ?_⟩
  rintro heq
  obtain rfl := Option.some.inj heq
  cases hc

/-- The first character of a rendered word stays. -/
theorem exists_render_cons (word : RenderedWord) :
    ∃ c rest, word.render = c :: rest ∧ isWhitespace c = false ∧ c ≠ '#' := by
  cases hrendering : word.rendering with
  | quoted => exact ⟨'"', _, render_quoted hrendering, by decide, by decide⟩
  | escaped =>
    obtain ⟨c, text, htext⟩ := List.exists_cons_of_ne_nil word.nonempty
    rw [render_escaped hrendering, htext]
    cases hc : isEscapable c with
    | true => exact ⟨'\\', _, escape_cons_of_escapable hc text, by decide, by decide⟩
    | false =>
      rw [isEscapable, Bool.or_eq_false_iff, Bool.or_eq_false_iff] at hc
      exact ⟨c, _, escape_cons_of_plain (by simp [isEscapable, hc]) text, hc.1.1,
        by simpa using hc.2⟩

/-- Where no white space ends a word, its rendering does not end in white space. -/
theorem rdropWhile_render (h : ¬ word.EndsBlank) :
    word.render.rdropWhile isWhitespace = word.render := by
  cases hrendering : word.rendering with
  | quoted =>
    rw [render_quoted hrendering, ← List.cons_append, rdropWhile_concat_ne_nil (by decide)]
  | escaped =>
    obtain ⟨front, c, hfront⟩ : ∃ front c, word.text = front ++ [c] :=
      ⟨_, _, (List.dropLast_append_getLast word.nonempty).symm⟩
    have hc : isWhitespace c = false := by
      by_contra hc
      exact h ⟨hrendering, c, by rw [hfront]; simp, by simpa using hc⟩
    rw [render_escaped hrendering, hfront, escape_append]
    cases hescapable : isEscapable c with
    | true =>
      rw [escape_cons_of_escapable hescapable, escape_nil, ← List.singleton_append,
        ← List.append_assoc, rdropWhile_concat_ne_nil hc]
    | false =>
      rw [escape_cons_of_plain hescapable, escape_nil, rdropWhile_concat_ne_nil hc]

end RenderedWord

/-! ## Reading back -/

section Reading

variable {word : RenderedWord} {quotes : Nat} {trailing : Blank} {comment : Option (List Char)}

/-- What is left of the end of a line. -/
theorem stripCommentFrom_renderEnd (inQuotes : Bool) :
    (comment ≠ none → inQuotes = false) ∧
      stripCommentFrom inQuotes (renderEnd trailing comment) = trailing.1 ∨
    (∃ text, comment = some text ∧ inQuotes = true ∧
      stripCommentFrom inQuotes (renderEnd trailing comment) =
        trailing.1 ++ '#' :: stripCommentFrom true text) := by
  have hblank : ∀ rest, stripCommentFrom inQuotes (trailing.1 ++ rest) =
      trailing.1 ++ stripCommentFrom inQuotes rest := fun rest =>
    stripCommentFrom_append (fun c hc => (ne_of_isWhitespace (trailing.2 c hc)).2.imp_right And.left)
      inQuotes rest
  cases comment with
  | none =>
    refine .inl ⟨fun h => absurd rfl h, ?_⟩
    have hnone := hblank []
    rwa [List.append_nil, stripCommentFrom_nil, List.append_nil] at hnone
  | some text =>
    cases inQuotes with
    | false =>
      refine .inl ⟨fun _ => rfl, ?_⟩
      rw [renderEnd, hblank, stripCommentFrom_hash, List.append_nil]
    | true => exact .inr ⟨text, rfl, rfl, hblank _⟩

/-- The last word is read as it is, or misread, or followed by something of the comment. -/
theorem readBack_last (current : List Char) :
    (ReadableFrom comment quotes word [] ∧
      readBack current quotes (renderWords word [] (renderEnd trailing comment)) =
        [current ++ word.text]) ∨
    (¬ ReadableFrom comment quotes word [] ∧
      (Misread current word.text
          (readBack current quotes (renderWords word [] (renderEnd trailing comment))) ∨
        ∃ more words, readBack current quotes (renderWords word [] (renderEnd trailing comment)) =
          (current ++ word.text ++ more) :: words ∧ (more ≠ [] ∨ words ≠ []))) := by
  rw [ReadableFrom, renderWords]
  by_cases hkept : word.HashesKept quotes
  · have hcurrent : current ++ word.text ≠ [] := List.append_ne_nil_of_right_ne_nil _ word.nonempty
    rw [readBack, RenderedWord.strip_render hkept]
    rcases @stripCommentFrom_renderEnd trailing comment
      (decide (Odd (quotes + word.escapedQuotes))) with ⟨hcomment, hend⟩ | ⟨text, rfl, hodd, hend⟩
    · rw [hend]
      by_cases hlast : word.EndsBlank
      · exact .inr ⟨fun h => h.2.2 hlast,
          .inl (RenderedWord.misread_of_endsBlank hlast trailing.2 current)⟩
      · refine .inl ⟨⟨hkept, fun h => ?_, hlast⟩, ?_⟩
        · simpa using hcomment h
        · have hsplit := @RenderedWord.split_render word [] (by simp) current
          rw [List.append_nil] at hsplit
          rw [rdropWhile_append_blank trailing.2, RenderedWord.rdropWhile_render hlast, hsplit,
            splitSshWordsFrom, if_neg hcurrent]
    · -- the comment is taken for a part of the line
      have hodd : Odd (quotes + word.escapedQuotes) := by simpa using hodd
      refine .inr ⟨fun h => Nat.not_even_iff_odd.mpr hodd (h.2.1 (by simp)), ?_⟩
      have htrim : (trailing.1 ++ '#' :: stripCommentFrom true text).rdropWhile isWhitespace =
          trailing.1 ++ '#' :: (stripCommentFrom true text).rdropWhile isWhitespace := by
        rw [rdropWhile_append_of_ne_nil, rdropWhile_cons_of_not (by decide)]
        rw [rdropWhile_cons_of_not (by decide)]
        exact List.cons_ne_nil _ _
      rw [hend, rdropWhile_append_of_ne_nil (by rw [htrim]; simp), htrim]
      generalize (stripCommentFrom true text).rdropWhile isWhitespace = rest
      obtain ⟨c, back, hback, hc⟩ : ∃ c back, trailing.1 ++ '#' :: rest = c :: back ∧
          isEscapable c = true := by
        cases hblank : trailing.1 with
        | nil => exact ⟨'#', rest, rfl, by decide⟩
        | cons c blank =>
          have hc := trailing.2 c (hblank ▸ List.mem_cons_self)
          exact ⟨c, _, rfl, isEscapable_of_isWhitespace hc⟩
      by_cases hruns : word.Runs
      · exact .inl (hback ▸ RenderedWord.misread_of_runs hruns hc current back)
      · refine .inr ?_
        rw [RenderedWord.split_render (fun h => absurd h hruns)]
        have hhash : ∀ current, splitSshWordsFrom current false ('#' :: rest) =
            splitSshWordsFrom (current ++ ['#']) false rest := fun current =>
          splitSshWordsFrom_plain (by decide) (.inl (by decide)) current rest
        by_cases hblank : trailing.1 = []
        · obtain ⟨more, words, hwords⟩ := exists_head_splitSshWordsFrom rest false
            (List.append_ne_nil_of_left_ne_nil hcurrent ['#'])
          refine ⟨'#' :: more, words, ?_, .inl (List.cons_ne_nil _ _)⟩
          rw [hblank, List.nil_append, hhash, hwords, List.append_assoc _ ['#'],
            List.singleton_append]
        · obtain ⟨more, words, hwords⟩ := @exists_head_splitSshWordsFrom rest ([] ++ ['#']) false
            (by simp)
          refine ⟨[], ([] ++ ['#'] ++ more) :: words, ?_, .inr (List.cons_ne_nil _ _)⟩
          rw [splitSshWordsFrom_gap hblank trailing.2 hcurrent, hhash, hwords, List.append_nil]
  · exact .inr ⟨fun h => hkept h.1,
      .inl (RenderedWord.misread_of_not_kept hkept current (renderEnd trailing comment))⟩

theorem exists_renderWords_cons (word : RenderedWord) (more : List (Gap × RenderedWord))
    (back : List Char) :
    ∃ c rest, renderWords word more back = c :: rest ∧ isWhitespace c = false ∧ c ≠ '#' := by
  obtain ⟨c, rest, hrender, hc⟩ := word.exists_render_cons
  cases more with
  | nil => exact ⟨c, _, by rw [renderWords, hrender, List.cons_append], hc⟩
  | cons next more => exact ⟨c, _, by rw [renderWords, hrender, List.cons_append], hc⟩

/-- Something is left of every word. -/
theorem exists_trimmed_cons (inQuotes : Bool) (word : RenderedWord)
    (more : List (Gap × RenderedWord)) (back : List Char) :
    ∃ c rest, isWhitespace c = false ∧
      (stripCommentFrom inQuotes (renderWords word more back)).rdropWhile isWhitespace =
        c :: rest := by
  obtain ⟨c, rest, hrender, hc, hhash⟩ := exists_renderWords_cons word more back
  rw [hrender]
  by_cases hquote : c = '"'
  · subst hquote
    exact ⟨'"', _, hc, by rw [stripCommentFrom_quote, rdropWhile_cons_of_not hc]⟩
  · exact ⟨c, _, hc, by rw [stripCommentFrom_cons hquote hhash, rdropWhile_cons_of_not hc]⟩

/-- A word in front of others is read as it is, or misread. -/
theorem readBack_more {gap : Gap} {next : RenderedWord} {more : List (Gap × RenderedWord)}
    {back : List Char} (current : List Char) :
    (word.HashesKept quotes ∧ ¬ word.Runs ∧
      readBack current quotes (renderWords word ((gap, next) :: more) back) =
        (current ++ word.text) ::
          readBack [] (quotes + word.escapedQuotes) (renderWords next more back)) ∨
    (¬ (word.HashesKept quotes ∧ ¬ word.Runs) ∧ Misread current word.text
      (readBack current quotes (renderWords word ((gap, next) :: more) back))) := by
  rw [renderWords]
  by_cases hkept : word.HashesKept quotes
  · obtain ⟨c, rest, hc, htrimmed⟩ := exists_trimmed_cons
      (decide (Odd (quotes + word.escapedQuotes))) next more back
    have hgap : ∀ c ∈ gap.1, c ≠ '"' ∧ c ≠ '#' := fun c hc =>
      (ne_of_isWhitespace (gap.2.2 c hc)).2.imp_right And.left
    have hne : ((gap.1 ++ stripCommentFrom (decide (Odd (quotes + word.escapedQuotes)))
        (renderWords next more back)).rdropWhile isWhitespace) = gap.1 ++ c :: rest := by
      rw [rdropWhile_append_of_ne_nil (by rw [htrimmed]; simp), htrimmed]
    rw [readBack, RenderedWord.strip_render hkept, stripCommentFrom_append hgap,
      rdropWhile_append_of_ne_nil (by rw [hne]; simp), hne]
    by_cases hruns : word.Runs
    · obtain ⟨d, blank, hblank⟩ := List.exists_cons_of_ne_nil gap.2.1
      have hd := gap.2.2 d (hblank ▸ List.mem_cons_self)
      refine .inr ⟨fun h => h.2 hruns, ?_⟩
      rw [hblank, List.cons_append]
      exact RenderedWord.misread_of_runs hruns (isEscapable_of_isWhitespace hd) current _
    · refine .inl ⟨hkept, hruns, ?_⟩
      rw [RenderedWord.split_render (fun h => absurd h hruns),
        splitSshWordsFrom_gap gap.2.1 gap.2.2
          (List.append_ne_nil_of_right_ne_nil _ word.nonempty), readBack, htrimmed]
  · exact .inr ⟨fun h => hkept h.1, RenderedWord.misread_of_not_kept hkept current _⟩

/-- **The words are read back just when they are readable.** -/
theorem readBack_iff : ∀ {more : List (Gap × RenderedWord)} {word : RenderedWord} {quotes : Nat}
    (current : List Char),
    readBack current quotes (renderWords word more (renderEnd trailing comment)) =
        (current ++ word.text) :: more.map (fun next => next.2.text) ↔
      ReadableFrom comment quotes word more
  | [], word, quotes, current => by
    rcases @readBack_last word quotes trailing comment current with ⟨hreadable, hread⟩ | ⟨hnot, hread⟩
    · exact iff_of_true hread hreadable
    · refine iff_of_false (fun heq => ?_) hnot
      rcases hread with hread | ⟨more, words, hread, hne⟩
      · exact hread.ne [] (by rw [heq, List.append_nil])
      · rw [heq] at hread
        obtain ⟨hhead, rfl⟩ := List.cons.inj hread
        rcases hne with hne | hne
        · exact hne (List.append_right_eq_self.mp hhead.symm)
        · exact hne rfl
  | (gap, next) :: more, word, quotes, current => by
    rw [ReadableFrom, List.map_cons]
    rcases @readBack_more word quotes gap next more (renderEnd trailing comment) current with
      ⟨hkept, hruns, hread⟩ | ⟨hnot, hread⟩
    · have ih := @readBack_iff more next (quotes + word.escapedQuotes) []
      rw [List.nil_append] at ih
      rw [hread, List.cons_inj_right, ih]
      exact ⟨fun h => ⟨hkept, hruns, h⟩, fun h => h.2.2⟩
    · refine iff_of_false (fun heq => ?_) (fun h => hnot ⟨h.1, h.2.1⟩)
      exact hread.ne [] (by rw [heq, List.append_nil])

/-- The first word that is read goes on as the word does, if it is not misread. -/
theorem readBack_head (current : List Char) (more : List (Gap × RenderedWord)) :
    Misread current word.text
        (readBack current quotes (renderWords word more (renderEnd trailing comment))) ∨
      ∃ back words, readBack current quotes (renderWords word more (renderEnd trailing comment)) =
        (current ++ word.text ++ back) :: words := by
  cases more with
  | nil =>
    rcases @readBack_last word quotes trailing comment current with ⟨-, hread⟩ | ⟨-, hread⟩
    · exact .inr ⟨[], [], by rw [hread, List.append_nil]⟩
    · rcases hread with hread | ⟨back, words, hread, -⟩
      · exact .inl hread
      · exact .inr ⟨back, words, hread⟩
  | cons next more =>
    rcases @readBack_more word quotes next.1 next.2 more (renderEnd trailing comment) current with
      ⟨-, -, hread⟩ | ⟨-, hread⟩
    · exact .inr ⟨[], _, by rw [List.append_nil]; exact hread⟩
    · exact .inl hread

/-- Behind `=` without a gap, no other words are read as the words. -/
theorem readBack_equals_ne (more : List (Gap × RenderedWord)) :
    readBack ['='] quotes (renderWords word more (renderEnd trailing comment)) ≠
      word.text :: more.map fun next => next.2.text := by
  intro heq
  rcases @readBack_head word quotes trailing comment ['='] more with hread | ⟨back, words, hread⟩
  · rw [heq] at hread
    exact hread.headD_ne (List.headD_cons)
  · rw [heq] at hread
    have hlength := congrArg List.length (List.cons.inj hread).1
    simp only [List.length_append, List.length_singleton] at hlength
    omega

/-- Behind `=` as a word of its own, the words are not read as one less of them. -/
theorem cons_readBack_ne : ∀ {more : List (Gap × RenderedWord)} {word : RenderedWord}
    {quotes : Nat},
    ['='] :: readBack [] quotes (renderWords word more (renderEnd trailing comment)) ≠
      word.text :: more.map fun next => next.2.text := by
  intro more
  induction more with
  | nil =>
    intro word quotes heq
    obtain ⟨hword, hnil⟩ := List.cons.inj heq
    rcases @readBack_head word quotes trailing comment [] [] with hread | ⟨back, words, hread⟩
    · obtain ⟨u, c, v, rest, huv, hspecial, -⟩ := hread
      have hc : c = '=' := by
        have hmem : c ∈ ['='] := hword ▸ huv ▸ List.mem_append_right u List.mem_cons_self
        exact List.mem_singleton.mp hmem
      subst hc
      rcases hspecial with hspecial | hspecial <;> exact absurd hspecial (by decide)
    · rw [hnil] at hread
      cases hread
  | cons next more ih =>
    intro word quotes heq
    obtain ⟨hword, hrest⟩ := List.cons.inj heq
    rcases @readBack_more word quotes next.1 next.2 more (renderEnd trailing comment) [] with
      ⟨-, -, hread⟩ | ⟨-, u, c, v, rest, huv, hspecial, -⟩
    · rw [hread, ← hword, List.nil_append] at hrest
      exact ih hrest
    · have hc : c = '=' := by
        have hmem : c ∈ ['='] := hword ▸ huv ▸ List.mem_append_right u List.mem_cons_self
        exact List.mem_singleton.mp hmem
      subst hc
      rcases hspecial with hspecial | hspecial <;> exact absurd hspecial (by decide)

end Reading

end OxideTerm.SshConfig
