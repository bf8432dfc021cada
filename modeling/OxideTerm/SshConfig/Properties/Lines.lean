import OxideTerm.SshConfig.Properties.Lexing

/-!
# Which lines are read back

The keyword and the separator in front of the words, and with them the whole line.
-/

namespace OxideTerm.SshConfig

open OxideTerm.Lib.Text

/-! ## Keywords -/

namespace Keyword

variable (keyword : Keyword)

theorem not_special {c : Char} (hc : c ∈ keyword.text) :
    isWhitespace c = false ∧ c ≠ '\\' ∧ c ≠ '"' ∧ c ≠ '#' ∧ c ≠ '=' := by
  obtain ⟨hblank, hspecial⟩ := keyword.plain c hc
  simp only [List.mem_cons, List.not_mem_nil, or_false, not_or] at hspecial
  exact ⟨hblank, hspecial⟩

theorem equals_notMem : '=' ∉ keyword.text := fun h => (keyword.not_special h).2.2.2.2 rfl

/-- Nothing is taken from what stands behind a keyword and an end of it. -/
theorem takeWhile_append {p : Char → Bool} (h : ∀ c ∈ keyword.text, p c = true) {c : Char}
    (hc : p c = false) (rest : List Char) :
    (keyword.text ++ c :: rest).takeWhile p = keyword.text := by
  rw [List.takeWhile_append_of_pos h, List.takeWhile_cons, hc]
  simp

end Keyword

theorem Separator.exists_render_append (separator : Separator) (rest : List Char) :
    ∃ c back, separator.render ++ rest = c :: back ∧ (isWhitespace c = true ∨ c = '=') := by
  cases separator with
  | blank gap =>
    obtain ⟨c, blank, hgap⟩ := List.exists_cons_of_ne_nil gap.2.1
    refine ⟨c, blank ++ rest, ?_, .inl (gap.2.2 c (hgap ▸ List.mem_cons_self))⟩
    rw [render, hgap, List.cons_append]
  | equals before after =>
    cases hbefore : before.1 with
    | nil => exact ⟨'=', _, by rw [render, hbefore, List.nil_append, List.cons_append], .inr rfl⟩
    | cons c blank =>
      refine ⟨c, blank ++ '=' :: after.1 ++ rest, ?_,
        .inl (before.2 c (hbefore ▸ List.mem_cons_self))⟩
      rw [render, hbefore, List.cons_append, List.cons_append]

/-- Separators have no quotes and no hashes. -/
theorem Separator.not_special {separator : Separator} {c : Char} (hc : c ∈ separator.render) :
    c ≠ '"' ∧ c ≠ '#' := by
  have hblank : isWhitespace c = true → c ≠ '"' ∧ c ≠ '#' := fun h =>
    (ne_of_isWhitespace h).2.imp_right And.left
  cases separator with
  | blank gap => exact hblank (gap.2.2 c hc)
  | equals before after =>
    rcases List.mem_append.mp hc with hc | hc
    · exact hblank (before.2 c hc)
    rcases List.mem_cons.mp hc with rfl | hc
    · decide
    · exact hblank (after.2 c hc)

/-! ## Lines -/

namespace Line

variable (line : Line)

/-- The words and what follows them. -/
def tail : List Char := renderWords line.word line.more (renderEnd line.trailing line.comment)

/-- Trimming a line takes the indentation and what is blank behind the words. -/
theorem trim_append {back : List Char} (h : back.rdropWhile isWhitespace ≠ []) :
    trim (line.indent.1 ++ (line.keyword.text ++ (line.separator.render ++ back))) =
      line.keyword.text ++ (line.separator.render ++ back.rdropWhile isWhitespace) := by
  obtain ⟨c, keyword, hkeyword⟩ := List.exists_cons_of_ne_nil line.keyword.nonempty
  have hc : isWhitespace c = false :=
    (line.keyword.not_special (hkeyword ▸ List.mem_cons_self)).1
  have hdrop : (line.indent.1 ++ (line.keyword.text ++ (line.separator.render ++ back))).dropWhile
      isWhitespace = line.keyword.text ++ (line.separator.render ++ back) := by
    rw [List.dropWhile_append_of_pos line.indent.2, hkeyword, List.cons_append,
      List.dropWhile_cons, if_neg (by simp [hc])]
  have hback : (line.separator.render ++ back).rdropWhile isWhitespace =
      line.separator.render ++ back.rdropWhile isWhitespace := rdropWhile_append_of_ne_nil h _
  rw [trim, hdrop, rdropWhile_append_of_ne_nil, hback]
  rw [hback]
  exact List.append_ne_nil_of_right_ne_nil _ h

theorem rdropWhile_tail_ne_nil : line.tail.rdropWhile isWhitespace ≠ [] := by
  obtain ⟨c, rest, hrender, hc, -⟩ := exists_renderWords_cons line.word line.more
    (renderEnd line.trailing line.comment)
  rw [tail, hrender, rdropWhile_cons_of_not hc]
  exact List.cons_ne_nil _ _

/-- The line is not taken for a `RemoteCommand`. -/
theorem remoteCommandValue_text : remoteCommandValue line.text = none := by
  have htrim : trim line.text = line.keyword.text ++
      (line.separator.render ++ line.tail.rdropWhile isWhitespace) :=
    line.trim_append line.rdropWhile_tail_ne_nil
  obtain ⟨c, back, hback, hc⟩ :=
    line.separator.exists_render_append (line.tail.rdropWhile isWhitespace)
  obtain ⟨first, keyword, hkeyword⟩ := List.exists_cons_of_ne_nil line.keyword.nonempty
  have hfirst := line.keyword.not_special (hkeyword ▸ List.mem_cons_self)
  have htake := line.keyword.takeWhile_append (p := fun c => !(isWhitespace c || c == '='))
    (fun c hc => by
      have hplain := line.keyword.not_special hc
      simp [hplain.1, hplain.2.2.2.2]) (c := c) (by rcases hc with hc | hc <;> simp [hc]) back
  rw [remoteCommandValue]
  simp only
  rw [htrim, hback, if_neg, htake, line.keyword.notRemoteCommand]
  · rfl
  · rw [hkeyword, List.cons_append]
    rintro (h | h)
    · exact List.cons_ne_nil _ _ h
    · exact hfirst.2.2.2.1 (Option.some.inj h)

/-- What the passes before splitting leave of a line. -/
theorem trim_stripComment_text :
    trim (stripComment line.text) = line.keyword.text ++ (line.separator.render ++
      (stripCommentFrom (decide (Odd 0)) line.tail).rdropWhile isWhitespace) := by
  have hindent : ∀ c ∈ line.indent.1, c ≠ '"' ∧ c ≠ '#' := fun c hc =>
    (ne_of_isWhitespace (line.indent.2 c hc)).2.imp_right And.left
  have hkeyword : ∀ c ∈ line.keyword.text, c ≠ '"' ∧ c ≠ '#' := fun c hc =>
    (line.keyword.not_special hc).2.2.imp_right And.left
  have hodd : decide (Odd 0) = false := by decide
  rw [stripComment, text, stripCommentFrom_append hindent, stripCommentFrom_append hkeyword,
    stripCommentFrom_append fun _ => Separator.not_special, hodd]
  refine line.trim_append ?_
  obtain ⟨c, rest, -, htrimmed⟩ := exists_trimmed_cons false line.word line.more
    (renderEnd line.trailing line.comment)
  rw [htrimmed]
  exact List.cons_ne_nil _ _

/-- The words of a line, by the way its keyword is separated from them. -/
def read : List (List Char) :=
  match line.separator with
  | .blank _ => line.keyword.text :: readBack [] 0 line.tail
  | .equals before after =>
    if before.1 = [] then
      if after.1 = [] then readBack (line.keyword.text ++ ['=']) 0 line.tail
      else (line.keyword.text ++ ['=']) :: readBack [] 0 line.tail
    else
      line.keyword.text ::
        if after.1 = [] then readBack ['='] 0 line.tail else ['='] :: readBack [] 0 line.tail

theorem splitSshWords_text : splitSshWords (trim (stripComment line.text)) = line.read := by
  have hkeyword : ∀ c ∈ line.keyword.text, isWhitespace c = false ∧ c ≠ '\\' ∧ c ≠ '"' :=
    fun c hc => (line.keyword.not_special hc).imp_right fun h => ⟨h.1, h.2.1⟩
  have hequals : ∀ current rest, splitSshWordsFrom current false ('=' :: rest) =
      splitSshWordsFrom (current ++ ['=']) false rest := fun current rest =>
    splitSshWordsFrom_plain (by decide) (.inl (by decide)) current rest
  have hafter : ∀ {after : Blank} {current : List Char} (rest : List Char), current ≠ [] →
      splitSshWordsFrom current false (after.1 ++ rest) =
        if after.1 = [] then splitSshWordsFrom current false rest
        else current :: splitSshWordsFrom [] false rest := by
    intro after current rest hcurrent
    split
    · next hnil => rw [hnil, List.nil_append]
    · next hne => exact splitSshWordsFrom_gap hne after.2 hcurrent rest
  have hne := line.keyword.nonempty
  rw [line.trim_stripComment_text, splitSshWords, splitSshWordsFrom_append hkeyword,
    List.nil_append, read]
  cases hseparator : line.separator with
  | blank gap => exact splitSshWordsFrom_gap gap.2.1 gap.2.2 hne _
  | equals before after =>
    have hbody : ∀ rest, (Separator.equals before after).render ++ rest =
        before.1 ++ '=' :: (after.1 ++ rest) := fun rest => by
      rw [Separator.render, List.append_assoc, List.cons_append]
    rw [hbody]
    show _ = if before.1 = [] then _ else _
    by_cases hbefore : before.1 = []
    · rw [hbefore, if_pos rfl, List.nil_append, hequals,
        hafter _ (List.append_ne_nil_of_left_ne_nil hne _)]
      rfl
    · rw [if_neg hbefore, splitSshWordsFrom_gap hbefore before.2 hne, hequals, List.nil_append,
        hafter _ (List.cons_ne_nil _ _)]
      rfl

/-- What the parser makes of the words of a line. -/
def ofWords : List (List Char) → ConfigLine
  | [] => .blank
  | keyword :: values =>
    .option (toAsciiLowercase (splitKeyword keyword values).1) (splitKeyword keyword values).2

/-- A line is read as its keyword and what is behind it, however they are written. -/
theorem readLine_text : readLine line.text = ofWords line.read := by
  have hne : trim (stripComment line.text) ≠ [] := by
    rw [line.trim_stripComment_text]
    exact List.append_ne_nil_of_left_ne_nil line.keyword.nonempty _
  rw [readLine, line.remoteCommandValue_text]
  dsimp only
  rw [if_neg hne, line.splitSshWords_text]
  cases line.read <;> rfl

/-! ## Reading back -/

theorem splitKeyword_cons (keyword value : List Char) (values : List (List Char)) :
    splitKeyword keyword (value :: values) = (keyword, value :: values) := rfl

theorem splitKeyword_keyword (values : List (List Char)) :
    splitKeyword line.keyword.text values = (line.keyword.text, values) := by
  cases values with
  | nil =>
    unfold splitKeyword
    rw [splitOnce_of_notMem _ line.keyword.equals_notMem]
  | cons value values => rfl

theorem splitKeyword_equals (value : List Char) :
    splitKeyword (line.keyword.text ++ '=' :: value) [] = (line.keyword.text, [value]) := by
  unfold splitKeyword
  rw [splitOnce_append value _ line.keyword.equals_notMem]

/-- A keyword that goes on behind `=` is another one. -/
theorem toAsciiLowercase_append_ne (value : List Char) :
    toAsciiLowercase (line.keyword.text ++ '=' :: value) ≠
      toAsciiLowercase line.keyword.text := by
  intro heq
  have hlength := congrArg List.length heq
  simp [toAsciiLowercase] at hlength

theorem words_text : line.words.map RenderedWord.text =
    line.word.text :: line.more.map fun next => next.2.text := by
  rw [words, List.map_cons, List.map_map]
  rfl

theorem readable_iff : line.Readable ↔
    (∀ before after, line.separator = .equals before after →
      before.1 = [] ∧ after.1 = [] ∧ line.more = []) ∧
    ReadableFrom line.comment 0 line.word line.more := by
  rw [readableFrom_iff]
  simp only [Nat.zero_add]
  constructor
  · intro h
    exact ⟨h.separator, h.hashes, h.comment, h.inner, h.last⟩
  · rintro ⟨hseparator, hhashes, hcomment, hinner, hlast⟩
    exact ⟨hseparator, hhashes, hcomment, hinner, hlast⟩

/-- **A line gives its keyword and its words just when it is readable.** -/
theorem readLine_text_iff : readLine line.text = line.meaning ↔ line.Readable := by
  rw [readable_iff, readLine_text, meaning, words_text, read]
  simp only [ofWords]
  have hlower := line.toAsciiLowercase_append_ne
  cases hseparator : line.separator with
  | blank gap =>
    have hread := @readBack_iff line.trailing line.comment line.more line.word 0 []
    rw [List.nil_append] at hread
    rw [← hread, ← tail]
    simp only [splitKeyword_keyword, ConfigLine.option.injEq, true_and]
    constructor
    · intro h
      refine ⟨fun _ _ h => ?_, h⟩
      cases h
    · exact And.right
  | equals before after =>
    by_cases hbefore : before.1 = []
    · by_cases hafter : after.1 = []
      · -- the keyword and the first word are one
        have hread := @readBack_iff line.trailing line.comment line.more line.word 0
          (line.keyword.text ++ ['='])
        have hne : line.keyword.text ++ ['='] ≠ [] :=
          List.append_ne_nil_of_left_ne_nil line.keyword.nonempty _
        obtain ⟨value, words, hwords⟩ := exists_head_splitSshWordsFrom
          ((stripCommentFrom (decide (Odd 0)) line.tail).rdropWhile isWhitespace) false hne
        have hwords : readBack (line.keyword.text ++ ['=']) 0 line.tail =
            (line.keyword.text ++ ['='] ++ value) :: words := hwords
        rw [← tail, hwords] at hread
        simp only [if_pos hbefore, if_pos hafter, hwords]
        simp only [List.append_assoc, List.singleton_append] at hread ⊢
        constructor
        · intro h
          obtain ⟨hkeyword, hvalues⟩ := ConfigLine.option.inj h
          cases words with
          | nil =>
            rw [splitKeyword_equals] at hvalues
            obtain ⟨rfl, hmore⟩ := List.cons.inj hvalues
            have hmore : line.more = [] := List.map_eq_nil_iff.mp hmore.symm
            refine ⟨fun before' after' h => ?_, hread.mp (by rw [hmore, List.map_nil])⟩
            obtain ⟨rfl, rfl⟩ := Separator.equals.inj h
            exact ⟨hbefore, hafter, hmore⟩
          | cons word words => exact absurd hkeyword (hlower value)
        · rintro ⟨hor, hreadable⟩
          obtain ⟨-, -, hmore⟩ := hor before after rfl
          obtain ⟨hhead, hnil⟩ := List.cons.inj (hread.mpr hreadable)
          rw [hmore, List.map_nil] at hnil
          subst hnil
          rw [hhead, splitKeyword_equals, hmore, List.map_nil]
      · simp only [if_pos hbefore, if_neg hafter]
        refine iff_of_false (fun h => ?_) fun h => hafter (h.1 before after rfl).2.1
        obtain ⟨hkeyword, hvalues⟩ := ConfigLine.option.inj h
        cases hread : readBack [] 0 line.tail with
        | nil =>
          rw [hread, splitKeyword_equals] at hvalues
          exact line.word.nonempty (List.cons.inj hvalues).1.symm
        | cons value values =>
          rw [hread, splitKeyword_cons] at hkeyword
          exact hlower [] hkeyword
    · refine iff_of_false (fun h => ?_) fun h => hbefore (h.1 before after rfl).1
      simp only [if_neg hbefore, splitKeyword_keyword] at h
      obtain ⟨-, hvalues⟩ := ConfigLine.option.inj h
      by_cases hafter : after.1 = []
      · rw [if_pos hafter] at hvalues
        exact readBack_equals_ne line.more hvalues
      · rw [if_neg hafter] at hvalues
        exact cons_readBack_ne hvalues

end Line

theorem isWhitespace_of_mem_nil : ∀ c ∈ ([] : List Char), isWhitespace c = true := by
  simp

theorem isWhitespace_of_mem_blank : ∀ c ∈ [' '], isWhitespace c = true := by
  simp [isWhitespace]

theorem port_plain :
    ∀ c ∈ ['P', 'o', 'r', 't'], isWhitespace c = false ∧ c ∉ ['\\', '"', '#', '='] := by
  simp [isWhitespace]

theorem port_notRemoteCommand :
    eqIgnoreAsciiCase ['P', 'o', 'r', 't'] "remotecommand".toList = false := by
  decide +kernel

theorem escaped_quotable {text : List Char} :
    Rendering.escaped = .quoted → '"' ∉ text ∧ '\\' ∉ text := by
  simp

/-- `Port = 22`: the equals sign with a blank on either side. -/
def spacedEquals : Line where
  indent := ⟨[], isWhitespace_of_mem_nil⟩
  keyword := ⟨['P', 'o', 'r', 't'], List.cons_ne_nil _ _, port_plain, port_notRemoteCommand⟩
  separator := .equals ⟨[' '], isWhitespace_of_mem_blank⟩ ⟨[' '], isWhitespace_of_mem_blank⟩
  word := ⟨['2', '2'], .escaped, List.cons_ne_nil _ _, escaped_quotable⟩
  more := []
  trailing := ⟨[], isWhitespace_of_mem_nil⟩
  comment := none

/-- The equals sign becomes the first value. -/
theorem spacedEquals_not_read :
    readLine spacedEquals.text = .option ['p', 'o', 'r', 't'] [['='], ['2', '2']] ∧
      readLine spacedEquals.text ≠ spacedEquals.meaning := by
  decide +kernel

end OxideTerm.SshConfig
