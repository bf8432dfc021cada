import OxideTerm.Tmux.Reference

/-!
# What is shown of a stream, however it is read

The grammar of the stream looks at the whole of it: outside of control sections a byte is output
unless the marker starts there, a section is a sequence of lines, and it ends where an escape and a
backslash follow the announcement. What reading in pieces shows is what the grammar says.
-/

namespace OxideTerm.Tmux

open OxideTerm.Lib (Bytes)

/-! ## The grammar -/

/-- Bytes of one line, within which the section does not end. -/
def IsLine (announced : Bool) (line : Bytes) : Prop :=
  newline ∉ line ∧ (announced = true → ¬ [escape, backslash] <:+: line)

/-- What is parsed of a line that the end of the section cuts off. -/
def lastLine (parser : ControlParser) (line : Bytes) : List StreamEvent :=
  if line = [] then [] else [.control (parser.parseLine (trimCarriageReturn line)).2]

mutual

/-- What a stream shows from a point outside of control sections. -/
inductive Outside : Bytes → List StreamEvent → Prop
  /-- The stream may go on with the rest of the marker. -/
  | held (start : Bytes) (hstarts : start <+: controlModeEnter) (hproper : start ≠ controlModeEnter) :
      Outside start []
  | output (byte : UInt8) (rest : Bytes) (events : List StreamEvent)
      (hstart : ¬ controlModeEnter <+: byte :: rest) (hheld : ¬ byte :: rest <+: controlModeEnter)
      (hrest : Outside rest events) :
      Outside (byte :: rest) (.terminalOutput [byte] :: events)
  | enter (rest : Bytes) (events : List StreamEvent) (hrest : Inside .new false rest events) :
      Outside (controlModeEnter ++ rest) (.controlModeEntered :: events)

/-- What a stream shows from the start of a line of a control section, where the parser has come so
far and the end of the section is announced or not. -/
inductive Inside : ControlParser → Bool → Bytes → List StreamEvent → Prop
  | unfinished (parser : ControlParser) (announced : Bool) (line : Bytes)
      (hline : IsLine announced line) : Inside parser announced line []
  | line (parser : ControlParser) (announced : Bool) (line rest : Bytes)
      (events : List StreamEvent) (hline : IsLine announced line)
      (hrest : Inside (parser.parseLine (trimCarriageReturn line)).1
        (announced || isExit (parser.parseLine (trimCarriageReturn line)).2) rest events) :
      Inside parser announced (line ++ newline :: rest)
        (.control (parser.parseLine (trimCarriageReturn line)).2 :: events)
  | exit (parser : ControlParser) (line rest : Bytes) (events : List StreamEvent)
      (hline : IsLine true line) (hrest : Outside rest events) :
      Inside parser true (line ++ escape :: backslash :: rest)
        (lastLine parser line ++ .controlModeExited :: events)

end

/-! ## Reading follows the grammar -/

theorem pair_infix_concat {a b c : UInt8} {l : Bytes} (h : [a, b] <:+: l ++ [c]) :
    [a, b] <:+: l ∨ c = b ∧ l.getLast? = some a := by
  obtain ⟨x, y, hxy⟩ := h
  rcases List.eq_nil_or_concat y with rfl | ⟨y, d, rfl⟩
  · right
    have hsplit : (x ++ [a]) ++ [b] = l ++ [c] := by simpa using hxy
    obtain ⟨rfl, hbc⟩ := List.append_inj' hsplit rfl
    exact ⟨by simpa using hbc.symm, by simp⟩
  · left
    have hsplit : (x ++ [a, b] ++ y) ++ [d] = l ++ [c] := by simpa using hxy
    obtain ⟨rfl, -⟩ := List.append_inj' hsplit rfl
    exact ⟨x, y, rfl⟩

theorem IsLine.nil (announced : Bool) : IsLine announced [] :=
  ⟨List.not_mem_nil, fun _ h => by simpa using h.length_le⟩

/-- A line goes on with a byte, unless the section ends there. -/
theorem IsLine.concat {announced : Bool} {line : Bytes} (h : IsLine announced line) {byte : UInt8}
    (hnewline : byte ≠ newline)
    (hend : announced = true → byte = backslash → line.getLast? ≠ some escape) :
    IsLine announced (line ++ [byte]) := by
  refine ⟨?_, fun hannounced hpart => ?_⟩
  · rw [List.mem_append, List.mem_singleton]
    exact fun hmem => hmem.elim h.1 fun heq => hnewline heq.symm
  · rcases pair_infix_concat hpart with hold | ⟨hbyte, hlast⟩
    · exact h.2 hannounced hold
    · exact hend hannounced hbyte hlast

namespace ControlStream

/-- A stream outside of control sections with nothing pending. -/
structure IsOutside (stream : ControlStream) : Prop where
  mode : stream.mode = .terminal
  matched : stream.enterMatchBytes = 0
  line : stream.pendingLine = []
  pending : stream.pendingControlEscape = false

/-- A stream within a line of a control section, of which so much was read. -/
structure IsInside (stream : ControlStream) (text : Bytes) : Prop where
  mode : stream.mode = .control
  matched : stream.enterMatchBytes = 0
  whole : text = if stream.pendingControlEscape then stream.pendingLine ++ [escape]
    else stream.pendingLine
  line : IsLine stream.exitAnnounced text
  /-- An escape at the end is pending. -/
  last : stream.pendingControlEscape = false → stream.pendingLine.getLast? ≠ some escape

theorem isInside_enter {stream : ControlStream} (h : stream.IsOutside) :
    stream.enter.IsInside [] := by
  refine ⟨rfl, rfl, ?_, .nil _, fun _ => ?_⟩
  · simp [enter, h.line, h.pending]
  · simp [enter, h.line]

theorem isOutside_leave {stream : ControlStream} (hmatched : stream.enterMatchBytes = 0) :
    stream.leave.1.IsOutside := by
  refine ⟨rfl, ?_, ?_, rfl⟩
  · exact (emitPendingLine_matched stream).trans hmatched
  · show stream.emitPendingLine.1.pendingLine = []
    unfold emitPendingLine
    split
    · next h => exact h
    · rfl

theorem leave_events (stream : ControlStream) :
    stream.leave.2 = lastLine stream.parser stream.pendingLine ++ [.controlModeExited] := by
  show stream.emitPendingLine.2 ++ _ = _
  unfold emitPendingLine lastLine
  split <;> rfl

/-- A line goes on, or is complete. -/
theorem takeInLine_cases {stream : ControlStream} (hmode : stream.mode = .control)
    (hmatched : stream.enterMatchBytes = 0) (hpending : stream.pendingControlEscape = false)
    (hline : IsLine stream.exitAnnounced stream.pendingLine) (byte : UInt8)
    (hend : stream.exitAnnounced = true → byte = backslash →
      stream.pendingLine.getLast? ≠ some escape) :
    ((stream.takeInLine byte).2 = [] ∧
      (stream.takeInLine byte).1.parser = stream.parser ∧
      (stream.takeInLine byte).1.exitAnnounced = stream.exitAnnounced ∧
      (stream.takeInLine byte).1.IsInside (stream.pendingLine ++ [byte])) ∨
    (byte = newline ∧ stream.takeInLine byte = stream.endLine ∧ stream.endLine.1.IsInside []) := by
  unfold takeInLine
  by_cases hnewline : byte = newline
  · rw [if_pos hnewline]
    refine Or.inr ⟨hnewline, rfl, hmode, hmatched, ?_, .nil _, fun _ => by simp [endLine]⟩
    show [] = if stream.pendingControlEscape then _ else []
    rw [if_neg (by simp [hpending])]
  · rw [if_neg hnewline]
    left
    split
    · next hescape =>
      exact ⟨rfl, rfl, rfl, hmode, hmatched, by simp [hescape], hline.concat hnewline hend,
        fun h => by cases h⟩
    · next hescape =>
      refine ⟨rfl, rfl, rfl, hmode, hmatched, ?_, hline.concat hnewline hend, fun _ => ?_⟩
      · simp [hpending]
      · simpa using hescape

/-- What reading shows, the grammar says. -/
theorem read_grammar (n : Nat) :
    (∀ (stream : ControlStream) (input : Bytes), input.length ≤ n → stream.IsOutside →
      ∃ events, Outside input events ∧ atoms (stream.read input).2 = atoms events) ∧
    (∀ (stream : ControlStream) (text input : Bytes), input.length ≤ n → stream.IsInside text →
      ∃ events, Inside stream.parser stream.exitAnnounced (text ++ input) events ∧
        atoms (stream.read input).2 = atoms events) := by
  induction n with
  | zero =>
    refine ⟨fun stream input hinput _ => ?_, fun stream text input hinput h => ?_⟩
    · obtain rfl := List.length_eq_zero_iff.mp (Nat.le_zero.mp hinput)
      exact ⟨[], .held [] List.nil_prefix (by decide), rfl⟩
    · obtain rfl := List.length_eq_zero_iff.mp (Nat.le_zero.mp hinput)
      rw [List.append_nil]
      exact ⟨[], .unfinished _ _ text h.line, rfl⟩
  | succ n ih =>
    obtain ⟨ihOutside, ihInside⟩ := ih
    constructor
    · intro stream input hinput h
      have hread : Shows (stream.read input) [] (stream.searched (marker.scan 0 input)) := by
        have hterminal := read_terminal h.mode input 0 (by decide)
        rwa [show { stream with enterMatchBytes := 0 } = stream by rw [← h.matched]] at hterminal
      rw [hread.2, atoms_nil, List.nil_append]
      by_cases hstarts : input <+: controlModeEnter ∧ input ≠ controlModeEnter
      · refine ⟨[], .held input hstarts.1 hstarts.2, ?_⟩
        rw [Lib.Marker.scan_prefix hstarts.1 hstarts.2]
        rfl
      · by_cases hstart : controlModeEnter <+: input
        · obtain ⟨rest, rfl⟩ := hstart
          have hshorter : rest.length ≤ n := by
            rw [List.length_append, length_controlModeEnter] at hinput
            omega
          obtain ⟨events, hevents, hatoms⟩ := ihInside _ [] rest hshorter (isInside_enter h)
          refine ⟨.controlModeEntered :: events, .enter rest events hevents, ?_⟩
          rw [← marker_symbols, Lib.Marker.scan_symbols]
          simp only [searched, atoms_cons, hatoms]
          rfl
        · -- The marker does not start at the first byte.
          have hheld : ¬ input <+: controlModeEnter := fun hp =>
            hstarts ⟨hp, fun heq => hstart (heq ▸ List.prefix_refl _)⟩
          cases input with
          | nil => exact absurd List.nil_prefix hheld
          | cons byte rest =>
            obtain ⟨events, hevents, hatoms⟩ :=
              ihOutside stream rest (Nat.le_of_succ_le_succ hinput) h
            refine ⟨_, .output byte rest events hstart hheld hevents, ?_⟩
            have hlater : Shows (stream.read rest) [] (stream.searched (marker.scan 0 rest)) := by
              have hterminal := read_terminal h.mode rest 0 (by decide)
              rwa [show { stream with enterMatchBytes := 0 } = stream by rw [← h.matched]]
                at hterminal
            rw [@Lib.Marker.scan_cons _ marker _ _ _ (by decide) hstart hheld,
              (shows_release _ _ _).2, atoms_cons, atoms_cons, ← hatoms, hlater.2]
            simp
    · intro stream text input hinput h
      cases input with
      | nil =>
        rw [List.append_nil]
        exact ⟨[], .unfinished _ _ text h.line, rfl⟩
      | cons byte rest =>
        have hshorter : rest.length ≤ n := Nat.le_of_succ_le_succ hinput
        -- A byte of the line, in the stream in which nothing is pending.
        have hinline : ∀ before : ControlStream, before.parser = stream.parser →
            before.exitAnnounced = stream.exitAnnounced → before.mode = .control →
            before.enterMatchBytes = 0 → before.pendingControlEscape = false →
            before.pendingLine = text →
            (stream.exitAnnounced = true → byte = backslash → text.getLast? ≠ some escape) →
            stream.take byte = before.takeInLine byte →
            ∃ events, Inside stream.parser stream.exitAnnounced (text ++ byte :: rest) events ∧
              atoms (stream.read (byte :: rest)).2 = atoms events := by
          intro before hparser hannounced hmode hmatched hpending hline hend htake
          rw [read_cons, htake]
          rcases takeInLine_cases hmode hmatched hpending (by rw [hannounced, hline]; exact h.line)
            byte (by rw [hannounced, hline]; exact hend) with
            ⟨hevents, hparser', hannounced', hinside⟩ | ⟨rfl, hline', hinside⟩
          · obtain ⟨events, hgrammar, hatoms⟩ := ihInside _ _ rest hshorter hinside
            refine ⟨events, ?_, by rw [hevents, List.nil_append, hatoms]⟩
            rw [hparser', hannounced', hparser, hannounced, hline, List.append_assoc] at hgrammar
            exact hgrammar
          · obtain ⟨events, hgrammar, hatoms⟩ := ihInside _ _ rest hshorter hinside
            rw [hline']
            refine ⟨_, .line stream.parser stream.exitAnnounced text rest events h.line ?_, ?_⟩
            · rw [List.nil_append] at hgrammar
              rw [← hparser, ← hannounced, ← hline]
              exact hgrammar
            · rw [atoms_append, hatoms, atoms_cons, ← hparser, ← hline]
              rfl
        cases hpending : stream.pendingControlEscape with
        | false =>
          have htext := h.whole
          rw [if_neg (by simp [hpending])] at htext
          exact hinline stream rfl rfl h.mode h.matched hpending htext.symm
            (fun _ _ => htext ▸ h.last hpending) (take_line stream h.mode hpending byte)
        | true =>
          have htext := h.whole
          rw [if_pos hpending] at htext
          by_cases hexit : byte = backslash ∧ stream.exitAnnounced = true
          · obtain ⟨rfl, hannounced⟩ := hexit
            have htake : stream.take backslash = stream.leave := by
              simp only [take, h.mode, hpending, hannounced, if_true, and_self]
            obtain ⟨events, hgrammar, hatoms⟩ :=
              ihOutside _ rest hshorter (isOutside_leave h.matched)
            have hline : IsLine true stream.pendingLine := by
              have hwhole := h.line
              rw [hannounced, htext] at hwhole
              exact ⟨fun hmem => hwhole.1 (List.mem_append_left _ hmem), fun _ hpart =>
                hwhole.2 rfl (hpart.trans (List.prefix_append _ _).isInfix)⟩
            refine ⟨lastLine stream.parser stream.pendingLine ++ .controlModeExited :: events, ?_, ?_⟩
            · rw [hannounced, htext, List.append_assoc]
              exact .exit stream.parser stream.pendingLine rest events hline hgrammar
            · rw [read_cons, htake, leave_events]
              simp only [atoms_append, atoms_cons, atoms_nil, List.append_nil, List.append_assoc,
                hatoms]
          · have htake : stream.take byte = stream.keepEscape.takeInLine byte := by
              simp only [take, h.mode, hpending, if_true, if_neg hexit]
            exact hinline stream.keepEscape rfl rfl h.mode h.matched rfl htext.symm
              (fun hannounced hbyte => absurd ⟨hbyte, hannounced⟩ hexit) htake

end ControlStream

/-! ## The grammar is unambiguous -/

theorem not_line_exit {l l' r r' : Bytes} (hl : IsLine true l) (hl' : IsLine true l') :
    l ++ newline :: r ≠ l' ++ escape :: backslash :: r' := by
  intro h
  rcases List.append_eq_append_iff.mp h with ⟨m, rfl, hm⟩ | ⟨m, rfl, hm⟩
  · cases m with
    | nil => exact absurd (List.cons.inj hm).1 (by decide)
    | cons x m =>
      obtain ⟨rfl, -⟩ := List.cons.inj hm
      exact hl'.1 (List.mem_append_right _ List.mem_cons_self)
  · cases m with
    | nil => exact absurd (List.cons.inj hm).1 (by decide)
    | cons x m =>
      obtain ⟨rfl, htail⟩ := List.cons.inj hm
      cases m with
      | nil => exact absurd (List.cons.inj htail).1 (by decide)
      | cons y m =>
        obtain ⟨rfl, -⟩ := List.cons.inj htail
        exact hl.2 rfl ⟨l', m, by simp⟩

theorem exit_inj {l l' r r' : Bytes} (hl' : IsLine true l')
    (h : l' ++ escape :: backslash :: r' = l ++ escape :: backslash :: r) (hle : l.length ≤ l'.length) :
    l = l' ∧ r = r' := by
  rcases List.append_eq_append_iff.mp h with ⟨m, rfl, hm⟩ | ⟨m, rfl, hm⟩
  · obtain rfl : m = [] := by
      rw [List.length_append] at hle
      exact List.length_eq_zero_iff.mp (by omega)
    obtain ⟨-, hm⟩ := List.cons.inj hm
    obtain ⟨-, rfl⟩ := List.cons.inj hm
    exact ⟨List.append_nil _, rfl⟩
  · cases m with
    | nil =>
      obtain ⟨-, hm⟩ := List.cons.inj hm
      obtain ⟨-, rfl⟩ := List.cons.inj hm
      exact ⟨(List.append_nil _).symm, rfl⟩
    | cons x m =>
      obtain ⟨rfl, htail⟩ := List.cons.inj hm
      cases m with
      | nil => exact absurd (List.cons.inj htail).1 (by decide)
      | cons y m =>
        obtain ⟨rfl, -⟩ := List.cons.inj htail
        exact absurd ⟨l, m, by simp⟩ (hl'.2 rfl)

theorem line_inj {l l' r r' : Bytes} (hl : newline ∉ l) (hl' : newline ∉ l')
    (h : l ++ newline :: r = l' ++ newline :: r') : l = l' ∧ r = r' := by
  rcases List.append_eq_append_iff.mp h with ⟨m, rfl, hm⟩ | ⟨m, rfl, hm⟩
  · cases m with
    | nil => exact ⟨(List.append_nil _).symm, (List.cons.inj hm).2⟩
    | cons x m =>
      obtain ⟨rfl, -⟩ := List.cons.inj hm
      exact absurd (List.mem_append_right _ List.mem_cons_self) hl'
  · cases m with
    | nil => exact ⟨List.append_nil _, ((List.cons.inj hm).2).symm⟩
    | cons x m =>
      obtain ⟨rfl, -⟩ := List.cons.inj hm
      exact absurd (List.mem_append_right _ List.mem_cons_self) hl

/-- **A stream shows one thing.** -/
theorem grammar_unique (n : Nat) :
    (∀ s s' events events', s.length < n → s = s' → Outside s events → Outside s' events' →
      events = events') ∧
    (∀ parser announced s s' events events', s.length < n → s = s' →
      Inside parser announced s events → Inside parser announced s' events' → events = events') := by
  induction n with
  | zero =>
    exact ⟨fun s s' events events' hs => absurd hs (Nat.not_lt_zero _),
      fun parser announced s s' events events' hs => absurd hs (Nat.not_lt_zero _)⟩
  | succ n ih =>
    obtain ⟨ihOutside, ihInside⟩ := ih
    constructor
    · intro s s' events events' hs heq h h'
      cases h with
      | held start hstarts hproper =>
        cases h' with
        | held start' _ _ => rfl
        | output byte rest later hstart hheld hrest =>
          subst heq
          exact absurd hstarts hheld
        | enter rest later hrest =>
          subst heq
          exact absurd (hstarts.eq_of_length_le (by simp)) hproper
      | output byte rest later hstart hheld hrest =>
        cases h' with
        | held start' hstarts' hproper' =>
          subst heq
          exact absurd hstarts' hheld
        | output byte' rest' later' hstart' hheld' hrest' =>
          obtain ⟨rfl, rfl⟩ := List.cons.inj heq
          rw [ihOutside rest rest later later' (Nat.lt_of_succ_lt_succ hs) rfl hrest hrest']
        | enter rest' later' hrest' => exact absurd (heq ▸ List.prefix_append _ _) hstart
      | enter rest later hrest =>
        cases h' with
        | held start' hstarts' hproper' =>
          subst heq
          exact absurd (hstarts'.eq_of_length_le (by simp)) hproper'
        | output byte' rest' later' hstart' hheld' hrest' =>
          exact absurd (heq ▸ List.prefix_append _ _) hstart'
        | enter rest' later' hrest' =>
          obtain rfl := List.append_cancel_left heq
          rw [List.length_append, length_controlModeEnter] at hs
          rw [ihInside _ _ rest rest later later' (by omega) rfl hrest hrest']
    · intro parser announced s s' events events' hs heq h h'
      cases h with
      | unfinished _ _ line hline =>
        cases h' with
        | unfinished _ _ line' hline' => rfl
        | line _ _ line' rest' later' hline' hrest' =>
          subst heq
          exact absurd (List.mem_append_right _ List.mem_cons_self) hline.1
        | exit _ line' rest' later' hline' hrest' =>
          subst heq
          exact absurd ⟨line', rest', by simp⟩ (hline.2 rfl)
      | line _ _ line rest later hline hrest =>
        cases h' with
        | unfinished _ _ line' hline' =>
          subst heq
          exact absurd (List.mem_append_right _ List.mem_cons_self) hline'.1
        | line _ _ line' rest' later' hline' hrest' =>
          obtain ⟨rfl, rfl⟩ := line_inj hline.1 hline'.1 heq
          rw [List.length_append, List.length_cons] at hs
          rw [ihInside _ _ rest rest later later' (by omega) rfl hrest hrest']
        | exit _ line' rest' later' hline' hrest' => exact absurd heq (not_line_exit hline hline')
      | exit _ line rest later hline hrest =>
        cases h' with
        | unfinished _ _ line' hline' =>
          subst heq
          exact absurd ⟨line, rest, by simp⟩ (hline'.2 rfl)
        | line _ _ line' rest' later' hline' hrest' =>
          exact absurd heq.symm (not_line_exit hline' hline)
        | exit _ line' rest' later' hline' hrest' =>
          obtain ⟨rfl, rfl⟩ : line = line' ∧ rest = rest' := by
            rcases Nat.le_total line.length line'.length with hle | hle
            · exact exit_inj hline' heq.symm hle
            · obtain ⟨rfl, rfl⟩ := exit_inj hline heq hle
              exact ⟨rfl, rfl⟩
          rw [List.length_append, List.length_cons, List.length_cons] at hs
          rw [ihOutside rest rest later later' (by omega) rfl hrest hrest']

/-! ## Reading in pieces -/

theorem isOutside_new (maximumLineBytes : Nat) :
    (ControlStream.withMaximumLineBytes maximumLineBytes).IsOutside := ⟨rfl, rfl, rfl, rfl⟩

/--
**However the stream is cut into reads, it shows what the grammar says of the whole.**

Output outside of control sections may be cut in different ways, so that events are compared with
adjacent output joined and empty output dropped. The grammar leaves one possibility, and so two ways
to cut the stream show the same.
-/
theorem control_stream_is_chunking_invariant (maximumLineBytes : Nat) (inputs : List Bytes)
    (hok : ((ControlStream.withMaximumLineBytes maximumLineBytes).advanceAll inputs).error = none) :
    (∃ events, Outside inputs.flatten events ∧
      (∀ events', Outside inputs.flatten events' → events' = events) ∧
      joined ((ControlStream.withMaximumLineBytes maximumLineBytes).advanceAll inputs).events =
        joined events) ∧
    ∀ others : List Bytes, others.flatten = inputs.flatten →
      ((ControlStream.withMaximumLineBytes maximumLineBytes).advanceAll others).error = none →
        joined ((ControlStream.withMaximumLineBytes maximumLineBytes).advanceAll others).events =
          joined ((ControlStream.withMaximumLineBytes maximumLineBytes).advanceAll inputs).events := by
  generalize hstream : ControlStream.withMaximumLineBytes maximumLineBytes = stream at hok ⊢
  have houtside : stream.IsOutside := hstream ▸ isOutside_new maximumLineBytes
  have haligned : stream.Aligned := by
    unfold ControlStream.Aligned
    rw [houtside.matched]
    decide
  have hread : ∀ pieces : List Bytes, (stream.advanceAll pieces).error = none →
      atoms (stream.advanceAll pieces).events = atoms (stream.read pieces.flatten).2 := by
    intro pieces hpieces
    have hshows := (ControlStream.advanceAll_reads haligned pieces hpieces).2
    rw [atoms_nil, List.append_nil] at hshows
    exact hshows.symm
  constructor
  · obtain ⟨events, hevents, hatoms⟩ := (ControlStream.read_grammar inputs.flatten.length).1 stream
      inputs.flatten (Nat.le_refl _) houtside
    refine ⟨events, hevents, fun events' hevents' => ?_, ?_⟩
    · exact (grammar_unique (inputs.flatten.length + 1)).1 _ _ _ _ (Nat.lt_succ_self _) rfl hevents' hevents
    · exact joined_eq_of_atoms ((hread inputs hok).trans hatoms)
  · intro others hsame hothers
    refine joined_eq_of_atoms ?_
    rw [hread others hothers, hread inputs hok, hsame]

/-- A session that is read in three pieces: the marker, a line and the end are cut. -/
theorem control_stream_is_chunking_invariant_exit :
    (∃ events, Outside [ascii "$ \x1bP10", ascii "00p%exit\r", ascii "\n\x1b\\ok"].flatten events ∧
      (∀ events', Outside [ascii "$ \x1bP10", ascii "00p%exit\r", ascii "\n\x1b\\ok"].flatten
        events' → events' = events) ∧
      joined ((ControlStream.withMaximumLineBytes 80).advanceAll
        [ascii "$ \x1bP10", ascii "00p%exit\r", ascii "\n\x1b\\ok"]).events = joined events) ∧
    ∀ others : List Bytes,
      others.flatten = [ascii "$ \x1bP10", ascii "00p%exit\r", ascii "\n\x1b\\ok"].flatten →
      ((ControlStream.withMaximumLineBytes 80).advanceAll others).error = none →
        joined ((ControlStream.withMaximumLineBytes 80).advanceAll others).events =
          joined ((ControlStream.withMaximumLineBytes 80).advanceAll
            [ascii "$ \x1bP10", ascii "00p%exit\r", ascii "\n\x1b\\ok"]).events :=
  control_stream_is_chunking_invariant 80
    [ascii "$ \x1bP10", ascii "00p%exit\r", ascii "\n\x1b\\ok"] (by decide +kernel)

end OxideTerm.Tmux
