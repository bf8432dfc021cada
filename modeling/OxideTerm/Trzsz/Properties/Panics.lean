import OxideTerm.Trzsz.Transfer

/-!
# What makes a transfer panic

A line is cut after its first byte, which panics where the line begins with a character of several
bytes. Apart from that only numbers can be too large.
-/

namespace OxideTerm.Trzsz

open OxideTerm.Lib OxideTerm.Lib.Text
open OxideTerm.Lib.Program (Runs Exchange Crashed CrashesBy)

/-! ## One line -/

/-- The line begins with a character of several bytes and has a colon. -/
def SplitsCharacter (line : List Char) : Prop :=
  ':' ∈ line ∧ ∃ c rest, line = c :: rest ∧ 1 < c.utf8Size

namespace Transfer

theorem checkLine_splits {expectType line : List Char} (h : SplitsCharacter line) :
    checkLine expectType line = panic := by
  obtain ⟨hcolon, c, rest, rfl, hsize⟩ := h
  rw [checkLine]
  cases hfind : find [':'] (c :: rest) with
  | none => exact absurd hcolon (notMem_of_find _ hfind)
  | some index =>
    obtain ⟨front, after, hline, hindex⟩ := exists_of_find _ hfind
    have hpos : ¬ index < 1 := by
      cases front with
      | nil =>
        -- The colon itself is a single byte.
        obtain rfl : c = ':' := (List.cons.inj hline).1
        exact absurd hsize (by decide)
      | cons d front =>
        have hd := d.utf8Size_pos
        rw [byteLength_cons] at hindex
        omega
    have hnone : slice (c :: rest) 1 index = none := by
      rw [slice, if_neg (by omega), sliceFrom, if_neg (by omega)]
      rfl
    simp only [if_neg hpos, hnone]

/-- A line that has a colon behind a first character of one byte. -/
theorem checkLine_of_size {expectType line : List Char} (h : ¬ SplitsCharacter line) :
    ∃ result, checkLine expectType line = .done result ∧ result ≠ .error .panic ∧
      ∀ buffer, result = .ok buffer → ∃ c, c.utf8Size = 1 ∧ line = c :: (expectType ++ ':' :: buffer) := by
  rw [checkLine]
  cases hfind : find [':'] line with
  | none => exact ⟨_, rfl, by simp, fun _ hok => by cases hok⟩
  | some index =>
    obtain ⟨front, after, hline, hindex⟩ := exists_of_find _ hfind
    by_cases hpos : index < 1
    · simp only [if_pos hpos]
      exact ⟨_, rfl, by simp, fun _ hok => by cases hok⟩
    · simp only [if_neg hpos]
      cases front with
      | nil =>
        rw [byteLength_nil] at hindex
        omega
      | cons c front =>
        have hsize : c.utf8Size = 1 := by
          have hc := c.utf8Size_pos
          by_contra hne
          refine h ⟨?_, c, front ++ ':' :: after, hline, by omega⟩
          rw [hline]
          simp
        rw [byteLength_cons, hsize] at hindex
        have hkind : slice line 1 index = some front := by
          rw [slice, if_neg (by omega), hline, List.cons_append, sliceFrom,
            if_pos (by omega), hsize, sliceFrom_zero, Option.bind_some, ← hindex,
            Nat.add_sub_cancel_left]
          exact sliceTo_byteLength _ front
        have hbuffer : sliceFrom line (index + 1) = some after := by
          have hcut := sliceFrom_byteLength after (c :: (front ++ [':']))
          rw [byteLength_cons, byteLength_append, hsize, ← Nat.add_assoc, hindex] at hcut
          have hcolon : ':'.utf8Size = 1 := by decide
          rw [hline]
          simpa [hcolon] using hcut
        simp only [hkind, hbuffer]
        by_cases hsame : front ≠ expectType
        · simp only [if_pos hsame]
          exact ⟨_, rfl, by simp, fun _ hok => by cases hok⟩
        · simp only [if_neg hsame]
          refine ⟨_, rfl, by simp, ?_⟩
          intro buffer hok
          cases hok
          rw [not_not] at hsame
          exact ⟨c, hsize, by rw [hline, hsame]; rfl⟩

end Transfer

/-! ## Runs -/

def isizeMax : Nat := 2 ^ 63 - 1

/-- What a call of the buffer is answered with. -/
def answered {α : Type} : Except TrzszError α → Except Failure α
  | .ok a => .ok a
  | .error error => .error (.error error)

def lineAnswer : Except TrzszError (Option (List Char)) → Except Failure (List Char)
  | .ok (some line) => .ok line
  | .ok none => .error .panic
  | .error error => .error (.error error)

/-- How a call is answered. A read may be ended by stopping the buffer; the answers of the host are
open, but it does not panic. -/
inductive Answers (flags : TransferFlags) :
    BufferState → Exchange Call Call.Answer Failure → BufferState → Prop
  | recvLine {state state' : BufferState} {result : Except TrzszError (Option (List Char))}
    {expectType : List Char} {mayHaveJunk : Bool}
    (h : recvLine flags expectType mayHaveJunk state = some (result, state')) :
    Answers flags state ⟨.recvLine expectType mayHaveJunk, lineAnswer result⟩ state'
  | recvLineStopped (state : BufferState) (expectType : List Char) (mayHaveJunk : Bool) :
    Answers flags state
      ⟨.recvLine expectType mayHaveJunk, .error (.error (.invalidState "Stopped"))⟩ state.stopBuffer
  | readBinary {state state' : BufferState} {result : Except TrzszError Bytes} {length : Nat}
    (hlength : length ≤ isizeMax) (h : state.readBinary length = some (result, state')) :
    Answers flags state ⟨.readBinary length, answered result⟩ state'
  | readBinaryStopped (state : BufferState) {length : Nat} (hlength : length ≤ isizeMax) :
    Answers flags state
      ⟨.readBinary length, .error (.error (.invalidState "Stopped"))⟩ state.stopBuffer
  | readBinaryPanic (state : BufferState) {length : Nat} (hlength : isizeMax < length) :
    Answers flags state ⟨.readBinary length, .error .panic⟩ state
  | write (state : BufferState) (data : Bytes) : Answers flags state ⟨.write data, .ok ()⟩ state
  | add (state : BufferState) (a b : Nat) :
    Answers flags state ⟨.add a b, if a + b < 2 ^ 64 then .ok (a + b) else .error .panic⟩ state
  | double (state : BufferState) (n : Nat) :
    Answers flags state ⟨.double n, if n * 2 < 2 ^ 64 then .ok (n * 2) else .error .panic⟩ state
  | withCapacity (state : BufferState) (n : Nat) :
    Answers flags state ⟨.withCapacity n, if n ≤ isizeMax then .ok () else .error .panic⟩ state
  | host (state : BufferState) (call : HostCall) {answer : Except Failure call.Answer}
    (hanswer : answer ≠ .error .panic) : Answers flags state ⟨.host call, answer⟩ state

/-- The calls of a run with their answers, while chunks arrive. -/
inductive Answered (flags : TransferFlags) :
    BufferState → List (Exchange Call Call.Answer Failure) → Prop
  | nil (state : BufferState) : Answered flags state []
  | cons {state state' : BufferState} {exchange : Exchange Call Call.Answer Failure}
    {rest : List (Exchange Call Call.Answer Failure)} (h : Answers flags state exchange state')
    (hrest : Answered flags state' rest) : Answered flags state (exchange :: rest)

/-- A line that cannot be cut, a number that does not fit, or room that cannot be made. -/
inductive Breaks : Exchange Call Call.Answer Failure → Prop
  | line {expectType line : List Char} {mayHaveJunk : Bool} (h : SplitsCharacter line) :
    Breaks ⟨.recvLine expectType mayHaveJunk, .ok line⟩
  | binary {length : Nat} {answer : Except Failure Bytes} (h : isizeMax < length) :
    Breaks ⟨.readBinary length, answer⟩
  | sum {a b : Nat} {answer : Except Failure Nat} (h : 2 ^ 64 ≤ a + b) : Breaks ⟨.add a b, answer⟩
  | doubled {n : Nat} {answer : Except Failure Nat} (h : 2 ^ 64 ≤ n * 2) :
    Breaks ⟨.double n, answer⟩
  | capacity {n : Nat} {answer : Except Failure Unit} (h : isizeMax < n) :
    Breaks ⟨.withCapacity n, answer⟩

/-- A call that panics, or a line that cannot be cut. -/
def Harmful (exchange : Exchange Call Call.Answer Failure) : Prop :=
  exchange.2 = .error .panic ∨ ∃ expectType mayHaveJunk line,
    exchange = ⟨.recvLine expectType mayHaveJunk, .ok line⟩ ∧ SplitsCharacter line

theorem harmful_recvLine {expectType line : List Char} {mayHaveJunk : Bool} :
    Harmful ⟨.recvLine expectType mayHaveJunk, .ok line⟩ ↔ SplitsCharacter line := by
  constructor
  · rintro (hpanic | ⟨_, _, _, heq, hsplits⟩)
    · cases hpanic
    · cases heq
      exact hsplits
  · intro hsplits
    exact .inr ⟨_, _, _, rfl, hsplits⟩

/-- Other calls are harmful just when they panic. -/
theorem harmful_iff_panic {made : Call} {answer : Except Failure made.Answer}
    (hmade : ∀ expectType mayHaveJunk, made ≠ .recvLine expectType mayHaveJunk) :
    Harmful ⟨made, answer⟩ ↔ answer = .error .panic := by
  constructor
  · rintro (hpanic | ⟨_, _, _, heq, -⟩)
    · exact hpanic
    · exact absurd (congrArg Sigma.fst heq) (hmade _ _)
  · exact .inl

/-- An operation that panics unless its result fits. -/
theorem harmful_checked {made : Call} {fits : Prop} [Decidable fits] {a : made.Answer}
    (hmade : ∀ expectType mayHaveJunk, made ≠ .recvLine expectType mayHaveJunk) :
    Harmful ⟨made, if fits then .ok a else .error .panic⟩ ↔ ¬ fits := by
  rw [harmful_iff_panic hmade]
  by_cases h : fits
  · simp [h]
  · simp [h]

/-- What panics is what breaks. -/
theorem Answers.harmful_iff {flags : TransferFlags} {state state' : BufferState}
    {exchange : Exchange Call Call.Answer Failure} (h : Answers flags state exchange state') :
    Harmful exchange ↔ Breaks exchange := by
  cases h with
  | @recvLine _ result expectType mayHaveJunk h =>
    cases result with
    | error error =>
      refine iff_of_false ?_ (fun hbreaks => by cases hbreaks)
      rintro (hpanic | ⟨_, _, _, heq, -⟩)
      · cases hpanic
      · cases heq
    | ok line =>
      obtain ⟨text, rfl⟩ := recvLine_ne_none h
      refine harmful_recvLine.trans ⟨.line, ?_⟩
      intro hbreaks
      cases hbreaks
      assumption
  | recvLineStopped =>
    refine iff_of_false ?_ (fun hbreaks => by cases hbreaks)
    rintro (hpanic | ⟨_, _, _, heq, -⟩)
    · cases hpanic
    · cases heq
  | @readBinary _ result length hlength h =>
    refine iff_of_false ?_ ?_
    · rw [harmful_iff_panic (by simp)]
      cases result with
      | ok data => exact fun hpanic => by cases hpanic
      | error error => exact fun hpanic => by cases hpanic
    · intro hbreaks
      cases hbreaks
      omega
  | readBinaryStopped hlength =>
    refine iff_of_false ?_ ?_
    · rw [harmful_iff_panic (by simp)]
      exact fun hpanic => by cases hpanic
    · intro hbreaks
      cases hbreaks
      omega
  | readBinaryPanic hlength => exact iff_of_true (.inl rfl) (.binary hlength)
  | write data =>
    refine iff_of_false ?_ (fun hbreaks => by cases hbreaks)
    rw [@harmful_iff_panic (.write data) (.ok ()) (by simp)]
    exact fun hpanic => by cases hpanic
  | add a b =>
    refine (@harmful_checked (.add a b) (a + b < 2 ^ 64) _ (a + b) (by simp)).trans ⟨fun hnot => .sum (by omega), ?_⟩
    intro hbreaks
    cases hbreaks
    omega
  | double n =>
    refine (@harmful_checked (.double n) (n * 2 < 2 ^ 64) _ (n * 2) (by simp)).trans ⟨fun hnot => .doubled (by omega), ?_⟩
    intro hbreaks
    cases hbreaks
    omega
  | withCapacity n =>
    refine (@harmful_checked (.withCapacity n) (n ≤ isizeMax) _ () (by simp)).trans ⟨fun hnot => .capacity (by omega), ?_⟩
    intro hbreaks
    cases hbreaks
    omega
  | @host made answer hanswer =>
    refine iff_of_false ?_ (fun hbreaks => by cases hbreaks)
    rwa [@harmful_iff_panic (.host made) answer (by simp)]

theorem Answered.harmful_iff {flags : TransferFlags} {state : BufferState}
    {trace : List (Exchange Call Call.Answer Failure)} (h : Answered flags state trace) :
    (∃ exchange ∈ trace, Harmful exchange) ↔ ∃ exchange ∈ trace, Breaks exchange := by
  have hall : ∀ exchange ∈ trace, Harmful exchange ↔ Breaks exchange := by
    induction h with
    | nil => simp
    | cons hfirst _ ih => exact List.forall_mem_cons.mpr ⟨hfirst.harmful_iff, ih⟩
  exact exists_congr fun exchange => and_congr_right fun hmem => hall exchange hmem

/-! ## The programs -/

/-- A program that panics just by harmful exchanges. -/
abbrev Careful {α : Type} (p : TransferProgram α) : Prop := CrashesBy isPanic Harmful p

namespace Careful

theorem made {made : Call} (hmade : ∀ expectType mayHaveJunk, made ≠ .recvLine expectType mayHaveJunk) :
    Careful (call made) := by
  refine CrashesBy.call ?_
  intro answer
  rw [harmful_iff_panic hmade]
  constructor
  · rintro rfl
    exact ⟨.panic, rfl, rfl⟩
  · rintro ⟨failure, rfl, hpanic⟩
    cases failure with
    | panic => rfl
    | error error => cases hpanic

theorem onHost (made : HostCall) : Careful (onHost made) := Careful.made (by simp)

theorem returning {α : Type} (a : α) : Careful (pure a : TransferProgram α) := CrashesBy.ok a

theorem fail {α : Type} (error : TrzszError) : Careful (fail error : TransferProgram α) :=
  CrashesBy.error rfl

theorem ofExcept {α : Type} (result : Except TrzszError α) : Careful (ofExcept result) := by
  cases result with
  | ok a => exact CrashesBy.ok a
  | error error => exact CrashesBy.error rfl

theorem ite {α : Type} {c : Prop} [Decidable c] {p q : TransferProgram α} (hp : Careful p)
    (hq : Careful q) : Careful (if c then p else q) := by
  by_cases h : c
  · rwa [if_pos h]
  · rwa [if_neg h]

end Careful

namespace Transfer

variable (t : Transfer)

theorem careful_recvCheck (expectType : List Char) (mayHaveJunk : Bool) :
    Careful (recvCheck expectType mayHaveJunk) := by
  refine CrashesBy.act ?_ ?_
  · rintro answer (hpanic | ⟨_, _, line, heq, hsplits⟩)
    · have hanswer : answer = .error .panic := hpanic
      rw [hanswer]
      exact ⟨.panic, rfl, rfl⟩
    · cases heq
      exact ⟨.panic, checkLine_splits hsplits, rfl⟩
  · intro answer hharmless
    cases answer with
    | error failure =>
      cases failure with
      | panic => exact absurd (.inl rfl) hharmless
      | error error => exact CrashesBy.error rfl
    | ok line =>
      -- The line can be cut, so that checking it ends in a result or in an error.
      obtain ⟨result, hdone, hresult, -⟩ :=
        @checkLine_of_size expectType line (fun hsplits => hharmless (harmful_recvLine.mpr hsplits))
      show CrashesBy isPanic Harmful (checkLine expectType line)
      rw [hdone]
      cases result with
      | ok buffer => exact CrashesBy.ok buffer
      | error failure =>
        cases failure with
        | panic => exact absurd rfl hresult
        | error error => exact CrashesBy.error rfl

theorem careful_sendLine (kind : List Char) (buffer : Bytes) : Careful (t.sendLine kind buffer) :=
  Careful.made (by simp)

theorem careful_recvInteger (kind : List Char) (mayHaveJunk : Bool) :
    Careful (recvInteger kind mayHaveJunk) := by
  refine (careful_recvCheck kind mayHaveJunk).bind ?_
  intro buffer
  cases parseU64 buffer with
  | ok value => exact CrashesBy.ok value
  | error error => exact CrashesBy.error rfl

theorem careful_checkInteger (expect : Nat) : Careful (checkInteger expect) := by
  refine (careful_recvInteger _ _).bind ?_
  intro result
  exact Careful.ite (Careful.fail _) (Careful.returning ())

theorem careful_recvBinary (kind : List Char) (mayHaveJunk : Bool) :
    Careful (t.recvBinary kind mayHaveJunk) :=
  (careful_recvCheck kind mayHaveJunk).bind fun _ => Careful.ofExcept _

theorem careful_recvString (kind : List Char) (mayHaveJunk : Bool) :
    Careful (t.recvString kind mayHaveJunk) := by
  refine (careful_recvCheck kind mayHaveJunk).bind ?_
  intro buffer
  refine (Careful.ofExcept _).bind ?_
  intro decoded
  cases fromUtf8 decoded with
  | some text => exact CrashesBy.ok text
  | none => exact CrashesBy.error rfl

theorem careful_checkBinary (expect : Bytes) : Careful (t.checkBinary expect) := by
  refine (t.careful_recvBinary _ _).bind ?_
  intro result
  exact Careful.ite (Careful.fail _) (Careful.returning ())

theorem careful_progress (progress : ProgressCall) : Careful (t.progress progress) :=
  Careful.ite (Careful.onHost _) (Careful.returning ())

theorem careful_progressStep (step size : Nat) : Careful (t.progressStep step size) := by
  refine Careful.ite ((Careful.onHost _).bind ?_) (Careful.returning ())
  intro (due : Bool)
  exact Careful.ite ((Careful.made (by simp)).bind fun _ => Careful.returning ())
    (Careful.returning ())

theorem careful_sendData (data : Bytes) (binary : Bool) (escapeCodes : List EscapeCode) :
    Careful (t.sendData data binary escapeCodes) := by
  refine Careful.ite (t.careful_sendLine _ _) ?_
  have hroom : Careful (if escapeCodes ≠ [] then call (.withCapacity (data.length * 2))
      else pure () : TransferProgram Unit) :=
    Careful.ite (@Careful.made (.withCapacity _) (by simp)) (Careful.returning ())
  refine hroom.bind ?_
  rintro -
  exact (t.careful_sendLine _ _).bind fun _ => Careful.made (by simp)

theorem careful_recvData (binary : Bool) (escapeCodes : List EscapeCode) :
    Careful (t.recvData binary escapeCodes) := by
  refine Careful.ite (t.careful_recvBinary _ _) ?_
  refine (careful_recvInteger _ _).bind ?_
  intro size
  exact (Careful.made (by simp)).bind fun data => Careful.returning _

/-! ### Sending -/

theorem careful_nextBufferSize (data : Bytes) (chunkMillis bufferSize maxBufferSize : Nat) :
    Careful (nextBufferSize data chunkMillis bufferSize maxBufferSize) := by
  refine Careful.ite ?_ (Careful.ite (Careful.returning _) (Careful.returning _))
  exact CrashesBy.bind (@Careful.made (.double bufferSize) (by simp)) fun _ => Careful.returning _

theorem careful_sendChunk (file : FileReader) (size : Nat) (binary : Bool)
    (escapeCodes : List EscapeCode) (maxBufferSize : Nat) (sending : Sending) :
    Careful (t.sendChunk file size binary escapeCodes maxBufferSize sending) := by
  refine Careful.ite (Careful.returning _) ((Careful.onHost _).bind ?_)
  intro (data : Bytes)
  refine Careful.ite (Careful.fail _) ?_
  refine (t.careful_sendData data binary escapeCodes).bind fun _ => ?_
  refine (careful_checkInteger _).bind fun _ => ?_
  refine CrashesBy.bind (@Careful.made (.add _ _) (by simp)) fun step => ?_
  refine (Careful.onHost _).bind fun _ => ?_
  refine (t.careful_progressStep _ _).bind fun _ => ?_
  refine (Careful.onHost _).bind fun chunkMillis => ?_
  exact (careful_nextBufferSize _ _ _ _).bind fun bufferSize => Careful.returning _

theorem careful_sendFileData (fuel : Nat) (file : FileReader) (size : Nat) (binary : Bool)
    (escapeCodes : List EscapeCode) (maxBufferSize : Nat) :
    Careful (t.sendFileData fuel file size binary escapeCodes maxBufferSize) := by
  refine (t.careful_progressStep 0 size).bind ?_
  rintro -
  exact CrashesBy.loop (t.careful_sendChunk file size binary escapeCodes maxBufferSize) fuel {}

theorem careful_sendFileName (file : FileReader) (directory : Bool) :
    Careful (t.sendFileName file directory) := by
  rw [sendFileName]
  cases file.relPath.getLast? with
  | none => exact Careful.fail _
  | some fileName =>
    refine (t.careful_sendLine _ _).bind fun _ => ?_
    refine (t.careful_recvString _ _).bind fun remoteName => ?_
    exact (t.careful_progress _).bind fun _ => Careful.returning _

theorem careful_sendEach (fuel : Nat) (directory binary : Bool) (escapeCodes : List EscapeCode)
    (maxBufferSize : Nat) : (files : List FileReader) → (remoteNames : List (List Char)) →
      Careful (t.sendEach fuel directory binary escapeCodes maxBufferSize files remoteNames)
  | [], remoteNames => Careful.returning remoteNames
  | file :: files, remoteNames => by
    have ih := careful_sendEach fuel directory binary escapeCodes maxBufferSize files
    rw [sendEach]
    refine (t.careful_sendFileName file directory).bind fun remoteName => ?_
    refine Careful.ite (ih _) ?_
    refine CrashesBy.bind ((t.careful_sendLine _ _).bind fun _ =>
      (careful_checkInteger _).bind fun _ => t.careful_progress _) fun _ => ?_
    refine (t.careful_sendFileData _ _ _ _ _ _).bind fun digest => ?_
    refine (Careful.onHost _).bind fun _ => ?_
    refine CrashesBy.bind ((t.careful_sendLine _ _).bind fun _ =>
      (t.careful_checkBinary _).bind fun _ => t.careful_progress _) fun _ => ?_
    exact (Careful.onHost _).bind fun _ => ih _

theorem careful_sendFiles (fuel : Nat) (files : List FileReader) :
    Careful (t.sendFiles fuel files) := by
  refine CrashesBy.bind ((t.careful_sendLine _ _).bind fun _ =>
    (careful_checkInteger _).bind fun _ => t.careful_progress _) fun _ => ?_
  exact t.careful_sendEach _ _ _ _ _ _ _

/-! ### Receiving -/

theorem careful_recvChunk (file : FileWriter) (size : Nat) (binary : Bool)
    (escapeCodes : List EscapeCode) (receiving : Receiving) :
    Careful (t.recvChunk file size binary escapeCodes receiving) := by
  refine Careful.ite (Careful.returning _) ((t.careful_recvData _ _).bind ?_)
  intro data
  refine (Careful.onHost _).bind fun _ => ?_
  refine CrashesBy.bind (@Careful.made (.add _ _) (by simp)) fun step => ?_
  refine (Careful.onHost _).bind fun _ => ?_
  refine (t.careful_progressStep _ _).bind fun _ => ?_
  exact (t.careful_sendLine _ _).bind fun _ => Careful.returning _

theorem careful_recvFileContent (fuel : Nat) (file : FileWriter) (binary : Bool)
    (escapeCodes : List EscapeCode) :
    Careful (t.recvFileContent fuel file binary escapeCodes) := by
  refine CrashesBy.bind ((careful_recvInteger _ _).bind fun size =>
    (t.careful_sendLine _ _).bind fun _ => (t.careful_progress _).bind fun _ =>
      Careful.returning size) fun size => ?_
  refine CrashesBy.bind (CrashesBy.onError ?_ (CrashesBy.ignoring (Careful.onHost _))) fun digest => ?_
  · refine (t.careful_progressStep 0 size).bind fun _ => ?_
    exact CrashesBy.loop (t.careful_recvChunk file size binary escapeCodes) fuel {}
  · refine (Careful.onHost _).bind fun _ => ?_
    refine CrashesBy.bind ((t.careful_recvBinary _ _).bind fun expectedDigest => ?_)
      fun _ => Careful.onHost _
    exact Careful.ite (Careful.fail _) ((t.careful_sendLine _ _).bind fun _ => t.careful_progress _)

theorem careful_recvEach (fuel : Nat) (directory overwrite binary : Bool)
    (escapeCodes : List EscapeCode) : (num : Nat) → (localNames : List (List Char)) →
      (createdFiles : List FileWriter) → Careful
        (t.recvEach fuel directory overwrite binary escapeCodes num localNames createdFiles)
  | 0, localNames, createdFiles => Careful.returning (localNames, createdFiles)
  | num + 1, localNames, createdFiles => by
    have ih := careful_recvEach fuel directory overwrite binary escapeCodes num
    rw [recvEach]
    refine CrashesBy.bind ((t.careful_recvString _ _).bind fun fileName =>
      (Careful.onHost _).bind fun file => (t.careful_sendLine _ _).bind fun _ =>
        (t.careful_progress _).bind fun _ => Careful.returning file) fun file => ?_
    refine CrashesBy.bind ?_ fun _ => ih _ _
    exact Careful.ite (t.careful_recvFileContent fuel file binary escapeCodes) (Careful.returning ())

theorem careful_commitEach : (files : List FileWriter) → Careful (commitEach files)
  | [] => Careful.returning ()
  | file :: files => by
    rw [commitEach]
    refine (Careful.onHost _).bind fun _ => ?_
    refine CrashesBy.bind ?_ fun _ => careful_commitEach files
    exact Careful.ite (Careful.onHost .countFile) (Careful.returning ())

theorem careful_recvFiles (fuel : Nat) : Careful (t.recvFiles fuel) := by
  refine CrashesBy.bind ((careful_recvInteger _ _).bind fun num =>
    (t.careful_sendLine _ _).bind fun _ => (t.careful_progress _).bind fun _ =>
      Careful.returning num) fun num => ?_
  refine (t.careful_recvEach _ _ _ _ _ _ _ _).bind fun received => ?_
  exact (careful_commitEach _).bind fun _ => Careful.returning _

theorem careful_recvConfig : Careful t.recvConfig := by
  refine (t.careful_recvString _ _).bind fun buffer => ?_
  cases t.codec.parseConfig buffer with
  | error error => exact CrashesBy.error rfl
  | ok config => exact CrashesBy.ok _

/-- A run of a careful program panics just by what breaks. -/
theorem panics_iff {α : Type} {p : TransferProgram α} (hp : Careful p) {flags : TransferFlags}
    {state : BufferState} {trace : List (Exchange Call Call.Answer Failure)}
    {q : TransferProgram α} (hruns : Runs p trace q) (hanswered : Answered flags state trace) :
    Crashed isPanic q ↔ ∃ exchange ∈ trace, Breaks exchange :=
  (hp trace q hruns).trans hanswered.harmful_iff

/-! ### A line that begins with a letter of two bytes -/

/-- A transfer with encodings that change nothing. -/
def plain : Transfer where
  codec :=
    { base64Encode := fromUtf8Lossy
      base64Decode := fun text => .ok (utf8Bytes text)
      zlibEncode := id
      zlibDecode := .ok
      md5 := id
      parseConfig := fun _ => .ok fun _ => .other
      nameJson := fun _ path _ => ['/'].intercalate path
      utf8Error := fun _ => "" }
  flags := { isWindowsShell := false, remoteIsWindows := false, tmuxOutputJunk := false, stopped := false }
  maxDataChunkSize := 1024
  config := fun _ => .other
  hasProgress := false

/-- The bytes of the letter U+00E9, a colon and a newline. -/
def accented : BufferState := { queue := [[0xc3, 0xa9, 0x3a, 0x0a]] }

/-- The state once they are read. -/
def accentedRead : BufferState where
  queue := []
  nextBuffer := [0xc3, 0xa9, 0x3a, 0x0a]
  nextIndex := 4

def accentedTrace : List (Exchange Call Call.Answer Failure) :=
  [⟨.recvLine "CFG".toList true, .ok [Char.ofNat 0xe9, ':']⟩]

theorem runs_accented : Runs plain.recvConfig accentedTrace panic :=
  .go _ (.stay _)

theorem answered_accented : Answered plain.flags accented accentedTrace := by
  have hline : recvLine plain.flags "CFG".toList true accented =
      some (.ok (some [Char.ofNat 0xe9, ':']), accentedRead) := by
    decide +kernel
  exact .cons (.recvLine hline) (.nil _)

/-! ### The whole transfer -/

/-- **Whatever arrives, a transfer panics just when a line that is checked begins with a character of
several bytes and has a colon, or a number does not fit.** Lines are cut and joined without a panic,
and a line that is not of the expected form is an error. -/
theorem transfer_panics_iff (fuel : Nat) (files : List FileReader) (state : BufferState) :
    (∀ trace q, Runs t.recvConfig trace q → Answered t.flags state trace →
      (Crashed isPanic q ↔ ∃ exchange ∈ trace, Breaks exchange)) ∧
    (∀ trace q, Runs (t.recvFiles fuel) trace q → Answered t.flags state trace →
      (Crashed isPanic q ↔ ∃ exchange ∈ trace, Breaks exchange)) ∧
    (∀ trace q, Runs (t.sendFiles fuel files) trace q → Answered t.flags state trace →
      (Crashed isPanic q ↔ ∃ exchange ∈ trace, Breaks exchange)) ∧
    (∀ buffer, ∃ line, stripTmuxStatusLine buffer = some line) ∧
    ∀ expectType line, ¬ SplitsCharacter line →
      ∃ result, checkLine expectType line = .done result ∧ result ≠ .error .panic ∧
        ∀ buffer, result = .ok buffer →
          ∃ c, c.utf8Size = 1 ∧ line = c :: (expectType ++ ':' :: buffer) := by
  refine ⟨?_, ?_, ?_, exists_stripTmuxStatusLine, ?_⟩
  · intro trace q
    exact panics_iff t.careful_recvConfig
  · intro trace q
    exact panics_iff (t.careful_recvFiles fuel)
  · intro trace q
    exact panics_iff (t.careful_sendFiles fuel files)
  · intro expectType line
    exact checkLine_of_size

theorem transfer_panics_iff_accented :
    Answered plain.flags accented accentedTrace ∧
      (Crashed isPanic (panic : TransferProgram Transfer) ↔
        ∃ exchange ∈ accentedTrace, Breaks exchange) := by
  refine ⟨answered_accented, ?_⟩
  exact (plain.transfer_panics_iff 0 [] accented).1 accentedTrace panic runs_accented answered_accented

/-- Receiving the configuration can panic. -/
theorem accented_panics :
    ¬ ∀ (t : Transfer) (state : BufferState) trace q, Runs t.recvConfig trace q →
      Answered t.flags state trace → ¬ Crashed isPanic q := by
  intro hsafe
  exact hsafe plain accented accentedTrace panic runs_accented answered_accented ⟨_, rfl, rfl⟩

end Transfer

end OxideTerm.Trzsz
