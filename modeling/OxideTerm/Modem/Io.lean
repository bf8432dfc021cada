import OxideTerm.Lib.Network
import OxideTerm.Lib.Bytes

/-!
# Reading and writing of the modem protocols

A transfer reads bytes of its peer and writes to it, and any read may time out. What is sent comes
from a reader, which may give less than it is asked for, and what is received goes to writers, whose
answers the surroundings of the program decide.
-/

namespace OxideTerm.Modem

open OxideTerm.Lib

/-! ## Errors -/

inductive ModemError where
  | incomplete
  | invalidMarker
  | invalidFrameType
  | invalidFrameEncoding
  | invalidBlockNumber
  | invalidChecksum
  | invalidCrc
  | invalidLength
  | invalidEscape
  | invalidFileName
deriving DecidableEq, Repr

inductive ModemTransferError where
  | protocol (error : ModemError)
  | io
  | timeout
  | cancelled
  | unexpectedByte (byte : UInt8)
  | unexpectedFrame
  | unsupportedFileSize (size : Nat)
  | inputBufferOverflow (limit : Nat)
deriving DecidableEq, Repr

/-! ## The peer -/

/-- A program with a line to its peer. -/
abbrev ModemProgram (L : Type) (B : L → Type) (α : Type) :=
  LineProgram UInt8 L B ModemTransferError α

section

variable {L : Type} {B : L → Type}

def readByte : ModemProgram L B UInt8 := Program.call (B := Port.Answer UInt8 B) Port.read

def writeAll (bytes : Bytes) : ModemProgram L B Unit :=
  Program.call (B := Port.Answer UInt8 B) (Port.write bytes)

/-- An action other than on the line. -/
def onHost (l : L) : ModemProgram L B (B l) :=
  Program.call (B := Port.Answer UInt8 B) (Port.host l)

/-- So many bytes, one after the other. -/
def readBytes : Nat → ModemProgram L B Bytes
  | 0 => pure []
  | n + 1 => do
    let byte ← readByte
    let bytes ← readBytes n
    return byte :: bytes

/-! ## Steps of a program -/

variable {ε : Type} {H α : Type} {env : Surroundings UInt8 L B ModemTransferError H}
  {h h' : H} {input sent : Bytes} {q : ModemProgram L B α}

theorem goes_readByte {byte : UInt8} {f : UInt8 → ModemProgram L B α} (hlate : env.late h = none)
    (hrest : Goes env (f byte) (env.after .read h) input sent q h') :
    Goes env (readByte.bind f) h (byte :: input) sent q h' :=
  .read hlate hrest

theorem goes_writeAll {bytes : Bytes} {f : Unit → ModemProgram L B α}
    (hrest : Goes env (f ()) (env.after (.write bytes) h) input sent q h') :
    Goes env ((writeAll bytes).bind f) h input (env.arrives h bytes ++ sent) q h' :=
  .write hrest

theorem goes_onHost {l : L} {answer : B l} {f : B l → ModemProgram L B α}
    (hanswer : env.answer l h = .ok answer)
    (hrest : Goes env (f answer) (env.after (.host l) h) input sent q h') :
    Goes env ((onHost l).bind f) h input sent q h' := by
  refine .host ?_
  rw [hanswer]
  exact hrest

theorem goes_readBytes (hlate : ∀ h, env.late h = none) :
    ∀ (bytes : Bytes) {f : Bytes → ModemProgram L B α} {h : H},
      Goes env (f bytes) (Nat.iterate (env.after .read) bytes.length h) input sent q h' →
      Goes env ((readBytes bytes.length).bind f) h (bytes ++ input) sent q h'
  | [], _, _, hrest => hrest
  | byte :: bytes, f, h, hrest => by
    have hmore := goes_readBytes hlate bytes (f := fun bytes => f (byte :: bytes)) hrest
    have hassoc : (readBytes (byte :: bytes).length).bind f =
        readByte.bind fun byte => (readBytes (B := B) bytes.length).bind
          fun bytes => f (byte :: bytes) := by
      rw [List.length_cons, readBytes, Program.bind_eq, Program.bind_assoc]
      refine congrArg _ (funext fun byte => ?_)
      rw [Program.bind_eq, Program.bind_assoc]
      rfl
    rw [hassoc]
    exact goes_readByte (hlate h) hmore

theorem goes_readBytes_all {n : Nat} {bytes : Bytes} (hlate : ∀ h, env.late h = none)
    (hlength : n = bytes.length) {f : Bytes → ModemProgram L B α}
    (hrest : Goes env (f bytes) (Nat.iterate (env.after .read) bytes.length h) [] sent q h') :
    Goes env ((readBytes n).bind f) h bytes sent q h' := by
  have hread := goes_readBytes hlate bytes hrest
  rwa [List.append_nil, ← hlength] at hread

end

/-! ## Readers -/

/-- `Read::read`, which gives no more than it is asked for. -/
class Read (R : Type) where
  read : R → Nat → Except ModemTransferError (Bytes × R)
  length_le : ∀ {reader reader' : R} {room : Nat} {bytes : Bytes},
    read reader room = .ok (bytes, reader') → bytes.length ≤ room

/-- `Seek::seek` from the start. -/
class Seek (R : Type) where
  seek : R → Nat → Except ModemTransferError R

section

variable {R : Type} [Read R]

/-- The rounds of a read that fills its buffer; each but the last gives a byte at least. -/
def readPaddedFrom : Nat → R → Nat → Except ModemTransferError (Bytes × R)
  | 0, reader, _ => .ok ([], reader)
  | rounds + 1, reader, room =>
    if room = 0 then .ok ([], reader)
    else do
      let (bytes, reader) ← Read.read reader room
      if bytes = [] then .ok ([], reader)
      else do
        let (more, reader) ← readPaddedFrom rounds reader (room - bytes.length)
        return (bytes ++ more, reader)

/-- Reads until the buffer is full or nothing is left. -/
def readPadded (reader : R) (room : Nat) : Except ModemTransferError (Bytes × R) :=
  readPaddedFrom room reader room

/-- A reader of these contents, wherever it stands. -/
structure Reads (contents : Bytes) (stands : R → Nat → Prop) : Prop where
  read : ∀ reader position room, stands reader position → ∃ bytes reader',
    Read.read reader room = .ok (bytes, reader') ∧ bytes <+: contents.drop position ∧
      (bytes = [] → room = 0 ∨ contents.length ≤ position) ∧
      stands reader' (position + bytes.length)

/-- A reader of these contents, whatever it does with an empty buffer. -/
structure ReadsBuffers (contents : Bytes) (stands : R → Nat → Prop) : Prop where
  read : ∀ reader position room, stands reader position → 0 < room → ∃ bytes reader',
    Read.read reader room = .ok (bytes, reader') ∧ bytes <+: contents.drop position ∧
      (bytes = [] → contents.length ≤ position) ∧ stands reader' (position + bytes.length)

theorem Reads.readsBuffers {contents : Bytes} {stands : R → Nat → Prop}
    (h : Reads contents stands) : ReadsBuffers contents stands where
  read := by
    intro reader position room hstands hroom
    obtain ⟨bytes, reader', hread, hcontents, hempty, hstands'⟩ :=
      h.read reader position room hstands
    exact ⟨bytes, reader', hread, hcontents,
      fun hnil => (hempty hnil).resolve_left (Nat.ne_of_gt hroom), hstands'⟩

/-- A reader of these contents that can be set to any position in them. -/
structure Seeks [Seek R] (contents : Bytes) (stands : R → Nat → Prop) : Prop
    extends Reads contents stands where
  seek : ∀ reader position from', stands reader from' → position ≤ contents.length →
    ∃ reader', Seek.seek reader position = .ok reader' ∧ stands reader' position

theorem readPaddedFrom_eq {contents : Bytes} {stands : R → Nat → Prop}
    (h : ReadsBuffers contents stands) :
    ∀ rounds reader position room, room ≤ rounds → stands reader position → ∃ reader',
      readPaddedFrom rounds reader room = .ok ((contents.drop position).take room, reader') ∧
        stands reader' (position + ((contents.drop position).take room).length)
  | 0, reader, position, room, hroom, hstands => by
    obtain rfl : room = 0 := Nat.le_zero.mp hroom
    exact ⟨reader, rfl, hstands⟩
  | rounds + 1, reader, position, room, hroom, hstands => by
    unfold readPaddedFrom
    by_cases hzero : room = 0
    · subst hzero
      exact ⟨reader, rfl, hstands⟩
    · obtain ⟨bytes, reader', hread, ⟨later, hlater⟩, hempty, hstands'⟩ :=
        h.read reader position room hstands (Nat.pos_of_ne_zero hzero)
      rw [if_neg hzero, hread]
      by_cases hbytes : bytes = []
      · subst hbytes
        have hend : contents.drop position = [] :=
          List.drop_eq_nil_of_le (hempty rfl)
        refine ⟨reader', ?_, ?_⟩
        · simp [hend, bind, Except.bind]
        · simpa [hend] using hstands'
      · have hsome : 0 < bytes.length := List.length_pos_iff.mpr hbytes
        have hle : bytes.length ≤ room := Read.length_le hread
        have hdrop : contents.drop (position + bytes.length) = later := by
          rw [← List.drop_drop, ← hlater, List.drop_left]
        have htake : (contents.drop position).take room =
            bytes ++ later.take (room - bytes.length) := by
          rw [← hlater, List.take_append, List.take_of_length_le hle]
        obtain ⟨reader'', hmore, hstands''⟩ := readPaddedFrom_eq h rounds reader'
          (position + bytes.length) (room - bytes.length) (by omega) hstands'
        rw [hdrop] at hmore hstands''
        refine ⟨reader'', ?_, ?_⟩
        · simp only [bind, Except.bind, if_neg hbytes, hmore, htake]
          rfl
        · rw [htake, List.length_append]
          rwa [Nat.add_assoc] at hstands''

/-- **A padded read gives what is left, up to the room there is.** -/
theorem ReadsBuffers.readPadded_eq {contents : Bytes} {stands : R → Nat → Prop}
    (h : ReadsBuffers contents stands) {reader : R} {position : Nat} (room : Nat)
    (hstands : stands reader position) :
    ∃ reader', readPadded reader room = .ok ((contents.drop position).take room, reader') ∧
      stands reader' (position + ((contents.drop position).take room).length) :=
  readPaddedFrom_eq h room reader position room (Nat.le_refl _) hstands

theorem readPadded_eq {contents : Bytes} {stands : R → Nat → Prop} (h : Reads contents stands)
    {reader : R} {position : Nat} (room : Nat) (hstands : stands reader position) :
    ∃ reader', readPadded reader room = .ok ((contents.drop position).take room, reader') ∧
      stands reader' (position + ((contents.drop position).take room).length) :=
  h.readsBuffers.readPadded_eq room hstands

end

/-- A reader over bytes in memory. -/
structure Cursor where
  contents : Bytes
  position : Nat

namespace Cursor

instance instReadCursor : Read Cursor where
  read cursor room :=
    let bytes := (cursor.contents.drop cursor.position).take room
    .ok (bytes, { cursor with position := cursor.position + bytes.length })
  length_le := by
    intro reader reader' room bytes h
    obtain ⟨rfl, -⟩ := Prod.mk.inj (Except.ok.inj h)
    exact List.length_take_le _ _

instance instSeekCursor : Seek Cursor where
  seek cursor position := .ok { cursor with position := position }

/-- A cursor over its contents. -/
theorem seeks (contents : Bytes) :
    Seeks contents fun (cursor : Cursor) position =>
      cursor.contents = contents ∧ cursor.position = position where
  read := by
    rintro cursor _ room ⟨rfl, rfl⟩
    refine ⟨_, _, rfl, List.take_prefix _ _, fun hempty => ?_, rfl, rfl⟩
    rcases List.take_eq_nil_iff.mp hempty with hroom | hend
    · exact .inl hroom
    · exact .inr (List.drop_eq_nil_iff.mp hend)
  seek := by
    rintro cursor position _ ⟨rfl, -⟩ -
    exact ⟨_, rfl, rfl, rfl⟩

end Cursor

end OxideTerm.Modem
