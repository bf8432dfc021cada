import OxideTerm.Lib.Crash
import OxideTerm.Trzsz.Escape
import OxideTerm.Trzsz.Lines

/-!
# A transfer

Sending and receiving files, as programs that call the buffer, the line to the other side, the
files and the progress bar. An operation that panics on some arguments is a call as well, so that a
run shows its arguments.
-/

namespace OxideTerm.Trzsz

open OxideTerm.Lib OxideTerm.Lib.Text

/-! ## Calls -/

/-- How a program ends when it does not return. -/
inductive Failure where
  | error (error : TrzszError)
  | panic
deriving Repr, DecidableEq

/-- A file that is written to, as far as the transfer asks for it. -/
structure FileWriter where
  id : Nat
  fileName : List Char
  localName : List Char
  isDir : Bool
deriving Repr, DecidableEq

/-- A file that is read, as far as the transfer asks for it. -/
structure FileReader where
  id : Nat
  pathId : Nat
  relPath : List (List Char)
  isDir : Bool
  size : Nat
deriving Repr, DecidableEq

/-- What the progress bar is told. -/
inductive ProgressCall where
  | num (num : Nat)
  | name (name : List Char)
  | size (size : Nat)
  | done
deriving Repr, DecidableEq

/-- Calls of the files, of the counters of the transfer, of the clock and of the progress bar, which
is also asked whether it is to be drawn for a step. -/
inductive HostCall where
  | openSaveFile (fileName : List Char) (directory overwrite : Bool)
  | writeFile (writer : Nat) (data : Bytes)
  | closeWriter (writer : Nat)
  | finishFile (writer : Nat)
  | abortFile (writer : Nat)
  | commitFile (writer : Nat)
  | readFile (reader maxLen : Nat)
  | closeReader (reader : Nat)
  | countPayload (length : Nat)
  | countFile
  | chunkMillis
  | progress (call : ProgressCall)
  | progressDue (step : Nat)
deriving Repr, DecidableEq

def HostCall.Answer : HostCall → Type
  | openSaveFile .. => FileWriter
  | readFile .. => Bytes
  | chunkMillis => Nat
  | progressDue _ => Bool
  | _ => Unit

/-- Calls of a transfer. `add` and `double` are sums and doublings of 64-bit numbers, `withCapacity`
makes room for so many bytes. -/
inductive Call where
  | recvLine (expectType : List Char) (mayHaveJunk : Bool)
  | readBinary (length : Nat)
  | write (data : Bytes)
  | add (a b : Nat)
  | double (n : Nat)
  | withCapacity (n : Nat)
  | host (call : HostCall)
deriving Repr, DecidableEq

def Call.Answer : Call → Type
  | recvLine .. => List Char
  | readBinary _ => Bytes
  | write _ => Unit
  | add .. => Nat
  | double _ => Nat
  | withCapacity _ => Unit
  | host call => call.Answer

abbrev TransferProgram (α : Type) := Program Call Call.Answer Failure α

def call (call : Call) : TransferProgram call.Answer := Program.call call

def onHost (call : HostCall) : TransferProgram call.Answer := Program.call (Call.host call)

def fail {α : Type} (error : TrzszError) : TransferProgram α := Program.fail (.error error)

def panic {α : Type} : TransferProgram α := Program.fail .panic

def isPanic : Failure → Bool
  | .panic => true
  | .error _ => false

def ofExcept {α : Type} : Except TrzszError α → TransferProgram α
  | .ok a => .done (.ok a)
  | .error error => fail error

/-! ## What a transfer works with -/

/-- A value of the configuration, as far as the transfer looks at it. -/
inductive ConfigValue where
  | bool (value : Bool)
  | unsigned (value : Nat)
  | string (value : List Char)
  | array (values : List ConfigValue)
  | other

/-- The value of each key, which is `other` for one that is missing. -/
abbrev TransferConfig := List Char → ConfigValue

/-- Encodings, digests and texts of other crates. -/
structure Codec where
  base64Encode : Bytes → List Char
  base64Decode : List Char → Except String Bytes
  zlibEncode : Bytes → Bytes
  zlibDecode : Bytes → Except Disk.ErrorKind Bytes
  md5 : Bytes → Bytes
  parseConfig : List Char → Except String TransferConfig
  nameJson : Nat → List (List Char) → Bool → List Char
  utf8Error : Bytes → String

structure Transfer where
  codec : Codec
  flags : TransferFlags
  maxDataChunkSize : Nat
  config : TransferConfig
  hasProgress : Bool

namespace Transfer

variable (t : Transfer)

/-! ## Configuration -/

def configBool (key : List Char) : Bool :=
  match t.config key with
  | .bool value => value
  | _ => false

def configU64 (key : List Char) : Option Nat :=
  match t.config key with
  | .unsigned value => some value
  | _ => none

/-- The texts of an entry of the table of escapes. -/
def escapeTexts : ConfigValue → Option (List (List Char))
  | .array items => some (items.filterMap fun item =>
      match item with
      | .string text => some text
      | _ => none)
  | _ => none

def configEscapeCodes : List EscapeCode :=
  match t.config "escape_chars".toList with
  | .array values => escapeCharsToCodes (values.filterMap escapeTexts)
  | _ => []

/-! ## Lines -/

def protocolNewline : Bytes := if t.flags.remoteIsWindows then [0x21, 0x0a] else [0x0a]

def sendLine (kind : List Char) (buffer : Bytes) : TransferProgram Unit :=
  call (.write (utf8Bytes (lineBegin kind) ++ buffer ++ t.protocolNewline))

/-- The text of an error with a line in it. -/
def lineError (message : String) (line : List Char) : TrzszError :=
  .invalidState (message ++ String.ofList line)

/-- The kind and the content of a line, where the slices may panic. -/
def checkLine (expectType line : List Char) : TransferProgram (List Char) :=
  match find [':'] line with
  | none => fail (lineError "Missing colon in trzsz line: " line)
  | some separatorIndex =>
    if separatorIndex < 1 then fail (lineError "Invalid trzsz line: " line)
    else
      match slice line 1 separatorIndex, sliceFrom line (separatorIndex + 1) with
      | some kind, some buffer =>
        if kind ≠ expectType then fail (lineError "" (kind ++ ':' :: ' ' :: buffer))
        else return buffer
      | _, _ => panic

def recvCheck (expectType : List Char) (mayHaveJunk : Bool) : TransferProgram (List Char) := do
  let line ← call (.recvLine expectType mayHaveJunk)
  checkLine expectType line

/-! ## Integers -/

/-- The digits of `str::parse::<u64>`, one after the other. -/
def parseDigitsFrom (value : Nat) : List Char → Except String Nat
  | [] => .ok value
  | c :: rest =>
    if ¬ c.isDigit then .error "invalid digit found in string"
    else
      let next := value * 10 + (c.toNat - '0'.toNat)
      if 2 ^ 64 ≤ next then .error "number too large to fit in target type"
      else parseDigitsFrom next rest

def parseU64 : List Char → Except String Nat
  | [] => .error "cannot parse integer from empty string"
  | ['+'] => .error "invalid digit found in string"
  | '+' :: digits => parseDigitsFrom 0 digits
  | digits => parseDigitsFrom 0 digits

def sendInteger (kind : List Char) (value : Nat) : TransferProgram Unit :=
  t.sendLine kind (utf8Bytes (toString value).toList)

def recvInteger (kind : List Char) (mayHaveJunk : Bool) : TransferProgram Nat := do
  let buffer ← recvCheck kind mayHaveJunk
  match parseU64 buffer with
  | .ok value => return value
  | .error error => fail (.invalidState ("Invalid integer: " ++ error))

def checkInteger (expect : Nat) : TransferProgram Unit := do
  let result ← recvInteger "SUCC".toList false
  if result ≠ expect then
    fail (.invalidState ("Integer check [" ++ toString result ++ "] <> [" ++ toString expect ++ "]"))
  else return ()

/-! ## Texts and binary data -/

def encodeBuffer (buffer : Bytes) : List Char :=
  t.codec.base64Encode (t.codec.zlibEncode buffer)

def decodeBuffer (buffer : List Char) : Except TrzszError Bytes :=
  match t.codec.base64Decode buffer with
  | .error error => .error (.invalidState error)
  | .ok bytes => ofIo (t.codec.zlibDecode bytes)

/-- `String::from_utf8`: a text that is written as these bytes. -/
def fromUtf8 (bytes : Bytes) : Option (List Char) :=
  if utf8Bytes (fromUtf8Lossy bytes) = bytes then some (fromUtf8Lossy bytes) else none

def sendString (kind value : List Char) : TransferProgram Unit :=
  t.sendLine kind (utf8Bytes (t.encodeBuffer (utf8Bytes value)))

def recvString (kind : List Char) (mayHaveJunk : Bool) : TransferProgram (List Char) := do
  let buffer ← recvCheck kind mayHaveJunk
  let decoded ← ofExcept (t.decodeBuffer buffer)
  match fromUtf8 decoded with
  | some text => return text
  | none => fail (.invalidState (t.codec.utf8Error decoded))

def sendBinary (kind : List Char) (buffer : Bytes) : TransferProgram Unit :=
  t.sendLine kind (utf8Bytes (t.encodeBuffer buffer))

def recvBinary (kind : List Char) (mayHaveJunk : Bool) : TransferProgram Bytes := do
  let buffer ← recvCheck kind mayHaveJunk
  ofExcept (t.decodeBuffer buffer)

def checkBinary (expect : Bytes) : TransferProgram Unit := do
  let result ← t.recvBinary "SUCC".toList false
  if result ≠ expect then fail (.invalidState "Binary check failed") else return ()

def sendData (data : Bytes) (binary : Bool) (escapeCodes : List EscapeCode) :
    TransferProgram Unit :=
  if ¬ binary then t.sendBinary "DATA".toList data
  else do
    (if escapeCodes ≠ [] then call (.withCapacity (data.length * 2)) else pure ())
    let escaped := escapeData data escapeCodes
    t.sendLine "DATA".toList (utf8Bytes (toString escaped.length).toList)
    call (.write escaped)

def recvData (binary : Bool) (escapeCodes : List EscapeCode) : TransferProgram Bytes :=
  if ¬ binary then t.recvBinary "DATA".toList false
  else do
    let size ← recvInteger "DATA".toList false
    let data ← call (.readBinary size)
    return unescapeData data escapeCodes

/-! ## Progress -/

def progress (progress : ProgressCall) : TransferProgram Unit :=
  if t.hasProgress then onHost (.progress progress) else return ()

/-- `on_step` of the progress bar, which adds half of the size to the percentage it shows. -/
def progressStep (step size : Nat) : TransferProgram Unit :=
  if t.hasProgress then do
    let due : Bool ← onHost (.progressDue step)
    if due then
      let _ ← call (.add (min (step * 100) (2 ^ 64 - 1)) (size / 2))
      return ()
    else return ()
  else return ()

/-! ## Sending -/

def sendFileNum (num : Nat) : TransferProgram Unit := do
  t.sendInteger "NUM".toList num
  checkInteger num
  t.progress (.num num)

def sendFileName (file : FileReader) (directory : Bool) : TransferProgram (List Char) :=
  match file.relPath.getLast? with
  | none => fail (.invalidPath "empty trzsz rel path")
  | some fileName => do
    t.sendString "NAME".toList
      (if directory then t.codec.nameJson file.pathId file.relPath file.isDir else fileName)
    let remoteName ← t.recvString "SUCC".toList false
    t.progress (.name fileName)
    return remoteName

def sendFileSize (size : Nat) : TransferProgram Unit := do
  t.sendInteger "SIZE".toList size
  checkInteger size
  t.progress (.size size)

/-- How far a file has been sent, how much is read at once, and what the digest has been given. -/
structure Sending where
  step : Nat := 0
  bufferSize : Nat := 1024
  context : Bytes := []

/-- How much is read at once after a chunk that has taken so long. -/
def nextBufferSize (data : Bytes) (chunkMillis bufferSize maxBufferSize : Nat) :
    TransferProgram Nat :=
  if data.length = bufferSize ∧ chunkMillis < 500 ∧ bufferSize < maxBufferSize then do
    let doubled ← call (.double bufferSize)
    return min doubled maxBufferSize
  else if 2000 ≤ chunkMillis ∧ 1024 < bufferSize then return 1024
  else return bufferSize

/-- One round of the loop of `send_file_data`. -/
def sendChunk (file : FileReader) (size : Nat) (binary : Bool) (escapeCodes : List EscapeCode)
    (maxBufferSize : Nat) (sending : Sending) : TransferProgram (Sending ⊕ Bytes) :=
  if ¬ sending.step < size then return .inr (t.codec.md5 sending.context)
  else do
    let data : Bytes ← onHost (.readFile file.id sending.bufferSize)
    if data = [] then
      fail (.invalidState ("Unexpected EOF while reading " ++
        String.ofList (['/'].intercalate file.relPath)))
    else
      t.sendData data binary escapeCodes
      checkInteger data.length
      let step ← call (.add sending.step data.length)
      onHost (.countPayload data.length)
      t.progressStep step size
      let chunkMillis ← onHost .chunkMillis
      let bufferSize ← nextBufferSize data chunkMillis sending.bufferSize maxBufferSize
      return .inl { step, bufferSize, context := sending.context ++ data }

def sendFileData (fuel : Nat) (file : FileReader) (size : Nat) (binary : Bool)
    (escapeCodes : List EscapeCode) (maxBufferSize : Nat) : TransferProgram Bytes := do
  t.progressStep 0 size
  Program.loop (t.sendChunk file size binary escapeCodes maxBufferSize) fuel {}

def sendFileMd5 (digest : Bytes) : TransferProgram Unit := do
  t.sendBinary "MD5".toList digest
  t.checkBinary digest
  t.progress .done

/-- The files one after the other, with the names that the other side has given them. -/
def sendEach (fuel : Nat) (directory binary : Bool) (escapeCodes : List EscapeCode)
    (maxBufferSize : Nat) : List FileReader → List (List Char) → TransferProgram (List (List Char))
  | [], remoteNames => return remoteNames
  | file :: files, remoteNames => do
    let remoteName ← t.sendFileName file directory
    let remoteNames :=
      if remoteNames.contains remoteName then remoteNames else remoteNames ++ [remoteName]
    if file.isDir then
      sendEach fuel directory binary escapeCodes maxBufferSize files remoteNames
    else
      t.sendFileSize file.size
      let digest ← t.sendFileData fuel file file.size binary escapeCodes maxBufferSize
      onHost (.closeReader file.id)
      t.sendFileMd5 digest
      onHost .countFile
      sendEach fuel directory binary escapeCodes maxBufferSize files remoteNames

def sendFiles (fuel : Nat) (files : List FileReader) : TransferProgram (List (List Char)) := do
  let binary := t.configBool "binary".toList
  let directory := t.configBool "directory".toList
  let maxBufferSize :=
    min ((t.configU64 "bufsize".toList).getD t.maxDataChunkSize) t.maxDataChunkSize
  t.sendFileNum files.length
  t.sendEach fuel directory binary t.configEscapeCodes maxBufferSize files []

/-! ## Receiving -/

def recvFileNum : TransferProgram Nat := do
  let num ← recvInteger "NUM".toList false
  t.sendInteger "SUCC".toList num
  t.progress (.num num)
  return num

def recvFileName (directory overwrite : Bool) : TransferProgram FileWriter := do
  let fileName ← t.recvString "NAME".toList false
  let file ← onHost (.openSaveFile fileName directory overwrite)
  t.sendString "SUCC".toList file.localName
  t.progress (.name file.fileName)
  return file

def recvFileSize : TransferProgram Nat := do
  let size ← recvInteger "SIZE".toList false
  t.sendInteger "SUCC".toList size
  t.progress (.size size)
  return size

/-- How far a file has been received, and what the digest has been given. -/
structure Receiving where
  step : Nat := 0
  context : Bytes := []

/-- One round of the loop of `recv_file_data`. -/
def recvChunk (file : FileWriter) (size : Nat) (binary : Bool) (escapeCodes : List EscapeCode)
    (receiving : Receiving) : TransferProgram (Receiving ⊕ Bytes) :=
  if ¬ receiving.step < size then return .inr (t.codec.md5 receiving.context)
  else do
    let data ← t.recvData binary escapeCodes
    onHost (.writeFile file.id data)
    let step ← call (.add receiving.step data.length)
    onHost (.countPayload data.length)
    t.progressStep step size
    t.sendInteger "SUCC".toList data.length
    return .inl { step, context := receiving.context ++ data }

def recvFileData (fuel : Nat) (file : FileWriter) (size : Nat) (binary : Bool)
    (escapeCodes : List EscapeCode) : TransferProgram Bytes := do
  t.progressStep 0 size
  Program.loop (t.recvChunk file size binary escapeCodes) fuel {}

def recvFileMd5 (digest : Bytes) : TransferProgram Unit := do
  let expectedDigest ← t.recvBinary "MD5".toList false
  if digest ≠ expectedDigest then fail (.invalidState "Check MD5 failed")
  else
    t.sendBinary "SUCC".toList digest
    t.progress .done

/-- The content of a file that is not a directory. -/
def recvFileContent (fuel : Nat) (file : FileWriter) (binary : Bool)
    (escapeCodes : List EscapeCode) : TransferProgram Unit := do
  let size ← t.recvFileSize
  let digest ← Program.onError isPanic (t.recvFileData fuel file size binary escapeCodes)
    (Program.ignoring isPanic (onHost (.abortFile file.id)))
  onHost (.closeWriter file.id)
  t.recvFileMd5 digest
  onHost (.finishFile file.id)

/-- So many files one after the other, with the names they have got here. -/
def recvEach (fuel : Nat) (directory overwrite binary : Bool) (escapeCodes : List EscapeCode) :
    Nat → List (List Char) → List FileWriter →
      TransferProgram (List (List Char) × List FileWriter)
  | 0, localNames, createdFiles => return (localNames, createdFiles)
  | num + 1, localNames, createdFiles => do
    let file ← t.recvFileName directory overwrite
    let localNames :=
      if localNames.contains file.localName then localNames else localNames ++ [file.localName]
    (if ¬ file.isDir then t.recvFileContent fuel file binary escapeCodes else pure ())
    recvEach fuel directory overwrite binary escapeCodes num localNames (createdFiles ++ [file])

def commitEach : List FileWriter → TransferProgram Unit
  | [] => return ()
  | file :: files => do
    onHost (.commitFile file.id)
    (if ¬ file.isDir then onHost .countFile else pure ())
    commitEach files

def recvFiles (fuel : Nat) : TransferProgram (List (List Char)) := do
  let binary := t.configBool "binary".toList
  let directory := t.configBool "directory".toList
  let overwrite := t.configBool "overwrite".toList
  let num ← t.recvFileNum
  let (localNames, createdFiles) ←
    t.recvEach fuel directory overwrite binary t.configEscapeCodes num [] []
  commitEach createdFiles
  return localNames

/-! ## The configuration of a transfer -/

/-- The transfer with the configuration that has been received. -/
def recvConfig : TransferProgram Transfer := do
  let buffer ← t.recvString "CFG".toList true
  match t.codec.parseConfig buffer with
  | .error error => fail (.invalidState error)
  | .ok config =>
    let configured := { t with config }
    return { configured with
      flags := { t.flags with
        tmuxOutputJunk := configured.configBool "tmux_output_junk".toList } }

end Transfer

end OxideTerm.Trzsz
