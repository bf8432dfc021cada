import OxideTerm.Lib.Fallible
import OxideTerm.Lib.FiniteMap
import OxideTerm.Lib.Text
import OxideTerm.Lib.Words

/-!
# Transfers by SCP

Both ends of a recursive transfer: directories that are sent, and directories that are received into
a temporary directory. Messages come from a channel, and everything outside of the program (a write,
a file operation, the control of the transfer) may answer with an error. Progress messages, rates
and times are left out.
-/

namespace OxideTerm.Sftp.Scp

open OxideTerm.Lib OxideTerm.Lib.Text

/-! ## States -/

def maxControlLineBytes : Nat := 16 * 1024

def maxStderrBytes : Nat := 64 * 1024

def maxDirectoryDepth : Nat := 128

def maxDirectoryEntries : Nat := 1000000

inductive ScpError where
  | protocolError (message : String)
  /-- A protocol error that shows the name. -/
  | unsafeFileName (name : List Char)
  | invalidPath (message : String)
  | channelError (message : String)
  /-- An answer from outside. -/
  | external (message : String)
deriving DecidableEq

inductive ChannelMsg where
  | data (data : Bytes)
  | extendedData (data : Bytes) (ext : UInt32)
  | exitStatus (exitStatus : UInt32)
  | eof
  | close
  | other
deriving DecidableEq

inductive ScpRecord where
  | file (mode size : Nat) (name : List Char)
  | directory (mode : Nat) (name : List Char)
  | endDirectory
  | times
deriving DecidableEq

/-- Below the temporary directory. -/
abbrev Path := List (List Char)

inductive LocalNode where
  | directory
  | file (content : Bytes)
deriving DecidableEq

/-- The channel, what was sent on it, what is below the temporary directory, and the answers that
come from outside next. -/
structure ScpState where
  pending : List ChannelMsg
  buffered : Bytes
  stderr : Bytes
  exitStatus : Option UInt32
  closed : Bool
  sent : Bytes
  bytes : Nat
  items : Nat
  files : FiniteMap Path LocalNode
  faults : List (Option String)

/-- How a procedure ends early. -/
inductive Stop where
  | failed (error : ScpError)
  /-- A loop that has used up its rounds. -/
  | spins
deriving DecidableEq

abbrev ScpProgram (α : Type) := Fallible ScpState Stop α

namespace ScpProgram

open Fallible

def fail {α : Type} (error : ScpError) : ScpProgram α := raise (.failed error)

def check {α : Type} : Except ScpError α → ScpProgram α
  | .ok a => pure a
  | .error error => fail error

/-- Something outside of the program, which may fail. -/
def outside : ScpProgram Unit := fun s =>
  match s.faults with
  | [] => (.ok (), s)
  | none :: rest => (.ok (), { s with faults := rest })
  | some message :: rest => (.error (.failed (.external message)), { s with faults := rest })

def checkControl : ScpProgram Unit := outside

/-! ## The channel -/

def appendBounded (target data : Bytes) (limit : Nat) : Bytes :=
  target ++ data.take (limit - target.length)

def sendData (data : Bytes) : ScpProgram Unit := do
  outside
  update fun s => { s with sent := s.sent ++ data }

def sendAck : ScpProgram Unit := sendData [0]

def sendControlLine (line : List Char) : ScpProgram Unit :=
  if maxControlLineBytes < (utf8Bytes line).length ∨
      line.any (['\n', '\r', Char.ofNat 0].contains ·) then
    fail (.protocolError "Invalid SCP control line")
  else sendData (utf8Bytes line ++ [10])

def receiveMessage : ScpProgram Unit := fun s =>
  match s.pending with
  | .data data :: rest => (.ok (), { s with pending := rest, buffered := s.buffered ++ data })
  | .extendedData data ext :: rest =>
    (.ok (),
      { s with
        pending := rest
        stderr := if ext = 1 then appendBounded s.stderr data maxStderrBytes else s.stderr })
  | .exitStatus exitStatus :: rest =>
    (.ok (), { s with pending := rest, exitStatus := some exitStatus })
  | .eof :: rest => (.ok (), { s with pending := rest })
  | .other :: rest => (.ok (), { s with pending := rest })
  -- nothing comes after the end
  | .close :: _ | [] =>
    (.error (.failed (.protocolError
      "Remote SCP closed the channel before completing the protocol")),
      { s with pending := [], closed := true })

/-- The loop of `ensure_buffered`, so many rounds at most. -/
def ensureBufferedFrom : Nat → ScpProgram Unit
  | 0 => raise .spins
  | fuel + 1 => do
    let buffered ← gets (·.buffered)
    if buffered ≠ [] then pure ()
    else do
      receiveMessage
      ensureBufferedFrom fuel

def ensureBuffered : ScpProgram Unit := do
  let pending ← gets (·.pending)
  ensureBufferedFrom (pending.length + 1)

def readByte : ScpProgram UInt8 := do
  ensureBuffered
  access fun s => (s.buffered.headD 0, { s with buffered := s.buffered.tail })

def takeControlLine (buffer : Bytes) : Except ScpError (Option (List Char)) × Bytes :=
  match buffer.idxOf? 10 with
  | none =>
    if maxControlLineBytes < buffer.length then
      (.error (.protocolError "SCP control line exceeds the safety limit"), buffer)
    else (.ok none, buffer)
  | some index =>
    if maxControlLineBytes < index then
      (.error (.protocolError "SCP control line exceeds the safety limit"), buffer)
    else
      match ofUtf8 (buffer.take index) with
      | some line => (.ok (some line), buffer.drop (index + 1))
      | none => (.error (.protocolError "SCP control line is not valid UTF-8"),
          buffer.drop (index + 1))

/-- The loop of `read_line`, so many rounds at most. -/
def readLineFrom : Nat → ScpProgram (List Char)
  | 0 => raise .spins
  | fuel + 1 => do
    let taken ← access fun s =>
      ((takeControlLine s.buffered).1, { s with buffered := (takeControlLine s.buffered).2 })
    let line ← check taken
    match line with
    | some line => pure line
    | none => do
      receiveMessage
      readLineFrom fuel

def readLine : ScpProgram (List Char) := do
  let pending ← gets (·.pending)
  readLineFrom (pending.length + 1)

def readResponse : ScpProgram Unit := do
  let byte ← readByte
  if byte = 0 then pure ()
  else if byte = 1 ∨ byte = 2 then do
    let message ← readLine
    fail (.protocolError ("Remote SCP rejected the transfer: " ++ String.ofList message))
  else
    fail (.protocolError ("Remote SCP sent invalid response byte " ++ toString byte.toNat))

def expectSenderStatus : ScpProgram Unit := readResponse

/-- The error output and the exit status at the end of the channel. -/
def drained : List ChannelMsg → Bytes × Option UInt32 → Bytes × Option UInt32
  | [], last => last
  | .close :: _, last => last
  | .data _ :: rest, last => drained rest last
  | .extendedData data ext :: rest, last =>
    drained rest (if ext = 1 then appendBounded last.1 data maxStderrBytes else last.1, last.2)
  | .exitStatus exitStatus :: rest, last => drained rest (last.1, some exitStatus)
  | .eof :: rest, last => drained rest last
  | .other :: rest, last => drained rest last

def exitMessage (exitStatus : Option UInt32) (stderr : List Char) : String :=
  let status := exitStatus.elim "None" fun status => "Some(" ++ toString status.toNat ++ ")"
  if stderr = [] then "Remote SCP exited with status " ++ status
  else "Remote SCP exited with status " ++ status ++ ": " ++ String.ofList stderr

/-- `finish`, which waits for the end of the channel. -/
def finish : ScpProgram Unit := do
  outside
  update fun s =>
    { s with
      pending := []
      stderr := (drained s.pending (s.stderr, s.exitStatus)).1
      exitStatus := (drained s.pending (s.stderr, s.exitStatus)).2
      closed := true }
  let exitStatus ← gets (·.exitStatus)
  let stderr ← gets (·.stderr)
  if exitStatus = some 0 then pure ()
  else fail (.channelError (exitMessage exitStatus (trim (fromUtf8Lossy stderr))))

/-! ## Records -/

/-- What no name has. -/
def separators : List Char := ['/', '\\', '\n', '\r', Char.ofNat 0]

def validateReceivedName (name : List Char) : Except ScpError Unit :=
  if name = [] ∨ name = ['.'] ∨ name = ['.', '.'] ∨ name.any separators.contains then
    .error (.unsafeFileName name)
  else .ok ()

/-- `splitn(3, ' ')`. -/
def fields (line : List Char) : List (List Char) :=
  match splitOnce ' ' line with
  | none => [line]
  | some (first, rest) =>
    match splitOnce ' ' rest with
    | none => [first, rest]
    | some (second, third) => [first, second, third]

def isOctal (c : Char) : Bool := '0' ≤ c && c ≤ '7'

def octal (mode : List Char) : Nat := mode.foldl (fun value c => value * 8 + (c.toNat - 48)) 0

def parseFileOrDirectoryRecord (kind : UInt8) (line : List Char) : Except ScpError ScpRecord := do
  let mode ←
    match (fields line)[0]?.filter fun mode => mode.length == 4 && mode.all isOctal with
    | some mode => .ok mode
    | none => .error (.protocolError "Invalid SCP mode")
  let size ←
    match (fields line)[1]? with
    | some size => .ok size
    | none => .error (.protocolError "Missing SCP size")
  let size ←
    match parseU64 size with
    | some size => .ok size
    | none => .error (.protocolError "Invalid SCP size")
  let name ←
    match (fields line)[2]? with
    | some name => .ok name
    | none => .error (.protocolError "Missing SCP file name")
  validateReceivedName name
  if kind = 0x43 then .ok (.file (octal mode) size name)
  else if kind = 0x44 then
    if size = 0 then .ok (.directory (octal mode) name)
    else .error (.protocolError "SCP directory record has a non-zero size")
  else .error (.protocolError "Unknown SCP record type")

def isAsciiWhitespace (c : Char) : Bool := [' ', '\t', '\n', Char.ofNat 12, '\r'].contains c

def validateTimeRecord (line : List Char) : Except ScpError Unit :=
  let times := (line.splitOnP isAsciiWhitespace).filter fun field => !field.isEmpty
  if times.length ≠ 4 ∨ times.any fun field => (parseU64 field).isNone then
    .error (.protocolError "Malformed SCP time record")
  else .ok ()

def readNextRecord : ScpProgram ScpRecord := do
  let kind ← readByte
  if kind = 1 ∨ kind = 2 then do
    let message ← readLine
    fail (.protocolError ("Remote SCP reported an error: " ++ String.ofList message))
  else if kind = 0x43 ∨ kind = 0x44 then do
    let line ← readLine
    check (parseFileOrDirectoryRecord kind line)
  else if kind = 0x45 then do
    let line ← readLine
    if line ≠ [] then fail (.protocolError "Malformed SCP end-directory record")
    else pure .endDirectory
  else if kind = 0x54 then do
    let line ← readLine
    check (validateTimeRecord line)
    pure .times
  else
    fail (.protocolError ("Remote SCP sent unknown control record " ++ toString kind.toNat))

/-! ## Files -/

/-- Whether the directory is there that a path is in. -/
def hasParent (files : FiniteMap Path LocalNode) (path : Path) : Bool :=
  path.dropLast = [] ∨ files.get path.dropLast = some .directory

def createDir (path : Path) : ScpProgram Unit := do
  outside
  let files ← gets (·.files)
  if (files.get path).isSome then fail (.external "File exists")
  else if ¬ hasParent files path then fail (.external "No such file or directory")
  else update fun s => { s with files := s.files.insert path .directory }

/-- `File::create`, which empties a file that exists. -/
def createFile (path : Path) : ScpProgram Unit := do
  outside
  let files ← gets (·.files)
  if files.get path = some .directory then fail (.external "Is a directory")
  else if ¬ hasParent files path then fail (.external "No such file or directory")
  else update fun s => { s with files := s.files.insert path (.file []) }

def LocalNode.append (data : Bytes) : LocalNode → LocalNode
  | .directory => .directory
  | .file content => .file (content ++ data)

def writeAll (path : Path) (data : Bytes) : ScpProgram Unit := do
  outside
  update fun s => { s with files := s.files.modify path (LocalNode.append data) }

/-- The loop of `copy_exact_to_file`, so many rounds at most. -/
def copyExactFrom (path : Path) : Nat → Nat → ScpProgram Unit
  | _, 0 => pure ()
  | 0, _ + 1 => raise .spins
  | fuel + 1, remaining + 1 => do
    checkControl
    ensureBuffered
    let data ← access fun s =>
      (s.buffered.take (remaining + 1), { s with buffered := s.buffered.drop (remaining + 1) })
    writeAll path data
    copyExactFrom path fuel (remaining + 1 - data.length)

def copyExactToFile (path : Path) (size : Nat) : ScpProgram Unit := copyExactFrom path size size

def saturatingAdd (a b : Nat) : Nat := min (a + b) (2 ^ 64 - 1)

def ensureEntryLimit (items : Nat) : Except ScpError Unit :=
  if maxDirectoryEntries < items then .error (.protocolError "SCP directory entry limit exceeded")
  else .ok ()

/-- Counts an item, which may be one too many. -/
def countItem : ScpProgram Unit := do
  update fun s => { s with items := saturatingAdd s.items 1 }
  let items ← gets (·.items)
  check (ensureEntryLimit items)

def checkDepth (depth : Nat) : ScpProgram Unit :=
  if maxDirectoryDepth < depth then fail (.protocolError "SCP directory nesting limit exceeded")
  else pure ()

/-! ## Directories that are received -/

section Receive

/-! The components of the temporary directory are fixed. -/

variable (root : Path)

def containedChildPath (parent : Path) (name : List Char) : Except ScpError Path := do
  validateReceivedName name
  let child := parent ++ [name]
  if (root ++ child).contains ['.', '.'] then
    .error (.protocolError "SCP path escaped the destination directory")
  else .ok child

/-- The loop of `receive_directory_contents`, so many rounds at most. -/
def receiveEntries : Nat → Path → Nat → ScpProgram Unit
  | 0, _, _ => raise .spins
  | fuel + 1, localDirectory, depth => do
    checkControl
    let record ← readNextRecord
    match record with
    | .times => do
      sendAck
      receiveEntries fuel localDirectory depth
    | .endDirectory => sendAck
    | .directory _ name => do
      check (validateReceivedName name)
      let child ← check (containedChildPath root localDirectory name)
      createDir child
      sendAck
      checkDepth (depth + 1)
      countItem
      receiveEntries fuel child (depth + 1)
      receiveEntries fuel localDirectory depth
    | .file _ size name => do
      check (validateReceivedName name)
      let child ← check (containedChildPath root localDirectory name)
      createFile child
      sendAck
      copyExactToFile child size
      outside
      expectSenderStatus
      sendAck
      update fun s => { s with bytes := saturatingAdd s.bytes size }
      countItem
      receiveEntries fuel localDirectory depth

def receiveDirectoryContents (fuel : Nat) (localDirectory : Path) (depth : Nat) :
    ScpProgram Unit := do
  checkDepth depth
  countItem
  receiveEntries root fuel localDirectory depth

def receiveDirectoryRoot (fuel : Nat) : ScpProgram Unit := do
  let record ← readNextRecord
  match record with
  | .directory _ name => do
    check (validateReceivedName name)
    sendAck
    receiveDirectoryContents root fuel [] 0
  | _ => fail (.protocolError "SCP source did not send a directory record")

/-- What `scp_download_directory` does on its channel. -/
def receiveDirectory (fuel : Nat) : ScpProgram Unit := do
  sendAck
  receiveDirectoryRoot root fuel
  finish

end Receive

/-! ## Directories that are sent -/

/-- What is found in a directory, entry by entry: names as bytes, and of a file its length and what
its reads give before one gives nothing. -/
inductive LocalEntries where
  | nil
  | file (name : Bytes) (len : UInt64) (reads : List Bytes) (rest : LocalEntries)
  | directory (name : Bytes) (entries rest : LocalEntries)
  | symlink (name : Bytes) (rest : LocalEntries)
  | other (name : Bytes) (rest : LocalEntries)
deriving DecidableEq

def safeLocalFileName (name : Bytes) : Except ScpError (List Char) :=
  match ofUtf8 name with
  | none => .error (.invalidPath "Path has no UTF-8 file name")
  | some name => do
    validateReceivedName name
    .ok name

/-- The line in front of a file. -/
def fileLine (len : UInt64) (name : List Char) : List Char :=
  "C0644 ".toList ++ (toString len.toNat).toList ++ ' ' :: name

/-- The line in front of a directory. -/
def directoryLine (name : List Char) : List Char := "D0755 0 ".toList ++ name

/-- The loop over the reads of a file. -/
def sendReads : List Bytes → ScpProgram Unit
  | [] => do
    checkControl
    outside
  | data :: rest => do
    checkControl
    outside
    sendData data
    update fun s => { s with bytes := saturatingAdd s.bytes data.length }
    sendReads rest

/-- What `upload_directory_tree` does before the entries. -/
def openDirectory (remoteName : List Char) (depth : Nat) : ScpProgram Unit := do
  checkDepth depth
  check (validateReceivedName remoteName)
  sendControlLine (directoryLine remoteName)
  readResponse
  countItem
  outside

/-- What `upload_directory_tree` does behind the entries. -/
def closeDirectory : ScpProgram Unit := do
  sendControlLine ['E']
  readResponse

/-- What `upload_directory_tree` does with any entry: `next_entry`, the control and
`symlink_metadata`. -/
def nextEntry : ScpProgram Unit := do
  outside
  checkControl
  outside

/-- The loop of `upload_directory_tree`. -/
def uploadEntries : LocalEntries → Nat → ScpProgram Unit
  -- `next_entry`, which finds nothing more
  | .nil, _ => outside
  | .symlink _ _, _ => do
    nextEntry
    fail (.invalidPath "SCP recursive upload does not follow symlink")
  | .other name rest, depth => do
    nextEntry
    let _ ← check (safeLocalFileName name)
    uploadEntries rest depth
  | .directory name entries rest, depth => do
    nextEntry
    let name ← check (safeLocalFileName name)
    openDirectory name (depth + 1)
    uploadEntries entries (depth + 1)
    closeDirectory
    uploadEntries rest depth
  | .file name len reads rest, depth => do
    nextEntry
    let name ← check (safeLocalFileName name)
    sendControlLine (fileLine len name)
    readResponse
    outside
    sendReads reads
    sendData [0]
    readResponse
    countItem
    uploadEntries rest depth

def uploadDirectoryTree (remoteName : List Char) (entries : LocalEntries) (depth : Nat) :
    ScpProgram Unit := do
  openDirectory remoteName depth
  uploadEntries entries depth
  closeDirectory

/-- What `scp_upload_directory` does on its channel. -/
def uploadDirectory (rootName : List Char) (entries : LocalEntries) : ScpProgram Unit := do
  readResponse
  uploadDirectoryTree rootName entries 0
  outside
  finish

end ScpProgram

/-- The state at the start of a transfer. -/
def start (messages : List ChannelMsg) (faults : List (Option String)) : ScpState where
  pending := messages
  buffered := []
  stderr := []
  exitStatus := none
  closed := false
  sent := []
  bytes := 0
  items := 0
  files := .empty
  faults := faults

end OxideTerm.Sftp.Scp
