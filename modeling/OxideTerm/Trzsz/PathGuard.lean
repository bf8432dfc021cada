import OxideTerm.Lib.Disk

/-!
# Paths of a download

The checks that keep a download below its root, and the errors of the backend.
-/

namespace OxideTerm.Trzsz

open OxideTerm.Lib
open OxideTerm.Lib.Disk (Node ErrorKind)

/-! ## Errors -/

inductive TrzszError where
  | invalidApiVersion (expected got : Nat)
  | invalidOwnerId
  | invalidPath (path : String)
  | symlinkNotAllowed (path : String)
  | reservedName (name : String)
  | rootNotPrepared
  | rootMismatch
  | handleNotFound (handleId : String)
  | handleOwnerMismatch
  | alreadyExists (path : String)
  | invalidState (reason : String)
  | invalidOffset (offset size : Nat)
  | chunkTooLarge (requested max : Nat)
  | io (error : ErrorKind)
deriving Repr, DecidableEq

/-- The error of a call, as `?` converts it. -/
def ofIo {α : Type} : Except ErrorKind α → Except TrzszError α
  | .ok a => .ok a
  | .error error => .error (.io error)

/-! ## Calls -/

/-- The calls of one operation on the file system, each of which may fail. -/
inductive FsCall where
  | purgeFile (path : Path)
  | purgeDirectory (path : Path)
  | cleanupFile (path : Path)
  | cleanupDirectory (path : Path)
  | parentMetadata (path : Path)
  | createParent (path : Path)
  | targetMetadata
  | existingMetadata
  | createTemp
  | createDirectory
  | removeDirectory
  | seek
  | read
  | write
  | flush
  | syncAll
  | removeTarget
  | rename
  | removeTemp
deriving Repr, DecidableEq

/-- What an operation takes from outside: the time, the ids it draws, and which of its calls fail.
A write that fails has written so many bytes. -/
structure Env where
  now : Nat
  tempUuid : String
  handleUuid : String
  fault : FsCall → Option ErrorKind
  written : Nat

/-! ## Guards -/

/-- `Path::display`. -/
def display (path : Path) : String := "/" ++ "/".intercalate path

def trzszApiVersion : Nat := 1

def validateApiVersion (apiVersion : Nat) : Except TrzszError Unit :=
  if apiVersion ≠ trzszApiVersion then .error (.invalidApiVersion trzszApiVersion apiVersion)
  else .ok ()

/-- `char::is_control`. -/
def isControl (c : Char) : Bool := c.toNat < 0x20 ∨ 0x7f ≤ c.toNat ∧ c.toNat < 0xa0

def validateOwnerId (ownerId : String) : Except TrzszError Unit :=
  if ownerId = "" ∨ 256 < ownerId.utf8ByteSize then .error .invalidOwnerId
  else if ownerId.toList.any isControl then .error .invalidOwnerId
  else .ok ()

def ensureWithinRoot (root candidate : Path) : Except TrzszError Unit :=
  if root <+: candidate then .ok ()
  else .error (.invalidPath ("Target escapes prepared root: " ++ display candidate))

/-- `Path::parent`. -/
def parent (path : Path) : Option Path := if path = [] then none else some path.dropLast

/-- The loop of `validate_download_target_path` over the directories below the root. -/
def validateParents (env : Env) (disk : Disk) : Path → List String → Except TrzszError Unit
  | _, [] => .ok ()
  | current, component :: rest =>
    let current := current ++ [component]
    match disk.symlinkMetadata (env.fault (.parentMetadata current)) current with
    | .error .notFound => .error (.invalidPath ("Parent path no longer exists: " ++ display current))
    | .error error => .error (.io error)
    | .ok (.symlink _) => .error (.symlinkNotAllowed (display current))
    | .ok (.file _) => .error (.invalidPath ("Parent path is not a directory: " ++ display current))
    | .ok .directory => validateParents env disk current rest

/-- The entry itself, which may be missing or a file. -/
def validateTarget (env : Env) (disk : Disk) (finalPath : Path) : Except TrzszError Unit :=
  match disk.symlinkMetadata (env.fault .targetMetadata) finalPath with
  | .ok (.symlink _) => .error (.symlinkNotAllowed (display finalPath))
  | .ok .directory =>
    .error (.invalidPath ("Target path resolves to a directory: " ++ display finalPath))
  | .ok (.file _) => .ok ()
  | .error _ => .ok ()

def validateDownloadTargetPath (env : Env) (disk : Disk) (root finalPath : Path) :
    Except TrzszError Unit := do
  ensureWithinRoot root finalPath
  match parent finalPath with
  | none => .error (.invalidPath ("Final path has no parent: " ++ display finalPath))
  | some parent =>
    ensureWithinRoot root parent
    validateParents env disk root (parent.drop root.length)
    validateTarget env disk finalPath

end OxideTerm.Trzsz
