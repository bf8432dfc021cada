import OxideTerm.Lib.Fallible
import OxideTerm.Trzsz.PathGuard
import Mathlib.Data.Finset.Card
import Mathlib.Data.List.Lex
import Mathlib.Data.String.Basic

/-!
# Handles of transfers

The files that are being sent and received, by handle and by owner, with their expiry.
-/

namespace OxideTerm.Trzsz

open OxideTerm.Lib

def maxHandlesPerOwner : Nat := 256

def maxTransferChunkSize : Nat := 1024 * 1024

/-! ## The state -/

structure OwnerState where
  authorizedUploadPaths : Finset Path := ∅
  preparedDownloadRoot : Option Path := none
  uploadHandles : Finset String := ∅
  downloadHandles : Finset String := ∅
  downloadDirectories : Finset Path := ∅
  touchedAt : Nat
deriving DecidableEq

/-- An open file that is read from. -/
structure UploadHandle where
  ownerId : String
  size : Nat
  file : Nat
  touchedAt : Nat
deriving DecidableEq

/-- An open file that is written to, under a name of its own until it is complete. -/
structure DownloadHandle where
  ownerId : String
  rootPath : Path
  finalPath : Path
  tempPath : Path
  overwrite : Bool
  file : Nat
  touchedAt : Nat
  temp_ne_final : tempPath ≠ finalPath
deriving DecidableEq

structure TrzszState where
  owners : FiniteMap String OwnerState
  uploadHandles : FiniteMap String UploadHandle
  downloadHandles : FiniteMap String DownloadHandle
  handleTtl : Nat

/-- What is left to remove from the file system. -/
structure CleanupPlan where
  tempPaths : List Path
  directoryPaths : List Path

/-- The state and the file system. -/
structure World where
  state : TrzszState
  disk : Disk

/-- An operation. -/
abbrev Op (α : Type) : Type := Fallible World TrzszError α

namespace TrzszState

/-- `entry(owner_id).or_insert_with(..)`. -/
def owner (state : TrzszState) (ownerId : String) (now : Nat) : OwnerState :=
  (state.owners.get ownerId).getD { touchedAt := now }

def setOwner (state : TrzszState) (ownerId : String) (owner : OwnerState) : TrzszState :=
  { state with owners := state.owners.insert ownerId owner }

/-- Changes an owner that is there. -/
def modifyOwner (state : TrzszState) (ownerId : String) (change : OwnerState → OwnerState) :
    TrzszState :=
  { state with owners := state.owners.modify ownerId change }

def releaseUploadHandle (state : TrzszState) (ownerId handleId : String) (now : Nat) :
    TrzszState :=
  state.modifyOwner ownerId fun owner =>
    { owner with uploadHandles := owner.uploadHandles.erase handleId, touchedAt := now }

def releaseDownloadHandle (state : TrzszState) (ownerId handleId : String) (now : Nat) :
    TrzszState :=
  state.modifyOwner ownerId fun owner =>
    { owner with downloadHandles := owner.downloadHandles.erase handleId, touchedAt := now }

/-! ## Expiry -/

/-- Nothing has been done for as long as a handle lasts. -/
def expired (state : TrzszState) (now touchedAt : Nat) : Bool := state.handleTtl ≤ now - touchedAt

def expireUpload (now : Nat) (state : TrzszState) (handleId : String) : TrzszState :=
  match state.uploadHandles.get handleId with
  | none => state
  | some handle =>
    { state with uploadHandles := state.uploadHandles.erase handleId }.releaseUploadHandle
      handle.ownerId handleId now

def expireDownload (now : Nat) (state : TrzszState × List Path) (handleId : String) :
    TrzszState × List Path :=
  match state.1.downloadHandles.get handleId with
  | none => state
  | some handle =>
    ({ state.1 with
        downloadHandles := state.1.downloadHandles.erase handleId }.releaseDownloadHandle
      handle.ownerId handleId now, state.2 ++ [handle.tempPath])

def expireOwner (state : TrzszState × List Path) (ownerId : String) : TrzszState × List Path :=
  match state.1.owners.get ownerId with
  | none => state
  | some owner =>
    ({ state.1 with owners := state.1.owners.erase ownerId },
      state.2 ++ inOrder owner.downloadDirectories)

/-- Takes out what has expired: handles first, then owners that are left without any. -/
def collectExpiredCleanup (state : TrzszState) (now : Nat) : TrzszState × CleanupPlan :=
  let expiredUploads := (inOrder state.uploadHandles.keys).filter fun handleId =>
    (state.uploadHandles.get handleId).any fun handle => state.expired now handle.touchedAt
  let state := expiredUploads.foldl (expireUpload now) state
  let expiredDownloads := (inOrder state.downloadHandles.keys).filter fun handleId =>
    (state.downloadHandles.get handleId).any fun handle => state.expired now handle.touchedAt
  let (state, tempPaths) := expiredDownloads.foldl (expireDownload now) (state, [])
  let expiredOwners := (inOrder state.owners.keys).filter fun ownerId =>
    (state.owners.get ownerId).any fun owner =>
      owner.uploadHandles = ∅ ∧ owner.downloadHandles = ∅ ∧ state.expired now owner.touchedAt
  let (state, directoryPaths) := expiredOwners.foldl expireOwner (state, [])
  (state, { tempPaths, directoryPaths })

end TrzszState

namespace CleanupPlan

/-- Deeper directories first. -/
def deeper (left right : Path) : Prop :=
  right.length < left.length ∨ right.length = left.length ∧ right ≤ left

instance decidableDeeper : DecidableRel deeper := fun left right =>
  inferInstanceAs (Decidable (right.length < left.length ∨ right.length = left.length ∧ right ≤ left))

/-- One removal, and how many have failed. -/
def removal (remove : Disk → Path → Except Disk.ErrorKind Disk) (progress : Nat × Disk)
    (path : Path) : Nat × Disk :=
  match remove progress.2 path with
  | .error _ => (progress.1 + 1, progress.2)
  | .ok disk => (progress.1, disk)

/-- Removes all it can, and counts what it cannot. -/
def execute (plan : CleanupPlan) (fileFault directoryFault : Path → Option Disk.ErrorKind)
    (disk : Disk) : Nat × Disk :=
  let progress := plan.tempPaths.foldl
    (removal fun disk path => disk.removeFile (fileFault path) path) (0, disk)
  (plan.directoryPaths.insertionSort deeper).foldl
    (removal fun disk path => disk.removeDir (directoryFault path) path) progress

end CleanupPlan

/-! ## Operations -/

namespace World

def purged (env : Env) (w : World) : World :=
  let (state, plan) := w.state.collectExpiredCleanup env.now
  { state, disk := (plan.execute (env.fault <| .purgeFile ·) (env.fault <| .purgeDirectory ·) w.disk).2 }

end World

open Fallible

def purgeExpired (env : Env) : Op Unit := update (World.purged env)

/-- Changes the state. -/
def updateState (f : TrzszState → TrzszState) : Op Unit :=
  update fun w => { w with state := f w.state }

/-- A call on the file system. -/
def onDisk {α : Type} (call : Disk → Except Disk.ErrorKind (α × Disk)) : Op α := fun w =>
  match call w.disk with
  | .error error => (.error (.io error), w)
  | .ok (a, disk) => (.ok a, { w with disk })

def setAuthorizedUploadPaths (env : Env) (ownerId : String) (paths : Finset Path) : Op Unit := do
  purgeExpired env
  updateState fun state => state.setOwner ownerId
    { state.owner ownerId env.now with authorizedUploadPaths := paths, touchedAt := env.now }

def registerUploadHandle (env : Env) (ownerId : String) (file size : Nat) : Op String := do
  purgeExpired env
  let owner ← gets fun w => w.state.owner ownerId env.now
  updateState fun state => state.setOwner ownerId owner
  if maxHandlesPerOwner ≤ owner.uploadHandles.card then
    raise (.invalidState ("Too many active upload handles for owner: " ++ ownerId))
  else
    updateState fun state =>
      { state.setOwner ownerId
          { owner with
            uploadHandles := insert env.handleUuid owner.uploadHandles
            touchedAt := env.now } with
        uploadHandles := state.uploadHandles.insert env.handleUuid
          { ownerId, size, file, touchedAt := env.now } }
    return env.handleUuid

/-- The part of a chunk operation before the file is used: the owner is touched, the handle is
looked up and the caller has to own it. -/
def uploadHandleOf (env : Env) (ownerId handleId : String) : Op UploadHandle := do
  updateState fun state => state.modifyOwner ownerId fun owner => { owner with touchedAt := env.now }
  match ← gets fun w => w.state.uploadHandles.get handleId with
  | none => raise (.handleNotFound handleId)
  | some handle => if handle.ownerId ≠ ownerId then raise .handleOwnerMismatch else return handle

def readUploadChunk (env : Env) (ownerId handleId : String) (offset length : Nat) : Op Bytes := do
  purgeExpired env
  let handle ← uploadHandleOf env ownerId handleId
  if handle.size < offset then raise (.invalidOffset offset handle.size)
  else
    updateState fun state =>
      { state with
        uploadHandles := state.uploadHandles.insert handleId { handle with touchedAt := env.now } }
    onDisk fun disk =>
      match env.fault .seek, env.fault .read with
      | some error, _ => .error error
      | none, some error => .error error
      | none, none => .ok (((disk.contents handle.file).drop offset).take length, disk)

def closeUploadHandle (env : Env) (ownerId handleId : String) : Op Unit := do
  purgeExpired env
  match ← gets fun w => w.state.uploadHandles.get handleId with
  | none => raise (.handleNotFound handleId)
  | some handle =>
    if handle.ownerId ≠ ownerId then raise .handleOwnerMismatch
    else
      updateState fun state =>
        { state with uploadHandles := state.uploadHandles.erase handleId }.releaseUploadHandle
          ownerId handleId env.now

def prepareDownloadRoot (env : Env) (ownerId : String) (rootPath : Path) : Op Unit := do
  purgeExpired env
  updateState fun state => state.setOwner ownerId
    { state.owner ownerId env.now with preparedDownloadRoot := some rootPath, touchedAt := env.now }

def preparedDownloadRoot (env : Env) (ownerId : String) : Op (Option Path) := do
  purgeExpired env
  updateState fun state => state.modifyOwner ownerId fun owner => { owner with touchedAt := env.now }
  gets fun w => (w.state.owners.get ownerId).bind (·.preparedDownloadRoot)

def registerDownloadHandle (env : Env) (handle : DownloadHandle) : Op String := do
  purgeExpired env
  let owner ← gets fun w => w.state.owner handle.ownerId env.now
  updateState fun state => state.setOwner handle.ownerId owner
  if maxHandlesPerOwner ≤ owner.downloadHandles.card then
    raise (.invalidState ("Too many active download handles for owner: " ++ handle.ownerId))
  else
    updateState fun state =>
      { state.setOwner handle.ownerId
          { owner with
            downloadHandles := insert env.handleUuid owner.downloadHandles
            touchedAt := env.now } with
        downloadHandles := state.downloadHandles.insert env.handleUuid
          { handle with touchedAt := env.now } }
    return env.handleUuid

def registerDownloadDirectory (env : Env) (ownerId : String) (directoryPath : Path) : Op Unit := do
  purgeExpired env
  updateState fun state =>
    let owner := state.owner ownerId env.now
    state.setOwner ownerId
      { owner with
        downloadDirectories := insert directoryPath owner.downloadDirectories
        touchedAt := env.now }

def commitDownloadDirectory (env : Env) (ownerId : String) (directoryPath : Path) : Op Unit := do
  purgeExpired env
  updateState fun state => state.modifyOwner ownerId fun owner =>
    { owner with
      downloadDirectories := owner.downloadDirectories.erase directoryPath
      touchedAt := env.now }

def writeDownloadChunk (env : Env) (ownerId writerId : String) (data : Bytes) : Op Unit := do
  purgeExpired env
  updateState fun state => state.modifyOwner ownerId fun owner => { owner with touchedAt := env.now }
  match ← gets fun w => w.state.downloadHandles.get writerId with
  | none => raise (.handleNotFound writerId)
  | some handle =>
    if handle.ownerId ≠ ownerId then raise .handleOwnerMismatch
    else
      updateState fun state =>
        { state with
          downloadHandles := state.downloadHandles.insert writerId
            { handle with touchedAt := env.now } }
      let result ← access fun w =>
        let (result, disk) :=
          w.disk.writeAll ((env.fault .write).map (·, env.written)) handle.file data
        (result, { w with disk })
      ofExcept (ofIo result)

/-- The handle is taken out of the table, if it is there and the caller owns it. -/
def takeDownloadHandle (env : Env) (ownerId writerId : String) : Op DownloadHandle := do
  match ← gets fun w => w.state.downloadHandles.get writerId with
  | none => raise (.handleNotFound writerId)
  | some handle =>
    if handle.ownerId ≠ ownerId then raise .handleOwnerMismatch
    else
      updateState fun state =>
        { state with downloadHandles := state.downloadHandles.erase writerId }.releaseDownloadHandle
          ownerId writerId env.now
      return handle

/-- What has to go before the download can take its name, if anything. -/
def existingTarget (env : Env) (disk : Disk) (handle : DownloadHandle) : Except TrzszError Bool :=
  match disk.symlinkMetadata (env.fault .existingMetadata) handle.finalPath with
  | .error _ => .ok false
  | .ok (.symlink _) => .error (.symlinkNotAllowed (display handle.finalPath))
  | .ok .directory =>
    .error (.invalidPath ("Cannot replace existing directory: " ++ display handle.finalPath))
  | .ok (.file _) =>
    if ¬ handle.overwrite then .error (.alreadyExists (display handle.finalPath)) else .ok true

/-- The file system once the name of the download is free. -/
def clearTarget (env : Env) (disk : Disk) (handle : DownloadHandle) : Except TrzszError Disk := do
  ofIo ((env.fault .flush).elim (.ok ()) .error)
  ofIo ((env.fault .syncAll).elim (.ok ()) .error)
  validateDownloadTargetPath env disk handle.rootPath handle.finalPath
  if ← existingTarget env disk handle then
    ofIo (disk.removeFile (env.fault .removeTarget) handle.finalPath)
  else return disk

/-- The download takes its name. -/
def placeDownload (env : Env) (handle : DownloadHandle) (disk : Disk) :
    Except TrzszError Unit × Disk :=
  match clearTarget env disk handle with
  | .error error => (.error error, disk)
  | .ok cleared =>
    match cleared.rename (env.fault .rename) handle.tempPath handle.finalPath with
    | .error error => (.error (.io error), cleared)
    | .ok renamed => (.ok (), renamed)

/-- After an error the temp file is removed, if that is possible. -/
def dropTemp (env : Env) (handle : DownloadHandle) (disk : Disk) : Disk :=
  match disk.removeFile (env.fault .removeTemp) handle.tempPath with
  | .error _ => disk
  | .ok disk => disk

def finishDownloadHandle (env : Env) (ownerId writerId : String) : Op Unit := do
  purgeExpired env
  let handle ← takeDownloadHandle env ownerId writerId
  let result ← access fun w =>
    let (result, disk) := placeDownload env handle w.disk
    (result, { w with disk })
  match result with
  | .ok () => return ()
  | .error error =>
    update fun w => { w with disk := dropTemp env handle w.disk }
    raise error

def abortDownloadHandle (env : Env) (ownerId writerId : String) : Op Unit := do
  let handle ← takeDownloadHandle env ownerId writerId
  update fun w => { w with disk := dropTemp env handle w.disk }

end OxideTerm.Trzsz
