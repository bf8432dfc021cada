import OxideTerm.Trzsz.State

/-!
# Finishing a download

A download is written under a name of its own and takes its place when it is finished. What stood
there is removed first, so that it is lost when the download cannot take its place after that.
-/

namespace OxideTerm.Trzsz

open OxideTerm.Lib
open OxideTerm.Lib.Disk (Shrinks Written)

variable {env : Env} {handle : DownloadHandle} {disk : Disk}

/-! ## What has expired -/

theorem shrinks_removal {remove : Disk → Path → Except Disk.ErrorKind Disk}
    (hremove : ∀ disk path disk', remove disk path = .ok disk' → Shrinks disk disk')
    (progress : Nat × Disk) (path : Path) :
    Shrinks progress.2 (CleanupPlan.removal remove progress path).2 := by
  unfold CleanupPlan.removal
  split
  · exact Shrinks.refl _
  next disk hdisk => exact hremove _ _ _ hdisk

theorem shrinks_removals {remove : Disk → Path → Except Disk.ErrorKind Disk}
    (hremove : ∀ disk path disk', remove disk path = .ok disk' → Shrinks disk disk') :
    (paths : List Path) → (progress : Nat × Disk) →
      Shrinks progress.2 (paths.foldl (CleanupPlan.removal remove) progress).2
  | [], _ => Shrinks.refl _
  | path :: paths, progress =>
    (shrinks_removal hremove progress path).trans (shrinks_removals hremove paths _)

theorem shrinks_execute (plan : CleanupPlan)
    (fileFault directoryFault : Path → Option Disk.ErrorKind) (disk : Disk) :
    Shrinks disk (plan.execute fileFault directoryFault disk).2 := by
  have hfile : ∀ disk path disk', Disk.removeFile (fileFault path) disk path = .ok disk' →
      Shrinks disk disk' := by
    intro disk path disk' h
    rw [(Disk.removeFile_ok h).2]
    exact Disk.shrinks_erase disk path
  have hdirectory : ∀ disk path disk', Disk.removeDir (directoryFault path) disk path = .ok disk' →
      Shrinks disk disk' := by
    intro disk path disk' h
    rw [Disk.removeDir_ok h]
    exact Disk.shrinks_erase disk path
  exact (shrinks_removals hfile plan.tempPaths (0, disk)).trans (shrinks_removals hdirectory _ _)

theorem shrinks_purged (env : Env) (w : World) : Shrinks w.disk (w.purged env).disk :=
  shrinks_execute _ _ _ _

/-! ## The steps of a finish -/

theorem existingTarget_ok {existing : Bool} (h : existingTarget env disk handle = .ok existing) :
    existing = true → ∃ id, disk.nodes.get handle.finalPath = some (.file id) := by
  rintro rfl
  unfold existingTarget at h
  rcases Disk.symlinkMetadata_cases (env.fault .existingMetadata) disk handle.finalPath with
    ⟨error, hmeta⟩ | ⟨node, hnode, hmeta⟩
  · rw [hmeta] at h
    simp at h
  · rw [hmeta] at h
    cases node with
    | file id => exact ⟨id, hnode⟩
    | directory => simp at h
    | symlink target => simp at h

/-- The name is free once the file that had it is removed, or at once. -/
theorem clearTarget_ok {cleared : Disk} (h : clearTarget env disk handle = .ok cleared) :
    (existingTarget env disk handle = .ok false ∧ cleared = disk) ∨
    (existingTarget env disk handle = .ok true ∧
      cleared = { disk with nodes := disk.nodes.erase handle.finalPath }) := by
  unfold clearTarget at h
  obtain ⟨-, -, h⟩ := exists_of_bind_ok h
  obtain ⟨-, -, h⟩ := exists_of_bind_ok h
  obtain ⟨-, -, h⟩ := exists_of_bind_ok h
  obtain ⟨existing, hexisting, h⟩ := exists_of_bind_ok h
  cases existing with
  | false =>
    cases h
    exact .inl ⟨hexisting, rfl⟩
  | true =>
    rw [if_pos rfl] at h
    cases hremove : disk.removeFile (env.fault .removeTarget) handle.finalPath with
    | error error =>
      rw [hremove] at h
      cases h
    | ok removed =>
      rw [hremove] at h
      cases h
      exact .inr ⟨hexisting, (Disk.removeFile_ok hremove).2⟩

/-! ## What a finish is to leave -/

/-- The checks pass, the old file, if any, is removed and the download takes its name. -/
def Places (env : Env) (handle : DownloadHandle) (disk : Disk) : Prop :=
  ∃ cleared renamed, clearTarget env disk handle = .ok cleared ∧
    cleared.rename (env.fault .rename) handle.tempPath handle.finalPath = .ok renamed

/-- The checks pass and the old file is removed, but the download cannot take its name. -/
def LosesTarget (env : Env) (handle : DownloadHandle) (disk : Disk) : Prop :=
  existingTarget env disk handle = .ok true ∧ ∃ cleared error,
    clearTarget env disk handle = .ok cleared ∧
      cleared.rename (env.fault .rename) handle.tempPath handle.finalPath = .error error

/-- A file with these bytes stands at the path. -/
def Holds (disk : Disk) (path : Path) (bytes : Bytes) : Prop :=
  ∃ id, disk.nodes.get path = some (.file id) ∧ disk.contents id = bytes

/-- After an error the destination is as it was and the temp file is gone, unless it cannot be
removed; otherwise the destination holds what was written. -/
structure Atomic (env : Env) (handle : DownloadHandle) (written : Bytes) (before after : Disk)
    (result : Except TrzszError Unit) : Prop where
  failed : ∀ error, result = .error error →
    after.nodes.get handle.finalPath = before.nodes.get handle.finalPath ∧
      (after.nodes.get handle.tempPath = none ∨
        ∃ reason, before.removeFile (env.fault .removeTemp) handle.tempPath = .error reason)
  finished : result = .ok () → Holds after handle.finalPath written

/-- What a finish does to the file system. -/
theorem placeDownload_cases (env : Env) (handle : DownloadHandle) (disk : Disk) :
    (∃ cleared renamed, clearTarget env disk handle = .ok cleared ∧
      cleared.rename (env.fault .rename) handle.tempPath handle.finalPath = .ok renamed ∧
      placeDownload env handle disk = (.ok (), renamed)) ∨
    (¬ Places env handle disk ∧ ∃ error cleared,
      placeDownload env handle disk = (.error error, cleared) ∧
      (¬ LosesTarget env handle disk ∧ cleared = disk ∨
        LosesTarget env handle disk ∧
          cleared = { disk with nodes := disk.nodes.erase handle.finalPath })) := by
  unfold placeDownload
  cases hclear : clearTarget env disk handle with
  | error error =>
    right
    refine ⟨?_, error, disk, rfl, .inl ⟨?_, rfl⟩⟩
    · rintro ⟨cleared, -, hcleared, -⟩
      rw [hclear] at hcleared
      cases hcleared
    · rintro ⟨-, cleared, -, hcleared, -⟩
      rw [hclear] at hcleared
      cases hcleared
  | ok cleared =>
    cases hrename : cleared.rename (env.fault .rename) handle.tempPath handle.finalPath with
    | ok renamed => exact .inl ⟨cleared, renamed, rfl, hrename, by simp [hrename]⟩
    | error error =>
      right
      refine ⟨?_, .io error, cleared, by simp [hrename], ?_⟩
      · rintro ⟨other, renamed, hother, hrenamed⟩
        rw [hclear] at hother
        cases hother
        rw [hrename] at hrenamed
        cases hrenamed
      · rcases clearTarget_ok hclear with ⟨hexisting, rfl⟩ | ⟨hexisting, hcleared⟩
        · left
          refine ⟨?_, rfl⟩
          rintro ⟨htrue, -⟩
          rw [hexisting] at htrue
          cases htrue
        · exact .inr ⟨⟨hexisting, cleared, error, hclear, hrename⟩, hcleared⟩

/-- Removing the temp file leaves the destination alone. -/
theorem get_dropTemp_final :
    (dropTemp env handle disk).nodes.get handle.finalPath = disk.nodes.get handle.finalPath := by
  unfold dropTemp
  split
  · rfl
  next removed hremove =>
    rw [(Disk.removeFile_ok hremove).2]
    exact if_neg handle.temp_ne_final.symm

/-- What cannot be removed could not be removed before, when more was there. -/
theorem removeFile_error_of_shrinks {before : Disk} (hshrinks : Shrinks before disk) {path : Path}
    {fault : Option Disk.ErrorKind} {reason : Disk.ErrorKind}
    (h : disk.removeFile fault path = .error reason) :
    disk.nodes.get path = none ∨ before.removeFile fault path = .error reason := by
  rcases hshrinks.nodes path with hsame | hnone
  · right
    unfold Disk.removeFile at h ⊢
    rw [hsame] at h
    split at h
    all_goals simp_all
  · exact .inl hnone

/-- The temp file is gone, unless it could not be removed at the beginning. -/
theorem get_dropTemp_temp {before : Disk} (hshrinks : Shrinks before disk) :
    (dropTemp env handle disk).nodes.get handle.tempPath = none ∨
      ∃ reason, before.removeFile (env.fault .removeTemp) handle.tempPath = .error reason := by
  unfold dropTemp
  split
  next reason hremove =>
    rcases removeFile_error_of_shrinks hshrinks hremove with hnone | hbefore
    · exact .inl hnone
    · exact .inr ⟨reason, hbefore⟩
  next removed hremove =>
    rw [(Disk.removeFile_ok hremove).2]
    exact .inl (if_pos rfl)

/-! ## The whole operation -/

section Finish

variable {ownerId writerId : String} {w : World}

theorem takeDownloadHandle_ok (htaken : w.state.downloadHandles.get writerId = some handle)
    (howner : handle.ownerId = ownerId) :
    ∃ state, takeDownloadHandle env ownerId writerId w = (.ok handle, { w with state }) := by
  have hlookup : (Fallible.gets fun w : World => w.state.downloadHandles.get writerId) w =
      ((.ok (some handle), w) : Except TrzszError _ × World) := by
    rw [Fallible.gets, htaken]
  unfold takeDownloadHandle
  rw [Fallible.bind_of_ok hlookup]
  refine ⟨TrzszState.releaseDownloadHandle
    { w.state with downloadHandles := w.state.downloadHandles.erase writerId } ownerId writerId
      env.now, ?_⟩
  subst howner
  show (if handle.ownerId ≠ handle.ownerId then _ else _ : Op DownloadHandle) w = _
  rw [if_neg (not_not.mpr rfl)]
  rfl

/-- The file system at the end: after an error the temp file is dropped. -/
def settled (env : Env) (handle : DownloadHandle) : Except TrzszError Unit → Disk → Disk
  | .ok _, disk => disk
  | .error _, disk => dropTemp env handle disk

theorem finishDownloadHandle_eq
    (htaken : (w.purged env).state.downloadHandles.get writerId = some handle)
    (howner : handle.ownerId = ownerId) :
    ∃ state, ∀ result disk, placeDownload env handle (w.purged env).disk = (result, disk) →
      finishDownloadHandle env ownerId writerId w =
        (result, { state, disk := settled env handle result disk }) := by
  obtain ⟨state, htake⟩ := @takeDownloadHandle_ok env handle ownerId writerId _ htaken howner
  refine ⟨state, ?_⟩
  intro result disk hplace
  have hpurge : purgeExpired env w = (.ok (), w.purged env) := rfl
  unfold finishDownloadHandle
  rw [Fallible.bind_of_ok hpurge, Fallible.bind_of_ok htake]
  have haccess : Fallible.access (fun w : World =>
      ((placeDownload env handle w.disk).1, { w with disk := (placeDownload env handle w.disk).2 }))
      { w.purged env with state } =
        ((.ok result, { state, disk }) : Except TrzszError _ × World) := by
    rw [Fallible.access]
    simp only [hplace]
  refine (Fallible.bind_of_ok haccess).trans ?_
  cases result with
  | ok => rfl
  | error error => rfl

/-- The download takes its name with what was written, or the old file keeps it. `ready` is the file
system once what has expired is removed. -/
structure Undisturbed (env : Env) (handle : DownloadHandle) (before ready : Disk) : Prop where
  temp : Places env handle ready →
    Holds ready handle.tempPath (before.contents handle.file)
  target : ¬ Places env handle ready →
    ready.nodes.get handle.finalPath = before.nodes.get handle.finalPath ∧
      ¬ LosesTarget env handle ready

/-- A download that takes its name brings along what stood at the temp path. -/
theorem holds_renamed_iff {cleared renamed : Disk} {bytes : Bytes}
    (hclear : clearTarget env disk handle = .ok cleared)
    (hrename : cleared.rename (env.fault .rename) handle.tempPath handle.finalPath = .ok renamed) :
    Holds renamed handle.finalPath bytes ↔ Holds disk handle.tempPath bytes := by
  obtain ⟨hcontents, hnode, -⟩ := Disk.rename_ok hrename
  have hcleared : cleared.contents = disk.contents ∧
      cleared.nodes.get handle.tempPath = disk.nodes.get handle.tempPath := by
    rcases clearTarget_ok hclear with ⟨-, rfl⟩ | ⟨-, rfl⟩
    · exact ⟨rfl, rfl⟩
    · exact ⟨rfl, if_neg handle.temp_ne_final⟩
  unfold Holds
  rw [hcontents, hnode, hcleared.1, hcleared.2]

/-- An old file that is lost was there at the beginning, and is there no more. -/
theorem LosesTarget.get_final_ne {before : Disk} (hshrinks : Shrinks before disk)
    (h : LosesTarget env handle disk) : before.nodes.get handle.finalPath ≠ none := by
  obtain ⟨id, hnode⟩ := existingTarget_ok h.1 rfl
  intro hnone
  rcases hshrinks.nodes handle.finalPath with hsame | hgone
  · rw [hsame, hnone] at hnode
    cases hnode
  · rw [hgone] at hnode
    cases hnode

/-- **A finish leaves the destination as it was or with what was written, and no temp file that
could be removed, just where the old file is not lost to a rename that fails, nothing at the
destination expires, and the temp path still holds what was written.** -/
theorem finish_atomic_iff {written : Bytes}
    (htaken : (w.purged env).state.downloadHandles.get writerId = some handle)
    (howner : handle.ownerId = ownerId) (hwritten : Written handle.file written w.disk) :
    Atomic env handle written w.disk (finishDownloadHandle env ownerId writerId w).2.disk
        (finishDownloadHandle env ownerId writerId w).1 ↔
      Undisturbed env handle w.disk (w.purged env).disk := by
  have hshrinks := shrinks_purged env w
  obtain ⟨state, heq⟩ := finishDownloadHandle_eq htaken howner
  rcases placeDownload_cases env handle (w.purged env).disk with
    ⟨cleared, renamed, hclear, hrename, hplace⟩ | ⟨hnot, error, cleared, hplace, hcleared⟩
  · -- The download takes its name.
    have hplaces : Places env handle (w.purged env).disk := ⟨cleared, renamed, hclear, hrename⟩
    rw [heq _ _ hplace]
    constructor
    · intro h
      refine ⟨?_, fun hnot => absurd hplaces hnot⟩
      rintro -
      rw [hwritten.contents_eq, ← holds_renamed_iff hclear hrename]
      exact h.finished rfl
    · intro h
      have htemp := h.temp hplaces
      rw [hwritten.contents_eq] at htemp
      exact ⟨fun _ hresult => (by cases hresult),
        fun _ => (holds_renamed_iff hclear hrename).mpr htemp⟩
  · -- It does not, and the temp file is dropped.
    rw [heq _ _ hplace]
    have hfinal : (dropTemp env handle cleared).nodes.get handle.finalPath =
        cleared.nodes.get handle.finalPath := get_dropTemp_final
    constructor
    · intro h
      refine ⟨fun hplaces => absurd hplaces hnot, ?_⟩
      rintro -
      have hkept := (h.failed error rfl).1.symm.trans hfinal
      rcases hcleared with ⟨hkeeps, rfl⟩ | ⟨hloses, rfl⟩
      · exact ⟨hkept.symm, hkeeps⟩
      · exact absurd (hkept.trans (if_pos rfl)) (hloses.get_final_ne hshrinks)
    · intro h
      obtain ⟨hspared, hkeeps⟩ := h.target hnot
      rcases hcleared with ⟨-, rfl⟩ | ⟨hloses, -⟩
      · refine ⟨?_, fun hresult => (by cases hresult)⟩
        rintro - -
        exact ⟨hfinal.trans hspared, get_dropTemp_temp hshrinks⟩
      · exact absurd hloses hkeeps

end Finish

/-! ## A download over an existing file -/

/-- A download of the byte 2 over a file with the byte 1. -/
def replacing : DownloadHandle where
  ownerId := "owner"
  rootPath := ["downloads"]
  finalPath := ["downloads", "file"]
  tempPath := ["downloads", ".file.part"]
  overwrite := true
  file := 1
  touchedAt := 0
  temp_ne_final := by decide

def withOldFile : Disk where
  nodes := FiniteMap.ofList [(["downloads"], .directory), (["downloads", "file"], .file 0)]
  contents id := if id = 0 then [1] else []
  next := 1

def withTempFile : Disk where
  nodes := withOldFile.nodes.insert replacing.tempPath (.file 1)
  contents := Function.update withOldFile.contents 1 []
  next := 2

def replacingWorld : World where
  state :=
    { owners := FiniteMap.ofList [("owner", { downloadHandles := {"writer"}, touchedAt := 0 })]
      uploadHandles := FiniteMap.empty
      downloadHandles := FiniteMap.ofList [("writer", replacing)]
      handleTtl := 900 }
  disk := withTempFile.append 1 [2]

theorem replacing_written : Written 1 [2] replacingWorld.disk :=
  Written.wrote none [2] (@Written.created 1 none withOldFile withTempFile replacing.tempPath rfl)

/-- Calls that all succeed, or of which one kind fails. -/
def failing (call : Option FsCall) : Env where
  now := 1
  tempUuid := ""
  handleUuid := ""
  fault made := if some made = call then some .permissionDenied else none
  written := 0

theorem finish_atomic_iff_replacing :
    Atomic (failing none) replacing [2] replacingWorld.disk
      (finishDownloadHandle (failing none) "owner" "writer" replacingWorld).2.disk
      (finishDownloadHandle (failing none) "owner" "writer" replacingWorld).1 := by
  refine (finish_atomic_iff (by decide +kernel) rfl replacing_written).mpr ⟨?_, ?_⟩
  · rintro -
    exact ⟨1, by decide +kernel, by decide +kernel⟩
  · intro hnot
    exact absurd ⟨_, _, rfl, rfl⟩ hnot

/-- When the rename fails, the old file and the download are both gone. -/
theorem replacing_loses_both :
    (finishDownloadHandle (failing (some .rename)) "owner" "writer" replacingWorld).1 =
        .error (.io .permissionDenied) ∧
      (finishDownloadHandle (failing (some .rename)) "owner" "writer"
        replacingWorld).2.disk.nodes.get replacing.tempPath = none ∧
      ¬ Atomic (failing (some .rename)) replacing [2] replacingWorld.disk
        (finishDownloadHandle (failing (some .rename)) "owner" "writer" replacingWorld).2.disk
        (finishDownloadHandle (failing (some .rename)) "owner" "writer" replacingWorld).1 := by
  have herror : (finishDownloadHandle (failing (some .rename)) "owner" "writer"
      replacingWorld).1 = .error (.io .permissionDenied) := by decide +kernel
  refine ⟨herror, by decide +kernel, ?_⟩
  intro h
  have hkept := (h.failed _ herror).1
  revert hkept
  decide +kernel

end OxideTerm.Trzsz
