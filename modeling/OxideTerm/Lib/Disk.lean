import OxideTerm.Lib.Bytes
import OxideTerm.Lib.FiniteMap

/-!
# A file system

Entries by their path, the bytes of the files, and the calls that read and change them. Besides the
reasons that lie in the entries, any call may fail for a reason of its own, which leaves everything
as it was.
-/

namespace OxideTerm.Lib

/-- The components of a path, from the root on. -/
abbrev Path := List String

namespace Disk

/-! ## Entries -/

/-- What stands at a path. A file is known by a number, under which its bytes are kept. -/
inductive Node where
  | file (id : Nat)
  | directory
  | symlink (target : Path)
deriving Repr, DecidableEq

inductive ErrorKind where
  | notFound
  | permissionDenied
  | alreadyExists
  | isADirectory
  | notADirectory
  | directoryNotEmpty
  | invalidInput
  | storageFull
  | other
deriving Repr, DecidableEq

end Disk

/-- Entries by their path, and the bytes of each file. `next` is the number of the next file. -/
structure Disk where
  nodes : FiniteMap Path Disk.Node
  contents : Nat → Bytes
  next : Nat

namespace Disk

/-! ## Reading -/

/-- `lstat`: what stands at the path itself. -/
def symlinkMetadata (fault : Option ErrorKind) (disk : Disk) (path : Path) :
    Except ErrorKind Node :=
  match fault, disk.nodes.get path with
  | some error, _ => .error error
  | none, none => .error .notFound
  | none, some node => .ok node

theorem symlinkMetadata_cases (fault : Option ErrorKind) (disk : Disk) (path : Path) :
    (∃ error, symlinkMetadata fault disk path = .error error) ∨
    (∃ node, disk.nodes.get path = some node ∧ symlinkMetadata fault disk path = .ok node) := by
  unfold symlinkMetadata
  split
  · exact .inl ⟨_, rfl⟩
  · exact .inl ⟨_, rfl⟩
  next node hnode => exact .inr ⟨node, hnode, rfl⟩

/-! ## Changes -/

/-- A new empty file, where nothing stands yet. -/
def createNew (fault : Option ErrorKind) (disk : Disk) (path : Path) :
    Except ErrorKind (Nat × Disk) :=
  match fault, disk.nodes.get path with
  | some error, _ => .error error
  | none, some _ => .error .alreadyExists
  | none, none =>
    .ok (disk.next,
      { nodes := disk.nodes.insert path (.file disk.next)
        contents := Function.update disk.contents disk.next []
        next := disk.next + 1 })

def createDir (fault : Option ErrorKind) (disk : Disk) (path : Path) : Except ErrorKind Disk :=
  match fault, disk.nodes.get path with
  | some error, _ => .error error
  | none, some _ => .error .alreadyExists
  | none, none => .ok { disk with nodes := disk.nodes.insert path .directory }

/-- Bytes added at the end of a file. -/
def append (disk : Disk) (id : Nat) (data : Bytes) : Disk :=
  { disk with contents := Function.update disk.contents id (disk.contents id ++ data) }

/-- Writes at the end of an open file. A call that fails may have written the first bytes. -/
def writeAll (fault : Option (ErrorKind × Nat)) (disk : Disk) (id : Nat) (data : Bytes) :
    Except ErrorKind Unit × Disk :=
  match fault with
  | none => (.ok (), disk.append id data)
  | some (error, written) => (.error error, disk.append id (data.take written))

/-- `unlink`, which takes anything but a directory away. -/
def removeFile (fault : Option ErrorKind) (disk : Disk) (path : Path) : Except ErrorKind Disk :=
  match fault, disk.nodes.get path with
  | some error, _ => .error error
  | none, none => .error .notFound
  | none, some .directory => .error .isADirectory
  | none, some _ => .ok { disk with nodes := disk.nodes.erase path }

/-- `rmdir`, which takes an empty directory away. -/
def removeDir (fault : Option ErrorKind) (disk : Disk) (path : Path) : Except ErrorKind Disk :=
  match fault, disk.nodes.get path with
  | some error, _ => .error error
  | none, none => .error .notFound
  | none, some .directory =>
    if ∃ entry ∈ disk.nodes.keys, path <+: entry ∧ entry ≠ path then .error .directoryNotEmpty
    else .ok { disk with nodes := disk.nodes.erase path }
  | none, some _ => .error .notADirectory

/-- The entries once `source` stands at `target`, with all that was below it. -/
def moved (nodes : FiniteMap Path Node) (source target : Path) : FiniteMap Path Node where
  keys := (nodes.keys.filter fun path => ¬ source <+: path ∧ ¬ target <+: path) ∪
    (nodes.keys.filter (source <+: ·)).image fun path => target ++ path.drop source.length
  get path :=
    if target <+: path then nodes.get (source ++ path.drop target.length)
    else if source <+: path then none
    else nodes.get path
  mem_keys path := by
    rw [Finset.mem_union, Finset.mem_filter, Finset.mem_image]
    by_cases htarget : target <+: path
    · obtain ⟨rest, rfl⟩ := htarget
      have hpath : target <+: target ++ rest := List.prefix_append target rest
      rw [if_pos hpath, List.drop_left, ← nodes.mem_keys]
      constructor
      · rintro (⟨-, -, hnot⟩ | ⟨other, hother, hsame⟩)
        · exact absurd hpath hnot
        · obtain ⟨hmem, below, rfl⟩ := Finset.mem_filter.mp hother
          rw [List.drop_left] at hsame
          rwa [← List.append_cancel_left hsame]
      · intro hmem
        refine .inr ⟨source ++ rest, Finset.mem_filter.mpr ⟨hmem, List.prefix_append _ _⟩, ?_⟩
        rw [List.drop_left]
    · rw [if_neg htarget]
      rw [or_iff_left]
      · by_cases hsource : source <+: path
        · simp [hsource]
        · simp [hsource, htarget, nodes.mem_keys]
      · rintro ⟨other, -, rfl⟩
        exact htarget (List.prefix_append _ _)

/-- `rename`, which replaces a file, or an empty directory by a directory. -/
def rename (fault : Option ErrorKind) (disk : Disk) (source target : Path) :
    Except ErrorKind Disk :=
  match fault, disk.nodes.get source with
  | some error, _ => .error error
  | none, none => .error .notFound
  | none, some node =>
    let replaced := { disk with nodes := moved disk.nodes source target }
    match node, disk.nodes.get target with
    | .directory, some .directory =>
      if source = target then .ok disk
      else if source <+: target then .error .invalidInput
      else if ∃ entry ∈ disk.nodes.keys, target <+: entry ∧ entry ≠ target then
        .error .directoryNotEmpty
      else .ok replaced
    | .directory, some _ => .error .notADirectory
    | .directory, none => if source <+: target then .error .invalidInput else .ok replaced
    | _, some .directory => .error .isADirectory
    | node, existing => if existing = some node then .ok disk else .ok replaced

/-! ## What the calls leave -/

theorem get_moved_target (nodes : FiniteMap Path Node) (source target : Path) :
    (moved nodes source target).get target = nodes.get source := by
  show (if target <+: target then _ else _) = _
  rw [if_pos List.prefix_rfl, List.drop_length, List.append_nil]

theorem removeFile_ok {fault : Option ErrorKind} {disk disk' : Disk} {path : Path}
    (h : removeFile fault disk path = .ok disk') :
    (∃ node, disk.nodes.get path = some node ∧ node ≠ .directory) ∧
      disk' = { disk with nodes := disk.nodes.erase path } := by
  unfold removeFile at h
  split at h
  · cases h
  · cases h
  · cases h
  next node hnot hnode =>
    cases h
    exact ⟨⟨node, hnode, hnot⟩, rfl⟩

theorem removeDir_ok {fault : Option ErrorKind} {disk disk' : Disk} {path : Path}
    (h : removeDir fault disk path = .ok disk') :
    disk' = { disk with nodes := disk.nodes.erase path } := by
  unfold removeDir at h
  split at h
  · cases h
  · cases h
  · split at h
    · cases h
    · cases h
      rfl
  · cases h

/-- What stood at the source stands at the target. -/
theorem rename_ok {fault : Option ErrorKind} {disk disk' : Disk} {source target : Path}
    (h : rename fault disk source target = .ok disk') :
    disk'.contents = disk.contents ∧ disk'.nodes.get target = disk.nodes.get source ∧
      (disk.nodes.get source).isSome := by
  have hmoved : (moved disk.nodes source target).get target = disk.nodes.get source :=
    get_moved_target disk.nodes source target
  unfold rename at h
  split at h
  · cases h
  · cases h
  next node hnode =>
    rw [hnode] at hmoved ⊢
    split at h
    · split at h
      next hsame =>
        cases h
        exact ⟨rfl, hsame ▸ hnode, rfl⟩
      next =>
        split at h
        · cases h
        · split at h
          · cases h
          · cases h
            exact ⟨rfl, hmoved, rfl⟩
    · cases h
    · split at h
      · cases h
      · cases h
        exact ⟨rfl, hmoved, rfl⟩
    · cases h
    · split at h
      next hsame =>
        cases h
        exact ⟨rfl, hsame, rfl⟩
      next =>
        cases h
        exact ⟨rfl, hmoved, rfl⟩

/-! ## Entries taken away -/

/-- Some entries of the first file system are gone in the second; nothing else has changed. -/
structure Shrinks (disk disk' : Disk) : Prop where
  contents : disk'.contents = disk.contents
  nodes : ∀ path, disk'.nodes.get path = disk.nodes.get path ∨ disk'.nodes.get path = none

theorem Shrinks.refl (disk : Disk) : Shrinks disk disk := ⟨rfl, fun _ => .inl rfl⟩

theorem Shrinks.trans {disk disk' disk'' : Disk} (h : Shrinks disk disk')
    (h' : Shrinks disk' disk'') : Shrinks disk disk'' := by
  refine ⟨h'.contents.trans h.contents, ?_⟩
  intro path
  rcases h'.nodes path with hsame | hnone
  · rw [hsame]
    exact h.nodes path
  · exact .inr hnone

theorem shrinks_erase (disk : Disk) (path : Path) :
    Shrinks disk { disk with nodes := disk.nodes.erase path } := by
  refine ⟨rfl, ?_⟩
  intro other
  show (disk.nodes.erase path).get other = _ ∨ _
  rw [FiniteMap.get_erase]
  by_cases h : other = path
  · exact .inr (if_pos h)
  · exact .inl (if_neg h)

/-! ## What has been written -/

/-- What a call writes of its data. -/
def taken (fault : Option (ErrorKind × Nat)) (data : Bytes) : Bytes :=
  match fault with
  | none => data
  | some (_, written) => data.take written

/-- What has been written to a file since it was created, whatever else has happened. -/
inductive Written (id : Nat) : Bytes → Disk → Prop
  | created {fault : Option ErrorKind} {disk disk' : Disk} {path : Path} :
    disk.createNew fault path = .ok (id, disk') → Written id [] disk'
  | wrote {written : Bytes} {disk : Disk} (fault : Option (ErrorKind × Nat)) (data : Bytes) :
    Written id written disk → Written id (written ++ taken fault data) (disk.writeAll fault id data).2
  | other {written : Bytes} {disk disk' : Disk} :
    Written id written disk → disk'.contents id = disk.contents id → Written id written disk'

/-- **A file holds what has been written to it.** -/
theorem Written.contents_eq {id : Nat} {written : Bytes} {disk : Disk} (h : Written id written disk) :
    disk.contents id = written := by
  induction h with
  | @created fault disk disk' path hcreate =>
    unfold createNew at hcreate
    split at hcreate
    · cases hcreate
    · cases hcreate
    · cases hcreate
      exact Function.update_self _ _ _
  | @wrote written disk fault data _ ih =>
    rcases fault with - | ⟨error, count⟩
    · show Function.update disk.contents id (disk.contents id ++ data) id = _
      rw [Function.update_self, ih]
      rfl
    · show Function.update disk.contents id (disk.contents id ++ data.take count) id = _
      rw [Function.update_self, ih]
      rfl
  | other _ hsame ih => rw [hsame, ih]

end Disk

end OxideTerm.Lib
