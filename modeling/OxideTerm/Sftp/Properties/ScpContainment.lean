import OxideTerm.Sftp.Properties.ScpStreams

/-!
# What a received directory can contain

Whatever comes on the channel and whatever fails outside, a directory that is received stays below
its temporary directory, is no deeper and no larger than the limits say, and the loops end.
-/

namespace OxideTerm.Sftp.Scp

open OxideTerm.Lib OxideTerm.Lib.Text OxideTerm.Lib.Fallible ScpProgram

/-! ## Files within the limits -/

/-- No name leads out of its directory. -/
def SafeName (name : List Char) : Prop := validateReceivedName name = .ok ()

/-- The files are where they may be. -/
structure Within (root : Path) (files : FiniteMap Path LocalNode) : Prop where
  safe : ∀ p ∈ files.keys, p ≠ [] ∧ ∀ name ∈ p, SafeName name
  inside : ∀ p ∈ files.keys, ['.', '.'] ∉ root ++ p
  parents : ∀ p ∈ files.keys, hasParent files p = true
  depth : ∀ p ∈ files.keys, p.length ≤ maxDirectoryDepth + 1

variable {root path : Path} {files : FiniteMap Path LocalNode} {k n : Nat}

theorem hasParent_iff : hasParent files path = true ↔
    path.dropLast = [] ∨ files.get path.dropLast = some .directory := decide_eq_true_iff

/-- What keeps the places and the directories. -/
theorem Within.congr {files' : FiniteMap Path LocalNode} (h : Within root files)
    (hkeys : ∀ p, p ∈ files'.keys ↔ p ∈ files.keys)
    (hdirectory : ∀ p, files.get p = some .directory → files'.get p = some .directory) :
    Within root files' where
  safe p hp := h.safe p ((hkeys p).mp hp)
  inside p hp := h.inside p ((hkeys p).mp hp)
  parents p hp := hasParent_iff.mpr
    ((hasParent_iff.mp (h.parents p ((hkeys p).mp hp))).imp id (hdirectory _))
  depth p hp := h.depth p ((hkeys p).mp hp)

theorem Within.append (h : Within root files) (path : Path) (data : Bytes) :
    Within root (files.modify path (LocalNode.append data)) := by
  refine h.congr (fun p => Iff.rfl) fun p hp => ?_
  rw [FiniteMap.get_modify]
  split
  · rw [hp]
    rfl
  · exact hp

/-- What is new is put into a directory, and replaces no directory. -/
theorem Within.insert (h : Within root files) {node : LocalNode}
    (hsafe : path ≠ [] ∧ ∀ name ∈ path, SafeName name) (hinside : ['.', '.'] ∉ root ++ path)
    (hparent : hasParent files path = true) (hdepth : path.length ≤ maxDirectoryDepth + 1)
    (hnode : files.get path = some .directory → node = .directory) :
    Within root (files.insert path node) := by
  have hkeys : ∀ p, p ∈ (files.insert path node).keys ↔ p = path ∨ p ∈ files.keys := by
    intro p
    rw [(files.insert path node).mem_keys, files.mem_keys, FiniteMap.get_insert]
    by_cases hp : p = path <;> simp [hp]
  have hdirectory : ∀ p, files.get p = some .directory →
      (files.insert path node).get p = some .directory := by
    intro p hp
    rw [FiniteMap.get_insert]
    split
    next heq => rw [hnode (heq ▸ hp)]
    next => exact hp
  have hkept : ∀ p, hasParent files p = true → hasParent (files.insert path node) p = true :=
    fun p hp => hasParent_iff.mpr ((hasParent_iff.mp hp).imp id (hdirectory _))
  refine ⟨fun p hp => ?_, fun p hp => ?_, fun p hp => ?_, fun p hp => ?_⟩
  · rcases (hkeys p).mp hp with rfl | hp
    · exact hsafe
    · exact h.safe p hp
  · rcases (hkeys p).mp hp with rfl | hp
    · exact hinside
    · exact h.inside p hp
  · rcases (hkeys p).mp hp with rfl | hp
    · exact hkept p hparent
    · exact hkept p (h.parents p hp)
  · rcases (hkeys p).mp hp with rfl | hp
    · exact hdepth
    · exact h.depth p hp

/-! ## States within the limits -/

/-- The files are within the limits, the entries are fewer than the items by `k` at least, and fewer
than `n` bytes are to be read. -/
structure Holds (root : Path) (k n : Nat) (s : ScpState) : Prop where
  within : Within root s.files
  count : s.files.keys.card + k ≤ s.items
  limit : s.items ≤ maxDirectoryEntries
  unread : (unread s).length < n

/-- A procedure that has failed ended, and left files within the limits. -/
def Contained (root : Path) (e : Stop) (s : ScpState) : Prop :=
  e ≠ .spins ∧ Within root s.files ∧ s.files.keys.card ≤ maxDirectoryEntries

theorem Holds.contained {s : ScpState} (h : Holds root k n s) {error : ScpError} :
    Contained root (.failed error) s := by
  refine ⟨by simp, h.within, ?_⟩
  have hcount := h.count
  have hlimit := h.limit
  omega

theorem Holds.mono {s : ScpState} {k' n' : Nat} (h : Holds root k n s) (hk : k' ≤ k) (hn : n ≤ n') :
    Holds root k' n' s where
  within := h.within
  count := by
    have hcount := h.count
    omega
  limit := h.limit
  unread := Nat.lt_of_lt_of_le h.unread hn

/-- What counts of a state. -/
theorem Holds.congr {s s' : ScpState} {n' : Nat} (h : Holds root k n s) (hfiles : s'.files = s.files)
    (hitems : s'.items = s.items) (hunread : (Scp.unread s').length < n') : Holds root k n' s' where
  within := hfiles ▸ h.within
  count := by
    rw [hfiles, hitems]
    exact h.count
  limit := by
    rw [hitems]
    exact h.limit
  unread := hunread

section Procedures

variable {α : Type}

theorem spec_fail {error : ScpError} {Q : α → ScpState → Prop} :
    Spec (Holds root k n) (fail error : ScpProgram α) Q (Contained root) :=
  Spec.raise fun _ h => h.contained

theorem spec_check {r : Except ScpError α} :
    Spec (Holds root k n) (check r : ScpProgram α) (fun a s => r = .ok a ∧ Holds root k n s)
      (Contained root) := by
  cases r with
  | error e => exact spec_fail
  | ok a => exact Spec.pure fun _ h => ⟨rfl, h⟩

theorem spec_outside : Spec (Holds root k n) outside (fun _ => Holds root k n)
    (Contained root) := by
  intro s hs
  rw [outside]
  split
  · refine ⟨fun a s' hrun => ?_, fun e s' hrun => ?_⟩
    · cases hrun
      exact hs
    · cases hrun
  · refine ⟨fun a s' hrun => ?_, fun e s' hrun => ?_⟩
    · cases hrun
      exact hs.congr rfl rfl hs.unread
    · cases hrun
  · refine ⟨fun a s' hrun => ?_, fun e s' hrun => ?_⟩
    · cases hrun
    · cases hrun
      exact (hs.congr rfl rfl hs.unread).contained

/-- What a procedure does with all bytes at once, it does with messages. -/
theorem spec_of_settles {x f : ScpProgram α} {m : Nat} (hx : Settles x f)
    (hf : ∀ s, (f s).2.files = s.files ∧ (f s).2.items = s.items ∧
      ((f s).1 = .error .spins → False) ∧
      (∀ a, (f s).1 = .ok a → (unread s).length < n → (unread (f s).2).length < m)) :
    Spec (Holds root k n) x (fun _ => Holds root k m) (Contained root) := by
  intro s hs
  obtain ⟨hresult, hsettled⟩ := hx s
  obtain ⟨hfiles, hitems, hspins, hunread⟩ := hf (settled s)
  have hsame : unread (settled s) = unread s := List.append_nil _
  have hsame' : unread (settled (x s).2) = unread (x s).2 := List.append_nil _
  have hfiles' : (x s).2.files = s.files := by
    rw [show (x s).2.files = (settled (x s).2).files from rfl, hsettled, hfiles]
    rfl
  have hitems' : (x s).2.items = s.items := by
    rw [show (x s).2.items = (settled (x s).2).items from rfl, hsettled, hitems]
    rfl
  refine ⟨fun a s' hrun => ?_, fun e s' hrun => ?_⟩
  · rw [hrun] at hresult hsettled hfiles' hitems' hsame'
    refine hs.congr hfiles' hitems' ?_
    have hlength := hunread a hresult.symm (hsame ▸ hs.unread)
    rw [← hsettled] at hlength
    exact hsame' ▸ hlength
  · rw [hrun] at hresult hfiles' hitems'
    refine ⟨fun he => hspins (hresult ▸ he ▸ rfl), ?_, ?_⟩
    · exact hfiles' ▸ hs.within
    · have hcount := hs.count
      have hlimit := hs.limit
      rw [hfiles']
      omega

end Procedures

/-! ## What is read -/

theorem spec_readByte : Spec (Holds root k n) readByte (fun _ => Holds root k (n - 1))
    (Contained root) := by
  refine spec_of_settles settles_readByte fun s => ?_
  rw [byteOf]
  split
  next => exact ⟨rfl, rfl, fun h => (by cases h), fun a h => (by cases h)⟩
  next hne =>
    refine ⟨rfl, rfl, fun h => (by cases h), fun _ _ hlength => ?_⟩
    have hpos := List.length_pos_iff.mpr hne
    rw [unread, List.length_append] at hlength ⊢
    show s.buffered.tail.length + _ < _
    rw [List.length_tail]
    show s.buffered.length - 1 + (dataOf s.pending).length < n - 1
    omega

theorem length_takeControlLine (buffer : Bytes) :
    (takeControlLine buffer).2.length ≤ buffer.length := by
  rcases exists_line buffer with hmem | ⟨line, rest, hline, rfl⟩
  · rw [takeControlLine_of_notMem hmem]
    split <;> exact Nat.le_refl _
  · rw [takeControlLine_line hline]
    split
    · exact Nat.le_refl _
    · rw [List.length_append, List.length_cons]
      show rest.length ≤ _
      omega

theorem spec_readLine : Spec (Holds root k n) readLine (fun _ => Holds root k n)
    (Contained root) := by
  refine spec_of_settles settles_readLine fun s => ?_
  rw [lineOf]
  have hlength := length_takeControlLine s.buffered
  split
  · refine ⟨rfl, rfl, fun h => (by cases h), fun _ _ hlt => ?_⟩
    rw [unread, List.length_append] at hlt ⊢
    show (takeControlLine s.buffered).2.length + (dataOf s.pending).length < n
    omega
  · exact ⟨rfl, rfl, fun h => (by cases h), fun _ h => (by cases h)⟩
  · exact ⟨rfl, rfl, fun h => (by cases h), fun _ h => (by cases h)⟩

theorem spec_sendData (data : Bytes) : Spec (Holds root k n) (sendData data)
    (fun _ => Holds root k n) (Contained root) :=
  spec_outside.bind fun _ => Spec.update fun _ hs => hs.congr rfl rfl hs.unread

theorem spec_readResponse : Spec (Holds root k n) readResponse (fun _ => Holds root k n)
    (Contained root) := by
  refine spec_readByte.bind fun byte => .ite (fun _ => ?_) fun _ => .ite (fun _ => ?_) fun _ => ?_
  · exact Spec.pure fun s hs => hs.mono (Nat.le_refl k) (Nat.sub_le n 1)
  · exact spec_readLine.bind fun _ => spec_fail
  · exact spec_fail

theorem spec_readNextRecord : Spec (Holds root k n) readNextRecord
    (fun _ => Holds root k (n - 1)) (Contained root) := by
  have hcheck : ∀ {α : Type} {r : Except ScpError α} {m : Nat},
      Spec (Holds root k m) (check r : ScpProgram α) (fun _ => Holds root k m) (Contained root) :=
    spec_check.weaken (fun _ => id) (fun _ _ h => h.2) fun _ _ => id
  refine spec_readByte.bind fun kind => .ite (fun _ => ?_) fun _ => .ite (fun _ => ?_) fun _ =>
    .ite (fun _ => ?_) fun _ => .ite (fun _ => ?_) fun _ => spec_fail
  · exact spec_readLine.bind fun _ => spec_fail
  · exact spec_readLine.bind fun _ => hcheck
  · exact spec_readLine.bind fun _ => .ite (fun _ => spec_fail) fun _ => Spec.pure fun _ => id
  · exact spec_readLine.bind fun _ => hcheck.bind fun _ => Spec.pure fun _ => id

/-! ## What is written -/

/-- An entry that may be created. -/
structure Creatable (root path : Path) : Prop where
  safe : path ≠ [] ∧ ∀ name ∈ path, SafeName name
  inside : ['.', '.'] ∉ root ++ path
  depth : path.length ≤ maxDirectoryDepth + 1

theorem card_insert (files : FiniteMap Path LocalNode) (path : Path) (node : LocalNode) :
    (files.insert path node).keys.card ≤ files.keys.card + 1 :=
  Finset.card_insert_le path files.keys

/-- What is created uses up the item that was counted. -/
theorem spec_insert (h : Creatable root path) {files : FiniteMap Path LocalNode} {node : LocalNode}
    (hparent : hasParent files path = true)
    (hnode : files.get path = some .directory → node = .directory) :
    Spec (fun s => files = s.files ∧ Holds root 1 n s)
      (update fun s => { s with files := s.files.insert path node } : ScpProgram Unit)
      (fun _ => Holds root 0 n) (Contained root) := by
  refine Spec.update ?_
  rintro s ⟨rfl, hs⟩
  have hcard := card_insert s.files path node
  exact
    { within := hs.within.insert h.safe h.inside hparent h.depth hnode
      count := Nat.le_trans hcard hs.count
      limit := hs.limit
      unread := hs.unread }

theorem spec_files : Spec (Holds root 1 n) (gets (·.files) : ScpProgram _)
    (fun files s => files = s.files ∧ Holds root 1 n s) (Contained root) :=
  Spec.gets fun _ hs => ⟨rfl, hs⟩

theorem spec_createDir (h : Creatable root path) :
    Spec (Holds root 1 n) (createDir path) (fun _ => Holds root 0 n) (Contained root) := by
  refine spec_outside.bind fun _ => spec_files.bind fun files => ?_
  refine .ite (fun _ => fun s hs => spec_fail s hs.2) fun hnone => ?_
  refine .ite (fun _ => fun s hs => spec_fail s hs.2) fun hparent => ?_
  exact spec_insert h (not_not.mp hparent) fun _ => rfl

theorem spec_createFile (h : Creatable root path) :
    Spec (Holds root 1 n) (createFile path) (fun _ => Holds root 0 n) (Contained root) := by
  refine spec_outside.bind fun _ => spec_files.bind fun files => ?_
  refine .ite (fun _ => fun s hs => spec_fail s hs.2) fun hfile => ?_
  refine .ite (fun _ => fun s hs => spec_fail s hs.2) fun hparent => ?_
  exact spec_insert h (not_not.mp hparent) fun hdirectory => absurd hdirectory hfile

theorem spec_countItem : Spec (Holds root 0 n) countItem (fun _ => Holds root 1 n)
    (Contained root) := by
  intro s hs
  have hcount := hs.count
  have hlimit := hs.limit
  have hitems : saturatingAdd s.items 1 = s.items + 1 := by
    rw [maxDirectoryEntries] at hlimit
    rw [saturatingAdd, Nat.min_eq_left (by omega)]
  have hrun : countItem s = (check (ensureEntryLimit (s.items + 1)) : ScpProgram Unit)
      { s with items := s.items + 1 } := by
    rw [← hitems]
    rfl
  rw [hrun, ensureEntryLimit]
  split
  next =>
    refine ⟨fun a s' hend => (by cases hend), fun e s' hend => ?_⟩
    cases hend
    exact ⟨by simp, hs.within, show s.files.keys.card ≤ _ by omega⟩
  next hle =>
    refine ⟨fun a s' hend => ?_, fun e s' hend => (by cases hend)⟩
    cases hend
    exact
      { within := hs.within
        count := Nat.succ_le_succ hcount
        limit := Nat.le_of_not_lt hle
        unread := hs.unread }

theorem spec_ensureBuffered : Spec (Holds root k n) ensureBuffered
    (fun _ s => s.buffered ≠ [] ∧ Holds root k n s) (Contained root) := by
  intro s hs
  have hkept : ∀ {s' t : ScpState}, settled s' = t → t.files = s.files → t.items = s.items →
      s'.files = s.files ∧ s'.items = s.items := by
    rintro s' t rfl hfiles hitems
    exact ⟨hfiles, hitems⟩
  rcases ensureBuffered_cases s with ⟨s', hrun, hsettled, hne⟩ | ⟨-, s', hrun, hsettled⟩
  · obtain ⟨hfiles, hitems⟩ := hkept hsettled rfl rfl
    rw [hrun]
    refine ⟨fun a s'' hend => ?_, fun e s'' hend => (by cases hend)⟩
    cases hend
    have hunread : unread s' = unread s := congrArg ScpState.buffered hsettled
    exact ⟨hne, hs.congr hfiles hitems (hunread ▸ hs.unread)⟩
  · obtain ⟨hfiles, hitems⟩ := hkept hsettled rfl rfl
    rw [hrun]
    refine ⟨fun a s'' hend => (by cases hend), fun e s'' hend => ?_⟩
    cases hend
    have hunread : unread s' = unread s := congrArg ScpState.buffered hsettled
    exact (hs.congr hfiles hitems (hunread ▸ hs.unread)).contained

theorem spec_writeAll (path : Path) (data : Bytes) : Spec (Holds root k n) (writeAll path data)
    (fun _ => Holds root k n) (Contained root) :=
  spec_outside.bind fun _ => Spec.update fun _ hs =>
    { within := hs.within.append path data
      count := hs.count
      limit := hs.limit
      unread := hs.unread }

theorem spec_copyExactFrom (path : Path) : ∀ (fuel size : Nat), size ≤ fuel →
    Spec (Holds root k n) (copyExactFrom path fuel size) (fun _ => Holds root k n) (Contained root)
  | fuel, 0, _ => by
    rw [copyExactFrom]
    exact Spec.pure fun _ => id
  | 0, size + 1, h => absurd h (Nat.not_succ_le_zero size)
  | fuel + 1, size + 1, h => by
    rw [copyExactFrom]
    refine spec_outside.bind fun _ => spec_ensureBuffered.bind fun _ => ?_
    refine Spec.bind (Q := fun data s => data ≠ [] ∧ Holds root k n s) (Spec.access ?_) fun data => ?_
    · rintro s ⟨hne, hs⟩
      refine ⟨fun hnil => ?_, hs.congr rfl rfl ?_⟩
      · rcases List.take_eq_nil_iff.mp hnil with hzero | hnil
        · exact absurd hzero (Nat.succ_ne_zero size)
        · exact hne hnil
      · have hlength := hs.unread
        rw [unread, List.length_append] at hlength ⊢
        show (s.buffered.drop (size + 1)).length + (dataOf s.pending).length < n
        rw [List.length_drop]
        omega
    · refine .known fun hne => (spec_writeAll path data).bind fun _ => ?_
      have hpos := List.length_pos_iff.mpr hne
      exact spec_copyExactFrom path fuel _ (by omega)

/-! ## What is received -/

/-- A child that passes the checks may be created. -/
theorem creatable_of_contained {parent child : Path} {name : List Char}
    (h : containedChildPath root parent name = .ok child) (hparent : ∀ name ∈ parent, SafeName name)
    (hdepth : parent.length ≤ maxDirectoryDepth) :
    child = parent ++ [name] ∧ SafeName name ∧ Creatable root child := by
  rw [containedChildPath] at h
  obtain ⟨⟨⟩, hname, h⟩ := bind_eq_ok_iff.mp h
  dsimp only at h
  split at h
  · cases h
  next hinside =>
    cases h
    refine ⟨rfl, hname, ⟨by simp, fun name' hname' => ?_⟩, ?_, ?_⟩
    · rcases List.mem_append.mp hname' with hmem | hmem
      · exact hparent name' hmem
      · rw [List.mem_singleton.mp hmem]
        exact hname
    · rw [List.contains_iff_mem] at hinside
      exact hinside
    · rw [List.length_append]
      exact Nat.succ_le_succ hdepth

theorem spec_checkDepth (depth : Nat) : Spec (Holds root k n) (checkDepth depth)
    (fun _ s => depth ≤ maxDirectoryDepth ∧ Holds root k n s) (Contained root) :=
  .ite (fun _ => spec_fail) fun h => Spec.pure fun _ hs => ⟨Nat.le_of_not_lt h, hs⟩

/-- **A directory that is received stays within the limits**, as long as there are as many rounds as
there are bytes to be read. -/
theorem spec_receiveEntries : ∀ (fuel : Nat) {n depth : Nat} {localDirectory : Path}, n ≤ fuel →
    localDirectory.length = depth → depth ≤ maxDirectoryDepth →
      (∀ name ∈ localDirectory, SafeName name) →
        Spec (Holds root 1 n) (receiveEntries root fuel localDirectory depth)
          (fun _ => Holds root 1 n) (Contained root)
  | 0, n, _, _, hn, _, _, _ => fun s hs =>
    absurd (Nat.lt_of_lt_of_le hs.unread hn) (Nat.not_lt_zero _)
  | fuel + 1, n, depth, localDirectory, hn, hlength, hdepth, hsafe => by
    have hagain : Spec (Holds root 1 (n - 1)) (receiveEntries root fuel localDirectory depth)
        (fun _ => Holds root 1 n) (Contained root) :=
      (spec_receiveEntries fuel (by omega) hlength hdepth hsafe).weaken (fun _ => id)
        (fun _ _ hs => hs.mono (Nat.le_refl 1) (Nat.sub_le n 1)) fun _ _ => id
    rw [receiveEntries]
    refine spec_outside.bind fun _ => spec_readNextRecord.bind fun record => ?_
    cases record with
    | times => exact (spec_sendData _).bind fun _ => hagain
    | endDirectory =>
      exact (spec_sendData _).weaken (fun _ => id)
        (fun _ _ hs => hs.mono (Nat.le_refl 1) (Nat.sub_le n 1)) fun _ _ => id
    | directory mode name =>
      refine spec_check.bind fun _ => .known fun _ => spec_check.bind fun child => .known fun hchild => ?_
      obtain ⟨rfl, hname, hcreatable⟩ := creatable_of_contained hchild hsafe (hlength ▸ hdepth)
      refine (spec_createDir hcreatable).bind fun _ => (spec_sendData _).bind fun _ => ?_
      refine (spec_checkDepth _).bind fun _ => .known fun hdeeper => spec_countItem.bind fun _ => ?_
      refine (spec_receiveEntries fuel (by omega) ?_ hdeeper hcreatable.safe.2).bind fun _ => hagain
      rw [List.length_append, hlength]
      rfl
    | file mode size name =>
      refine spec_check.bind fun _ => .known fun _ => spec_check.bind fun child => .known fun hchild => ?_
      obtain ⟨rfl, hname, hcreatable⟩ := creatable_of_contained hchild hsafe (hlength ▸ hdepth)
      refine (spec_createFile hcreatable).bind fun _ => (spec_sendData _).bind fun _ => ?_
      refine (spec_copyExactFrom _ size size (Nat.le_refl size)).bind fun _ => ?_
      refine spec_outside.bind fun _ => spec_readResponse.bind fun _ => (spec_sendData _).bind fun _ => ?_
      have hbytes : Spec (Holds root 0 (n - 1))
          (update fun s => { s with bytes := saturatingAdd s.bytes size } : ScpProgram Unit)
          (fun _ => Holds root 0 (n - 1)) (Contained root) :=
        Spec.update fun s hs => hs.congr rfl rfl hs.unread
      exact hbytes.bind fun _ => spec_countItem.bind fun _ => hagain

theorem spec_receiveDirectoryRoot {fuel : Nat} (hn : n ≤ fuel + 1) :
    Spec (Holds root 0 n) (receiveDirectoryRoot root fuel) (fun _ => Holds root 1 (n - 1))
      (Contained root) := by
  refine spec_readNextRecord.bind fun record => ?_
  cases record with
  | times => exact spec_fail
  | endDirectory => exact spec_fail
  | file mode size name => exact spec_fail
  | directory mode name =>
    refine spec_check.bind fun _ => .known fun _ => (spec_sendData _).bind fun _ => ?_
    refine (spec_checkDepth 0).bind fun _ => .known fun hdepth => spec_countItem.bind fun _ => ?_
    exact spec_receiveEntries fuel (by omega) rfl hdepth (by simp)

theorem spec_finish : Spec (Holds root k n) finish (fun _ s => ∃ m, Holds root k m s)
    (Contained root) := by
  refine spec_outside.bind fun _ => ?_
  have hdrained : Spec (Holds root k n)
      (update fun s =>
        { s with
          pending := []
          stderr := (drained s.pending (s.stderr, s.exitStatus)).1
          exitStatus := (drained s.pending (s.stderr, s.exitStatus)).2
          closed := true } : ScpProgram Unit)
      (fun _ => Holds root k n) (Contained root) := by
    refine Spec.update fun s hs => hs.congr rfl rfl (Nat.lt_of_le_of_lt ?_ hs.unread)
    rw [unread, unread, List.length_append, List.length_append]
    exact Nat.add_le_add_left (Nat.zero_le _) s.buffered.length
  have hgets : ∀ {α : Type} (f : ScpState → α),
      Spec (Holds root k n) (gets f : ScpProgram α) (fun _ => Holds root k n) (Contained root) :=
    fun f => Spec.gets fun _ => id
  refine hdrained.bind fun _ => (hgets _).bind fun _ => (hgets _).bind fun _ => ?_
  exact .ite (fun _ => Spec.pure fun s hs => ⟨n, hs⟩) fun _ => spec_fail

theorem holds_start {messages : List ChannelMsg} {faults : List (Option String)} :
    Holds root 0 ((dataOf messages).length + 1) (start messages faults) where
  within :=
    { safe := by simp [start]
      inside := by simp [start]
      parents := by simp [start]
      depth := by simp [start] }
  count := Nat.le_refl 0
  limit := Nat.zero_le _
  unread := Nat.lt_succ_self _

/-- **Whatever comes on the channel and whatever fails outside**, receiving a directory ends, with
no more entries than are allowed, all of them below the temporary directory, in directories that
were created before. -/
theorem received_within_limits {messages : List ChannelMsg} {faults : List (Option String)}
    {fuel : Nat} (h : (dataOf messages).length ≤ fuel) :
    (receiveDirectory root fuel (start messages faults)).1 ≠ .error .spins ∧
      Within root (receiveDirectory root fuel (start messages faults)).2.files ∧
      (receiveDirectory root fuel (start messages faults)).2.files.keys.card ≤
        maxDirectoryEntries := by
  have hspec : Spec (Holds root 0 ((dataOf messages).length + 1)) (receiveDirectory root fuel)
      (fun _ s => ∃ m, Holds root 1 m s) (Contained root) :=
    (spec_sendData [0]).bind fun _ =>
      (spec_receiveDirectoryRoot (Nat.succ_le_succ h)).bind fun _ => spec_finish
  obtain ⟨hok, hfail⟩ := hspec (start messages faults) holds_start
  rcases hrun : receiveDirectory root fuel (start messages faults) with ⟨e | a, s⟩
  · obtain ⟨hspins, hends⟩ := hfail e s hrun
    exact ⟨fun he => hspins (by cases he; rfl), hends⟩
  · obtain ⟨m, hs⟩ := hok a s hrun
    obtain ⟨-, hends⟩ := @Holds.contained root 1 m s hs (.channelError "")
    exact ⟨by simp, hends⟩

/-- A directory with a directory in it, the second answer from outside an error. -/
theorem received_within_limits_nested :
    (receiveDirectory [['t']] 24 (start
        [.data [0x44, 0x30, 0x37, 0x35, 0x35, 0x20, 0x30, 0x20, 0x61, 10],
          .data [0x44, 0x30, 0x37, 0x35, 0x35, 0x20, 0x30, 0x20, 0x62, 10]]
        [none, none, some "denied"])).1 ≠ .error .spins ∧
      Within [['t']] (receiveDirectory [['t']] 24 (start
        [.data [0x44, 0x30, 0x37, 0x35, 0x35, 0x20, 0x30, 0x20, 0x61, 10],
          .data [0x44, 0x30, 0x37, 0x35, 0x35, 0x20, 0x30, 0x20, 0x62, 10]]
        [none, none, some "denied"])).2.files ∧
      (receiveDirectory [['t']] 24 (start
        [.data [0x44, 0x30, 0x37, 0x35, 0x35, 0x20, 0x30, 0x20, 0x61, 10],
          .data [0x44, 0x30, 0x37, 0x35, 0x35, 0x20, 0x30, 0x20, 0x62, 10]]
        [none, none, some "denied"])).2.files.keys.card ≤ maxDirectoryEntries :=
  received_within_limits (by decide)

end OxideTerm.Sftp.Scp
