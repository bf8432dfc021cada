import OxideTerm.Sftp.TransferManager

/-!
# No transfer survives a shutdown

Once the shutdown has swept the background transfers, all of them are finished, and every
registered control block is cancelled. The only way out is a registration that read that the
session is running before the shutdown began and inserts its snapshot after the sweep.
-/

namespace OxideTerm.Sftp

open OxideTerm.Lib

/-- The shutdown has still to cancel this block, should it be registered and not cancelled. -/
def ShutdownPoint.pending : ShutdownPoint → Nat → Prop
  | .notStarted, _ | .collecting, _ => True
  | .cancelling controls, control => control ∈ controls
  | .sweeping, _ | .draining, _ | .finished, _ => False

namespace SftpTransferManager

variable {T K : Type}

/-! ## What is left after the sweep -/

/-- Nothing is live. -/
structure Terminal (s : SftpTransferManager T K) : Prop where
  finished : ∀ id snapshot, s.backgroundTransfers.get id = some snapshot →
    snapshot.state.isFinished = true
  cancelled : ∀ id registered, s.controls.get id = some registered →
    (s.block registered.control).cancelled = true

/-- Nothing comes back to life in a step. -/
structure TerminalEvent (e : Event (SftpTransferManager T K) (TransferStep T K) TransferOutcome) :
    Prop where
  stays_cancelled : ∀ id snapshot snapshot', e.pre.backgroundTransfers.get id = some snapshot →
    snapshot.state = .cancelled → e.post.backgroundTransfers.get id = some snapshot' →
    snapshot'.state = .cancelled
  /-- A check that began after the sweep and found a control block fails. -/
  check_fails : ∀ control result, e.output = .checked (some control) true result →
    result = .error .transferShutdown

/-- No snapshot is inserted after the sweep that was accepted before the shutdown. -/
def RegistersInTime (s : SftpTransferManager T K) (l : TransferStep T K) : Prop :=
  ∀ t now snapshot, l = .next t now → s.calls t = .inserting snapshot true →
    s.shutdown.swept = false

theorem mem_registeredBlocks {s : SftpTransferManager T K} {id : K}
    {registered : RegisteredTransferControl} (h : s.controls.get id = some registered) : registered.control ∈ s.registeredBlocks := by
  refine Finset.mem_biUnion.mpr ⟨id, FiniteMap.mem_keys_of_get h, ?_⟩
  unfold getControl
  rw [h]
  exact Finset.mem_singleton_self _

theorem shutdown_ne_of_swept {s : SftpTransferManager T K} (h : s.shutdown.swept = true) : s.shutdown ≠ .notStarted := by
  intro hnot
  rw [hnot] at h
  exact nomatch h

theorem not_pending_of_swept {s : SftpTransferManager T K} (h : s.shutdown.swept = true) (control : Nat) :
    ¬ s.shutdown.pending control := by
  intro hpending
  cases hshutdown : s.shutdown with
  | notStarted | collecting | cancelling | sweeping =>
    rw [hshutdown] at h
    exact nomatch h
  | draining | finished =>
    rw [hshutdown] at hpending
    exact hpending

/-! ## Finished snapshots -/

/-- What a section does to a snapshot once the session is shutting down. -/
structure KeepsFinished (f : BackgroundTransferSnapshot K → BackgroundTransferSnapshot K) :
    Prop where
  finished : ∀ snapshot, snapshot.state.isFinished = true → (f snapshot).state.isFinished = true
  cancelled : ∀ snapshot, snapshot.state = .cancelled → (f snapshot).state = .cancelled

/-- Most sections leave a finished snapshot alone. -/
theorem KeepsFinished.of_eq {f : BackgroundTransferSnapshot K → BackgroundTransferSnapshot K}
    (h : ∀ snapshot, snapshot.state.isFinished = true → f snapshot = snapshot) :
    KeepsFinished f where
  finished := by
    intro snapshot hfinished
    rwa [h snapshot hfinished]
  cancelled := by
    intro snapshot hcancelled
    rwa [h snapshot (by rw [hcancelled]; rfl)]

theorem keepsFinished_markActive : KeepsFinished (markActive (K := K)) :=
  .of_eq fun _ h => if_pos h

theorem keepsFinished_updateProgress (transferred total speed : Nat) :
    KeepsFinished (K := K) (updateProgress transferred total speed) :=
  .of_eq fun _ h => if_pos h

theorem keepsFinished_pauseSnapshot : KeepsFinished (pauseSnapshot (K := K)) :=
  .of_eq fun _ h => if_pos h

theorem keepsFinished_interruptSnapshot (reason : String) (now : Nat) :
    KeepsFinished (K := K) (interruptSnapshot reason now) :=
  .of_eq fun _ h => if_pos h

theorem keepsFinished_resumeSnapshot : KeepsFinished (resumeSnapshot (K := K)) := by
  refine .of_eq fun snapshot hfinished => if_neg ?_
  intro hpaused
  rw [hpaused] at hfinished
  exact nomatch hfinished

theorem keepsFinished_finish {shutdownState : ShutdownState} (hshutdown : shutdownState ≠ .running)
    {state : BackgroundTransferState} (hstate : state.isFinished = true) (error : Option String)
    (itemCount : Option Nat) (now : Nat) :
    KeepsFinished (K := K) (finish shutdownState state error itemCount now) where
  finished := by
    intro snapshot _
    show BackgroundTransferState.isFinished (if _ then _ else _) = true
    split
    · rfl
    · exact hstate
  cancelled := by
    intro snapshot hcancelled
    exact if_pos ⟨hshutdown, hcancelled⟩

theorem isFinished_sweepSnapshot (now : Nat) (snapshot : BackgroundTransferSnapshot K) :
    (sweepSnapshot now snapshot).state.isFinished = true := by
  unfold sweepSnapshot
  split
  · next h => exact h
  · rfl

theorem sweepSnapshot_of_finished (now : Nat) {snapshot : BackgroundTransferSnapshot K}
    (h : snapshot.state.isFinished = true) : sweepSnapshot now snapshot = snapshot := if_pos h

/-! ## What a step can do -/

/-- The point that a thread gets to. -/
inductive Reaches (s : SftpTransferManager T K) (t : T) : CallPoint K → Prop
  | other (point : CallPoint K) (hinserting : ∀ snapshot accepted, point ≠ .inserting snapshot accepted)
      (hchecking : ∀ control late at', point ≠ .checking control late at') : Reaches s t point
  | inserting (snapshot : BackgroundTransferSnapshot K) (accepted : Bool) (now : Nat) :
      Reaches s t (.inserting (registeredSnapshot snapshot accepted now) accepted)
  | lookedUp (id : K) (control : Nat) (hget : s.getControl id = some control) :
      Reaches s t (.checking control s.shutdown.swept .cancelled)
  | cancelled (control : Nat) (late : Bool) (hcall : s.calls t = .checking control late .cancelled)
      (hcancelled : (s.block control).cancelled = true) :
      Reaches s t (.checking control late .shutdown)
  | live (control : Nat) (late : Bool) (point point' : CheckPoint)
      (hcall : s.calls t = .checking control late point)
      (hlive : point = .cancelled → (s.block control).cancelled = false)
      (hpoint : point ≠ .shutdown) : Reaches s t (.checking control late point')

/-- What a step changes. -/
inductive Change [DecidableEq T] [DecidableEq K] (s : SftpTransferManager T K)
    (l : TransferStep T K) : SftpTransferManager T K → Prop
  | idle : Change s l s
  | registered (id : K) (nodeId : Option String) : Change s l (s.registerOwned id nodeId)
  | unregistered (id : K) : Change s l (s.unregister id)
  | modified (id : K) (f : BackgroundTransferSnapshot K → BackgroundTransferSnapshot K)
      (hf : s.shutdownState ≠ .running → KeepsFinished f) :
      Change s l { s with backgroundTransfers := s.backgroundTransfers.modify id f }
  | cleaned (now : Nat) : Change s l (s.cleanupBackgroundTransfers now)
  | inserted (t : T) (now : Nat) (snapshot : BackgroundTransferSnapshot K) (accepted : Bool)
      (hl : l = .next t now) (hcall : s.calls t = .inserting snapshot accepted) :
      Change s l (s.insertBackgroundTransfer snapshot)
  | set (control : Nat) (f : SftpTransferControl → SftpTransferControl)
      (hf : ∀ block, block.cancelled = true → (f block).cancelled = true) :
      Change s l (s.setBlock control f)
  | moved (s' : SftpTransferManager T K) (t : T) (point : CallPoint K) (h : Change s l s')
      (hpoint : Reaches s t point) : Change s l (s'.setCall t point)
  | started (hrunning : s.shutdownState = .running) :
      Change s l { s with shutdownState := .shuttingDown, shutdown := .collecting }
  | collected (hshutdown : s.shutdown = .collecting) :
      Change s l { s with shutdown := .cancelling s.registeredBlocks }
  | cancelled (control : Nat) (controls : Finset Nat) (hshutdown : s.shutdown = .cancelling controls) :
      Change s l { s.setBlock control SftpTransferControl.cancel with
        shutdown := .cancelling (controls.erase control) }
  | allCancelled (hshutdown : s.shutdown = .cancelling ∅) : Change s l { s with shutdown := .sweeping }
  | swept (now : Nat) (hshutdown : s.shutdown = .sweeping) :
      Change s l { s with
        backgroundTransfers := s.backgroundTransfers.mapValues (sweepSnapshot now)
        shutdown := .draining }
  | stopped (hshutdown : s.shutdown = .draining) :
      Change s l { s with shutdownState := .stopped, shutdown := .finished }

variable [DecidableEq T] [DecidableEq K] {s s' : SftpTransferManager T K} {l : TransferStep T K}

/-- A thread gets to a point that says nothing about a registration or a check. -/
theorem Change.moved_other {t : T} {point : CallPoint K} (h : Change s l s')
    (hinserting : ∀ snapshot accepted, point ≠ .inserting snapshot accepted)
    (hchecking : ∀ control late at', point ≠ .checking control late at') :
    Change s l (s'.setCall t point) := .moved s' t point h (.other point hinserting hchecking)

theorem change_startCall (t : T) (now : Nat) (call : TransferCall K) :
    Change s l (s.startCall t now call).1 := by
  cases call with
  | registerBackgroundTransfer snapshot => exact (Change.cleaned now).moved_other nofun nofun
  | pause id =>
    simp only [startCall]
    split
    · exact Change.idle.moved_other nofun nofun
    · exact .idle
  | resume id =>
    simp only [startCall]
    split
    · exact Change.idle.moved_other nofun nofun
    · exact .idle
  | interrupt id reason => exact Change.idle.moved_other nofun nofun
  | checkControl id =>
    simp only [startCall]
    split
    · next control hget => exact .moved s t _ .idle (.lookedUp id control hget)
    · exact .idle

theorem change_checkNext {t : T} {control : Nat} {late : Bool} {point : CheckPoint}
    (hcall : s.calls t = .checking control late point) :
    Change s l (s.checkNext t control late point).1 := by
  cases point with
  | cancelled =>
    simp only [checkNext]
    split
    · next hcancelled => exact .moved s t _ .idle (.cancelled control late hcall hcancelled)
    · next hlive =>
      exact .moved s t _ .idle (.live control late _ _ hcall (fun _ => Bool.eq_false_iff.mpr hlive) nofun)
  | shutdown => exact Change.idle.moved_other nofun nofun
  | interrupt =>
    simp only [checkNext]
    split
    · exact Change.idle.moved_other nofun nofun
    · exact .moved s t _ .idle (.live control late _ _ hcall nofun nofun)
  | pause =>
    simp only [checkNext]
    split
    · exact .moved s t _ .idle (.live control late _ _ hcall nofun nofun)
    · exact Change.idle.moved_other nofun nofun

theorem change_next (t : T) (now : Nat) :
    Change s (.next t now) (s.nextOf t now (s.calls t)).1 := by
  cases hcall : s.calls t with
  | idle => exact .idle
  | registering snapshot => exact .moved s t _ .idle (.inserting snapshot _ now)
  | inserting snapshot accepted =>
    refine (Change.inserted t now snapshot accepted rfl hcall).moved_other ?_ ?_
    · intro _ _
      split <;> nofun
    · intro _ _ _
      split <;> nofun
  | finishing id =>
    exact (Change.modified id _ fun h => keepsFinished_finish h rfl none none now).moved_other
      nofun nofun
  | pausing id control =>
    cases control with
    | some control =>
      exact (Change.set control SftpTransferControl.pause fun _ h => h).moved_other nofun nofun
    | none => exact (Change.modified id _ fun _ => keepsFinished_pauseSnapshot).moved_other nofun nofun
  | resuming id control =>
    cases control with
    | some control =>
      exact (Change.set control SftpTransferControl.resume fun _ h => h).moved_other nofun nofun
    | none =>
      exact (Change.modified id _ fun _ => keepsFinished_resumeSnapshot).moved_other nofun nofun
  | interrupting id reason control =>
    cases control with
    | some control =>
      exact (Change.set control (SftpTransferControl.interrupt · reason) fun _ h => h).moved_other
        nofun nofun
    | none =>
      exact (Change.modified id _ fun _ => keepsFinished_interruptSnapshot reason now).moved_other
        nofun nofun
  | checking control late point => exact change_checkNext hcall

theorem change_nextOfShutdown (now : Nat) : Change s l (s.nextOfShutdown now) := by
  unfold nextOfShutdown
  split
  · exact .idle
  · exact .idle
  · next hshutdown => exact .collected hshutdown
  · next controls hshutdown =>
    split
    · next hempty => exact .allCancelled (hempty ▸ hshutdown)
    · exact .idle
  · next hshutdown => exact .swept now hshutdown
  · next hshutdown => exact .stopped hshutdown

/-- **What a step does.** -/
theorem change_step (s : SftpTransferManager T K) (l : TransferStep T K) :
    Change s l (s.step l).1 := by
  cases l with
  | register id nodeId => exact .registered id nodeId
  | unregister id => exact .unregistered id
  | markBackgroundTransferActive id => exact .modified id _ fun _ => keepsFinished_markActive
  | updateBackgroundTransferProgress id transferred total speed =>
    exact .modified id _ fun _ => keepsFinished_updateProgress transferred total speed
  | finishBackgroundTransfer id state error itemCount now =>
    exact .modified id _ fun h => keepsFinished_finish h state.isFinished error itemCount now
  | call t call now =>
    simp only [step]
    split
    · exact change_startCall t now call
    · exact .idle
  | next t now => exact change_next t now
  | shutdownSessionTransfers =>
    simp only [step]
    split
    · next hrunning => exact .started hrunning
    · exact .idle
  | cancelCollected control =>
    simp only [step]
    split
    · next controls hshutdown =>
      split
      · exact .cancelled control controls hshutdown
      · exact .idle
    · exact .idle
  | nextOfShutdown now => exact change_nextOfShutdown now

/-! ## Snapshots -/

variable {id : K} {snapshot' : BackgroundTransferSnapshot K}

/-- A snapshot after a step was there before, or has just been inserted. -/
inductive Comes (s : SftpTransferManager T K) (l : TransferStep T K) (id : K)
    (snapshot' : BackgroundTransferSnapshot K) : Prop
  | kept (snapshot : BackgroundTransferSnapshot K)
      (hget : s.backgroundTransfers.get id = some snapshot)
      (hfinished : snapshot.state.isFinished = true → snapshot'.state.isFinished = true)
      (hcancelled : snapshot.state = .cancelled → snapshot'.state = .cancelled)
  | inserted (t : T) (now : Nat) (accepted : Bool) (hl : l = .next t now)
      (hcall : s.calls t = .inserting snapshot' accepted)

omit [DecidableEq T] [DecidableEq K] in
theorem Comes.same (h : s.backgroundTransfers.get id = some snapshot') : Comes s l id snapshot' :=
  .kept snapshot' h (fun h => h) (fun h => h)

/-- Where the snapshots after a step come from, while the session is shutting down. -/
theorem Change.comes (hchange : Change s l s') (hshutdown : s.shutdownState ≠ .running)
    (h : s'.backgroundTransfers.get id = some snapshot') : Comes s l id snapshot' := by
  induction hchange with
  | idle | set | started | collected | cancelled | allCancelled | stopped => exact .same h
  | registered other nodeId =>
    unfold registerOwned at h
    split at h
    · exact .same h
    · exact .same h
  | unregistered other =>
    unfold unregister at h
    split at h
    · split at h
      · exact .same h
      · exact .same h
    · exact .same h
  | modified other f hf =>
    rw [FiniteMap.get_modify] at h
    split at h
    · next heq =>
      obtain ⟨snapshot, hget, rfl⟩ := Option.map_eq_some_iff.mp h
      exact .kept snapshot (heq ▸ hget) ((hf hshutdown).finished snapshot)
        ((hf hshutdown).cancelled snapshot)
    · exact .same h
  | cleaned now => exact .same (FiniteMap.get_of_get_retain h)
  | inserted t now snapshot accepted hl hcall =>
    replace h : (s.backgroundTransfers.insert snapshot.id snapshot).get id = some snapshot' := h
    rw [FiniteMap.get_insert] at h
    split at h
    · obtain rfl := Option.some.inj h
      exact .inserted t now accepted hl hcall
    · exact .same h
  | moved s' t point _ _ ih => exact ih h
  | swept now _ =>
    rw [FiniteMap.get_mapValues] at h
    obtain ⟨snapshot, hget, rfl⟩ := Option.map_eq_some_iff.mp h
    refine .kept snapshot hget (fun _ => isFinished_sweepSnapshot now snapshot) ?_
    intro hcancelled
    rwa [sweepSnapshot_of_finished now (by rw [hcancelled]; rfl)]

/-! ## Control blocks -/

/-- A cancelled block stays cancelled, whatever else is done to it. -/
theorem cancelled_update {block : Nat → SftpTransferControl} {control other : Nat}
    {value : SftpTransferControl}
    (h : (block other).cancelled = true → value.cancelled = true)
    (hcancelled : (block control).cancelled = true) :
    (Function.update block other value control).cancelled = true := by
  by_cases heq : control = other
  · subst heq
    rw [Function.update_self]
    exact h hcancelled
  · rwa [Function.update_of_ne heq]

theorem Change.block_cancelled (hchange : Change s l s') (hshutdown : s.shutdownState ≠ .running)
    {control : Nat} (h : (s.block control).cancelled = true) :
    (s'.block control).cancelled = true := by
  induction hchange with
  | registered id nodeId =>
    unfold registerOwned
    split
    · exact h
    · rw [if_pos hshutdown]
      exact cancelled_update (fun _ => rfl) h
  | unregistered id =>
    unfold unregister
    split
    · split
      · exact h
      · exact h
    · exact h
  | set other f hf => exact cancelled_update (hf _) h
  | cancelled other controls _ => exact cancelled_update (fun _ => rfl) h
  | moved s' t point _ _ ih => exact ih
  | idle | modified | cleaned | inserted | started | collected | allCancelled | swept | stopped =>
    exact h

/-- A registered block was registered before, or is new and cancelled. -/
theorem Change.registered_control (hchange : Change s l s') (hshutdown : s.shutdownState ≠ .running)
    {registered : RegisteredTransferControl} (h : s'.controls.get id = some registered) :
    (∃ before, s.controls.get id = some before ∧ before.control = registered.control) ∨
      (s'.block registered.control).cancelled = true := by
  induction hchange with
  | registered other nodeId =>
    unfold registerOwned at h ⊢
    split at h
    · next before hbefore =>
      replace h : (s.controls.insert other _).get id = some registered := h
      rw [FiniteMap.get_insert] at h
      split at h
      · next heq =>
        obtain rfl := Option.some.inj h
        exact .inl ⟨before, heq ▸ hbefore, rfl⟩
      · exact .inl ⟨registered, h, rfl⟩
    · next hbefore =>
      replace h : (s.controls.insert other _).get id = some registered := h
      rw [FiniteMap.get_insert] at h
      split at h
      · obtain rfl := Option.some.inj h
        right
        simp only [if_pos hshutdown]
        show (Function.update s.block s.nextBlock SftpTransferControl.new.cancel
          s.nextBlock).cancelled = true
        rw [Function.update_self]
        rfl
      · exact .inl ⟨registered, h, rfl⟩
  | unregistered other =>
    unfold unregister at h
    split at h
    · next before hbefore =>
      split at h
      · replace h : (s.controls.erase other).get id = some registered := h
        rw [FiniteMap.get_erase] at h
        split at h
        · exact nomatch h
        · exact .inl ⟨registered, h, rfl⟩
      · replace h : (s.controls.insert other _).get id = some registered := h
        rw [FiniteMap.get_insert] at h
        split at h
        · next heq =>
          obtain rfl := Option.some.inj h
          exact .inl ⟨before, heq ▸ hbefore, rfl⟩
        · exact .inl ⟨registered, h, rfl⟩
    · exact .inl ⟨registered, h, rfl⟩
  | moved s' t point _ _ ih => exact ih h
  | idle | modified | cleaned | inserted | set | started | collected | cancelled | allCancelled
  | swept | stopped => exact .inl ⟨registered, h, rfl⟩

/-! ## The invariant -/

/-- What every run keeps. -/
structure Orderly (s : SftpTransferManager T K) : Prop where
  shutting_down : s.shutdown ≠ .notStarted → s.shutdownState ≠ .running
  covered : ∀ id registered, s.controls.get id = some registered →
    (s.block registered.control).cancelled = true ∨ s.shutdown.pending registered.control
  /-- The state of a snapshot that is about to be inserted is what was read of the shutdown. -/
  inserting : ∀ t snapshot accepted, s.calls t = .inserting snapshot accepted →
    snapshot.state = if accepted then .pending else .cancelled
  checking : ∀ t control point, s.calls t = .checking control true point →
    s.shutdownState ≠ .running ∧ (s.block control).cancelled = true ∧
      (point = .cancelled ∨ point = .shutdown)

theorem orderly_init : Orderly (machine T K).init where
  shutting_down := fun h => absurd rfl h
  covered := fun _ _ h => nomatch h
  inserting := fun _ _ _ h => nomatch h
  checking := fun _ _ _ h => nomatch h

/-- Once the session is shutting down, it is no longer running. -/
theorem Change.shutting_down (hchange : Change s l s')
    (h : s.shutdown ≠ .notStarted → s.shutdownState ≠ .running) :
    s'.shutdown ≠ .notStarted → s'.shutdownState ≠ .running := by
  induction hchange with
  | registered id nodeId =>
    unfold registerOwned
    split
    · exact h
    · exact h
  | unregistered id =>
    unfold unregister
    split
    · split
      · exact h
      · exact h
    · exact h
  | started | stopped => exact fun _ => nofun
  | collected hshutdown | cancelled _ _ hshutdown | allCancelled hshutdown | swept _ hshutdown =>
    intro _
    refine h ?_
    rw [hshutdown]
    exact nofun
  | moved s' t point _ _ ih => exact ih
  | idle | modified | cleaned | inserted | set => exact h

theorem Change.still_shutting_down (hchange : Change s l s')
    (h : s.shutdownState ≠ .running) : s'.shutdownState ≠ .running := by
  induction hchange with
  | registered id nodeId =>
    unfold registerOwned
    split
    · exact h
    · exact h
  | unregistered id =>
    unfold unregister
    split
    · split
      · exact h
      · exact h
    · exact h
  | started | stopped => exact nofun
  | moved s' t point _ _ ih => exact ih
  | idle | modified | cleaned | inserted | set | collected | cancelled | allCancelled | swept =>
    exact h

/-- What the shutdown still has to cancel only becomes less once it has collected the blocks. -/
theorem Change.pending (hchange : Change s l s') {control : Nat}
    (hregistered : ∃ id registered, s.controls.get id = some registered ∧
      registered.control = control)
    (h : s.shutdown.pending control) :
    (s'.block control).cancelled = true ∨ s'.shutdown.pending control := by
  induction hchange with
  | registered id nodeId =>
    unfold registerOwned
    split
    · exact .inr h
    · exact .inr h
  | unregistered id =>
    unfold unregister
    split
    · split
      · exact .inr h
      · exact .inr h
    · exact .inr h
  | started => exact .inr trivial
  | collected _ =>
    obtain ⟨id, registered, hget, rfl⟩ := hregistered
    exact .inr (mem_registeredBlocks hget)
  | cancelled other controls hshutdown =>
    rw [hshutdown] at h
    by_cases heq : control = other
    · left
      subst heq
      show (Function.update s.block control (s.block control).cancel control).cancelled = true
      rw [Function.update_self]
      rfl
    · exact .inr (Finset.mem_erase.mpr ⟨heq, h⟩)
  | allCancelled hshutdown =>
    rw [hshutdown] at h
    exact absurd h (Finset.notMem_empty _)
  | swept _ hshutdown | stopped hshutdown =>
    rw [hshutdown] at h
    exact h.elim
  | moved s' t point _ _ ih => exact ih
  | idle | modified | cleaned | inserted | set => exact .inr h

/-- Before the shutdown collects the blocks, all of them are still to be cancelled. -/
theorem Change.pending_of_notStarted (hchange : Change s l s') (h : s.shutdown = .notStarted)
    (control : Nat) : s'.shutdown.pending control := by
  have hpending : s.shutdown.pending control := by
    rw [h]
    trivial
  induction hchange with
  | registered id nodeId =>
    unfold registerOwned
    split
    · exact hpending
    · exact hpending
  | unregistered id =>
    unfold unregister
    split
    · split
      · exact hpending
      · exact hpending
    · exact hpending
  | started => trivial
  | collected hshutdown | cancelled _ _ hshutdown | allCancelled hshutdown | swept _ hshutdown
  | stopped hshutdown => exact absurd (h.symm.trans hshutdown) nofun
  | moved s' t point _ _ ih => exact ih
  | idle | modified | cleaned | inserted | set => exact hpending

/-- A thread stays where it is or goes on. -/
theorem Change.calls (hchange : Change s l s') (t : T) :
    s'.calls t = s.calls t ∨ Reaches s t (s'.calls t) := by
  induction hchange with
  | registered id nodeId =>
    unfold registerOwned
    split
    · exact .inl rfl
    · exact .inl rfl
  | unregistered id =>
    unfold unregister
    split
    · split
      · exact .inl rfl
      · exact .inl rfl
    · exact .inl rfl
  | moved s' other point _ hpoint ih =>
    show Function.update s'.calls other point t = _ ∨ Reaches s t (Function.update s'.calls other point t)
    by_cases heq : t = other
    · subst heq
      rw [Function.update_self]
      exact .inr hpoint
    · rw [Function.update_of_ne heq]
      exact ih
  | idle | modified | cleaned | inserted | set | started | collected | cancelled | allCancelled
  | swept | stopped => exact .inl rfl

theorem Orderly.covered_change (h : Orderly s) (hchange : Change s l s') :
    ∀ id registered, s'.controls.get id = some registered →
      (s'.block registered.control).cancelled = true ∨ s'.shutdown.pending registered.control := by
  intro id registered hget
  by_cases hstarted : s.shutdown = .notStarted
  · exact .inr (hchange.pending_of_notStarted hstarted registered.control)
  have hshutdown := h.shutting_down hstarted
  rcases hchange.registered_control hshutdown hget with ⟨before, hbefore, hcontrol⟩ | hcancelled
  · rcases h.covered id before hbefore with hcancelled | hpending
    · rw [hcontrol] at hcancelled
      exact .inl (hchange.block_cancelled hshutdown hcancelled)
    · rw [hcontrol] at hpending
      exact hchange.pending ⟨id, before, hbefore, hcontrol⟩ hpending
  · exact .inl hcancelled

theorem Orderly.inserting_change (h : Orderly s) (hchange : Change s l s') :
    ∀ t snapshot accepted, s'.calls t = .inserting snapshot accepted →
      snapshot.state = if accepted then .pending else .cancelled := by
  intro t snapshot accepted hcall
  rcases hchange.calls t with hsame | hreaches
  · exact h.inserting t snapshot accepted (hsame ▸ hcall)
  · rw [hcall] at hreaches
    cases hreaches with
    | other _ hinserting _ => exact absurd rfl (hinserting _ _)
    | inserting snapshot accepted now =>
      cases accepted with
      | true => rfl
      | false => rfl

omit [DecidableEq T] [DecidableEq K] in
/-- After the sweep every registered block is cancelled. -/
theorem Orderly.cancelled_of_swept (h : Orderly s) (hswept : s.shutdown.swept = true) {id : K}
    {registered : RegisteredTransferControl} (hget : s.controls.get id = some registered) :
    (s.block registered.control).cancelled = true :=
  (h.covered id registered hget).resolve_right (not_pending_of_swept hswept registered.control)

theorem Orderly.checking_change (h : Orderly s) (hchange : Change s l s') :
    ∀ t control point, s'.calls t = .checking control true point →
      s'.shutdownState ≠ .running ∧ (s'.block control).cancelled = true ∧
        (point = .cancelled ∨ point = .shutdown) := by
  intro t control point hcall
  have hkeep (hshutdown : s.shutdownState ≠ .running) (hcancelled : (s.block control).cancelled = true)
      (hpoint : point = .cancelled ∨ point = .shutdown) :
      s'.shutdownState ≠ .running ∧ (s'.block control).cancelled = true ∧
        (point = .cancelled ∨ point = .shutdown) :=
    ⟨hchange.still_shutting_down hshutdown, hchange.block_cancelled hshutdown hcancelled, hpoint⟩
  rcases hchange.calls t with hsame | hreaches
  · obtain ⟨hshutdown, hcancelled, hpoint⟩ := h.checking t control point (hsame ▸ hcall)
    exact hkeep hshutdown hcancelled hpoint
  · rw [hcall] at hreaches
    generalize hlate : true = late at hreaches
    cases hreaches with
    | other _ _ hchecking => exact absurd rfl (hchecking _ _ _)
    | lookedUp id _ hlookup =>
      have hswept : s.shutdown.swept = true := hlate.symm
      obtain ⟨registered, hget, rfl⟩ := Option.map_eq_some_iff.mp hlookup
      rw [hswept]
      exact hkeep (h.shutting_down (shutdown_ne_of_swept hswept))
        (h.cancelled_of_swept hswept hget) (.inl rfl)
    | cancelled _ _ hcall hcancelled =>
      subst hlate
      obtain ⟨hshutdown, -, -⟩ := h.checking t control _ hcall
      exact hkeep hshutdown hcancelled (.inr rfl)
    | live _ _ point _ hcall hlive hpoint =>
      -- The block was cancelled when it was looked up, so the check does not go on.
      subst hlate
      obtain ⟨-, hcancelled, hwhere⟩ := h.checking t control point hcall
      exact absurd hcancelled (by rw [hlive (hwhere.resolve_right hpoint)]; nofun)

theorem Orderly.change (h : Orderly s) (hchange : Change s l s') : Orderly s' where
  shutting_down := hchange.shutting_down h.shutting_down
  covered := h.covered_change hchange
  inserting := h.inserting_change hchange
  checking := h.checking_change hchange

theorem orderly_final (labels : List (TransferStep T K)) : Orderly ((machine T K).final labels) :=
  (machine T K).final_invariant orderly_init (fun _ l h => h.change (change_step _ l)) labels

/-! ## After the sweep -/

/-- The sweep finishes every transfer. -/
theorem Change.finished_of_sweep (hchange : Change s l s') (hbefore : s.shutdown.swept = false)
    (hafter : s'.shutdown.swept = true)
    (h : s'.backgroundTransfers.get id = some snapshot') : snapshot'.state.isFinished = true := by
  induction hchange with
  | registered other nodeId =>
    unfold registerOwned at hafter
    split at hafter
    · exact absurd (hbefore.symm.trans hafter) nofun
    · exact absurd (hbefore.symm.trans hafter) nofun
  | unregistered other =>
    unfold unregister at hafter
    split at hafter
    · split at hafter
      · exact absurd (hbefore.symm.trans hafter) nofun
      · exact absurd (hbefore.symm.trans hafter) nofun
    · exact absurd (hbefore.symm.trans hafter) nofun
  | moved s' t point _ _ ih => exact ih hafter h
  | swept now _ =>
    rw [FiniteMap.get_mapValues] at h
    obtain ⟨snapshot, -, rfl⟩ := Option.map_eq_some_iff.mp h
    exact isFinished_sweepSnapshot now snapshot
  | stopped hshutdown =>
    rw [hshutdown] at hbefore
    exact nomatch hbefore
  | idle | modified | cleaned | inserted | set =>
    exact absurd (hbefore.symm.trans hafter) nofun
  | started | collected | cancelled | allCancelled => exact nomatch hafter

omit [DecidableEq T] [DecidableEq K] in
/-- A snapshot that is inserted in time after the sweep is cancelled. -/
theorem Orderly.cancelled_of_inserted (h : Orderly s) (htime : RegistersInTime s l)
    (hswept : s.shutdown.swept = true) {t : T} {now : Nat} {accepted : Bool}
    (hl : l = .next t now) (hcall : s.calls t = .inserting snapshot' accepted) :
    snapshot'.state = .cancelled := by
  cases accepted with
  | true => exact absurd (hswept.symm.trans (htime t now snapshot' hl hcall)) nofun
  | false => exact h.inserting t snapshot' false hcall

/-- All background transfers are finished once they have been swept. -/
def FinishedAfterSweep (s : SftpTransferManager T K) : Prop :=
  s.shutdown.swept = true → ∀ id snapshot, s.backgroundTransfers.get id = some snapshot →
    snapshot.state.isFinished = true

theorem FinishedAfterSweep.change (h : FinishedAfterSweep s) (horderly : Orderly s)
    (htime : RegistersInTime s l) (hchange : Change s l s') : FinishedAfterSweep s' := by
  intro hafter id snapshot' hget
  cases hbefore : s.shutdown.swept with
  | false => exact hchange.finished_of_sweep hbefore hafter hget
  | true =>
    have hshutdown := horderly.shutting_down (shutdown_ne_of_swept hbefore)
    cases hchange.comes hshutdown hget with
    | kept snapshot hget hfinished _ => exact hfinished (h hbefore id snapshot hget)
    | inserted t now accepted hl hcall =>
      rw [horderly.cancelled_of_inserted htime hbefore hl hcall]
      rfl

theorem finishedAfterSweep_final {labels : List (TransferStep T K)}
    (h : (machine T K).Along RegistersInTime labels) :
    FinishedAfterSweep ((machine T K).final labels) := by
  refine ((machine T K).run_invariant_along
    (P := fun s _ => Orderly s ∧ FinishedAfterSweep s) ?_ ?_ h).2
  · exact ⟨orderly_init, fun hswept => nomatch hswept⟩
  · rintro s _ l ⟨horderly, hfinished⟩ htime
    have hchange := change_step s l
    exact ⟨horderly.change hchange, hfinished.change horderly htime hchange⟩

/-- Only the last steps of a check say anything about a block. -/
theorem checked_cases {control : Nat} {late : Bool} {result : Except SftpError Unit}
    (h : (s.step l).2 = .checked (some control) late result) :
    ∃ t point, s.calls t = .checking control late point ∧
      (s.checkNext t control late point).2 = .checked (some control) late result := by
  cases l with
  | call t call now =>
    simp only [step] at h
    split at h
    · cases call with
      | registerBackgroundTransfer snapshot => exact nomatch h
      | pause id =>
        simp only [startCall] at h
        split at h
        · exact nomatch h
        · exact nomatch h
      | resume id =>
        simp only [startCall] at h
        split at h
        · exact nomatch h
        · exact nomatch h
      | interrupt id reason => exact nomatch h
      | checkControl id =>
        simp only [startCall] at h
        split at h
        · exact nomatch h
        · exact nomatch h
    · exact nomatch h
  | next t now =>
    replace h : (s.nextOf t now (s.calls t)).2 = .checked (some control) late result := h
    cases hcall : s.calls t with
    | checking other late' point =>
      rw [hcall] at h
      replace h : (s.checkNext t other late' point).2 = .checked (some control) late result := h
      have hsame : other = control ∧ late' = late := by
        cases point with
        | cancelled =>
          simp only [checkNext] at h
          split at h
          · exact nomatch h
          · exact nomatch h
        | shutdown =>
          cases h
          exact ⟨rfl, rfl⟩
        | interrupt =>
          simp only [checkNext] at h
          split at h
          · cases h
            exact ⟨rfl, rfl⟩
          · exact nomatch h
        | pause =>
          simp only [checkNext] at h
          split at h
          · exact nomatch h
          · cases h
            exact ⟨rfl, rfl⟩
      obtain ⟨rfl, rfl⟩ := hsame
      exact ⟨t, point, hcall, h⟩
    | idle | registering | inserting | finishing =>
      rw [hcall] at h
      exact nomatch h
    | pausing _ other | resuming _ other | interrupting _ _ other =>
      rw [hcall] at h
      cases other with
      | some other => exact nomatch h
      | none => exact nomatch h
  | shutdownSessionTransfers =>
    simp only [step] at h
    split at h
    · exact nomatch h
    · exact nomatch h
  | cancelCollected other =>
    simp only [step] at h
    split at h
    · split at h
      · exact nomatch h
      · exact nomatch h
    · exact nomatch h
  | register | unregister | markBackgroundTransferActive | updateBackgroundTransferProgress
  | finishBackgroundTransfer | nextOfShutdown => exact nomatch h

theorem terminalEvent_of_orderly (h : Orderly s) (hswept : s.shutdown.swept = true)
    (htime : RegistersInTime s l) : TerminalEvent ((machine T K).event s l) where
  stays_cancelled := by
    intro id snapshot snapshot' hget hcancelled hget'
    have hshutdown := h.shutting_down (shutdown_ne_of_swept hswept)
    cases (change_step s l).comes hshutdown hget' with
    | kept before hbefore _ hkeeps =>
      obtain rfl : snapshot = before := Option.some.inj (hget.symm.trans hbefore)
      exact hkeeps hcancelled
    | inserted t now accepted hl hcall => exact h.cancelled_of_inserted htime hswept hl hcall
  check_fails := by
    intro control result houtput
    obtain ⟨t, point, hcall, hresult⟩ := checked_cases houtput
    obtain ⟨hshutdown, hcancelled, hpoint⟩ := h.checking t control point hcall
    rcases hpoint with rfl | rfl
    · simp only [checkNext, if_pos hcancelled] at hresult
      exact nomatch hresult
    · simp only [checkNext, if_pos hshutdown] at hresult
      cases hresult
      rfl

/-- An accepted snapshot that is inserted after the sweep is left pending. -/
theorem not_terminal_of_late_insertion (h : Orderly s) {t : T} (now : Nat)
    {snapshot : BackgroundTransferSnapshot K} (hcall : s.calls t = .inserting snapshot true) :
    (s.step (.next t now)).1.shutdown = s.shutdown ∧ ¬ Terminal (s.step (.next t now)).1 := by
  have hstep : (s.step (.next t now)).1 =
      ((s.insertBackgroundTransfer snapshot).setCall t .idle) := by
    show (s.nextOf t now (s.calls t)).1 = _
    rw [hcall]
    rfl
  rw [hstep]
  refine ⟨rfl, fun hterminal => ?_⟩
  have hfinished := hterminal.finished snapshot.id snapshot (FiniteMap.get_insert_self _ _ _)
  rw [h.inserting t snapshot true hcall] at hfinished
  exact nomatch hfinished

/--
**After the sweep of a shutdown nothing is live and nothing comes back to life, if and only if no
registration that was accepted before the shutdown inserts its snapshot after the sweep.**
-/
theorem shutdown_is_terminal_iff_registered_in_time (labels : List (TransferStep T K)) :
    (∀ past, past <+: labels → ((machine T K).final past).shutdown.swept = true →
        Terminal ((machine T K).final past) ∧
          ∀ l, past ++ [l] <+: labels → TerminalEvent ((machine T K).event ((machine T K).final past) l)) ↔
      (machine T K).Along RegistersInTime labels := by
  constructor
  · rintro h past l future rfl t now snapshot rfl hcall
    cases hswept : ((machine T K).final past).shutdown.swept with
    | false => rfl
    | true =>
      obtain ⟨hshutdown, hlive⟩ :=
        not_terminal_of_late_insertion (orderly_final past) now hcall
      have hfinal := (machine T K).final_snoc past (.next t now)
      have hterminal := h (past ++ [.next t now]) ⟨future, by simp⟩
      rw [hfinal] at hterminal
      exact absurd (hterminal ((congrArg ShutdownPoint.swept hshutdown).trans hswept)).1 hlive
  · rintro h past ⟨future, rfl⟩ hswept
    have horderly := orderly_final past
    refine ⟨⟨?_, ?_⟩, ?_⟩
    · exact finishedAfterSweep_final (Machine.along_append _ h) hswept
    · intro id registered hget
      exact horderly.cancelled_of_swept hswept hget
    · rintro l ⟨rest, hlabels⟩
      exact terminalEvent_of_orderly horderly hswept (h past l rest (by rw [← hlabels]; simp))

def queued : BackgroundTransferSnapshot Nat where
  id := 1
  state := .pending
  size := 0
  transferred := 0
  backendSpeed := none
  error := none
  endTime := none
  itemCount := none

/-- A registration that reads too early leaves a transfer pending for ever. -/
theorem pending_after_shutdown :
    ∃ labels : List (TransferStep Unit Nat),
      ((machine Unit Nat).final labels).shutdown = .finished ∧
      (((machine Unit Nat).final labels).backgroundTransfers.get 1).map
        BackgroundTransferSnapshot.state = some .pending :=
  ⟨[.call () (.registerBackgroundTransfer queued) 0, .next () 0, .shutdownSessionTransfers,
    .nextOfShutdown 0, .nextOfShutdown 0, .nextOfShutdown 0, .next () 0, .nextOfShutdown 0],
    by decide +kernel, by decide +kernel⟩

end SftpTransferManager

end OxideTerm.Sftp
