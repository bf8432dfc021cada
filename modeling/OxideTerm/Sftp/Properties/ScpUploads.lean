import OxideTerm.Sftp.Properties.ScpContainment

/-!
# What is sent of a directory

An upload is a loop of lines, answers and reads. When it ends well it has sent one encoding of the
directory, and the remote end has answered every record of it.
-/

namespace OxideTerm.Sftp.Scp

open OxideTerm.Lib OxideTerm.Lib.Text OxideTerm.Lib.Fallible ScpProgram

/-! ## Directories on the wire -/

/-- The name that is sent, which is text. -/
def nameOf (name : Bytes) : List Char := (ofUtf8 name).getD []

namespace ScpProgram.LocalEntries

/-- The bytes that are sent for the entries. -/
def wire : LocalEntries → Bytes
  | .nil => []
  | .symlink _ rest => rest.wire
  | .other _ rest => rest.wire
  | .directory name entries rest =>
    utf8Bytes (directoryLine (nameOf name)) ++ 10 :: (entries.wire ++ 69 :: 10 :: rest.wire)
  | .file name len reads rest =>
    utf8Bytes (fileLine len (nameOf name)) ++ 10 :: (reads.flatten ++ 0 :: rest.wire)

/-- How many answers are read for the entries. -/
def answers : LocalEntries → Nat
  | .nil => 0
  | .symlink _ rest => rest.answers
  | .other _ rest => rest.answers
  | .directory _ entries rest => 1 + (entries.answers + (1 + rest.answers))
  | .file _ _ _ rest => 2 + rest.answers

/-- How many files and directories there are. -/
def count : LocalEntries → Nat
  | .nil => 0
  | .symlink _ rest => rest.count
  | .other _ rest => rest.count
  | .directory _ entries rest => 1 + (entries.count + rest.count)
  | .file _ _ _ rest => 1 + rest.count

end ScpProgram.LocalEntries

/-- A line that may be sent. -/
def Fits (line : List Char) : Prop :=
  (utf8Bytes line).length ≤ maxControlLineBytes ∧ ∀ c ∈ line, c ∉ ['\n', '\r', Char.ofNat 0]

/-- What has been checked of entries that were sent. -/
def ScpProgram.LocalEntries.Sendable : LocalEntries → Nat → Prop
  | .nil, _ => True
  | .symlink _ _, _ => False
  | .other _ rest, depth => rest.Sendable depth
  | .directory name entries rest, depth =>
    SafeName (nameOf name) ∧ Fits (directoryLine (nameOf name)) ∧ depth + 1 ≤ maxDirectoryDepth ∧
      entries.Sendable (depth + 1) ∧ rest.Sendable depth
  | .file name len _ rest, depth =>
    SafeName (nameOf name) ∧ Fits (fileLine len (nameOf name)) ∧ rest.Sendable depth

/-! ## What is sent -/

variable {s s' s'' : ScpState} {w w' : Bytes} {k k' c c' depth : Nat}

/-- From one state of the sender to another so many bytes are sent, answers read, and items counted. -/
structure Sent (w : Bytes) (k c : Nat) (s s' : ScpState) : Prop where
  sent : s'.sent = s.sent ++ w
  answers : unread s = List.replicate k 0 ++ unread s'
  items : s'.items = s.items + c
  limit : s.items ≤ maxDirectoryEntries → s'.items ≤ maxDirectoryEntries
  status : (settled s').exitStatus = (settled s).exitStatus

theorem Sent.trans (h : Sent w k c s s') (h' : Sent w' k' c' s' s'') :
    Sent (w ++ w') (k + k') (c + c') s s'' where
  sent := by rw [h'.sent, h.sent, List.append_assoc]
  answers := by rw [h.answers, h'.answers, ← List.append_assoc, List.replicate_append_replicate]
  items := by rw [h'.items, h.items, Nat.add_assoc]
  limit hs := h'.limit (h.limit hs)
  status := h'.status.trans h.status

theorem Sent.cast (h : Sent w k c s s') (hw : w = w') (hk : k = k') (hc : c = c') :
    Sent w' k' c' s s' := by
  subst hw hk hc
  exact h

theorem Sent.same (hsent : s'.sent = s.sent) (hunread : unread s' = unread s)
    (hitems : s'.items = s.items) (hstatus : (settled s').exitStatus = (settled s).exitStatus) :
    Sent [] 0 0 s s' where
  sent := by rw [hsent, List.append_nil]
  answers := hunread.symm
  items := hitems
  limit := by
    rw [hitems]
    exact id
  status := hstatus

section Sender

variable {α : Type} {a : α} {u : Unit}

theorem of_check {r : Except ScpError α} (h : (check r : ScpProgram α) s = (.ok a, s')) :
    r = .ok a ∧ s' = s := by
  cases r with
  | error e => cases h
  | ok b =>
    cases h
    exact ⟨rfl, rfl⟩

theorem of_check_bind {β : Type} {r : Except ScpError α} {f : α → ScpProgram β} {b : β}
    (h : (check r >>= f) s = (.ok b, s')) : ∃ a, r = .ok a ∧ f a s = (.ok b, s') := by
  cases r with
  | error e => cases h
  | ok a => exact ⟨a, rfl, h⟩

theorem sent_outside (h : outside s = (.ok u, s')) : Sent [] 0 0 s s' := by
  rw [outside] at h
  split at h
  · cases h
    exact .same rfl rfl rfl rfl
  · cases h
    exact .same rfl rfl rfl rfl
  · cases h

theorem sent_sendData {data : Bytes} (h : sendData data s = (.ok u, s')) : Sent data 0 0 s s' := by
  obtain ⟨_, t, hout, hupdate⟩ := exists_of_bind_run h
  cases hupdate
  have hdata : Sent data 0 0 t { t with sent := t.sent ++ data } := ⟨rfl, rfl, rfl, id, rfl⟩
  exact (sent_outside hout).trans hdata

theorem sent_sendControlLine {line : List Char} (h : sendControlLine line s = (.ok u, s')) :
    Fits line ∧ Sent (utf8Bytes line ++ [10]) 0 0 s s' := by
  rw [sendControlLine] at h
  split at h
  next => cases h
  next hline =>
    rw [not_or, List.any_eq_true, not_exists] at hline
    refine ⟨⟨Nat.le_of_not_lt hline.1, fun c hc hbad => hline.2 c ⟨hc, ?_⟩⟩, sent_sendData h⟩
    exact List.contains_iff_mem.mpr hbad

theorem sent_readResponse (h : readResponse s = (.ok u, s')) : Sent [] 1 0 s s' := by
  obtain ⟨byte, t, hbyte, hrest⟩ := exists_of_bind_run h
  obtain ⟨hresult, hsettled⟩ := settles_readByte s
  rw [hbyte] at hresult hsettled
  rw [byteOf] at hresult hsettled
  split at hresult
  next => cases hresult
  next hne =>
    rw [if_neg hne] at hsettled
    obtain rfl : byte = (unread s).headD 0 := Except.ok.inj hresult
    split at hrest
    next hzero =>
      cases hrest
      have hsame : ∀ {β : Type} (f : ScpState → β),
          f (settled s') = f (keep (settled s) (unread s).tail) := fun f => congrArg f hsettled
      have hunread : unread s' = (unread s).tail := hsame ScpState.buffered
      obtain ⟨first, rest, hsplit⟩ := List.exists_cons_of_ne_nil hne
      have hsplit : unread s = first :: rest := hsplit
      rw [hsplit] at hzero hunread
      have hfirst : first = 0 := hzero
      have hitems : s'.items = s.items := hsame ScpState.items
      refine ⟨?_, ?_, hitems, fun hs => hitems ▸ hs, hsame ScpState.exitStatus⟩
      · rw [List.append_nil]
        exact hsame ScpState.sent
      · rw [hunread, hsplit, hfirst]
        rfl
    next =>
      split at hrest
      · obtain ⟨message, t', -, hfail⟩ := exists_of_bind_run hrest
        cases hfail
      · cases hrest

theorem sent_countItem (h : countItem s = (.ok u, s')) : Sent [] 0 1 s s' := by
  have hrun : countItem s = (check (ensureEntryLimit (saturatingAdd s.items 1)) : ScpProgram Unit)
      { s with items := saturatingAdd s.items 1 } := rfl
  rw [hrun] at h
  obtain ⟨hlimit, rfl⟩ := of_check h
  rw [ensureEntryLimit] at hlimit
  split at hlimit
  next => cases hlimit
  next hle =>
    have hitems : saturatingAdd s.items 1 = s.items + 1 := by
      rw [saturatingAdd, maxDirectoryEntries] at hle
      rw [saturatingAdd]
      omega
    exact ⟨(List.append_nil _).symm, rfl, hitems, fun _ => Nat.le_of_not_lt hle, rfl⟩

theorem sent_sendReads : ∀ {reads : List Bytes} {s s' : ScpState}, sendReads reads s = (.ok u, s') →
    Sent reads.flatten 0 0 s s'
  | [], s, s', h => by
    obtain ⟨_, t, hcontrol, hread⟩ := exists_of_bind_run h
    exact (sent_outside hcontrol).trans (sent_outside hread)
  | data :: reads, s, s', h => by
    obtain ⟨_, t, hcontrol, h⟩ := exists_of_bind_run h
    obtain ⟨_, t', hread, h⟩ := exists_of_bind_run h
    obtain ⟨_, t'', hdata, h⟩ := exists_of_bind_run h
    obtain ⟨_, t''', hbytes, h⟩ := exists_of_bind_run h
    cases hbytes
    have hcounted : Sent [] 0 0 t'' { t'' with bytes := saturatingAdd t''.bytes data.length } :=
      .same rfl rfl rfl rfl
    exact (sent_outside hcontrol).trans ((sent_outside hread).trans ((sent_sendData hdata).trans
      (hcounted.trans (sent_sendReads h))))

theorem sent_nextEntry (h : nextEntry s = (.ok u, s')) : Sent [] 0 0 s s' := by
  obtain ⟨_, t, hentry, h⟩ := exists_of_bind_run h
  obtain ⟨_, t', hcontrol, h⟩ := exists_of_bind_run h
  exact (sent_outside hentry).trans ((sent_outside hcontrol).trans (sent_outside h))

theorem sent_openDirectory {name : List Char} (hrun : openDirectory name depth s = (.ok u, s')) :
    depth ≤ maxDirectoryDepth ∧ SafeName name ∧ Fits (directoryLine name) ∧
      Sent (utf8Bytes (directoryLine name) ++ [10]) 1 1 s s' := by
  obtain ⟨_, t, hdepth, h⟩ := exists_of_bind_run hrun
  rw [checkDepth] at hdepth
  split at hdepth
  next => cases hdepth
  next hle =>
    cases hdepth
    obtain ⟨_, hname, h⟩ := of_check_bind h
    obtain ⟨_, t₁, hline, h⟩ := exists_of_bind_run h
    obtain ⟨_, t₂, hresponse, h⟩ := exists_of_bind_run h
    obtain ⟨_, t₃, hcount, h⟩ := exists_of_bind_run h
    obtain ⟨hfits, hline⟩ := sent_sendControlLine hline
    refine ⟨Nat.le_of_not_lt hle, hname, hfits, ?_⟩
    exact (hline.trans ((sent_readResponse hresponse).trans ((sent_countItem hcount).trans
      (sent_outside h)))).cast (by simp) rfl rfl

theorem sent_closeDirectory (h : closeDirectory s = (.ok u, s')) : Sent [69, 10] 1 0 s s' := by
  obtain ⟨_, t, hline, h⟩ := exists_of_bind_run h
  exact (sent_sendControlLine hline).2.trans (sent_readResponse h)

theorem of_safeLocalFileName {name : Bytes} {text : List Char}
    (h : safeLocalFileName name = .ok text) : text = nameOf name ∧ SafeName text := by
  rw [safeLocalFileName] at h
  split at h
  next => cases h
  next text' htext =>
    obtain ⟨⟨⟩, hname, h⟩ := bind_eq_ok_iff.mp h
    cases h
    exact ⟨by rw [nameOf, htext]; rfl, hname⟩

/-- **What is sent for entries**, and what has been checked of them. -/
theorem sent_uploadEntries : ∀ {entries : LocalEntries} {depth : Nat} {s s' : ScpState},
    uploadEntries entries depth s = (.ok u, s') →
      entries.Sendable depth ∧ Sent entries.wire entries.answers entries.count s s'
  | .nil, _, _, _, h => ⟨trivial, sent_outside h⟩
  | .symlink _ _, _, _, _, h => by
    obtain ⟨_, t, -, h⟩ := exists_of_bind_run h
    cases h
  | .other name rest, depth, s, s', h => by
    obtain ⟨_, t, hentry, h⟩ := exists_of_bind_run h
    obtain ⟨_, -, h⟩ := of_check_bind h
    obtain ⟨hsendable, hrest⟩ := sent_uploadEntries h
    exact ⟨hsendable, ((sent_nextEntry hentry).trans hrest).cast rfl (Nat.zero_add _) (Nat.zero_add _)⟩
  | .directory name entries rest, depth, s, s', h => by
    obtain ⟨_, t, hentry, h⟩ := exists_of_bind_run h
    obtain ⟨text, hname, h⟩ := of_check_bind h
    obtain ⟨rfl, hsafe⟩ := of_safeLocalFileName hname
    obtain ⟨_, t₂, hopen, h⟩ := exists_of_bind_run h
    obtain ⟨_, t₃, hentries, h⟩ := exists_of_bind_run h
    obtain ⟨_, t₄, hclose, h⟩ := exists_of_bind_run h
    obtain ⟨hdepth, -, hfits, hopen⟩ := sent_openDirectory hopen
    obtain ⟨hinner, hentries⟩ := sent_uploadEntries hentries
    obtain ⟨hsendable, hrest⟩ := sent_uploadEntries h
    refine ⟨⟨hsafe, hfits, hdepth, hinner, hsendable⟩, ?_⟩
    refine ((sent_nextEntry hentry).trans (hopen.trans (hentries.trans
      ((sent_closeDirectory hclose).trans hrest)))).cast ?_ ?_ ?_
    · simp [LocalEntries.wire]
    · rw [LocalEntries.answers]
      omega
    · rw [LocalEntries.count]
      omega
  | .file name len reads rest, depth, s, s', h => by
    obtain ⟨_, t, hentry, h⟩ := exists_of_bind_run h
    obtain ⟨text, hname, h⟩ := of_check_bind h
    obtain ⟨rfl, hsafe⟩ := of_safeLocalFileName hname
    obtain ⟨_, t₂, hline, h⟩ := exists_of_bind_run h
    obtain ⟨_, t₃, hresponse, h⟩ := exists_of_bind_run h
    obtain ⟨_, t₄, hopened, h⟩ := exists_of_bind_run h
    obtain ⟨_, t₅, hreads, h⟩ := exists_of_bind_run h
    obtain ⟨_, t₆, hstatus, h⟩ := exists_of_bind_run h
    obtain ⟨_, t₇, hresponse', h⟩ := exists_of_bind_run h
    obtain ⟨_, t₈, hcount, h⟩ := exists_of_bind_run h
    obtain ⟨hfits, hline⟩ := sent_sendControlLine hline
    obtain ⟨hsendable, hrest⟩ := sent_uploadEntries h
    refine ⟨⟨hsafe, hfits, hsendable⟩, ?_⟩
    refine ((sent_nextEntry hentry).trans (hline.trans ((sent_readResponse hresponse).trans
      ((sent_outside hopened).trans ((sent_sendReads hreads).trans ((sent_sendData hstatus).trans
        ((sent_readResponse hresponse').trans ((sent_countItem hcount).trans hrest)))))))).cast ?_ ?_ ?_
    · simp [LocalEntries.wire]
    · rw [LocalEntries.answers]
      omega
    · rw [LocalEntries.count]
      omega

theorem sent_uploadDirectoryTree {rootName : List Char} {entries : LocalEntries}
    (hrun : uploadDirectoryTree rootName entries depth s = (.ok u, s')) :
    SafeName rootName ∧ Fits (directoryLine rootName) ∧ entries.Sendable depth ∧
      Sent (utf8Bytes (directoryLine rootName) ++ 10 :: (entries.wire ++ [69, 10]))
        (entries.answers + 2) (entries.count + 1) s s' := by
  obtain ⟨_, t, hopen, h⟩ := exists_of_bind_run hrun
  obtain ⟨_, t', hentries, hclose⟩ := exists_of_bind_run h
  obtain ⟨-, hsafe, hfits, hopen⟩ := sent_openDirectory hopen
  obtain ⟨hsendable, hentries⟩ := sent_uploadEntries hentries
  refine ⟨hsafe, hfits, hsendable, ?_⟩
  refine (hopen.trans (hentries.trans (sent_closeDirectory hclose))).cast (by simp) ?_ ?_
  · omega
  · omega

theorem sent_finish (h : finish s = (.ok u, s')) :
    (settled s).exitStatus = some 0 ∧ s'.sent = s.sent ∧ s'.items = s.items := by
  obtain ⟨_, t, hout, h⟩ := exists_of_bind_run h
  have hsame := sent_outside hout
  rw [← hsame.status, ← List.append_nil s.sent, ← hsame.sent, ← Nat.add_zero s.items, ← hsame.items]
  obtain ⟨_, t', hdrained, h⟩ := exists_of_bind_run h
  cases hdrained
  obtain ⟨status, t₁, hstatus, h⟩ := exists_of_bind_run h
  cases hstatus
  obtain ⟨_, t₂, hstderr, h⟩ := exists_of_bind_run h
  cases hstderr
  split at h
  next hzero =>
    cases h
    exact ⟨hzero, rfl, rfl⟩
  next => cases h

end Sender

/-! ## Uploads that end well -/

/-- What an upload that ends well has done. -/
structure Uploaded (rootName : List Char) (entries : LocalEntries) (messages : List ChannelMsg)
    (s : ScpState) : Prop where
  name : SafeName rootName ∧ Fits (directoryLine rootName)
  sendable : entries.Sendable 0
  sent : s.sent = utf8Bytes (directoryLine rootName) ++ 10 :: (entries.wire ++ [69, 10])
  items : s.items = entries.count + 1
  limit : s.items ≤ maxDirectoryEntries
  answers : List.replicate (entries.answers + 3) 0 <+: dataOf messages
  status : (drained messages ([], none)).2 = some 0

/-- **An upload that ends well has sent the directory and nothing else**, whatever happened outside:
every record was answered, no symbolic link was followed, and the remote end reported no failure. -/
theorem uploaded_as_encoded {rootName : List Char} {entries : LocalEntries}
    {messages : List ChannelMsg} {faults : List (Option String)}
    (h : (uploadDirectory rootName entries (start messages faults)).1 = .ok ()) :
    Uploaded rootName entries messages
      (uploadDirectory rootName entries (start messages faults)).2 := by
  rcases hrun : uploadDirectory rootName entries (start messages faults) with ⟨result, s⟩
  rw [hrun] at h
  cases h
  obtain ⟨_, t, hresponse, h⟩ := exists_of_bind_run hrun
  obtain ⟨_, t', htree, h⟩ := exists_of_bind_run h
  obtain ⟨_, t'', hout, hfinish⟩ := exists_of_bind_run h
  obtain ⟨hsafe, hfits, hsendable, htree⟩ := sent_uploadDirectoryTree htree
  obtain ⟨hstatus, hsent, hitems⟩ := sent_finish hfinish
  have hall := (sent_readResponse hresponse).trans (htree.trans (sent_outside hout))
  have hcount : t''.items = entries.count + 1 := by
    rw [hall.items]
    show 0 + (0 + (entries.count + 1 + 0)) = _
    omega
  refine
    { name := ⟨hsafe, hfits⟩
      sendable := hsendable
      sent := ?_
      items := hitems.trans hcount
      limit := hitems ▸ hall.limit (Nat.zero_le _)
      answers := ⟨unread t'', ?_⟩
      status := hall.status.symm.trans hstatus }
  · rw [hsent, hall.sent, List.append_nil]
    rfl
  · have hanswers := hall.answers
    rw [show 1 + (entries.answers + 2 + 0) = entries.answers + 3 by omega] at hanswers
    exact hanswers.symm

/-- A file in a directory, whose records are answered in two messages. -/
theorem uploaded_as_encoded_file :
    Uploaded ['a'] (.file [98] 1 [[7]] .nil) [.data [0, 0], .exitStatus 0, .data [0, 0, 0]]
      (uploadDirectory ['a'] (.file [98] 1 [[7]] .nil)
        (start [.data [0, 0], .exitStatus 0, .data [0, 0, 0]] [])).2 :=
  uploaded_as_encoded (by decide)

end OxideTerm.Sftp.Scp
