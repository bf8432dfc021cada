import OxideTerm.Ssh.Properties.KnownHostLines

/-!
# Editing known hosts

What is read back after a host was added, or the key of a host removed: nothing else changes, unless
the file ends within a line that the new line then continues, or the names that stay in a line begin
a comment.
-/

namespace OxideTerm.Ssh

open OxideTerm.Lib OxideTerm.Lib.Text

variable {Key : Type} {casing : Casing}

/-! ## Adding a host -/

/-- What stands behind the last line break. -/
def KnownHostsFile.lastPiece (file : KnownHostsFile) : List Char :=
  (file.text.splitOn '\n').getLast?.getD []

/-- What stands behind the last line break makes one word with the new host, and this word names the
host and no other. -/
def AddSafe (casing : Casing) (file : KnownHostsFile) (host : List Char) (port : UInt16) : Prop :=
  ∃ word, splitWhitespace (file.lastPiece ++ makeKey casing host port) = [word] ∧
    word.head? ≠ some '#' ∧ readNames casing word = [makeKey casing host port]

section Adding

variable {format : KeyFormat Key}

theorem exists_front (file : KnownHostsFile) : ∃ front,
    file.text.splitOn '\n' = front ++ [file.lastPiece] ∧ ∀ line, '\n' ∉ line →
      (file.text ++ (line ++ ['\n'])).splitOn '\n' = front ++ [file.lastPiece ++ line] ++ [[]] := by
  obtain ⟨front, last, hsplit⟩ := exists_lastPiece (· == '\n') file.text
  have hpieces : file.text.splitOn '\n' = front ++ [last] := by
    have hpieces := hsplit [] (by simp)
    rwa [List.append_nil, List.append_nil] at hpieces
  have hlast : file.lastPiece = last := by
    rw [KnownHostsFile.lastPiece, hpieces, List.getLast?_concat]
    rfl
  refine ⟨front, hlast ▸ hpieces, fun line hline => ?_⟩
  have hmore : ∀ x ∈ line, (x == '\n') = false := by
    intro x hx
    rw [beq_eq_false_iff_ne]
    rintro rfl
    exact hline hx
  rw [← List.append_assoc, List.splitOn_append_cons_self, List.splitOn_eq_splitOnP,
    hsplit line hmore, hlast]
  rfl

/-- What holds of the names of all types holds of the type of a key. -/
theorem publicKeyType_of_all (format : KeyFormat Key) (key : Key) {p : List Char → Bool}
    (h : [chars "ssh-ed25519", chars "ssh-rsa", chars "ecdsa-sha2-nistp256",
      chars "ecdsa-sha2-nistp384", chars "ecdsa-sha2-nistp521"].all p = true) :
    p (format.publicKeyType key) = true := by
  refine List.all_eq_true.mp h _ ?_
  rw [KeyFormat.publicKeyType]
  generalize chars "ssh-ed25519" = ed25519
  generalize chars "ssh-rsa" = rsa
  generalize chars "ecdsa-sha2-nistp256" = nistp256
  generalize chars "ecdsa-sha2-nistp384" = nistp384
  generalize chars "ecdsa-sha2-nistp521" = nistp521
  split_ifs <;> simp

theorem isWord_publicKeyType (format : KeyFormat Key) (key : Key) :
    IsWord (format.publicKeyType key) := by
  have hwords := publicKeyType_of_all format key
    (p := fun word => !word.isEmpty && word.all fun c => !isWhitespace c) (by unfold chars; rfl)
  simpa [IsWord] using hwords

/-- The type of a key is not the key. -/
theorem publicKeyType_ne_base64 (format : KeyFormat Key) (key : Key) :
    format.publicKeyType key ≠ format.publicKeyBase64 key := by
  have hheads := publicKeyType_of_all format key (p := fun word => word.head? != some 'A')
    (by unfold chars; rfl)
  obtain ⟨rest, hrest⟩ := format.base64_start key
  intro heq
  rw [heq, ← hrest] at hheads
  cases hheads

/-- What stands for a host is in lower case, so it is not a key. -/
theorem makeKey_ne_base64 (format : KeyFormat Key) (host : List Char) (port : UInt16) (key : Key) :
    makeKey casing host port ≠ format.publicKeyBase64 key := by
  obtain ⟨rest, hrest⟩ := format.base64_start key
  intro heq
  have hmem : 'A' ∈ makeKey casing host port := by
    rw [heq, ← hrest]
    simp
  have hlower : 'A' ∈ casing.toLowercase host := by
    by_cases hport : port = 22
    · subst hport
      rwa [makeKey_standard] at hmem
    · rw [makeKey_other hport] at hmem
      simp only [List.mem_cons, List.mem_append] at hmem
      rcases hmem with hmem | hmem | hmem | hmem | hmem
      · exact absurd hmem (by decide)
      · exact hmem
      · exact absurd hmem (by decide)
      · exact absurd hmem (by decide)
      · exact absurd (isDigit_of_mem_portText hmem) (by decide)
  have hsettled := (Casing.settled_of_mem hlower).1
  rw [casing.ascii 'A' (by decide)] at hsettled
  exact absurd hsettled (by decide)

/-- The line that is written for a host. -/
def knownLine (casing : Casing) (format : KeyFormat Key) (host : List Char) (port : UInt16)
    (key : Key) : List Char :=
  makeKey casing host port ++
    ' ' :: format.publicKeyType key ++ ' ' :: format.publicKeyBase64 key

theorem splitWhitespace_knownLine (last host : List Char) (port : UInt16) (key : Key) :
    splitWhitespace (last ++ knownLine casing format host port key) =
      splitWhitespace (last ++ makeKey casing host port) ++
        [format.publicKeyType key, format.publicKeyBase64 key] := by
  have hspace : isWhitespace ' ' = true := by decide
  rw [knownLine, ← List.append_assoc, ← List.append_assoc, splitWhitespace_append hspace,
    splitWhitespace_append hspace, splitWhitespace_word (isWord_publicKeyType format key),
    splitWhitespace_word (format.isWord_base64 key), List.append_assoc]
  rfl

theorem newline_notMem_knownLine {host : List Char} (hhost : HostName host) (port : UInt16)
    (key : Key) : '\n' ∉ knownLine casing format host port key := by
  have hnewline : ∀ {word : List Char}, (∀ c ∈ word, isWhitespace c = false) → '\n' ∉ word :=
    fun hword hmem => absurd (hword _ hmem) (by decide)
  simp only [knownLine, List.mem_append, List.mem_cons, not_or]
  exact ⟨⟨hnewline (isWhitespace_of_mem_makeKey hhost port), by decide,
    hnewline (isWord_publicKeyType format key).2⟩, by decide,
    hnewline (format.isWord_base64 key).2⟩

/-- The new line is read together with what stands behind the last line break. -/
theorem exists_hosts_addHost {host : List Char} (hhost : HostName host) (file : KnownHostsFile)
    (port : UInt16) (key : Key) (store : KnownHostsStore) : ∃ front,
    (KnownHostsStore.load casing file).hosts =
      front ++ KnownHostsStore.readLine casing file.lastPiece ∧
    (KnownHostsStore.load casing (store.addHost format casing file host port key).2).hosts =
      front ++ KnownHostsStore.readLine casing
        (file.lastPiece ++ knownLine casing format host port key) := by
  obtain ⟨front, hfile, hadded⟩ := exists_front file
  refine ⟨front.flatMap (KnownHostsStore.readLine casing), ?_, ?_⟩
  · rw [hosts_load, hfile, List.flatMap_append, List.flatMap_singleton]
  · have htext : (store.addHost format casing file host port key).2.text =
        file.text ++ (knownLine casing format host port key ++ ['\n']) := by
      show file.text ++ _ = _
      simp [knownLine]
    rw [hosts_load, htext, hadded _ (newline_notMem_knownLine hhost port key), List.flatMap_append,
      List.flatMap_append, List.flatMap_singleton, List.flatMap_singleton, readLine_nil,
      List.append_nil]

/-- The words of a line that ends with `last` and more. -/
def continued (words : List (List Char)) (last more : List Char) : List (List Char) :=
  words ++ if last ++ more = [] then [] else [last ++ more]

/-- Three words and a new line: one entry more is read only if there were no three words. -/
theorem readWords_continued_iff {words : List (List Char)} {last lookup keyType keyData : List Char}
    (htype : keyType ≠ keyData) (hlookup : lookup ≠ keyData) :
    readWords casing (continued words last lookup ++ [keyType, keyData]) =
      readWords casing (continued words last []) ++ [(lookup, ⟨keyType, keyData⟩)] ↔
      ∃ word, continued words last lookup = [word] ∧ word.head? ≠ some '#' ∧
        readNames casing word = [lookup] := by
  -- the entry is read with the type and the key of the new line
  have hentry : ∀ {names second third : List Char} {rest : List (List Char)}
      {before : List (List Char × HostKeyEntry)},
      readWords casing (names :: second :: third :: rest) =
        before ++ [(lookup, ⟨keyType, keyData⟩)] → second = keyType ∧ third = keyData := by
    intro names second third rest before h
    have hread := data_of_mem_readWords (h ▸ List.mem_append_right before (List.mem_singleton_self _))
    rw [HostKeyEntry.mk.injEq] at hread
    exact ⟨hread.1.symm, hread.2.symm⟩
  have hone : ∀ word : List Char,
      readWords casing ([word] ++ [keyType, keyData]) = [(lookup, ⟨keyType, keyData⟩)] ↔
        word.head? ≠ some '#' ∧ readNames casing word = [lookup] := by
    intro word
    show (if word.head? = some '#' then [] else _) = _ ↔ _
    split
    · next hcomment => exact ⟨fun h => (by cases h), fun h => absurd hcomment h.1⟩
    · next hcomment =>
      refine ⟨fun h => ⟨hcomment, ?_⟩, fun h => by rw [h.2]; rfl⟩
      have hnames := congrArg (List.map Prod.fst) h
      rwa [List.map_map, List.map_singleton, show (Prod.fst ∘ fun host =>
        (host, HostKeyEntry.mk keyType keyData)) = id from rfl, List.map_id] at hnames
  match words with
  | [] =>
    have hbefore : readWords casing (continued [] last []) = [] := by
      apply readWords_of_length
      rw [continued]
      split <;> simp
    rw [hbefore, List.nil_append, continued, List.nil_append]
    by_cases hnil : last ++ lookup = []
    · rw [if_pos hnil]
      exact ⟨fun h => (by cases h), fun ⟨_, h, _⟩ => (by cases h)⟩
    · rw [if_neg hnil, hone]
      exact ⟨fun h => ⟨_, rfl, h⟩, fun ⟨_, h, hword⟩ => (List.cons.inj h).1 ▸ hword⟩
  | [names] =>
    by_cases hnil : last ++ lookup = []
    · obtain ⟨hlast, -⟩ := List.append_eq_nil_iff.mp hnil
      have hbefore : readWords casing (continued [names] last []) = [] := by
        apply readWords_of_length
        rw [continued]
        split <;> simp
      rw [hbefore, List.nil_append, continued, if_pos hnil, List.append_nil, hone]
      exact ⟨fun h => ⟨_, rfl, h⟩, fun ⟨_, h, hword⟩ => (List.cons.inj h).1 ▸ hword⟩
    · rw [continued, if_neg hnil]
      refine ⟨fun h => absurd (hentry h).2 htype, fun ⟨_, h, _⟩ => ?_⟩
      cases (List.cons.inj h).2
  | [names, second] =>
    refine ⟨fun h => ?_, fun ⟨_, h, _⟩ => by cases (List.cons.inj h).2⟩
    by_cases hnil : last ++ lookup = []
    · rw [continued, if_pos hnil] at h
      exact absurd (hentry h).2 htype
    · rw [continued, if_neg hnil] at h
      cases last with
      | nil => exact absurd (hentry h).2 hlookup
      | cons c last =>
        have hlength := congrArg List.length h
        rw [continued, if_neg (by simp), List.length_append] at hlength
        simp only [List.cons_append, List.nil_append, length_readWords, List.length_singleton]
          at hlength
        omega
  | names :: second :: third :: rest =>
    refine ⟨fun h => ?_, fun ⟨_, h, _⟩ => by cases (List.cons.inj h).2⟩
    have hlength := congrArg List.length h
    rw [continued, continued, List.length_append] at hlength
    simp only [List.cons_append, length_readWords, List.length_singleton] at hlength
    omega

/-- **After a host was added, the file is read back as the store that was kept, unless the new line
continues another one.** -/
theorem load_addHost_iff {host : List Char} (hhost : HostName host) (file : KnownHostsFile)
    (port : UInt16) (key : Key) :
    KnownHostsStore.load casing
        ((KnownHostsStore.load casing file).addHost format casing file host port key).2 =
      ((KnownHostsStore.load casing file).addHost format casing file host port key).1 ↔
      AddSafe casing file host port := by
  obtain ⟨front, hbefore, hafter⟩ := @exists_hosts_addHost Key casing format _
    hhost file port key (KnownHostsStore.load casing file)
  obtain ⟨words, last, hwords⟩ := exists_lastWord file.lastPiece
  have hnone := hwords [] (by simp)
  have hmore := hwords _ (@isWhitespace_of_mem_makeKey casing _ hhost port)
  rw [List.append_nil] at hnone
  have hread : (KnownHostsStore.load casing
      ((KnownHostsStore.load casing file).addHost format casing file host port key).2).hosts =
        (KnownHostsStore.load casing file).hosts ++ [(makeKey casing host port,
          { keyType := format.publicKeyType key, keyData := format.publicKeyBase64 key })] ↔
      AddSafe casing file host port := by
    rw [hafter, hbefore, List.append_assoc, List.append_cancel_left_eq, readLine_eq, readLine_eq,
      splitWhitespace_knownLine, hnone, AddSafe, hmore]
    exact readWords_continued_iff (publicKeyType_ne_base64 format key)
      (makeKey_ne_base64 format host port key)
  rw [KnownHostsStore.ext_iff]
  exact hread

end Adding

/-! ## What is looked up -/

section Lookup

variable {format : KeyFormat Key}

/-- A key that is among the entries is verified. -/
theorem check_eq_verified {keyType keyData fingerprint : List Char} : ∀ {entries : List HostKeyEntry}
    (expected : Option (List Char)), ⟨keyType, keyData⟩ ∈ entries →
      checkKnownHostEntriesFrom format expected keyType keyData fingerprint entries = some .verified
  | [], _, h => by cases h
  | entry :: entries, expected, h => by
    rw [checkKnownHostEntriesFrom]
    rcases List.mem_cons.mp h with rfl | h
    · rw [if_neg (by simp), if_pos rfl]
    · split
      · exact check_eq_verified expected h
      · split
        · rfl
        · exact check_eq_verified _ h

theorem mem_of_check {keyType keyData fingerprint : List Char} :
    ∀ {entries : List HostKeyEntry} {expected : Option (List Char)},
      checkKnownHostEntriesFrom format expected keyType keyData fingerprint entries =
        some .verified → ⟨keyType, keyData⟩ ∈ entries
  | [], expected, h => by
    cases expected <;> cases h
  | entry :: entries, expected, h => by
    rw [checkKnownHostEntriesFrom] at h
    split at h
    · exact List.mem_cons_of_mem _ (mem_of_check h)
    · next htype =>
      split at h
      · next hdata =>
        rw [← not_not.mp htype, ← hdata]
        exact List.mem_cons_self
      · exact List.mem_cons_of_mem _ (mem_of_check h)

namespace KnownHostsStore

/-- The entries that are looked up, if there are some. -/
def entriesOf (store : KnownHostsStore) (key : List Char) : List HostKeyEntry :=
  (store.hosts.filter fun host => host.1 = key).map Prod.snd

theorem get_eq_some_iff {store : KnownHostsStore} {key : List Char} {entries : List HostKeyEntry} :
    store.get key = some entries ↔ store.entriesOf key = entries ∧ entries ≠ [] := by
  rw [get, ← entriesOf]
  cases store.entriesOf key with
  | nil => exact ⟨fun h => (by cases h), fun h => absurd h.1.symm h.2⟩
  | cons entry rest =>
    rw [Option.some.injEq]
    exact ⟨fun h => ⟨h, h ▸ List.cons_ne_nil _ _⟩, fun h => h.1⟩

theorem get_congr {store store' : KnownHostsStore} {key : List Char}
    (h : store.entriesOf key = store'.entriesOf key) : store.get key = store'.get key := by
  rw [get, get, ← entriesOf, ← entriesOf, h]

theorem mem_entriesOf {store : KnownHostsStore} {key : List Char} {entry : HostKeyEntry} :
    entry ∈ store.entriesOf key ↔ (key, entry) ∈ store.hosts := by
  rw [entriesOf]
  simp

/-- What is verified depends on two lookups. -/
theorem verify_congr {store store' : KnownHostsStore} {host : List Char} {port : UInt16}
    (hkey : store.entriesOf (makeKey casing host port) = store'.entriesOf (makeKey casing host port))
    (hbare : store.entriesOf (casing.toLowercase host) = store'.entriesOf (casing.toLowercase host))
    (key : Key) : store.verify format casing host port key =
      store'.verify format casing host port key := by
  rw [verify, verify, get_congr hkey, get_congr hbare]

theorem verify_of_mem {store : KnownHostsStore} {host : List Char} {port : UInt16} {key : Key}
    (h : (makeKey casing host port, ⟨format.publicKeyType key, format.publicKeyBase64 key⟩) ∈
      store.hosts) : store.verify format casing host port key = .verified := by
  have hmem := mem_entriesOf.mpr h
  have hget : store.get (makeKey casing host port) =
      some (store.entriesOf (makeKey casing host port)) :=
    get_eq_some_iff.mpr ⟨rfl, List.ne_nil_of_mem hmem⟩
  rw [verify, hget]
  dsimp only
  rw [checkKnownHostEntries, check_eq_verified none hmem]

theorem mem_of_verify {store : KnownHostsStore} {host : List Char} {port : UInt16} {key : Key}
    (h : store.verify format casing host port key = .verified) :
    ∃ lookup, (lookup = makeKey casing host port ∨ lookup = casing.toLowercase host) ∧
      (lookup, ⟨format.publicKeyType key, format.publicKeyBase64 key⟩) ∈ store.hosts := by
  have hfound : ∀ {lookup : List Char} {entries : List HostKeyEntry},
      store.get lookup = some entries →
      checkKnownHostEntries format entries (format.publicKeyType key) (format.publicKeyBase64 key)
        (format.publicKeyFingerprint key) = some .verified →
      (lookup, ⟨format.publicKeyType key, format.publicKeyBase64 key⟩) ∈ store.hosts := by
    intro lookup entries hget hcheck
    rw [← mem_entriesOf, (get_eq_some_iff.mp hget).1]
    exact mem_of_check hcheck
  rw [verify] at h
  split at h
  · next entries hget =>
    split at h
    · next result hresult => exact ⟨_, .inl rfl, hfound hget (h ▸ hresult)⟩
    · cases h
  · split at h
    · next entries hget =>
      split at h
      · next result hresult => exact ⟨_, .inr rfl, hfound hget (h ▸ hresult)⟩
      · cases h
    · cases h

end KnownHostsStore

end Lookup

/-! ## The file without a key -/

section Removing

variable {format : KeyFormat Key}

theorem filter_sublist_filterMap {α : Type*} {f : α → Option α} {p : α → Bool} :
    ∀ {items : List α}, (∀ a ∈ items, p a = true → f a = some a) →
      (items.filter p).Sublist (items.filterMap f)
  | [], _ => .slnil
  | a :: items, h => by
    obtain ⟨ha, hitems⟩ := List.forall_mem_cons.mp h
    have ih := filter_sublist_filterMap hitems
    cases hp : p a with
    | true =>
      rw [List.filter_cons_of_pos hp, List.filterMap_cons_some (ha hp)]
      exact ih.cons_cons a
    | false =>
      rw [List.filter_cons_of_neg (by simp [hp])]
      cases hf : f a with
      | none => rwa [List.filterMap_cons_none hf]
      | some b =>
        rw [List.filterMap_cons_some hf]
        exact ih.cons b

/-- If nowhere more is counted, and the same overall, then everywhere the same is counted. -/
theorem countP_eq_of_flatMap_eq {α β : Type*} {p : β → Bool} {f g : α → List β} :
    ∀ {items : List α}, (∀ a ∈ items, (f a).countP p ≤ (g a).countP p) →
      items.flatMap f = items.flatMap g → ∀ a ∈ items, (f a).countP p = (g a).countP p := by
  intro items hle heq
  have hcount : ∀ items : List α, (∀ a ∈ items, (f a).countP p ≤ (g a).countP p) →
      (items.flatMap f).countP p ≤ (items.flatMap g).countP p ∧
        ((items.flatMap f).countP p = (items.flatMap g).countP p →
          ∀ a ∈ items, (f a).countP p = (g a).countP p) := by
    intro items hle
    induction items with
    | nil => exact ⟨Nat.le_refl _, fun _ a ha => (by cases ha)⟩
    | cons a items ih =>
      obtain ⟨ha, hitems⟩ := List.forall_mem_cons.mp hle
      obtain ⟨hrest, hsame⟩ := ih hitems
      rw [List.flatMap_cons, List.flatMap_cons, List.countP_append, List.countP_append]
      refine ⟨Nat.add_le_add ha hrest, fun htotal => ?_⟩
      rw [List.forall_mem_cons]
      exact ⟨by omega, hsame (by omega)⟩
  exact (hcount items hle).2 (by rw [heq])

variable {casing : Casing} {removeHosts : List (List Char)} {keyType fingerprint : List Char}

/-- The lines that are written. -/
def writtenLines (format : KeyFormat Key) (casing : Casing) (removeHosts : List (List Char))
    (keyType fingerprint content : List Char) : List (List Char) :=
  (lines content).filterMap fun line =>
    (rewriteLine format casing removeHosts keyType fingerprint line).1

theorem newline_notMem_writtenLines {content line : List Char}
    (h : line ∈ writtenLines format casing removeHosts keyType fingerprint content) :
    '\n' ∉ line := by
  obtain ⟨source, hsource, hline⟩ := List.mem_filterMap.mp h
  rcases @rewriteLine_cases Key format casing removeHosts keyType fingerprint source with
    ⟨hsame, -⟩ | ⟨names, keyData, rest, hwords, -, -, hrebuilt⟩
  · rw [hsame] at hline
    cases hline
    exact newline_notMem_of_mem_lines hsource
  · rw [hrebuilt] at hline
    dsimp only at hline
    split at hline
    · cases hline
    · have hword : ∀ word ∈ names :: keyType :: keyData :: rest, IsWord word := fun word hword =>
        isWord_of_mem (hwords ▸ hword)
      have hnewline : ¬ isWhitespace '\n' = false := by decide
      cases hline
      intro hmem
      obtain h | ⟨word, hmem, h⟩ := mem_of_mem_intercalate hmem
      · exact absurd h (by decide)
      · rcases List.mem_cons.mp hmem with rfl | hmem
        · exact hnewline (isWhitespace_of_mem_kept (hword names List.mem_cons_self) _ h)
        · exact hnewline ((hword word (List.mem_cons_of_mem _ hmem)).2 _ h)

/-- The text that is written, between its line breaks. -/
theorem splitOn_written (written : List (List Char)) (h : ∀ line ∈ written, '\n' ∉ line) :
    (['\n'].intercalate written ++ ['\n']).splitOn '\n' =
      if written = [] then [[], []] else written ++ [[]] := by
  rw [List.splitOn_append_cons_self]
  split
  · next hnil =>
    rw [hnil]
    rfl
  · next hne =>
    rw [List.splitOn_intercalate '\n' h hne]
    rfl

theorem lines_load (file : KnownHostsFile) : (KnownHostsStore.load casing file).hosts =
    (lines file.text).flatMap (KnownHostsStore.readLine casing) := by
  cases file <;> rfl

variable {host : List Char} {port : UInt16}

theorem toLower_of_isDigit {c : Char} (h : c.isDigit = true) :
    c.toNat < 128 ∧ c.toLower = c := by
  have hdigits : ∀ n < 58, 48 ≤ n → (Char.ofNat n).toLower = Char.ofNat n := by decide
  rw [Char.isDigit, Bool.and_eq_true, decide_eq_true_eq, decide_eq_true_eq] at h
  have hlow := UInt32.le_iff_toNat_le.mp h.1
  have hhigh := UInt32.le_iff_toNat_le.mp h.2
  change 48 ≤ c.toNat at hlow
  change c.toNat ≤ 57 at hhigh
  have hlower := hdigits c.toNat (by omega) hlow
  rw [Char.ofNat_toNat] at hlower
  exact ⟨by omega, hlower⟩

theorem toLowercase_makeKey (host : List Char) (port : UInt16) :
    casing.toLowercase (makeKey casing host port) = makeKey casing host port := by
  have hlower : ∀ c ∈ casing.toLowercase host, casing.Settled c := fun c hc =>
    Casing.settled_of_mem hc
  refine Casing.toLowercase_eq_self fun c hc => ?_
  by_cases hport : port = 22
  · subst hport
    rw [makeKey_standard] at hc
    exact hlower c hc
  · rw [makeKey_other hport] at hc
    simp only [List.mem_cons, List.mem_append] at hc
    rcases hc with rfl | hc | rfl | rfl | hc
    · exact Casing.settled_of_ascii (by decide) (by decide)
    · exact hlower c hc
    · exact Casing.settled_of_ascii (by decide) (by decide)
    · exact Casing.settled_of_ascii (by decide) (by decide)
    · obtain ⟨hascii, hdigit⟩ := toLower_of_isDigit (isDigit_of_mem_portText hc)
      exact Casing.settled_of_ascii hascii hdigit

theorem removedLookupKeys_eq (hhost : HostName host) (port : UInt16) :
    removedLookupKeys casing host port =
      if casing.toLowercase host ≠ makeKey casing host port then
        [makeKey casing host port, casing.toLowercase host]
      else [makeKey casing host port] := by
  rw [removedLookupKeys, normalizeHostname_eq hhost]

theorem mem_removedLookupKeys (hhost : HostName host) {lookup : List Char} :
    lookup ∈ removedLookupKeys casing host port ↔
      lookup = makeKey casing host port ∨ lookup = casing.toLowercase host := by
  rw [removedLookupKeys_eq hhost]
  split
  · rw [List.mem_cons, List.mem_singleton]
  · next heq =>
    rw [List.mem_singleton, not_not.mp heq, or_self]

theorem map_removedLookupKeys (hhost : HostName host) :
    (removedLookupKeys casing host port).map casing.toLowercase =
      removedLookupKeys casing host port := by
  rw [removedLookupKeys_eq hhost]
  split <;> simp [toLowercase_makeKey, Casing.toLowercase_toLowercase]

theorem bar_notMem_removedLookupKeys (hhost : HostName host) :
    ∀ lookup ∈ removedLookupKeys casing host port, '|' ∉ lookup := by
  intro lookup hlookup
  rcases (mem_removedLookupKeys hhost).mp hlookup with rfl | rfl
  · exact notMem_makeKey hhost port (by simp)
  · exact hhost.toLowercase.notMem (by simp)

/-- The file after the key was removed. -/
def withoutKey (format : KeyFormat Key) (casing : Casing) (file : KnownHostsFile) (host : List Char)
    (port : UInt16) (keyType fingerprint : List Char) : KnownHostsFile :=
  (KnownHostsStore.removeHostKey format casing file host port keyType fingerprint).2

theorem withoutKey_some (hhost : HostName host) (content : List Char) :
    withoutKey format casing (some content) host port keyType fingerprint =
      some (['\n'].intercalate (writtenLines format casing (removedLookupKeys casing host port)
        keyType fingerprint content) ++ ['\n']) := by
  have hfile : withoutKey format casing (some content) host port keyType fingerprint =
      (rewriteWithoutHostKey format casing (some content) (removedLookupKeys casing host port)
        keyType fingerprint).2 := by
    rw [withoutKey, KnownHostsStore.removeHostKey]
    split <;> rfl
  rw [hfile, rewriteWithoutHostKey]
  dsimp only
  rw [map_removedLookupKeys hhost, List.filterMap_map]
  rfl

/-- What is read from the file is read from the lines that are written. -/
theorem hosts_withoutKey (hhost : HostName host) (file : KnownHostsFile) :
    (KnownHostsStore.load casing
      (withoutKey format casing file host port keyType fingerprint)).hosts =
      (lines file.text).flatMap (rewrittenReads format casing (removedLookupKeys casing host port)
        keyType fingerprint) := by
  cases file with
  | none => rfl
  | some content =>
    have hwritten : (writtenLines format casing (removedLookupKeys casing host port) keyType
        fingerprint content).flatMap (KnownHostsStore.readLine casing) =
        (lines content).flatMap (rewrittenReads format casing (removedLookupKeys casing host port)
          keyType fingerprint) := by
      rw [writtenLines]
      induction lines content with
      | nil => rfl
      | cons line rest ih =>
        rw [List.flatMap_cons, ← ih, rewrittenReads]
        cases hline : (rewriteLine format casing (removedLookupKeys casing host port) keyType
          fingerprint line).1 with
        | none =>
          rw [List.filterMap_cons, hline]
          rfl
        | some rewritten =>
          rw [List.filterMap_cons, hline]
          rfl
    rw [withoutKey_some hhost, hosts_load]
    show ((['\n'].intercalate _ ++ ['\n']).splitOn '\n').flatMap _ = _
    rw [splitOn_written _ fun line hline => newline_notMem_writtenLines hline,
      show KnownHostsFile.text (some content) = content from rfl, ← hwritten]
    split
    · next hnil =>
      rw [hnil]
      rfl
    · rw [List.flatMap_append, List.flatMap_singleton, readLine_nil, List.append_nil]

/-- What the file reads and has as lines, without the key. -/
def ReadsWithoutKey (format : KeyFormat Key) (casing : Casing) (file : KnownHostsFile)
    (host : List Char) (port : UInt16) (keyType fingerprint : List Char) : Prop :=
  (KnownHostsStore.load casing
      (withoutKey format casing file host port keyType fingerprint)).hosts =
    (KnownHostsStore.load casing file).hosts.filter (fun read =>
      !isRemoved format (removedLookupKeys casing host port) keyType fingerprint read) ∧
  ((lines file.text).filter fun line => !namesRemoved format casing
      (removedLookupKeys casing host port) keyType fingerprint line).Sublist
    ((withoutKey format casing file host port keyType fingerprint).text.splitOn '\n')

/-- Nothing goes wrong with any line. -/
def RemoveSafe (format : KeyFormat Key) (casing : Casing) (file : KnownHostsFile)
    (host : List Char) (port : UInt16) (keyType fingerprint : List Char) : Prop :=
  ∀ line ∈ lines file.text,
    LineSafe format casing (removedLookupKeys casing host port) keyType fingerprint line

theorem readsWithoutKey_of_safe (hhost : HostName host) {file : KnownHostsFile}
    (hsafe : RemoveSafe format casing file host port keyType fingerprint) :
    ReadsWithoutKey format casing file host port keyType fingerprint := by
  constructor
  · rw [hosts_withoutKey hhost, lines_load, List.filter_flatMap]
    exact List.flatMap_congr fun line hline => rewrittenReads_of_safe (hsafe line hline)
  · cases file with
    | none => exact List.nil_sublist _
    | some content =>
      rw [withoutKey_some hhost]
      show List.Sublist _ ((['\n'].intercalate _ ++ ['\n']).splitOn '\n')
      rw [splitOn_written _ fun line hline => newline_notMem_writtenLines hline]
      have hkept : ((lines content).filter fun line => !namesRemoved format casing
          (removedLookupKeys casing host port) keyType fingerprint line).Sublist
          (writtenLines format casing (removedLookupKeys casing host port) keyType fingerprint
            content) :=
        filter_sublist_filterMap fun line hline hnamed =>
          rewriteLine_of_not_named (bar_notMem_removedLookupKeys hhost) (hsafe line hline)
            (by simpa using hnamed)
      split
      · next hnil =>
        rw [hnil] at hkept
        exact hkept.trans (List.nil_sublist _)
      · exact hkept.trans (List.sublist_append_left _ _)

/-- A line from which something is removed is not written again. -/
theorem notMem_written_of_edited
    (htype : format.fingerprintFromKnownHostsKeyData keyType ≠ fingerprint) {content line : List Char}
    (hedited : (rewriteLine format casing removeHosts keyType fingerprint line).2 = true) :
    line ∉ writtenLines format casing removeHosts keyType fingerprint content := by
  intro hmem
  obtain ⟨source, -, hline⟩ := List.mem_filterMap.mp hmem
  rw [rewriteLine_idem htype hline] at hedited
  cases hedited

theorem safe_of_readsWithoutKey (hhost : HostName host) {file : KnownHostsFile}
    (htype : format.fingerprintFromKnownHostsKeyData keyType ≠ fingerprint)
    (h : ReadsWithoutKey format casing file host port keyType fingerprint) :
    RemoveSafe format casing file host port keyType fingerprint := by
  obtain ⟨hhosts, hlines⟩ := h
  -- a comment is kept
  have hcomment : ∀ line ∈ lines file.text, ∀ names keyData rest,
      splitWhitespace line = names :: keyType :: keyData :: rest →
      format.fingerprintFromKnownHostsKeyData keyData = fingerprint →
      (keptHostnames casing (removedLookupKeys casing host port) names).length ≠
        (split ',' names).length → names.head? ≠ some '#' := by
    intro line hline names keyData rest hwords hfingerprint hlength hhash
    have hreads : KnownHostsStore.readLine casing line = [] := by
      rw [readLine_eq, hwords, readWords, if_pos hhash]
    have hedited : (rewriteLine format casing (removedLookupKeys casing host port) keyType
        fingerprint line).2 = true := by
      rw [rewriteLine, hwords]
      dsimp only
      rw [if_neg (by simp [hfingerprint]), if_neg hlength]
      split <;> rfl
    have hmem := hlines.subset (List.mem_filter.mpr ⟨hline, by rw [namesRemoved, hreads]; rfl⟩)
    cases file with
    | none => cases hline
    | some content =>
      rw [withoutKey_some hhost] at hmem
      change line ∈ (['\n'].intercalate _ ++ ['\n']).splitOn '\n' at hmem
      rw [splitOn_written _ fun line hline => newline_notMem_writtenLines hline] at hmem
      have hnil : line ≠ [] := by
        rintro rfl
        cases hwords
      have hnot : line ∉ writtenLines format casing (removedLookupKeys casing host port) keyType
          fingerprint content := notMem_written_of_edited htype hedited
      split at hmem
      · simp [hnil] at hmem
      · rcases List.mem_append.mp hmem with hmem | hmem
        · exact hnot hmem
        · exact hnil (List.mem_singleton.mp hmem)
  rw [hosts_withoutKey hhost, lines_load, List.filter_flatMap] at hhosts
  -- where names are lost, less is read
  have hcount := @countP_eq_of_flatMap_eq _ _
    (fun read => matchesKey format keyType fingerprint read.2)
    ( rewrittenReads format casing (removedLookupKeys casing host port) keyType fingerprint)
    (fun line => (KnownHostsStore.readLine casing line).filter fun read =>
      !isRemoved format (removedLookupKeys casing host port) keyType fingerprint read)
  have hread : ∀ line ∈ lines file.text,
      LineSafe format casing (removedLookupKeys casing host port) keyType fingerprint line ∨
      (rewrittenReads format casing (removedLookupKeys casing host port) keyType fingerprint
        line).countP (fun read => matchesKey format keyType fingerprint read.2) <
      ((KnownHostsStore.readLine casing line).filter fun read =>
        !isRemoved format (removedLookupKeys casing host port) keyType fingerprint read).countP
          (fun read => matchesKey format keyType fingerprint read.2) := by
    intro line hline
    refine or_iff_not_imp_left.mpr fun hunsafe => ?_
    simp only [LineSafe, not_forall] at hunsafe
    obtain ⟨names, keyData, rest, hwords, hfingerprint, hlength, hwrong⟩ := hunsafe
    have hnames := hcomment line hline names keyData rest hwords hfingerprint hlength
    rw [not_and, not_or] at hwrong
    obtain ⟨hnil, hread⟩ := hwrong hnames
    exact reads_lost_of_not_readable htype hwords hfingerprint hlength hnames hnil hread
  have hsame := hcount (fun line hline => ?_) hhosts
  · intro line hline
    rcases hread line hline with hsafe | hlost
    · exact hsafe
    · rw [hsame line hline] at hlost
      exact absurd hlost (Nat.lt_irrefl _)
  · rcases hread line hline with hsafe | hlost
    · rw [rewrittenReads_of_safe hsafe]
    · exact Nat.le_of_lt hlost

/-- **The file is read without the key, and has its other lines, unless something goes wrong.** -/
theorem readsWithoutKey_iff (hhost : HostName host) (file : KnownHostsFile)
    (htype : format.fingerprintFromKnownHostsKeyData keyType ≠ fingerprint) :
    ReadsWithoutKey format casing file host port keyType fingerprint ↔
      RemoveSafe format casing file host port keyType fingerprint :=
  ⟨safe_of_readsWithoutKey hhost htype, readsWithoutKey_of_safe hhost⟩

end Removing

/-! ## What is verified after an edit -/

section Edits

variable (format : KeyFormat Key) (casing : Casing) (file : KnownHostsFile) (host : List Char)
  (port : UInt16)

/-- The file with a host more. -/
def withHost (key : Key) : KnownHostsFile :=
  ((KnownHostsStore.load casing file).addHost format casing file host port key).2

/-- Every other host verifies as before. -/
def OthersVerifyAsBefore (after : KnownHostsFile) : Prop :=
  ∀ other, HostName other → casing.toLowercase other ≠ casing.toLowercase host →
    ∀ (port' : UInt16) (key' : Key),
      (KnownHostsStore.load casing after).verify format casing other port' key' =
        (KnownHostsStore.load casing file).verify format casing other port' key'

/-- Adding a host adds it, and nothing else. -/
structure AddKeeps (key : Key) : Prop where
  verified : (KnownHostsStore.load casing (withHost format casing file host port key)).verify format
    casing host port key = .verified
  others : OthersVerifyAsBefore format casing file host (withHost format casing file host port key)

/-- Removing a key removes it from the host, and nothing else. -/
structure RemoveKeeps (keyType fingerprint : List Char) : Prop where
  removed : ∀ key, format.publicKeyType key = keyType →
    format.publicKeyFingerprint key = fingerprint →
      (KnownHostsStore.load casing
        (withoutKey format casing file host port keyType fingerprint)).verify format casing host port
          key ≠ .verified
  others : OthersVerifyAsBefore format casing file host
    (withoutKey format casing file host port keyType fingerprint)
  lines : ((lines file.text).filter fun line => !namesRemoved format casing
      (removedLookupKeys casing host port) keyType fingerprint line).Sublist
    ((withoutKey format casing file host port keyType fingerprint).text.splitOn '\n')

variable {format casing file host port}

/-- Others are looked up elsewhere. -/
theorem othersVerifyAsBefore_of_entries (hhost : HostName host) {after : KnownHostsFile}
    (h : ∀ lookup, lookup ≠ makeKey casing host port → lookup ≠ casing.toLowercase host →
      (KnownHostsStore.load casing after).entriesOf lookup =
        (KnownHostsStore.load casing file).entriesOf lookup) :
    OthersVerifyAsBefore format casing file host after := by
  intro other hother hne port' key'
  have hbare : ∀ port'', makeKey casing other port'' ≠ casing.toLowercase host := fun port'' => by
    rw [← makeKey_standard]
    exact makeKey_ne hhost hother hne 22 port''
  have hstandard := makeKey_standard casing other
  refine KnownHostsStore.verify_congr (h _ (makeKey_ne hhost hother hne port port') (hbare port')) ?_
    key'
  refine h _ ?_ hne
  rw [← hstandard]
  exact makeKey_ne hhost hother hne port 22

theorem addKeeps_of_safe (hhost : HostName host) (h : AddSafe casing file host port) (key : Key) :
    AddKeeps format casing file host port key := by
  have hload := (@load_addHost_iff Key casing format host hhost file port key).mpr h
  have hhosts : (KnownHostsStore.load casing (withHost format casing file host port key)).hosts =
      (KnownHostsStore.load casing file).hosts ++ [(makeKey casing host port,
        ⟨format.publicKeyType key, format.publicKeyBase64 key⟩)] :=
    congrArg KnownHostsStore.hosts hload
  constructor
  · apply KnownHostsStore.verify_of_mem
    rw [hhosts]
    exact List.mem_append_right _ (List.mem_singleton_self _)
  · refine @othersVerifyAsBefore_of_entries Key format casing file host port hhost _ fun lookup hlookup _ => ?_
    rw [KnownHostsStore.entriesOf, hhosts, List.filter_append,
      List.filter_singleton, decide_eq_false hlookup.symm]
    exact congrArg _ (List.append_nil _)

theorem removeKeeps_of_safe (hhost : HostName host) {keyType fingerprint : List Char}
    (h : RemoveSafe format casing file host port keyType fingerprint) :
    RemoveKeeps format casing file host port keyType fingerprint := by
  obtain ⟨hhosts, hlines⟩ := readsWithoutKey_of_safe hhost h
  refine ⟨fun key htype hfingerprint hverified => ?_, ?_, hlines⟩
  · obtain ⟨lookup, hlookup, hmem⟩ := KnownHostsStore.mem_of_verify hverified
    rw [hhosts, List.mem_filter, Bool.not_eq_true', isRemoved_iff] at hmem
    · rw [List.contains_iff_mem.mpr ((mem_removedLookupKeys hhost).mpr hlookup)] at hmem
      cases hmem.2
    · rw [matchesKey, decide_eq_true_iff]
      refine ⟨htype, ?_⟩
      have hparse := format.fingerprint_parse key
      rw [KeyFormat.fingerprintFromKnownHostsKeyData]
      obtain ⟨parsed, hparsed, hsame⟩ := Option.map_eq_some_iff.mp hparse
      rw [hparsed]
      exact hsame.trans hfingerprint
  · refine @othersVerifyAsBefore_of_entries Key format casing file host port hhost _ fun lookup hkey hbare => ?_
    rw [KnownHostsStore.entriesOf, KnownHostsStore.entriesOf, hhosts, List.filter_filter]
    congr 1
    refine List.filter_congr fun read _ => ?_
    by_cases hread : read.1 = lookup
    · have hout : read.1 ∉ removedLookupKeys casing host port := by
        rw [mem_removedLookupKeys hhost, hread]
        exact fun hor => hor.elim hkey hbare
      rw [isRemoved, List.contains_eq_mem, decide_eq_false hout, Bool.false_and]
      simp
    · simp [hread]

end Edits

/-! ## Concrete keys -/

/-- The lower case of ASCII and of the sigma. -/
def asciiLower (c : Char) : List Char :=
  if c.toNat < 128 then [c.toLower] else if c = 'Σ' then ['σ'] else [c]

theorem toLower_ascii {c : Char} (hc : c.toNat < 128) :
    c.toLower.toNat < 128 ∧ c.toLower.toLower = c.toLower ∧
      (c.toLower.isAlpha = false → c.toLower = c) ∧
      (isWhitespace c.toLower = true → c.toLower = c) := by
  have hall : ∀ n < 128, (Char.ofNat n).toLower.toNat < 128 ∧
      (Char.ofNat n).toLower.toLower = (Char.ofNat n).toLower ∧
      ((Char.ofNat n).toLower.isAlpha = false → (Char.ofNat n).toLower = Char.ofNat n) ∧
      (isWhitespace (Char.ofNat n).toLower = true → (Char.ofNat n).toLower = Char.ofNat n) := by
    decide +kernel
  have hc := hall c.toNat hc
  rwa [Char.ofNat_toNat] at hc

def asciiCasing : Casing where
  lower := asciiLower
  cased := Char.isAlpha
  caseIgnorable _ := false
  nonempty c := by
    unfold asciiLower
    split_ifs <;> exact List.cons_ne_nil _ _
  settled := by
    intro c x hx
    unfold asciiLower at hx ⊢
    split_ifs at hx with hascii hsigma
    · obtain rfl := List.mem_singleton.mp hx
      obtain ⟨hlt, hidem, -⟩ := toLower_ascii hascii
      rw [if_pos hlt, hidem]
      refine ⟨rfl, fun h => ?_⟩
      rw [h] at hlt
      exact absurd hlt (by decide)
    · obtain rfl := List.mem_singleton.mp hx
      decide
    · obtain rfl := List.mem_singleton.mp hx
      rw [if_neg hascii, if_neg hsigma]
      exact ⟨rfl, hsigma⟩
  sigma := by decide
  finalSigma := by decide
  ascii c hc := if_pos hc
  mark := by
    intro c x hx hlt halpha
    unfold asciiLower at hx
    split_ifs at hx with hascii hsigma
    · obtain rfl := List.mem_singleton.mp hx
      exact (toLower_ascii hascii).2.2.1 halpha
    · obtain rfl := List.mem_singleton.mp hx
      exact absurd hlt (by decide)
    · exact List.mem_singleton.mp hx
  whitespace := by
    intro c x hx hspace
    unfold asciiLower at hx
    split_ifs at hx with hascii hsigma
    · obtain rfl := List.mem_singleton.mp hx
      exact (toLower_ascii hascii).2.2.2 hspace
    · obtain rfl := List.mem_singleton.mp hx
      exact absurd hspace (by decide)
    · exact List.mem_singleton.mp hx

/-- The base64 of two keys. -/
def twoKeysBase64 (key : Bool) : List Char :=
  if key then ['A', 'A', 'A', 'A', 'C', '1'] else ['A', 'A', 'A', 'A', 'C', '2']

def twoKeys : KeyFormat Bool where
  algorithm _ := chars "ssh-ed25519"
  publicKeyBase64 := twoKeysBase64
  publicKeyFingerprint key := ['S', 'H', 'A', '2', '5', '6', ':', if key then '1' else '2']
  parsePublicKeyBase64 data :=
    if data = twoKeysBase64 true then some true
    else if data = twoKeysBase64 false then some false
    else none
  isWord_base64 key := by
    have hchars : ((twoKeysBase64 key).all fun c => !isWhitespace c) = true := by cases key <;> rfl
    refine ⟨by cases key <;> decide, fun c hc => ?_⟩
    simpa using List.all_eq_true.mp hchars c hc
  base64_start key := by cases key <;> decide
  fingerprint_parse key := by cases key <;> decide +kernel

/-! ## Main result -/

/-- **Edits touch the named key alone, unless lines go wrong.** Adding is right exactly if the new
line is read as a line of its own, removing if no name that stays becomes part of a comment. -/
theorem knownHosts_edits_iff (format : KeyFormat Key) (casing : Casing) (file : KnownHostsFile)
    (host : List Char) (port : UInt16) (key : Key) (keyType fingerprint : List Char)
    (hhost : HostName host) :
    (KnownHostsStore.load casing (withHost format casing file host port key) =
        ((KnownHostsStore.load casing file).addHost format casing file host port key).1 ↔
      AddSafe casing file host port) ∧
    (AddSafe casing file host port → AddKeeps format casing file host port key) ∧
    (format.fingerprintFromKnownHostsKeyData keyType ≠ fingerprint →
      (ReadsWithoutKey format casing file host port keyType fingerprint ↔
        RemoveSafe format casing file host port keyType fingerprint)) ∧
    (RemoveSafe format casing file host port keyType fingerprint → ∀ store,
      (KnownHostsStore.removeHostKey format casing file host port keyType fingerprint).1 = .ok store →
        RemoveKeeps format casing file host port keyType fingerprint) :=
  ⟨load_addHost_iff hhost file port key, fun h => addKeeps_of_safe hhost h key,
    fun htype => readsWithoutKey_iff hhost file htype, fun h _ _ => removeKeeps_of_safe hhost h⟩

/-- To a file with a complete line, a host is added. -/
theorem knownHosts_edits_iff_complete :
    AddKeeps twoKeys asciiCasing (some (chars "o ssh-ed25519 AAAAC1\n")) ['n'] 22 true :=
  (knownHosts_edits_iff twoKeys asciiCasing (some (chars "o ssh-ed25519 AAAAC1\n")) ['n'] 22 true
    [] [] (hostName_of_all rfl)).2.1
    ⟨['n'], by unfold chars; decide +kernel, by decide, by decide +kernel⟩

/-- A new host is lost in an incomplete line, and with it the key of that line. Of a line without its
first name a comment is left. -/
theorem incomplete_line_continued :
    let incomplete : KnownHostsFile := some (chars "o ssh-ed25519 AAAAC1")
    let hidden : KnownHostsFile := some (chars "n,#x,o ssh-ed25519 AAAAC1\n")
    let verifies (file : KnownHostsFile) (host : List Char) (key : Bool) : Bool :=
      (KnownHostsStore.load asciiCasing file).verify twoKeys asciiCasing host 22 key = .verified
    HostName ['o'] ∧ HostName ['n'] ∧
      verifies incomplete ['o'] true = true ∧
      verifies (withHost twoKeys asciiCasing incomplete ['n'] 22 false) ['o'] true = false ∧
      verifies (withHost twoKeys asciiCasing incomplete ['n'] 22 false) ['n'] false = false ∧
      verifies hidden ['o'] true = true ∧
      verifies (withoutKey twoKeys asciiCasing hidden ['n'] 22 (chars "ssh-ed25519")
        (twoKeys.publicKeyFingerprint true)) ['o'] true = false := by
  intro incomplete hidden verifies
  refine ⟨hostName_of_all rfl, hostName_of_all rfl, ?_⟩
  unfold verifies incomplete hidden chars
  decide +kernel

end OxideTerm.Ssh
