import OxideTerm.Ssh.KnownHosts

/-!
# The lines of the file of known hosts

What is read from a line, and from the line that is written for it when a key is removed: all but what
is to be removed, unless the names that stay are no longer read as names.
-/

namespace OxideTerm.Ssh

open OxideTerm.Lib OxideTerm.Lib.Text

variable {Key : Type}

/-! ## Names of hosts -/

/-- A name of a host has no white space and none of the marks of the file. -/
def HostName (host : List Char) : Prop :=
  ∀ c ∈ host, isWhitespace c = false ∧ c ∉ [',', '[', ']', '#', '|']

theorem hostName_of_all {host : List Char}
    (h : (host.all fun c => !isWhitespace c &&
      !([',', '[', ']', '#', '|'].contains c)) = true) :
    HostName host := by
  intro c hc
  have hchar := List.all_eq_true.mp h c hc
  rw [Bool.and_eq_true, Bool.not_eq_true', Bool.not_eq_true', List.contains_eq_mem,
    decide_eq_false_iff_not] at hchar
  exact hchar

theorem HostName.notMem {host : List Char} (h : HostName host) {c : Char}
    (hc : c ∈ [',', '[', ']', '#', '|']) : c ∉ host := fun hmem => (h c hmem).2 hc

variable {casing : Casing}

theorem HostName.toLowercase {host : List Char} (h : HostName host) :
    HostName (casing.toLowercase host) := by
  intro c hc
  constructor
  · by_contra hspace
    rw [Bool.not_eq_false] at hspace
    have hmem := Casing.mem_of_whitespace hspace hc
    rw [(h c hmem).1] at hspace
    cases hspace
  · intro hmark
    have hascii : c.toNat < 128 ∧ c.isAlpha = false := by
      simp only [List.mem_cons, List.not_mem_nil, or_false] at hmark
      rcases hmark with rfl | rfl | rfl | rfl | rfl <;> decide
    exact h.notMem hmark (Casing.mem_of_mark hascii.1 hascii.2 hc)

theorem makeKey_standard (casing : Casing) (host : List Char) :
    makeKey casing host 22 = casing.toLowercase host := by
  rw [makeKey, if_pos rfl]

theorem makeKey_other {port : UInt16} (hport : port ≠ 22) (host : List Char) :
    makeKey casing host port =
      '[' :: (casing.toLowercase host ++ ']' :: ':' :: portText port) := if_neg hport

theorem isDigit_of_mem_portText {port : UInt16} {c : Char} (h : c ∈ portText port) :
    c.isDigit = true := isDigit_of_mem_repr h

/-- What is looked up for different hosts is different. -/
theorem makeKey_ne {host other : List Char} (hhost : HostName host) (hother : HostName other)
    (hne : casing.toLowercase other ≠ casing.toLowercase host) (port port' : UInt16) :
    makeKey casing other port' ≠ makeKey casing host port := by
  have hhost' := (@HostName.toLowercase casing _ hhost).notMem (c := '[') (by simp)
  have hother' := (@HostName.toLowercase casing _ hother).notMem (c := '[') (by simp)
  have hbracket : ∀ {a rest : List Char}, '[' ∉ a → a ≠ '[' :: rest := by
    rintro a rest ha rfl
    exact ha List.mem_cons_self
  intro heq
  rw [makeKey, makeKey] at heq
  split at heq <;> split at heq
  · exact hne heq
  · exact hbracket hother' heq
  · exact hbracket hhost' heq.symm
  · refine hne (append_cons_inj_of_notMem (x := ']') ?_ ?_ (List.cons.inj heq).2).1
    · exact (@HostName.toLowercase casing _ hother).notMem (by simp)
    · exact (@HostName.toLowercase casing _ hhost).notMem (by simp)

theorem isWhitespace_of_mem_makeKey {host : List Char} (hhost : HostName host) (port : UInt16) :
    ∀ c ∈ makeKey casing host port, isWhitespace c = false := by
  have hchars : ∀ c ∈ casing.toLowercase host, isWhitespace c = false :=
    fun c hc => (hhost.toLowercase c hc).1
  by_cases hport : port = 22
  · subst hport
    rwa [makeKey_standard]
  · rw [makeKey_other hport]
    intro c hc
    rcases List.mem_cons.mp hc with rfl | hc
    · decide
    · rcases List.mem_append.mp hc with hc | hc
      · exact hchars c hc
      · rcases List.mem_cons.mp hc with rfl | hc
        · decide
        · rcases List.mem_cons.mp hc with rfl | hc
          · decide
          · exact isWhitespace_of_isDigit (isDigit_of_mem_portText hc)

theorem notMem_makeKey {host : List Char} (hhost : HostName host) (port : UInt16) {c : Char}
    (hc : c ∈ [',', '#', '|']) : c ∉ makeKey casing host port := by
  have hlower : c ∉ casing.toLowercase host :=
    hhost.toLowercase.notMem (by
      simp only [List.mem_cons, List.not_mem_nil, or_false] at hc ⊢
      tauto)
  have hmarks : c ≠ '[' ∧ c ≠ ']' ∧ c ≠ ':' ∧ c.isDigit = false := by
    simp only [List.mem_cons, List.not_mem_nil, or_false] at hc
    rcases hc with rfl | rfl | rfl <;> decide
  by_cases hport : port = 22
  · subst hport
    rwa [makeKey_standard]
  · rw [makeKey_other hport]
    simp only [List.mem_cons, List.mem_append, not_or]
    refine ⟨hmarks.1, hlower, hmarks.2.1, hmarks.2.2.1, fun hdigit => ?_⟩
    rw [isDigit_of_mem_portText hdigit] at hmarks
    exact absurd hmarks.2.2.2 (by decide)

/-! ## Names as they are read -/

theorem splitOnceBracketColon_eq_none : ∀ {text : List Char}, ']' ∉ text →
    splitOnceBracketColon text = none
  | [], _ => rfl
  | c :: text, h => by
    rw [List.mem_cons, not_or] at h
    rw [splitOnceBracketColon, splitOnceBracketColon_eq_none h.2]
    · rfl
    · rintro back rfl
      exact absurd rfl h.1

theorem normalizeHostname_eq {host : List Char} (h : HostName host) :
    normalizeHostname casing host = casing.toLowercase host := by
  have hopen : host.dropWhile (fun c => c = '[') = host := by
    cases host with
    | nil => rfl
    | cons c host =>
      have hc : c ≠ '[' := fun hc => h.notMem (c := '[') (by simp) (hc ▸ List.mem_cons_self)
      rw [List.dropWhile_cons, if_neg (by simpa using hc)]
  have hclose : host.rdropWhile (fun c => c = ']') = host := by
    rw [List.rdropWhile_eq_self_iff]
    intro hne hlast
    exact h.notMem (c := ']') (by simp) (of_decide_eq_true hlast ▸ List.getLast_mem hne)
  rw [normalizeHostname, hopen, splitOnceBracketColon_eq_none (h.notMem (by simp))]
  dsimp only
  rw [hclose]

/-! ## Lines as they are read -/

/-- The hosts that the first word of a line names. -/
def readNames (casing : Casing) (names : List Char) : List (List Char) :=
  ((split ',' names).filter fun hostname => hostname.head? ≠ some '|').map
    (canonicalHostEntry casing)

/-- What is read from the words of a line. -/
def readWords (casing : Casing) : List (List Char) → List (List Char × HostKeyEntry)
  | names :: keyType :: keyData :: _ =>
    if names.head? = some '#' then []
    else (readNames casing names).map fun host => (host, ⟨keyType, keyData⟩)
  | _ => []

/-- Only the words of a line matter. -/
theorem readLine_eq (line : List Char) :
    KnownHostsStore.readLine casing line = readWords casing (splitWhitespace line) := by
  have hhead := head?_trim line
  rw [KnownHostsStore.readLine, splitWhitespace_trim]
  cases hwords : splitWhitespace line with
  | nil =>
    rw [hwords] at hhead
    rw [if_pos (.inl (List.head?_eq_none_iff.mp hhead))]
    rfl
  | cons names words =>
    have hnames : IsWord names := isWord_of_mem (hwords ▸ List.mem_cons_self)
    rw [hwords] at hhead
    change (trim line).head? = names.head? at hhead
    have hne : trim line ≠ [] := by
      intro hnil
      rw [hnil] at hhead
      exact hnames.1 (List.head?_eq_none_iff.mp hhead.symm)
    rw [hhead]
    simp only [hne, false_or]
    match words with
    | [] => split <;> rfl
    | [_] => split <;> rfl
    | keyType :: keyData :: rest =>
      by_cases hcomment : names.head? = some '#'
      · rw [if_pos hcomment, readWords, if_pos hcomment]
      · rw [if_neg hcomment, readWords, if_neg hcomment, readNames, List.map_map]
        rfl

theorem readLine_nil : KnownHostsStore.readLine casing [] = [] := rfl

theorem readLine_trimReturn (line : List Char) :
    KnownHostsStore.readLine casing (trimReturn line) = KnownHostsStore.readLine casing line := by
  rw [readLine_eq, readLine_eq, splitWhitespace_trimReturn]

/-- The text of the file, which is empty if there is no file. -/
def KnownHostsFile.text (file : KnownHostsFile) : List Char := Option.getD file []

theorem hosts_load (file : KnownHostsFile) : (KnownHostsStore.load casing file).hosts =
    (file.text.splitOn '\n').flatMap (KnownHostsStore.readLine casing) := by
  cases file with
  | none => rfl
  | some content => exact flatMap_lines readLine_nil readLine_trimReturn content

theorem length_readWords {names keyType keyData : List Char} {rest : List (List Char)} :
    (readWords casing (names :: keyType :: keyData :: rest)).length =
      if names.head? = some '#' then 0 else (readNames casing names).length := by
  rw [readWords]
  split
  · rfl
  · rw [List.length_map]

theorem data_of_mem_readWords {names keyType keyData : List Char} {rest : List (List Char)}
    {read : List Char × HostKeyEntry}
    (h : read ∈ readWords casing (names :: keyType :: keyData :: rest)) :
    read.2 = ⟨keyType, keyData⟩ := by
  rw [readWords] at h
  split at h
  · cases h
  · obtain ⟨host, -, rfl⟩ := List.mem_map.mp h
    rfl

theorem readWords_of_length {words : List (List Char)} (h : words.length < 3) :
    readWords casing words = [] := by
  match words, h with
  | [], _ => rfl
  | [_], _ => rfl
  | [_, _], _ => rfl

/-! ## Lines without a key -/

section Rewriting

variable (format : KeyFormat Key) (casing : Casing) (removeHosts : List (List Char))
  (keyType fingerprint : List Char)

/-- The entry has the type and the fingerprint. -/
def matchesKey (entry : HostKeyEntry) : Bool :=
  entry.keyType = keyType ∧ format.fingerprintFromKnownHostsKeyData entry.keyData = fingerprint

/-- What is to be removed. -/
def isRemoved (read : List Char × HostKeyEntry) : Bool :=
  removeHosts.contains read.1 && matchesKey format keyType fingerprint read.2

/-- A word that is read as names, if it is the first of a line. -/
def Readable (names : List Char) : Prop := names ≠ [] ∧ names.head? ≠ some '#'

/-- If names are removed from the line, it is no comment and the other names do not become one. -/
def LineSafe (line : List Char) : Prop :=
  ∀ names keyData rest, splitWhitespace line = names :: keyType :: keyData :: rest →
    format.fingerprintFromKnownHostsKeyData keyData = fingerprint →
    (keptHostnames casing removeHosts names).length ≠ (split ',' names).length →
    names.head? ≠ some '#' ∧ (keptHostnames casing removeHosts names = [] ∨
      Readable ([','].intercalate (keptHostnames casing removeHosts names)))

/-- What is read from the line that is written for a line. -/
def rewrittenReads (line : List Char) : List (List Char × HostKeyEntry) :=
  match (rewriteLine format casing removeHosts keyType fingerprint line).1 with
  | some rewritten => KnownHostsStore.readLine casing rewritten
  | none => []

variable {format casing removeHosts keyType fingerprint}

theorem isRemoved_iff {host : List Char} {entry : HostKeyEntry}
    (h : matchesKey format keyType fingerprint entry = true) :
    isRemoved format removeHosts keyType fingerprint (host, entry) = removeHosts.contains host := by
  rw [isRemoved, h, Bool.and_true]

theorem mem_readNames {names host : List Char} (h : host ∈ readNames casing names) :
    ∃ hostname ∈ split ',' names, hostname.head? ≠ some '|' ∧
      canonicalHostEntry casing hostname = host := by
  obtain ⟨hostname, hmem, hcanonical⟩ := List.mem_map.mp h
  obtain ⟨hsplit, hhead⟩ := List.mem_filter.mp hmem
  exact ⟨hostname, hsplit, by simpa using hhead, hcanonical⟩

/-- **What is written for a line:** the line, from which nothing is to be removed, or the names that
stay with the rest of the line. -/
theorem rewriteLine_cases (line : List Char) :
    (rewriteLine format casing removeHosts keyType fingerprint line = (some line, false) ∧
      ∀ read ∈ KnownHostsStore.readLine casing line,
        isRemoved format removeHosts keyType fingerprint read = false) ∨
    ∃ names keyData rest, splitWhitespace line = names :: keyType :: keyData :: rest ∧
      format.fingerprintFromKnownHostsKeyData keyData = fingerprint ∧
      (keptHostnames casing removeHosts names).length ≠ (split ',' names).length ∧
      rewriteLine format casing removeHosts keyType fingerprint line =
        (if keptHostnames casing removeHosts names = [] then none else
          some ([' '].intercalate
            ([','].intercalate (keptHostnames casing removeHosts names) :: keyType :: keyData ::
              rest)), true) := by
  rw [readLine_eq]
  rw [rewriteLine]
  split
  · next names keyType' keyData rest hwords =>
    rw [hwords]
    split
    · next hother =>
      refine .inl ⟨rfl, fun read hread => ?_⟩
      have hmatch : matchesKey format keyType fingerprint read.2 = false := by
        rw [data_of_mem_readWords hread, matchesKey, decide_eq_false_iff_not]
        exact fun h => hother.elim (fun hne => hne h.1) fun hne => hne h.2
      rw [isRemoved, hmatch, Bool.and_false]
    · next hsame =>
      rw [not_or, not_not, not_not] at hsame
      obtain ⟨rfl, hfingerprint⟩ := hsame
      dsimp only
      split
      · next hlength =>
        refine .inl ⟨rfl, fun read hread => ?_⟩
        have hall := List.length_filter_eq_length_iff.mp hlength
        have hhost : removeHosts.contains read.1 = false := by
          rw [readWords] at hread
          split at hread
          · cases hread
          · obtain ⟨host, hhost, rfl⟩ := List.mem_map.mp hread
            obtain ⟨hostname, hsplit, -, rfl⟩ := mem_readNames hhost
            simpa using hall hostname hsplit
        rw [isRemoved, hhost, Bool.false_and]
      · next hlength =>
        refine .inr ⟨names, keyData, rest, rfl, hfingerprint, hlength, ?_⟩
        split <;> rfl
  · next hwords =>
    refine .inl ⟨rfl, fun read hread => ?_⟩
    rcases hsplit : splitWhitespace line with
      _ | ⟨names, _ | ⟨keyType', _ | ⟨keyData, rest⟩⟩⟩
    · rw [hsplit] at hread
      cases hread
    · rw [hsplit] at hread
      cases hread
    · rw [hsplit] at hread
      cases hread
    · exact absurd hsplit (hwords names keyType' keyData rest)

/-- A character of an intercalation is the separator or of a part. -/
theorem mem_of_mem_intercalate {c x : Char} : ∀ {parts : List (List Char)},
    x ∈ [c].intercalate parts → x = c ∨ ∃ part ∈ parts, x ∈ part
  | [], h => by cases h
  | [part], h => by
    rw [List.intercalate_singleton] at h
    exact .inr ⟨part, List.mem_cons_self, h⟩
  | part :: next :: parts, h => by
    rw [List.intercalate_cons_of_ne_nil (List.cons_ne_nil _ _), List.append_assoc] at h
    rcases List.mem_append.mp h with h | h
    · exact .inr ⟨part, List.mem_cons_self, h⟩
    · rcases List.mem_cons.mp h with h | h
      · exact .inl h
      · obtain h | ⟨other, hother, h⟩ := mem_of_mem_intercalate h
        · exact .inl h
        · exact .inr ⟨other, List.mem_cons_of_mem part hother, h⟩

/-- The line that is written for the names that stay. -/
def rebuilt (kept : List (List Char)) (rest : List (List Char)) : List Char :=
  [' '].intercalate ([','].intercalate kept :: rest)

theorem isWhitespace_of_mem_kept {names : List Char} (h : IsWord names) :
    ∀ c ∈ [','].intercalate (keptHostnames casing removeHosts names), isWhitespace c = false := by
  intro c hc
  obtain rfl | ⟨part, hpart, hc⟩ := mem_of_mem_intercalate hc
  · decide
  · exact h.2 c ((mem_of_mem_split (List.mem_filter.mp hpart).1).2 c hc)

theorem splitWhitespace_rebuilt {line names : List Char} {rest : List (List Char)}
    (hwords : splitWhitespace line = names :: rest) :
    splitWhitespace (rebuilt (keptHostnames casing removeHosts names) rest) =
      (if [','].intercalate (keptHostnames casing removeHosts names) = [] then []
        else [[','].intercalate (keptHostnames casing removeHosts names)]) ++ rest := by
  have hword : ∀ word ∈ names :: rest, IsWord word := fun word hword =>
    isWord_of_mem (hwords ▸ hword)
  have hrest : rest.filter (fun word => !word.isEmpty) = rest := by
    rw [List.filter_eq_self]
    intro word hmem
    simpa using (hword word (List.mem_cons_of_mem _ hmem)).1
  rw [rebuilt, splitWhitespace_intercalate, List.filter_cons, hrest]
  · cases [','].intercalate (keptHostnames casing removeHosts names) <;> rfl
  · intro word hmem
    rcases List.mem_cons.mp hmem with rfl | hmem
    · exact isWhitespace_of_mem_kept (hword _ List.mem_cons_self)
    · exact (hword word (List.mem_cons_of_mem _ hmem)).2

theorem split_kept {names : List Char} (h : keptHostnames casing removeHosts names ≠ []) :
    split ',' ([','].intercalate (keptHostnames casing removeHosts names)) =
      keptHostnames casing removeHosts names :=
  split_intercalate h fun _ hpart => (mem_of_mem_split (List.mem_filter.mp hpart).1).1

/-- What is read of an entry from names. -/
def readsOf (casing : Casing) (names : List (List Char)) (entry : HostKeyEntry) :
    List (List Char × HostKeyEntry) :=
  (names.filter fun hostname => hostname.head? ≠ some '|').map fun hostname =>
    (canonicalHostEntry casing hostname, entry)

theorem readWords_of_readable {names keyData : List Char} {rest : List (List Char)}
    (h : names.head? ≠ some '#') : readWords casing (names :: keyType :: keyData :: rest) =
      readsOf casing (split ',' names) ⟨keyType, keyData⟩ := by
  rw [readWords, if_neg h, readNames, List.map_map]
  rfl

/-- The names that stay have the entries that stay. -/
theorem filter_readsOf {names : List Char} {entry : HostKeyEntry}
    (h : matchesKey format keyType fingerprint entry = true) :
    (readsOf casing (split ',' names) entry).filter
        (fun read => !isRemoved format removeHosts keyType fingerprint read) =
      readsOf casing (keptHostnames casing removeHosts names) entry := by
  rw [readsOf, readsOf, List.filter_map, keptHostnames, List.filter_filter, List.filter_filter]
  congr 1
  refine List.filter_congr fun hostname _ => ?_
  rw [Function.comp_apply, isRemoved_iff h, Bool.and_comm]

/-- **What is read from the line that is written, where nothing goes wrong:** all but what is to be
removed. -/
theorem rewrittenReads_of_safe {line : List Char}
    (h : LineSafe format casing removeHosts keyType fingerprint line) :
    rewrittenReads format casing removeHosts keyType fingerprint line =
      (KnownHostsStore.readLine casing line).filter
        fun read => !isRemoved format removeHosts keyType fingerprint read := by
  rcases @rewriteLine_cases Key format casing removeHosts keyType fingerprint line with
    ⟨hline, hkeep⟩ | ⟨names, keyData, rest, hwords, hfingerprint, hlength, hline⟩
  · rw [rewrittenReads, hline]
    refine (List.filter_eq_self.mpr fun read hread => ?_).symm
    rw [hkeep read hread]
    rfl
  · obtain ⟨hnames, hkept⟩ := h names keyData rest hwords hfingerprint hlength
    have hmatch : matchesKey format keyType fingerprint ⟨keyType, keyData⟩ = true := by
      rw [matchesKey, decide_eq_true_iff]
      exact ⟨rfl, hfingerprint⟩
    rw [rewrittenReads, hline, readLine_eq line, hwords, readWords_of_readable hnames,
      filter_readsOf hmatch]
    by_cases hnil : keptHostnames casing removeHosts names = []
    · rw [if_pos hnil, hnil]
      rfl
    · obtain ⟨hne, hhead⟩ := hkept.resolve_left hnil
      rw [if_neg hnil]
      dsimp only
      rw [← rebuilt, readLine_eq, splitWhitespace_rebuilt hwords, if_neg hne, List.singleton_append,
        readWords_of_readable hhead, split_kept hnil]

/-! ## Lines that go wrong -/

/-- **From a line that was written, nothing more is removed.** -/
theorem rewriteLine_idem (htype : format.fingerprintFromKnownHostsKeyData keyType ≠ fingerprint)
    {line rewritten : List Char}
    (h : (rewriteLine format casing removeHosts keyType fingerprint line).1 = some rewritten) :
    (rewriteLine format casing removeHosts keyType fingerprint rewritten).2 = false := by
  rcases @rewriteLine_cases Key format casing removeHosts keyType fingerprint line with
    ⟨hline, -⟩ | ⟨names, keyData, rest, hwords, hfingerprint, -, hline⟩
  · rw [hline] at h
    cases h
    rw [hline]
  · rw [hline] at h
    dsimp only at h
    split at h
    · cases h
    · next hnil =>
      rw [← rebuilt, Option.some.injEq] at h
      subst h
      rcases @rewriteLine_cases Key format casing removeHosts keyType fingerprint
        (rebuilt (keptHostnames casing removeHosts names) (keyType :: keyData :: rest)) with
        ⟨hline', -⟩ | ⟨names', keyData', rest', hwords', -, hlength', -⟩
      · rw [hline']
      · rw [splitWhitespace_rebuilt hwords] at hwords'
        split at hwords'
        · -- the type has become the names, and the key the type
          obtain ⟨-, hrest⟩ := List.cons.inj hwords'
          rw [(List.cons.inj hrest).1] at hfingerprint
          exact absurd hfingerprint htype
        · obtain ⟨rfl, -⟩ := List.cons.inj hwords'
          refine absurd ?_ hlength'
          rw [keptHostnames, split_kept hnil, keptHostnames, List.filter_filter]
          simp only [Bool.and_self]

theorem countP_readsOf (names : List (List Char)) {entry : HostKeyEntry}
    (h : matchesKey format keyType fingerprint entry = true) :
    (readsOf casing names entry).countP (fun read => matchesKey format keyType fingerprint read.2) =
      (names.filter fun hostname => hostname.head? ≠ some '|').length := by
  rw [readsOf, List.countP_map, List.countP_eq_length.mpr]
  intro hostname _
  exact h

/-- A name that stays is lost if what stays is not read as names. -/
theorem reads_lost_of_not_readable
    (htype : format.fingerprintFromKnownHostsKeyData keyType ≠ fingerprint)
    {line names keyData : List Char} {rest : List (List Char)}
    (hwords : splitWhitespace line = names :: keyType :: keyData :: rest)
    (hfingerprint : format.fingerprintFromKnownHostsKeyData keyData = fingerprint)
    (hlength : (keptHostnames casing removeHosts names).length ≠ (split ',' names).length)
    (hnames : names.head? ≠ some '#') (hnil : keptHostnames casing removeHosts names ≠ [])
    (hread : ¬ Readable ([','].intercalate (keptHostnames casing removeHosts names))) :
    (rewrittenReads format casing removeHosts keyType fingerprint line).countP
        (fun read => matchesKey format keyType fingerprint read.2) <
      ((KnownHostsStore.readLine casing line).filter
        fun read => !isRemoved format removeHosts keyType fingerprint read).countP
        (fun read => matchesKey format keyType fingerprint read.2) := by
  have hmatch : matchesKey format keyType fingerprint ⟨keyType, keyData⟩ = true := by
    rw [matchesKey, decide_eq_true_iff]
    exact ⟨rfl, hfingerprint⟩
  have hline : rewriteLine format casing removeHosts keyType fingerprint line =
      (some (rebuilt (keptHostnames casing removeHosts names) (keyType :: keyData :: rest)),
        true) := by
    rw [rewriteLine, hwords]
    dsimp only
    rw [if_neg (by simp [hfingerprint]), if_neg hlength, if_neg hnil]
    rfl
  have hnone : (rewrittenReads format casing removeHosts keyType fingerprint line).countP
      (fun read => matchesKey format keyType fingerprint read.2) = 0 := by
    rw [rewrittenReads, hline]
    dsimp only
    rw [readLine_eq, splitWhitespace_rebuilt hwords]
    split
    · cases rest with
      | nil => rfl
      | cons third rest =>
        refine List.countP_eq_zero.mpr fun read hmem hmatch => ?_
        rw [List.nil_append] at hmem
        rw [data_of_mem_readWords hmem, matchesKey, decide_eq_true_iff] at hmatch
        rw [show keyData = keyType from hmatch.1] at hfingerprint
        exact htype hfingerprint
    · next hne =>
      have hcomment := not_not.mp fun hhead => hread ⟨hne, hhead⟩
      rw [List.singleton_append, readWords, if_pos hcomment]
      rfl
  rw [hnone, readLine_eq, hwords, readWords_of_readable hnames, filter_readsOf hmatch,
    countP_readsOf _ hmatch, List.length_pos_iff_ne_nil, ne_eq, List.filter_eq_nil_iff]
  obtain ⟨first, others, hkept⟩ := List.exists_cons_of_ne_nil hnil
  rw [hkept] at hread ⊢
  intro hall
  have hbar : first.head? = some '|' := by simpa using hall first List.mem_cons_self
  refine hread ⟨fun hempty => ?_, fun hhead => ?_⟩
  · cases first with
    | nil => cases hbar
    | cons c first =>
      cases others <;> simp at hempty
  · cases first with
    | nil => cases hbar
    | cons c first =>
      rw [List.intercalate_cons_cons_left] at hhead
      cases hhead.symm.trans hbar

/-! ## Lines that do not name the host -/

theorem mem_toLowercase_cons {c : Char} (hc : c.toNat < 128) (hlower : c.toLower = c)
    (text : List Char) : c ∈ casing.toLowercase (c :: text) := by
  have hsettled : casing.Settled c := Casing.settled_of_ascii hc hlower
  rw [Casing.toLowercase, Casing.toLowercaseFrom, if_neg hsettled.2, hsettled.1]
  exact List.mem_append_left _ (List.mem_singleton_self c)

theorem exists_rdropWhile_cons {p : Char → Bool} {c : Char} (hc : p c = false) (text : List Char) :
    ∃ rest, (c :: text).rdropWhile p = c :: rest := by
  have hne : (c :: text).rdropWhile p ≠ [] := by
    intro hnil
    have hall := List.rdropWhile_eq_nil_iff.mp hnil c List.mem_cons_self
    rw [hc] at hall
    cases hall
  obtain ⟨first, rest, heq⟩ := List.exists_cons_of_ne_nil hne
  have hprefix : (c :: text).rdropWhile p <+: c :: text := List.rdropWhile_prefix _ _
  rw [heq, List.cons_prefix_cons] at hprefix
  exact ⟨rest, by rw [heq, hprefix.1]⟩

/-- A hashed name is never looked up. -/
theorem bar_mem_canonicalHostEntry {hostname : List Char} (h : hostname.head? = some '|') :
    '|' ∈ canonicalHostEntry casing hostname := by
  obtain ⟨text, rfl⟩ := List.head?_eq_some_iff.mp h
  obtain ⟨rest, htrim⟩ : ∃ rest, trim ('|' :: text) = '|' :: rest := by
    rw [trim, List.dropWhile_cons, if_neg (by decide)]
    exact exists_rdropWhile_cons (by decide) text
  rw [canonicalHostEntry, htrim]
  change '|' ∈ normalizeHostname casing ('|' :: rest)
  rw [normalizeHostname, List.dropWhile_cons, if_neg (by decide)]
  split
  · next parts hparts =>
    rw [splitOnceBracketColon] at hparts
    · obtain ⟨front, -, rfl⟩ := Option.map_eq_some_iff.mp hparts
      exact mem_toLowercase_cons (by decide) (by decide) _
    · rintro back h
      exact absurd h (by decide)
  · obtain ⟨rest', hrest⟩ := exists_rdropWhile_cons (p := fun c => c = ']') (c := '|') (by decide) rest
    rw [hrest]
    exact mem_toLowercase_cons (by decide) (by decide) _

/-- The line names one of the hosts with the key. -/
def namesRemoved (format : KeyFormat Key) (casing : Casing) (removeHosts : List (List Char))
    (keyType fingerprint line : List Char) : Bool :=
  (KnownHostsStore.readLine casing line).any (isRemoved format removeHosts keyType fingerprint)

/-- Such a line stays as it is, where nothing goes wrong. -/
theorem rewriteLine_of_not_named {line : List Char} (hbar : ∀ host ∈ removeHosts, '|' ∉ host)
    (hsafe : LineSafe format casing removeHosts keyType fingerprint line)
    (hnamed : namesRemoved format casing removeHosts keyType fingerprint line = false) :
    (rewriteLine format casing removeHosts keyType fingerprint line).1 = some line := by
  rcases @rewriteLine_cases Key format casing removeHosts keyType fingerprint line with
    ⟨hline, -⟩ | ⟨names, keyData, rest, hwords, hfingerprint, hlength, -⟩
  · rw [hline]
  · refine absurd ?_ hlength
    have hmatch : matchesKey format keyType fingerprint ⟨keyType, keyData⟩ = true := by
      rw [matchesKey, decide_eq_true_iff]
      exact ⟨rfl, hfingerprint⟩
    rw [namesRemoved, readLine_eq, hwords,
      readWords_of_readable (hsafe names keyData rest hwords hfingerprint hlength).1] at hnamed
    refine List.length_filter_eq_length_iff.mpr fun hostname hsplit => ?_
    rw [Bool.not_eq_true', ← Bool.not_eq_true]
    intro hcontains
    have hhead : hostname.head? ≠ some '|' := fun hhead =>
      hbar _ (List.contains_iff_mem.mp hcontains) (bar_mem_canonicalHostEntry hhead)
    have hread : (canonicalHostEntry casing hostname, ⟨keyType, keyData⟩) ∈
        readsOf casing (split ',' names) ⟨keyType, keyData⟩ :=
      List.mem_map.mpr ⟨hostname, List.mem_filter.mpr ⟨hsplit, by simpa using hhead⟩, rfl⟩
    have hremoved := List.any_eq_false.mp hnamed _ hread
    rw [isRemoved_iff hmatch] at hremoved
    exact hremoved hcontains

end Rewriting

end OxideTerm.Ssh
