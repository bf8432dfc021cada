import OxideTerm.Ssh.PoolKey

/-!
# What a key separates

Two keys are the same if and only if the configurations spell out the same, up to offers that may
be the last hop's or the target's. The texts of the parts can be told apart since names have none of
the characters `@`, `|` and `>`; a colon in a host is told from those behind it by the port, which is
the last part between colons that is a number.
-/

namespace OxideTerm.Ssh

open OxideTerm.Lib

/-! ## Texts of the parts -/

/-- Characters that do not separate anything. -/
def isPlain (c : Char) : Bool := c != '@' && c != '|' && c != '>' && c != ':'

def Plain (text : List Char) : Prop := ∀ c ∈ text, isPlain c = true

theorem Plain.append {a b : List Char} (ha : Plain a) (hb : Plain b) : Plain (a ++ b) := by
  intro c hc
  rcases List.mem_append.mp hc with hc | hc
  · exact ha c hc
  · exact hb c hc

theorem Plain.cons {c : Char} {text : List Char} (hc : isPlain c = true) (h : Plain text) :
    Plain (c :: text) := List.forall_mem_cons.mpr ⟨hc, h⟩

theorem Plain.notMem {text : List Char} (h : Plain text) {c : Char} (hc : isPlain c = false) :
    c ∉ text := by
  intro hmem
  rw [h c hmem] at hc
  cases hc

/-- A literal is plain, if its characters are. -/
theorem plain_chars {literal : String} (h : literal.toList.all isPlain = true) :
    Plain (chars literal) := by
  unfold chars
  exact List.all_eq_true.mp h

/-- A number, to tell ports from other parts. -/
def IsNumber (text : List Char) : Prop := text ≠ [] ∧ ∀ c ∈ text, c.isDigit = true

theorem isNumber_portText (port : UInt16) : IsNumber (portText port) := by
  constructor
  · rw [portText]
    intro hnil
    have hrepr : toString port.toNat = "" := String.toList_eq_nil_iff.mp hnil
    exact Nat.repr_ne_empty hrepr
  · intro c hc
    exact Text.isDigit_of_mem_repr hc

theorem plain_of_isDigit {c : Char} (h : c.isDigit = true) : isPlain c = true := by
  have hcolon : c ≠ ':' := by
    rintro rfl
    cases h
  have hat : c ≠ '@' := by
    rintro rfl
    cases h
  have hbar : c ≠ '|' := by
    rintro rfl
    cases h
  have hgreater : c ≠ '>' := by
    rintro rfl
    cases h
  simp [isPlain, hcolon, hat, hbar, hgreater]

theorem plain_portText (port : UInt16) : Plain (portText port) :=
  fun c hc => plain_of_isDigit ((isNumber_portText port).2 c hc)

theorem portText_inj {a b : UInt16} (h : portText a = portText b) : a = b := by
  have hrepr : Nat.repr a.toNat = Nat.repr b.toNat := String.toList_inj.mp h
  exact UInt16.toNat_inj.mp (Nat.repr_inj.mp hrepr)

theorem plain_boolText (b : Bool) : Plain (boolText b) := by
  cases b <;> exact plain_chars (by decide)

section Texts

variable (digest : PoolDigest)

theorem plain_hex (bytes : Bytes) : Plain (digest.hex bytes) := by
  have hdigits : Plain (chars "0123456789abcdef") := plain_chars (by decide)
  exact fun c hc => hdigits c (digest.hexDigits bytes c hc)

theorem plain_mark (mark : Mark) : Plain (mark.text digest) := by
  have hequals : isPlain '=' = true := by decide
  cases mark with
  | legacy => exact plain_chars (by decide)
  | agentForwarding => exact plain_chars (by decide)
  | identityAgent agent =>
    exact (plain_chars (by decide)).append ((plain_hex digest agent).cons hequals)
  | forwardingAgent agent =>
    exact (plain_chars (by decide)).append ((plain_hex digest agent).cons hequals)
  | targetIdentityAgent agent =>
    exact (plain_chars (by decide)).append ((plain_hex digest agent).cons hequals)
  | targetForwardingSocket agent =>
    exact (plain_chars (by decide)).append ((plain_hex digest agent).cons hequals)
  | gssapi identity => exact (plain_chars (by decide)).append (plain_hex digest identity)
  | delegate allowed => exact (plain_chars (by decide)).append (plain_boolText allowed)
  | totp credential => exact (plain_chars (by decide)).append (plain_hex digest credential)
  | algorithms offer => exact (plain_chars (by decide)).append (plain_hex digest offer)

/-- Which kind of mark a text is of, by the characters in which the labels differ. -/
def textKind (text : List Char) : Option Char × Option Char × Option Char :=
  (text.head?, if text.head? = some 'a' then text[1]? else none,
    if text.head? = some 'a' then text[5]? else if text.head? = some 'i' then text[8]? else none)

def Mark.kind : Mark → Option Char × Option Char × Option Char
  | .legacy => (some 'l', none, none)
  | .agentForwarding => (some 'a', some 'g', some '-')
  | .identityAgent _ => (some 'i', none, some '-')
  | .forwardingAgent _ => (some 'f', none, none)
  | .targetIdentityAgent _ => (some 'i', none, some '_')
  | .targetForwardingSocket _ => (some 'a', some 'g', some '_')
  | .gssapi _ => (some 'g', none, none)
  | .delegate _ => (some 'd', none, none)
  | .totp _ => (some 't', none, none)
  | .algorithms _ => (some 'a', some 'l', some 'i')

theorem textKind_text (mark : Mark) : textKind (mark.text digest) = mark.kind := by
  cases mark <;> simp [textKind, Mark.text, Mark.kind, chars]

theorem boolText_inj {a b : Bool} (h : boolText a = boolText b) : a = b := by
  cases a <;> cases b <;> simp [boolText, chars] at h ⊢

theorem mark_text_injective : Function.Injective (Mark.text digest) := by
  intro a b h
  have hkind := congrArg textKind h
  rw [textKind_text, textKind_text] at hkind
  cases a <;> cases b <;> simp only [Mark.kind, reduceCtorEq, Prod.mk.injEq, Option.some.injEq,
    Char.reduceEq, and_false, and_true] at hkind
  case legacy.legacy => rfl
  case agentForwarding.agentForwarding => rfl
  case delegate.delegate => exact congrArg _ (boolText_inj (List.append_cancel_left h))
  case identityAgent.identityAgent | forwardingAgent.forwardingAgent |
      targetIdentityAgent.targetIdentityAgent | targetForwardingSocket.targetForwardingSocket =>
    exact congrArg _ (digest.injective (List.cons.inj (List.append_cancel_left h)).2)
  case gssapi.gssapi | totp.totp | algorithms.algorithms =>
    exact congrArg _ (digest.injective (List.append_cancel_left h))

theorem marks_notMem (marks : List Mark) {c : Char} (hc : isPlain c = false) :
    ∀ text ∈ marks.map (Mark.text digest), c ∉ text := by
  intro text htext
  obtain ⟨mark, -, rfl⟩ := List.mem_map.mp htext
  exact (plain_mark digest mark).notMem hc

theorem map_text_inj {a b : List Mark}
    (h : a.map (Mark.text digest) = b.map (Mark.text digest)) : a = b :=
  List.map_injective_iff.mpr (mark_text_injective digest) h

theorem marksText_inj {a b : List Mark} (h : marksText digest a = marksText digest b) : a = b :=
  map_text_inj digest (joined_inj (marks_notMem digest a (by decide))
    (marks_notMem digest b (by decide)) h)

/-- Separators other than the colon are not in the text of marks. -/
theorem notMem_marksText (marks : List Mark) {c : Char} (hc : isPlain c = false) (hne : c ≠ ':') :
    c ∉ marksText digest marks := by
  rw [marksText, joined, List.mem_flatMap]
  rintro ⟨text, htext, hmem⟩
  rcases List.mem_cons.mp hmem with rfl | hmem
  · exact hne rfl
  · exact marks_notMem digest marks hc text htext hmem

theorem mark_not_isNumber (mark : Mark) : ¬ IsNumber (mark.text digest) := by
  rintro ⟨-, hdigits⟩
  have hfirst : ∃ c, (mark.text digest).head? = some c ∧ c.isDigit = false := by
    have hkind : (mark.text digest).head? = mark.kind.1 :=
      congrArg Prod.fst (textKind_text digest mark)
    rw [hkind]
    cases mark <;> exact ⟨_, rfl, by decide⟩
  obtain ⟨c, hc, hnot⟩ := hfirst
  rw [hdigits c (List.mem_of_mem_head? hc)] at hnot
  cases hnot

theorem marks_not_isNumber (marks : List Mark) :
    ∀ text ∈ marks.map (Mark.text digest), ¬ IsNumber text := by
  intro text htext
  obtain ⟨mark, -, rfl⟩ := List.mem_map.mp htext
  exact mark_not_isNumber digest mark

/-! ## Hops -/

/-- Splitting at the colons what has a port behind a host. -/
theorem splitOn_port (host : List Char) (port : UInt16) (marks : List Mark) :
    (host ++ ':' :: (portText port ++ marksText digest marks)).splitOn ':' =
      host.splitOn ':' ++ portText port :: marks.map (Mark.text digest) := by
  rw [List.splitOn_append_cons_self, marksText, splitOn_append_joined _
    (marks_notMem digest marks (by decide)),
    List.splitOn_eq_singleton ((plain_portText port).notMem (by decide)), List.singleton_append]

/-- **The port is the last number between colons.** -/
theorem host_port_inj {host host' : List Char} {port port' : UInt16} {marks marks' : List Mark}
    (h : host ++ ':' :: (portText port ++ marksText digest marks) =
      host' ++ ':' :: (portText port' ++ marksText digest marks')) :
    host = host' ∧ port = port' ∧ marks = marks' := by
  have hsplit := congrArg (List.splitOn ':') h
  rw [splitOn_port, splitOn_port] at hsplit
  obtain ⟨hhost, hport, hmarks⟩ := append_cons_inj_of_last (isNumber_portText port)
    (isNumber_portText port') (marks_not_isNumber digest marks) (marks_not_isNumber digest marks')
    hsplit
  exact ⟨splitOn_inj hhost, portText_inj hport, map_text_inj digest hmarks⟩

/-- The names that keys have are free of these characters. -/
def CleanName (name : List Char) : Prop := '@' ∉ name ∧ '|' ∉ name ∧ '>' ∉ name

structure HopView.Clean (hop : HopView) : Prop where
  username : CleanName hop.username
  host : CleanName hop.host

theorem HopView.text_inj {hop hop' : HopView} (hclean : hop.Clean) (hclean' : hop'.Clean)
    (h : hop.text digest = hop'.text digest) : hop = hop' := by
  obtain ⟨husername, hrest⟩ := append_cons_inj_of_notMem hclean.username.1 hclean'.username.1 h
  obtain ⟨hhost, hport, hmarks⟩ := host_port_inj digest hrest
  cases hop
  cases hop'
  simp only at husername hhost hport hmarks
  rw [husername, hhost, hport, hmarks]

/-- A separator that is neither a colon nor in the names. -/
theorem HopView.notMem_text {hop : HopView} {c : Char} (hc : isPlain c = false) (hat : c ≠ '@')
    (hcolon : c ≠ ':') (husername : c ∉ hop.username) (hhost : c ∉ hop.host) :
    c ∉ hop.text digest := by
  rw [HopView.text]
  simp only [List.mem_append, List.mem_cons, not_or]
  exact ⟨husername, hat, hhost, hcolon, (plain_portText hop.port).notMem hc,
    notMem_marksText digest hop.marks hc hcolon⟩

theorem HopView.Clean.greater_notMem {hop : HopView} (h : hop.Clean) : '>' ∉ hop.text digest :=
  HopView.notMem_text digest (by decide) (by decide) (by decide) h.username.2.2 h.host.2.2

theorem HopView.Clean.bar_notMem {hop : HopView} (h : hop.Clean) : '|' ∉ hop.text digest :=
  HopView.notMem_text digest (by decide) (by decide) (by decide) h.username.2.1 h.host.2.1

theorem at_mem_chainText {chain : List HopView} (h : chain ≠ []) : '@' ∈ chainText digest chain := by
  match chain, h with
  | [hop], _ => simp [chainText, HopView.text]
  | hop :: next :: rest, _ => simp [chainText, HopView.text]

theorem bar_notMem_chainText : ∀ {chain : List HopView}, (∀ hop ∈ chain, hop.Clean) →
    '|' ∉ chainText digest chain
  | [], _ => by simp [chainText]
  | [hop], h => (h hop List.mem_cons_self).bar_notMem digest
  | hop :: next :: rest, h => by
    obtain ⟨hhop, hrest⟩ := List.forall_mem_cons.mp h
    rw [chainText, List.mem_append, List.mem_cons, not_or, not_or]
    exact ⟨hhop.bar_notMem digest, by decide, bar_notMem_chainText hrest⟩

theorem chainText_inj : ∀ {chain chain' : List HopView}, (∀ hop ∈ chain, hop.Clean) →
    (∀ hop ∈ chain', hop.Clean) → chainText digest chain = chainText digest chain' →
      chain = chain'
  | [], [], _, _, _ => rfl
  | [], hop :: rest, _, _, h => by
    have hat := at_mem_chainText digest (List.cons_ne_nil hop rest)
    rw [← h] at hat
    cases hat
  | hop :: rest, [], _, _, h => by
    have hat := at_mem_chainText digest (List.cons_ne_nil hop rest)
    rw [h] at hat
    cases hat
  | [hop], [hop'], hc, hc', h => by
    rw [HopView.text_inj digest (hc hop List.mem_cons_self) (hc' hop' List.mem_cons_self) h]
  | [hop], hop' :: next :: rest, hc, _, h => by
    have hnot := (hc hop List.mem_cons_self).greater_notMem digest
    rw [show hop.text digest = _ from h, chainText] at hnot
    exact absurd (by simp) hnot
  | hop :: next :: rest, [hop'], _, hc', h => by
    have hnot := (hc' hop' List.mem_cons_self).greater_notMem digest
    rw [show hop'.text digest = _ from h.symm, chainText] at hnot
    exact absurd (by simp) hnot
  | hop :: next :: rest, hop' :: next' :: rest', hc, hc', h => by
    obtain ⟨hhop, hrest⟩ := List.forall_mem_cons.mp hc
    obtain ⟨hhop', hrest'⟩ := List.forall_mem_cons.mp hc'
    rw [chainText, chainText] at h
    obtain ⟨hfirst, hothers⟩ := append_cons_inj_of_notMem (hhop.greater_notMem digest)
      (hhop'.greater_notMem digest) h
    rw [HopView.text_inj digest hhop hhop' hfirst, chainText_inj hrest hrest' hothers]

/-! ## Marks behind the chain -/

theorem chainText_withExtra (extra : List Mark) : ∀ {chain : List HopView}, chain ≠ [] →
    chainText digest (withExtra chain extra) = chainText digest chain ++ marksText digest extra
  | [hop], _ => by
    simp only [withExtra, chainText, HopView.text, marksText_append, List.append_assoc,
      List.cons_append]
  | hop :: next :: rest, _ => by
    have ih := chainText_withExtra extra (List.cons_ne_nil next rest)
    obtain ⟨first, others, heq⟩ : ∃ first others, withExtra (next :: rest) extra = first :: others := by
      cases rest with
      | nil => exact ⟨_, _, rfl⟩
      | cons third rest => exact ⟨_, _, rfl⟩
    rw [heq] at ih
    rw [withExtra, heq, chainText, chainText, ih, List.append_assoc, List.cons_append]

theorem withExtra_nil : ∀ chain : List HopView, withExtra chain [] = chain
  | [] => rfl
  | [hop] => by rw [withExtra, List.append_nil]
  | hop :: next :: rest => by rw [withExtra, withExtra_nil (next :: rest)]

theorem clean_withExtra (extra : List Mark) : ∀ {chain : List HopView}, (∀ hop ∈ chain, hop.Clean) →
    ∀ hop ∈ withExtra chain extra, hop.Clean
  | [], h => h
  | [hop], h => by
    intro last hlast
    rw [withExtra, List.mem_singleton] at hlast
    obtain ⟨husername, hhost⟩ := h hop List.mem_cons_self
    rw [hlast]
    exact ⟨husername, hhost⟩
  | hop :: next :: rest, h => by
    obtain ⟨hhop, hrest⟩ := List.forall_mem_cons.mp h
    rw [withExtra]
    exact List.forall_mem_cons.mpr ⟨hhop, clean_withExtra extra hrest⟩

/-- The chain with what stands behind it, when either may be missing. -/
theorem chain_marks_inj {chain chain' : List HopView} {marks marks' : List Mark}
    (hc : ∀ hop ∈ chain, hop.Clean) (hc' : ∀ hop ∈ chain', hop.Clean)
    (h : chainText digest chain ++ marksText digest marks =
      chainText digest chain' ++ marksText digest marks') :
    (chain = [] ∧ chain' = [] ∧ marks = marks') ∨
      (chain ≠ [] ∧ chain' ≠ [] ∧ withExtra chain marks = withExtra chain' marks') := by
  have hat : ∀ marks : List Mark, '@' ∉ marksText digest marks :=
    fun marks => notMem_marksText digest marks (by decide) (by decide)
  by_cases hnil : chain = [] <;> by_cases hnil' : chain' = []
  · subst hnil hnil'
    exact Or.inl ⟨rfl, rfl, marksText_inj digest h⟩
  · subst hnil
    have hmem := List.mem_append_left (marksText digest marks') (at_mem_chainText digest hnil')
    rw [← h] at hmem
    exact absurd hmem (hat marks)
  · subst hnil'
    have hmem := List.mem_append_left (marksText digest marks) (at_mem_chainText digest hnil)
    rw [h] at hmem
    exact absurd hmem (hat marks')
  · rw [← chainText_withExtra digest marks hnil, ← chainText_withExtra digest marks' hnil'] at h
    exact Or.inr ⟨hnil, hnil',
      chainText_inj digest (clean_withExtra marks hc) (clean_withExtra marks' hc') h⟩

/-! ## Upstream proxies and commands -/

def IsBoolText (text : List Char) : Prop := ∃ b, text = boolText b

theorem marks_not_isBoolText (marks : List Mark) :
    ∀ text ∈ marks.map (Mark.text digest), ¬ IsBoolText text := by
  intro text htext
  obtain ⟨mark, -, rfl⟩ := List.mem_map.mp htext
  rintro ⟨b, heq⟩
  -- A mark that begins like a word for a truth value is longer.
  have hkind := congrArg textKind heq
  rw [textKind_text] at hkind
  cases b <;> cases mark <;> simp [Mark.kind, textKind, boolText, chars, Mark.text] at hkind heq

theorem plain_protocol (protocol : UpstreamProxyProtocol) : Plain protocol.text := by
  cases protocol <;> exact plain_chars (by decide)

theorem splitOn_upstream (proxy : UpstreamProxyConfig) (marks : List Mark) :
    (proxy.text ++ marksText digest marks).splitOn ':' =
      (chars "upstream=" ++ proxy.protocol.text) :: (proxy.host.splitOn ':' ++
        [portText proxy.port]) ++ boolText proxy.remoteDns :: marks.map (Mark.text digest) := by
  have hlabel : ':' ∉ chars "upstream=" ++ proxy.protocol.text :=
    ((plain_chars (by decide)).append (plain_protocol proxy.protocol)).notMem (by decide)
  have hport : ':' ∉ portText proxy.port := (plain_portText proxy.port).notMem (by decide)
  have hbool : ':' ∉ boolText proxy.remoteDns := (plain_boolText proxy.remoteDns).notMem (by decide)
  rw [UpstreamProxyConfig.text]
  simp only [List.append_assoc, List.cons_append]
  rw [← List.append_assoc, List.splitOn_append_cons_self, List.splitOn_append_cons_self,
    List.splitOn_append_cons_self, marksText, splitOn_append_joined _
    (marks_notMem digest marks (by decide)), List.splitOn_eq_singleton hlabel,
    List.splitOn_eq_singleton hport, List.splitOn_eq_singleton hbool]
  simp

/-- **An upstream proxy is told from the marks behind it** by its last part, a truth value. -/
theorem upstream_inj {proxy proxy' : UpstreamProxyConfig} {marks marks' : List Mark}
    (h : proxy.text ++ marksText digest marks = proxy'.text ++ marksText digest marks') :
    proxy = proxy' ∧ marks = marks' := by
  have hsplit := congrArg (List.splitOn ':') h
  rw [splitOn_upstream, splitOn_upstream] at hsplit
  obtain ⟨hfront, hbool, hmarks⟩ := append_cons_inj_of_last (P := IsBoolText) ⟨_, rfl⟩ ⟨_, rfl⟩
    (marks_not_isBoolText digest marks) (marks_not_isBoolText digest marks') hsplit
  obtain ⟨hlabel, hrest⟩ := List.cons.inj hfront
  obtain ⟨hhost, hport⟩ := List.append_inj' hrest rfl
  have hprotocol : proxy.protocol = proxy'.protocol := by
    have htext := List.append_cancel_left hlabel
    cases hp : proxy.protocol <;> cases hp' : proxy'.protocol <;>
      simp [hp, hp', UpstreamProxyProtocol.text, chars] at htext ⊢
  refine ⟨?_, map_text_inj digest hmarks⟩
  cases proxy
  cases proxy'
  simp only at hprotocol hhost hport hbool
  rw [hprotocol, splitOn_inj hhost, portText_inj (List.cons.inj hport).1, boolText_inj hbool]

theorem commandText_plain (command : CommandIdentity) : Plain (command.text digest) := by
  cases command with
  | authorizationRequired => exact plain_chars (by decide)
  | unavailable => exact plain_chars (by decide)
  | direct words => exact (plain_chars (by decide)).append (plain_hex digest words)

theorem u_notMem_hex (bytes : Bytes) : 'u' ∉ digest.hex bytes := by
  intro hmem
  have hdigit := digest.hexDigits bytes 'u' hmem
  unfold chars at hdigit
  exact absurd hdigit (by decide)

/-- What stands behind the label of a command. -/
def CommandIdentity.value : CommandIdentity → List Char
  | .authorizationRequired => chars "authorization-required"
  | .unavailable => chars "unavailable"
  | .direct words => digest.hex words

theorem commandText_eq (command : CommandIdentity) :
    command.text digest = chars "proxy-command=" ++ command.value digest := by
  cases command <;> simp [CommandIdentity.text, CommandIdentity.value, chars]

theorem commandText_inj {command command' : CommandIdentity}
    (h : command.text digest = command'.text digest) : command = command' := by
  rw [commandText_eq, commandText_eq] at h
  have hvalue := List.append_cancel_left h
  have hu : 'u' ∈ chars "authorization-required" ∧ 'u' ∈ chars "unavailable" := by
    unfold chars
    decide
  have hne : chars "authorization-required" ≠ chars "unavailable" := by
    unfold chars
    decide
  have hhex : ∀ {text : List Char} {words : Bytes}, 'u' ∈ text → text ≠ digest.hex words := by
    rintro text words hmem rfl
    exact u_notMem_hex digest words hmem
  cases command with
  | authorizationRequired =>
    cases command' with
    | authorizationRequired => rfl
    | unavailable => exact absurd hvalue hne
    | direct words => exact absurd hvalue (hhex hu.1)
  | unavailable =>
    cases command' with
    | authorizationRequired => exact absurd hvalue.symm hne
    | unavailable => rfl
    | direct words => exact absurd hvalue (hhex hu.2)
  | direct words =>
    cases command' with
    | authorizationRequired => exact absurd hvalue.symm (hhex hu.1)
    | unavailable => exact absurd hvalue.symm (hhex hu.2)
    | direct words' => rw [digest.injective hvalue]

/-- A text without colons is told from the marks behind it. -/
theorem plain_marks_inj {text text' : List Char} {marks marks' : List Mark} (hplain : Plain text)
    (hplain' : Plain text')
    (h : text ++ marksText digest marks = text' ++ marksText digest marks') :
    text = text' ∧ marks = marks' := by
  have hsplit := congrArg (List.splitOn ':') h
  rw [marksText, marksText, splitOn_append_joined _ (marks_notMem digest marks (by decide)),
    splitOn_append_joined _ (marks_notMem digest marks' (by decide)),
    List.splitOn_eq_singleton (hplain.notMem (by decide)),
    List.splitOn_eq_singleton (hplain'.notMem (by decide))] at hsplit
  obtain ⟨htext, hmarks⟩ := List.cons.inj hsplit
  exact ⟨htext, map_text_inj digest hmarks⟩

/-! ## Segments -/

/-- The segments begin with one of these characters. -/
def BeginWith (first : List Char) (segments : List (List Char)) : Prop :=
  ∀ segment ∈ segments, ∃ c ∈ first, segment.head? = some c

theorem BeginWith.append {first first' : List Char} {a b : List (List Char)}
    (ha : BeginWith first a) (hb : BeginWith first' b) : BeginWith (first ++ first') (a ++ b) := by
  intro segment hsegment
  rcases List.mem_append.mp hsegment with hmem | hmem
  · obtain ⟨c, hc, hhead⟩ := ha segment hmem
    exact ⟨c, List.mem_append_left _ hc, hhead⟩
  · obtain ⟨c, hc, hhead⟩ := hb segment hmem
    exact ⟨c, List.mem_append_right _ hc, hhead⟩

/-- Segments are told apart by their first characters. -/
theorem BeginWith.append_inj {first : Char} {others : List Char} {a a' r r' : List (List Char)}
    (ha : BeginWith [first] a) (ha' : BeginWith [first] a') (hr : BeginWith others r)
    (hr' : BeginWith others r') (hfirst : first ∉ others) (h : a ++ r = a' ++ r') :
    a = a' ∧ r = r' := by
  have hall : ∀ {a}, BeginWith [first] a → ∀ segment ∈ a, segment.head? = some first := by
    intro a ha segment hsegment
    obtain ⟨c, hc, hhead⟩ := ha segment hsegment
    rwa [List.mem_singleton.mp hc] at hhead
  have hnone : ∀ {r}, BeginWith others r → ∀ segment ∈ r.head?, segment.head? ≠ some first := by
    intro r hr segment hsegment heq
    obtain ⟨c, hc, hhead⟩ := hr segment (List.mem_of_mem_head? hsegment)
    rw [heq] at hhead
    exact hfirst (Option.some.inj hhead ▸ hc)
  exact append_inj_of_front (P := fun segment => segment.head? = some first) (hall ha) (hall ha')
    (hnone hr) (hnone hr') h

namespace Spelled

theorem beginWith_upstreamSegment (s : Spelled) : BeginWith ['u'] (s.upstreamSegment digest) := by
  intro segment hsegment
  rw [upstreamSegment] at hsegment
  split at hsegment
  · cases hsegment
  · rw [List.mem_singleton.mp hsegment]
    refine ⟨'u', by decide, ?_⟩
    unfold UpstreamProxyConfig.text chars
    rfl

theorem beginWith_legacySegment (s : Spelled) : BeginWith ['l'] (s.legacySegment digest) := by
  intro segment hsegment
  rw [legacySegment] at hsegment
  split at hsegment
  · rw [List.mem_singleton.mp hsegment]
    refine ⟨'l', by decide, ?_⟩
    unfold chars
    rfl
  · cases hsegment

theorem beginWith_forwardingSegment (s : Spelled) :
    BeginWith ['a'] (s.forwardingSegment digest) := by
  intro segment hsegment
  rw [forwardingSegment] at hsegment
  split at hsegment
  · rw [List.mem_singleton.mp hsegment]
    refine ⟨'a', by decide, ?_⟩
    unfold chars
    rfl
  · cases hsegment

theorem beginWith_commandSegment (s : Spelled) : BeginWith ['p'] (s.commandSegment digest) := by
  intro segment hsegment
  rw [commandSegment] at hsegment
  split at hsegment
  · cases hsegment
  · rw [List.mem_singleton.mp hsegment, commandText_eq]
    refine ⟨'p', by decide, ?_⟩
    unfold chars
    rfl

theorem beginWith_strategySegment (s : Spelled) : BeginWith ['c'] s.strategySegment := by
  intro segment hsegment
  rw [strategySegment] at hsegment
  split at hsegment
  · rw [List.mem_singleton.mp hsegment]
    refine ⟨'c', by decide, ?_⟩
    unfold chars
    rfl
  · cases hsegment

/-- What the segments show, one after the other. -/
theorem segments_inj {s s' : Spelled} (h : s.segments digest = s'.segments digest) :
    s.upstreamSegment digest = s'.upstreamSegment digest ∧
      s.legacySegment digest = s'.legacySegment digest ∧
      s.forwardingSegment digest = s'.forwardingSegment digest ∧
      s.commandSegment digest = s'.commandSegment digest ∧
      s.strategySegment = s'.strategySegment := by
  have hcommand : ∀ s : Spelled, BeginWith (['p'] ++ ['c'])
      (s.commandSegment digest ++ s.strategySegment) :=
    fun s => (s.beginWith_commandSegment digest).append s.beginWith_strategySegment
  have hforwarding : ∀ s : Spelled, BeginWith (['a'] ++ (['p'] ++ ['c']))
      (s.forwardingSegment digest ++ (s.commandSegment digest ++ s.strategySegment)) :=
    fun s => (s.beginWith_forwardingSegment digest).append (hcommand s)
  have hlegacy : ∀ s : Spelled, BeginWith (['l'] ++ (['a'] ++ (['p'] ++ ['c'])))
      (s.legacySegment digest ++ (s.forwardingSegment digest ++
        (s.commandSegment digest ++ s.strategySegment))) :=
    fun s => (s.beginWith_legacySegment digest).append (hforwarding s)
  obtain ⟨hu, h⟩ := (s.beginWith_upstreamSegment digest).append_inj
    (s'.beginWith_upstreamSegment digest) (hlegacy s) (hlegacy s') (by decide) h
  obtain ⟨hl, h⟩ := (s.beginWith_legacySegment digest).append_inj
    (s'.beginWith_legacySegment digest) (hforwarding s) (hforwarding s') (by decide) h
  obtain ⟨hf, h⟩ := (s.beginWith_forwardingSegment digest).append_inj
    (s'.beginWith_forwardingSegment digest) (hcommand s) (hcommand s') (by decide) h
  obtain ⟨hc, hs⟩ := (s.beginWith_commandSegment digest).append_inj
    (s'.beginWith_commandSegment digest) s.beginWith_strategySegment s'.beginWith_strategySegment
    (by decide) h
  exact ⟨hu, hl, hf, hc, hs⟩

theorem legacy_eq_of_segment {s s' : Spelled}
    (h : s.legacySegment digest = s'.legacySegment digest) : s.legacy = s'.legacy := by
  rw [legacySegment, legacySegment] at h
  cases hl : s.legacy <;> cases hl' : s'.legacy <;> simp [hl, hl'] at h ⊢

theorem agentForwarding_eq_of_segment {s s' : Spelled}
    (h : s.forwardingSegment digest = s'.forwardingSegment digest) :
    s.agentForwarding = s'.agentForwarding := by
  rw [forwardingSegment, forwardingSegment] at h
  cases hf : s.agentForwarding <;> cases hf' : s'.agentForwarding <;> simp [hf, hf'] at h ⊢

theorem dedicated_eq_of_segment {s s' : Spelled} (h : s.strategySegment = s'.strategySegment) :
    s.dedicated = s'.dedicated := by
  rw [strategySegment, strategySegment] at h
  cases hd : s.dedicated <;> cases hd' : s'.dedicated <;> simp [hd, hd'] at h ⊢

theorem command_eq_of_segment {s s' : Spelled}
    (h : s.commandSegment digest = s'.commandSegment digest) :
    s.command = s'.command ∧ (s.command.isSome = true → s.offer = s'.offer) := by
  rw [commandSegment, commandSegment] at h
  cases hc : s.command with
  | none =>
    cases hc' : s'.command with
    | none => exact ⟨rfl, by simp⟩
    | some command' => simp [hc, hc'] at h
  | some command =>
    cases hc' : s'.command with
    | none => simp [hc, hc'] at h
    | some command' =>
      simp only [hc, hc', List.cons.injEq, and_true] at h
      obtain ⟨hcommand, hoffer⟩ := plain_marks_inj digest (commandText_plain digest command)
        (commandText_plain digest command') h
      exact ⟨congrArg some (commandText_inj digest hcommand), fun _ => hoffer⟩

theorem upstream_eq_of_segment {s s' : Spelled}
    (h : s.upstreamSegment digest = s'.upstreamSegment digest) : s.upstream = s'.upstream ∧
      (s.upstream.isSome = true → (if s.legacy || s.agentForwarding then [] else s.hanging) =
        if s'.legacy || s'.agentForwarding then [] else s'.hanging) := by
  rw [upstreamSegment, upstreamSegment] at h
  cases hu : s.upstream with
  | none =>
    cases hu' : s'.upstream with
    | none => exact ⟨rfl, by simp⟩
    | some proxy' => simp [hu, hu'] at h
  | some proxy =>
    cases hu' : s'.upstream with
    | none => simp [hu, hu'] at h
    | some proxy' =>
      simp only [hu, hu', List.cons.injEq, and_true] at h
      obtain ⟨hproxy, hmarks⟩ := upstream_inj digest h
      exact ⟨congrArg some hproxy, fun _ => hmarks⟩

/-- **Behind a bar, the marks of the target are told from everything in front.** -/
theorem hanging_eq_of_barred {s s' : Spelled} (h : s.segments digest = s'.segments digest)
    (hbarred : s.barred = true) : s.hanging = s'.hanging := by
  obtain ⟨hu, hl, hf, -, -⟩ := segments_inj digest h
  have hlegacy := legacy_eq_of_segment digest hl
  have hforwarding := agentForwarding_eq_of_segment digest hf
  cases hforwards : s.agentForwarding with
  | true =>
    rw [forwardingSegment, forwardingSegment, ← hforwarding, hforwards] at hf
    exact marksText_inj digest (List.append_cancel_left (List.cons.inj hf).1)
  | false =>
    cases hlegacies : s.legacy with
    | true =>
      rw [legacySegment, legacySegment, ← hlegacy, ← hforwarding, hlegacies, hforwards] at hl
      exact marksText_inj digest (List.append_cancel_left (List.cons.inj hl).1)
    | false =>
      have hsome : s.upstream.isSome = true := by
        rw [barred, hlegacies, hforwards] at hbarred
        simpa using hbarred
      have hmarks := (upstream_eq_of_segment digest hu).2 hsome
      rwa [← hlegacy, ← hforwarding, hlegacies, hforwards] at hmarks

/-! ## The whole key -/

/-- What every configuration spells out, if its names are clean. -/
structure Regular (s : Spelled) : Prop where
  username : CleanName s.username
  host : CleanName s.host
  chain : ∀ hop ∈ s.chain, hop.Clean
  upstream : ∀ proxy ∈ s.upstream, CleanName proxy.host
  agents : ∀ mark ∈ s.agents, mark.isTarget = true
  offer : ∀ mark ∈ s.offer, mark.isTarget = false
  hops : ∀ hop ∈ s.chain, ∀ mark ∈ hop.marks, mark.isTarget = false

theorem bar_notMem_marksText (marks : List Mark) : '|' ∉ marksText digest marks :=
  notMem_marksText digest marks (by decide) (by decide)

theorem Regular.bar_notMem {s : Spelled} (h : s.Regular) :
    ∀ segment ∈ s.firstSegment digest :: s.segments digest, '|' ∉ segment := by
  have hmarks := bar_notMem_marksText digest
  have hplain : ∀ {text : List Char}, Plain text → ∀ marks : List Mark,
      '|' ∉ text ++ marksText digest marks := by
    intro text htext marks
    rw [List.mem_append, not_or]
    exact ⟨htext.notMem (by decide), hmarks marks⟩
  intro segment hsegment
  rw [List.mem_cons, segments, List.mem_append, List.mem_append, List.mem_append,
    List.mem_append] at hsegment
  rcases hsegment with rfl | hu | hl | hf | hc | hd
  · rw [firstSegment, List.mem_append, not_or]
    exact ⟨bar_notMem_chainText digest h.chain, hmarks _⟩
  · rw [upstreamSegment] at hu
    split at hu
    · cases hu
    · next proxy hproxy =>
      have hlabel : '|' ∉ chars "upstream=" ++ proxy.protocol.text :=
        ((plain_chars (by decide)).append (plain_protocol proxy.protocol)).notMem (by decide)
      have hport : '|' ∉ portText proxy.port := (plain_portText proxy.port).notMem (by decide)
      have hbool : '|' ∉ boolText proxy.remoteDns :=
        (plain_boolText proxy.remoteDns).notMem (by decide)
      rw [List.mem_singleton.mp hu, UpstreamProxyConfig.text]
      simp only [List.mem_append, List.mem_cons, not_or] at hlabel ⊢
      exact ⟨⟨hlabel, by decide, (h.upstream proxy hproxy).2.1, by decide, hport, by decide, hbool⟩,
        hmarks _⟩
  · rw [legacySegment] at hl
    split at hl
    · rw [List.mem_singleton.mp hl]
      exact hplain (plain_chars (by decide)) _
    · cases hl
  · rw [forwardingSegment] at hf
    split at hf
    · rw [List.mem_singleton.mp hf]
      exact hplain (plain_chars (by decide)) _
    · cases hf
  · rw [commandSegment] at hc
    split at hc
    · cases hc
    · rw [List.mem_singleton.mp hc]
      exact hplain (commandText_plain digest _) _
  · rw [strategySegment] at hd
    split at hd
    · rw [List.mem_singleton.mp hd]
      exact (plain_chars (by decide)).notMem (by decide)
    · cases hd

/-- **What the bars of a key show.** -/
theorem Regular.text_parts {s s' : Spelled} (hs : s.Regular) (hs' : s'.Regular)
    (h : s.text digest = s'.text digest) : s.username = s'.username ∧ s.host = s'.host ∧
      s.port = s'.port ∧ s.firstSegment digest = s'.firstSegment digest ∧
      s.segments digest = s'.segments digest := by
  obtain ⟨husername, hrest⟩ := append_cons_inj_of_notMem hs.username.1 hs'.username.1 h
  have hsplit := congrArg (List.splitOn '|') hrest
  have htarget : ∀ {s : Spelled}, s.Regular →
      (s.host ++ ':' :: (portText s.port ++
        joined '|' (s.firstSegment digest :: s.segments digest))).splitOn '|' =
          (s.host ++ ':' :: portText s.port) :: s.firstSegment digest :: s.segments digest := by
    intro s hs
    have hfront : '|' ∉ s.host ++ ':' :: portText s.port := by
      simp only [List.mem_append, List.mem_cons, not_or]
      exact ⟨hs.host.2.1, by decide, (plain_portText s.port).notMem (by decide)⟩
    have happend := splitOn_append_joined (s.host ++ ':' :: portText s.port)
      (hs.bar_notMem digest)
    rw [List.splitOn_eq_singleton hfront, List.append_assoc, List.cons_append,
      List.singleton_append] at happend
    exact happend
  rw [htarget hs, htarget hs'] at hsplit
  obtain ⟨hport, hsegments⟩ := List.cons.inj hsplit
  obtain ⟨hfirst, hsegments⟩ := List.cons.inj hsegments
  have hport : s.host ++ ':' :: (portText s.port ++ marksText digest []) =
      s'.host ++ ':' :: (portText s'.port ++ marksText digest []) := by
    rwa [marksText_nil, List.append_nil, List.append_nil]
  obtain ⟨hhost, hport, -⟩ := host_port_inj digest hport
  exact ⟨husername, hhost, hport, hfirst, hsegments⟩

/-- The marks behind the chain: those of its agents, then offers. -/
theorem eq_of_hanging {s s' : Spelled} (hs : s.Regular) (hs' : s'.Regular)
    (hcommand : s.command = s'.command) (hoffer : s.command.isSome = true → s.offer = s'.offer)
    (h : s.hanging = s'.hanging) : s.agents = s'.agents ∧ s.offer = s'.offer := by
  have hstop : ∀ {s : Spelled}, s.Regular →
      ∀ mark ∈ (if s.command.isSome then [] else s.offer).head?, ¬ mark.isTarget = true := by
    intro s hs mark hmark
    split at hmark
    · cases hmark
    · rw [hs.offer mark (List.mem_of_mem_head? hmark)]
      decide
  obtain ⟨hagents, hrest⟩ := append_inj_of_front (P := fun mark => mark.isTarget = true)
    hs.agents hs'.agents (hstop hs) (hstop hs') h
  refine ⟨hagents, ?_⟩
  cases hsome : s.command.isSome with
  | true => exact hoffer hsome
  | false =>
    rw [← hcommand, hsome] at hrest
    exact hrest

end Spelled

end Texts

/-! ## The last hop -/

theorem withExtra_concat (extra : List Mark) (last : HopView) : ∀ front : List HopView,
    withExtra (front ++ [last]) extra =
      front ++ [{ last with marks := last.marks ++ extra }]
  | [] => rfl
  | [hop] => rfl
  | hop :: next :: rest => by
    have ih := withExtra_concat extra last (next :: rest)
    rw [List.cons_append] at ih
    rw [List.cons_append, List.cons_append, withExtra, ih, List.cons_append, List.cons_append,
      List.cons_append]

/-- Chains that are the same with more marks behind them differ in the last hop's marks only. -/
theorem exists_last_of_withExtra {chain chain' : List HopView} {extra extra' : List Mark}
    (hne : chain ≠ []) (hne' : chain' ≠ []) (h : withExtra chain extra = withExtra chain' extra') :
    ∃ front last, chain = front ++ [last] ∧
      ∃ marks, chain' = front ++ [{ last with marks := marks }] ∧
        last.marks ++ extra = marks ++ extra' := by
  obtain ⟨front, last, rfl⟩ := (List.eq_nil_or_concat' chain).resolve_left hne
  obtain ⟨front', last', rfl⟩ := (List.eq_nil_or_concat' chain').resolve_left hne'
  rw [withExtra_concat, withExtra_concat] at h
  obtain ⟨rfl, hlast⟩ := List.append_inj' h rfl
  obtain ⟨username, host, port, marks⟩ := last
  obtain ⟨username', host', port', marks'⟩ := last'
  simp only [List.cons.injEq, HopView.mk.injEq, and_true] at hlast
  obtain ⟨rfl, rfl, rfl, hmarks⟩ := hlast
  exact ⟨front, _, rfl, marks', rfl, hmarks⟩

namespace Spelled

theorem text_merged (digest : PoolDigest) (s : Spelled) : s.merged.text digest = s.text digest := by
  rw [merged]
  split
  · rfl
  · next hmerge =>
    rw [Bool.or_eq_true, not_or, divided] at hmerge
    obtain ⟨hdivided, hchain⟩ := hmerge
    have hne : s.chain ≠ [] := by
      rintro hnil
      rw [hnil] at hchain
      exact hchain rfl
    obtain ⟨username, host, port, chain, upstream, legacy, agentForwarding, agents, command, offer,
      dedicated⟩ := s
    rw [text_eq, text_eq]
    dsimp only at hdivided hne ⊢
    rw [chainText_withExtra digest offer hne]
    cases upstream <;> cases legacy <;> cases agentForwarding <;> cases agents <;> cases command <;>
      simp [barred] at hdivided ⊢

theorem Regular.rest_not_isTarget {s : Spelled} (hs : s.Regular) :
    ∀ mark ∈ (if s.command.isSome then [] else s.offer), mark.isTarget = false := by
  intro mark hmark
  split at hmark
  · cases hmark
  · exact hs.offer mark hmark

/-- Without a bar, agents of the target still end the marks of the last hop; without these, an offer
may be the last hop's or the target's. -/
theorem merged_eq_of_withExtra {s s' : Spelled} (hs : s.Regular) (hs' : s'.Regular)
    (hcommand : s.command = s'.command) (hoffers : s.command.isSome = true → s.offer = s'.offer)
    (hb : s.barred = false) (hbarred : s.barred = s'.barred)
    (hrest : ∀ chain agents offer,
      { s with chain, agents, offer } = { s' with chain, agents, offer }) (hne : s.chain ≠ [])
    (hne' : s'.chain ≠ []) (hextra : withExtra s.chain s.hanging = withExtra s'.chain s'.hanging) :
    s.merged = s'.merged := by
  obtain ⟨front, last, hchain, marks, hchain', hmarks⟩ :=
    exists_last_of_withExtra hne hne' hextra
  have hlast : ∀ mark ∈ last.marks, mark.isTarget = false :=
    hs.hops last (by rw [hchain]; simp)
  have hlast' : ∀ mark ∈ marks, mark.isTarget = false :=
    hs'.hops { last with marks := marks } (by rw [hchain']; simp)
  have hsame : last.marks = marks → s.chain = s'.chain := by
    rintro rfl
    rw [hchain, hchain']
  have heq : s.chain = s'.chain → s.agents = s'.agents → s.offer = s'.offer → s = s' := by
    intro hchain hagents hoffer
    calc s = { s with chain := s.chain, agents := s.agents, offer := s.offer } := rfl
      _ = { s' with chain := s.chain, agents := s.agents, offer := s.offer } := hrest _ _ _
      _ = s' := by rw [hchain, hagents, hoffer]
  -- Agents are seen on both sides or on none.
  have hnone : ∀ {s s' : Spelled} {a b : List Mark}, s.Regular → s'.Regular →
      (∀ mark ∈ a, mark.isTarget = false) → a ++ s.hanging = b ++ s'.hanging → s.agents = [] →
        s'.agents = [] := by
    intro s s' a b hs hs' ha h hnil
    by_contra hne
    obtain ⟨mark, hmark⟩ := List.exists_mem_of_ne_nil _ hne
    have hmem : mark ∈ b ++ s'.hanging :=
      List.mem_append_right b (List.mem_append_left _ hmark)
    rw [← h, hanging, hnil, List.nil_append, List.mem_append] at hmem
    have hfalse : mark.isTarget = false := hmem.elim (ha mark) (hs.rest_not_isTarget mark)
    rw [hs'.agents mark hmark] at hfalse
    cases hfalse
  by_cases hagents : s.agents = []
  · have hagents' := hnone hs hs' hlast hmarks hagents
    cases hsome : s.command.isSome with
    | true =>
      rw [hanging, hanging, hagents, hagents', ← hcommand, hsome] at hmarks
      have hlasts : last.marks = marks := by simpa using hmarks
      rw [heq (hsame hlasts) (hagents.trans hagents'.symm) (hoffers hsome)]
    | false =>
      have hhanging : s.hanging = s.offer := by rw [hanging, hagents, hsome]; rfl
      have hhanging' : s'.hanging = s'.offer := by rw [hanging, hagents', ← hcommand, hsome]; rfl
      have hmerge : s.divided = false ∧ s.chain.isEmpty = false := by
        rw [divided, hb, hagents, hsome]
        exact ⟨rfl, List.isEmpty_eq_false_iff.mpr hne⟩
      have hmerge' : s'.divided = false ∧ s'.chain.isEmpty = false := by
        rw [divided, ← hbarred, hb, hagents', ← hcommand, hsome]
        exact ⟨rfl, List.isEmpty_eq_false_iff.mpr hne'⟩
      rw [hhanging, hhanging'] at hextra
      have hsplit : s.merged = { s with chain := withExtra s.chain s.offer, offer := [] } := by
        rw [merged, hmerge.1, hmerge.2]
        rfl
      have hsplit' : s'.merged = { s' with chain := withExtra s'.chain s'.offer, offer := [] } := by
        rw [merged, hmerge'.1, hmerge'.2]
        rfl
      calc s.merged = { s with chain := withExtra s.chain s.offer, offer := [] } := hsplit
        _ = { s with chain := withExtra s.chain s.offer, agents := s.agents, offer := [] } := rfl
        _ = { s' with chain := withExtra s.chain s.offer, agents := s.agents, offer := [] } :=
          hrest _ _ _
        _ = { s' with chain := withExtra s'.chain s'.offer, agents := s'.agents, offer := [] } := by
          rw [hextra, hagents, hagents']
        _ = s'.merged := hsplit'.symm
  · have hagents' : s'.agents ≠ [] := by
      intro hnil
      exact hagents (hnone hs' hs hlast' hmarks.symm hnil)
    have hstop : ∀ {s : Spelled}, s.Regular → s.agents ≠ [] →
        ∀ mark ∈ s.hanging.head?, ¬ mark.isTarget = false := by
      intro s hs hne mark hmark
      obtain ⟨first, rest, hfirst⟩ := List.exists_cons_of_ne_nil hne
      rw [hanging, hfirst] at hmark
      obtain rfl : first = mark := Option.some.inj hmark
      rw [hs.agents first (by rw [hfirst]; exact List.mem_cons_self)]
      decide
    obtain ⟨hlasts, hhanging⟩ := append_inj_of_front (P := fun mark => mark.isTarget = false) hlast
      hlast' (hstop hs hagents) (hstop hs' hagents') hmarks
    obtain ⟨hagents, hoffer⟩ := eq_of_hanging hs hs' hcommand hoffers hhanging
    rw [heq (hsame hlasts) hagents hoffer]

/-- **Keys are the same if and only if what can be told apart is the same.** -/
theorem text_eq_iff (digest : PoolDigest) {s s' : Spelled} (hs : s.Regular) (hs' : s'.Regular) :
    s.text digest = s'.text digest ↔ s.merged = s'.merged := by
  constructor
  · intro h
    obtain ⟨husername, hhost, hport, hfirst, hsegments⟩ := hs.text_parts digest hs' h
    obtain ⟨hu, hl, hf, hc, hd⟩ := segments_inj digest hsegments
    have hupstream := (upstream_eq_of_segment digest hu).1
    have hlegacy := legacy_eq_of_segment digest hl
    have hforwarding := agentForwarding_eq_of_segment digest hf
    obtain ⟨hcommand, hoffers⟩ := command_eq_of_segment digest hc
    have hdedicated := dedicated_eq_of_segment hd
    have hbarred : s.barred = s'.barred := by rw [barred, barred, hupstream, hlegacy, hforwarding]
    have heq : s.chain = s'.chain → s.agents = s'.agents → s.offer = s'.offer → s = s' :=
      fun hchain hagents hoffer => Spelled.ext husername hhost hport hchain hupstream hlegacy
        hforwarding hagents hcommand hoffer hdedicated
    have hrest : ∀ chain agents offer,
        { s with chain, agents, offer } = { s' with chain, agents, offer } :=
      fun chain agents offer => Spelled.ext husername hhost hport rfl hupstream hlegacy hforwarding
        rfl hcommand rfl hdedicated
    rw [firstSegment, firstSegment, ← hbarred] at hfirst
    cases hb : s.barred with
    | true =>
      -- The chain ends at the bar.
      obtain ⟨hagents, hoffer⟩ := eq_of_hanging hs hs' hcommand hoffers
        (hanging_eq_of_barred digest hsegments hb)
      simp only [hb, if_true] at hfirst
      have hchain : s.chain = s'.chain := by
        rcases chain_marks_inj digest hs.chain hs'.chain hfirst with ⟨hnil, hnil', -⟩ | ⟨-, -, hchain⟩
        · rw [hnil, hnil']
        · rwa [withExtra_nil, withExtra_nil] at hchain
      rw [heq hchain hagents hoffer]
    | false =>
      simp only [hb, Bool.false_eq_true, if_false] at hfirst
      rcases chain_marks_inj digest hs.chain hs'.chain hfirst with
        ⟨hnil, hnil', hhanging⟩ | ⟨hne, hne', hextra⟩
      · obtain ⟨hagents, hoffer⟩ := eq_of_hanging hs hs' hcommand hoffers hhanging
        rw [heq (hnil.trans hnil'.symm) hagents hoffer]
      · exact merged_eq_of_withExtra hs hs' hcommand hoffers hb hbarred hrest hne hne' hextra
  · intro h
    rw [← text_merged, h, text_merged]

end Spelled

/-! ## Configurations -/

/-- The names of a configuration are free of the separators of keys. -/
structure SshConfig.CleanNames (config : SshConfig) : Prop where
  username : CleanName config.username
  host : CleanName config.host
  hops : ∀ hop ∈ config.hops, CleanName hop.username ∧ CleanName hop.host
  upstream : ∀ proxy ∈ config.upstreamProxy, CleanName proxy.host

/-- A hop of a route, with the digest of its agent. -/
structure HopRoute where
  username : List Char
  host : List Char
  port : UInt16
  legacy : Bool
  agentForwarding : Bool
  identityAgent : Option (List Char)
deriving DecidableEq

section Routes

variable (digest : PoolDigest) (environment : AgentEnvironment)

def ProxyHopConfig.route (hop : ProxyHopConfig) : HopRoute where
  username := hop.username
  host := hop.host
  port := hop.port
  legacy := hop.legacySshCompatibility
  agentForwarding := hop.agentForwarding
  identityAgent := hop.identityAgent.map fun endpoint =>
    digest.hex (identityAgentBytes environment (some endpoint))

/-- The offers of algorithms, along the route. -/
def SshConfig.algorithmOffers (config : SshConfig) : List SshAlgorithmPreferences :=
  config.hops.map ProxyHopConfig.sshAlgorithms ++ [config.sshAlgorithms]

/-- What a key is to separate. -/
structure SameRoute (a b : SshConfig) : Prop where
  username : a.username = b.username
  host : a.host = b.host
  port : a.port = b.port
  hops : a.hops.map (·.route digest environment) = b.hops.map (·.route digest environment)
  upstream : a.upstreamProxy = b.upstreamProxy
  proxyCommand : a.proxyCommand = b.proxyCommand
  legacy : a.legacySshCompatibility = b.legacySshCompatibility
  agentForwarding : a.agentForwarding = b.agentForwarding
  algorithms : a.algorithmOffers = b.algorithmOffers

/-- The configurations spell out the same, up to offers that may be the last hop's or the target's,
but their commands or their offers differ. -/
def Confused (a b : SshConfig) : Prop :=
  (a.spelled environment).merged = (b.spelled environment).merged ∧
    (a.proxyCommand ≠ b.proxyCommand ∨ a.algorithmOffers ≠ b.algorithmOffers)

end Routes

theorem isOffer_offerMarks (auth : AuthMethod) (totp : Option TotpBinding)
    (preferences : SshAlgorithmPreferences) :
    ∀ mark ∈ offerMarks auth totp preferences, mark.isOffer = true := by
  intro mark hmark
  rw [offerMarks, List.mem_append, List.mem_append] at hmark
  rcases hmark with (hmark | hmark) | hmark
  · cases auth with
    | kerberosPreferred identity delegate fallback =>
      simp only [authenticationMarks, List.mem_cons, List.not_mem_nil, or_false] at hmark
      rcases hmark with rfl | rfl <;> rfl
    | _ => cases hmark
  · cases totp with
    | none => cases hmark
    | some binding =>
      rw [List.mem_singleton.mp hmark]
      rfl
  · rw [algorithmMarks] at hmark
    split at hmark
    · cases hmark
    · rw [List.mem_singleton.mp hmark]
      rfl

theorem isOffer_routeMarks (environment : AgentEnvironment) (hop : ProxyHopConfig) :
    ∀ mark ∈ hop.routeMarks environment, mark.isOffer = false ∧ mark.isTarget = false := by
  intro mark hmark
  simp only [ProxyHopConfig.routeMarks, List.mem_append] at hmark
  rcases hmark with ((hmark | hmark) | hmark) | hmark
  all_goals
    split at hmark
    all_goals first
      | rw [List.mem_singleton.mp hmark]
        exact ⟨rfl, rfl⟩
      | cases hmark

theorem not_isTarget_of_isOffer {mark : Mark} (h : mark.isOffer = true) : mark.isTarget = false := by
  cases mark <;> first | rfl | cases h

theorem SshConfig.CleanNames.regular {config : SshConfig} (h : config.CleanNames)
    (environment : AgentEnvironment) : (config.spelled environment).Regular := by
  have hoffer : ∀ (auth : AuthMethod) (totp : Option TotpBinding)
      (preferences : SshAlgorithmPreferences), ∀ mark ∈ offerMarks auth totp preferences,
        mark.isTarget = false :=
    fun auth totp preferences mark hmark =>
      not_isTarget_of_isOffer (isOffer_offerMarks auth totp preferences mark hmark)
  refine ⟨h.username, h.host, ?_, h.upstream, ?_, hoffer _ _ _, ?_⟩
  · intro view hview
    obtain ⟨hop, hhop, rfl⟩ := List.mem_map.mp hview
    exact ⟨(h.hops hop hhop).1, (h.hops hop hhop).2⟩
  · intro mark hmark
    simp only [SshConfig.spelled, SshConfig.agentMarks, List.mem_append] at hmark
    rcases hmark with hmark | hmark
    · split at hmark
      · rw [List.mem_singleton.mp hmark]
        rfl
      · cases hmark
    · split at hmark
      · rw [List.mem_singleton.mp hmark]
        rfl
      · cases hmark
  · intro view hview mark hmark
    obtain ⟨hop, -, rfl⟩ := List.mem_map.mp hview
    rcases List.mem_append.mp hmark with hmark | hmark
    · exact (isOffer_routeMarks environment hop mark hmark).2
    · exact hoffer _ _ _ mark hmark

/-! ## The route, without offers -/

/-- A hop without what it offers. -/
def HopView.core (hop : HopView) : HopView :=
  { hop with marks := hop.marks.takeWhile fun mark => !mark.isOffer }

theorem takeWhile_append_offers {marks extra : List Mark}
    (hextra : ∀ mark ∈ extra, mark.isOffer = true) :
    (marks ++ extra).takeWhile (fun mark => !mark.isOffer) =
      marks.takeWhile fun mark => !mark.isOffer := by
  induction marks with
  | nil =>
    cases extra with
    | nil => rfl
    | cons mark extra =>
      rw [List.nil_append, List.takeWhile_cons_of_neg, List.takeWhile_nil]
      rw [hextra mark List.mem_cons_self]
      decide
  | cons mark marks ih =>
    rw [List.cons_append, List.takeWhile_cons, List.takeWhile_cons, ih]

theorem core_withExtra {extra : List Mark} (hextra : ∀ mark ∈ extra, mark.isOffer = true) :
    ∀ chain : List HopView, (withExtra chain extra).map HopView.core = chain.map HopView.core
  | [] => rfl
  | [hop] => by
    simp only [withExtra, List.map_singleton, HopView.core, takeWhile_append_offers hextra]
  | hop :: next :: rest => by
    rw [withExtra, List.map_cons, core_withExtra hextra (next :: rest)]
    rfl

theorem core_merged {s : Spelled} (h : ∀ mark ∈ s.offer, mark.isOffer = true) :
    s.merged.chain.map HopView.core = s.chain.map HopView.core := by
  rw [Spelled.merged]
  split
  · rfl
  · exact core_withExtra h s.chain

section Routes

variable (digest : PoolDigest) (environment : AgentEnvironment)

/-- The route of a hop, from what it spells out. -/
def HopView.route (hop : HopView) : HopRoute where
  username := hop.username
  host := hop.host
  port := hop.port
  legacy := decide (Mark.legacy ∈ hop.marks)
  agentForwarding := decide (Mark.agentForwarding ∈ hop.marks)
  identityAgent := hop.marks.findSome? fun mark =>
    match mark with
    | .identityAgent agent => some (digest.hex agent)
    | _ => none

theorem route_core_view (hop : ProxyHopConfig) :
    (hop.view environment).core.route digest = hop.route digest environment := by
  have hmarks : (hop.view environment).core.marks = hop.routeMarks environment := by
    rw [HopView.core, ProxyHopConfig.view]
    dsimp only
    rw [takeWhile_append_offers (isOffer_offerMarks _ _ _), List.takeWhile_eq_self_iff]
    intro mark hmark
    rw [(isOffer_routeMarks environment hop mark hmark).1]
    rfl
  rw [HopView.route, hmarks]
  cases hl : hop.legacySshCompatibility <;> cases hf : hop.agentForwarding <;>
    cases hi : hop.identityAgent <;>
      simp [HopView.core, ProxyHopConfig.view, ProxyHopConfig.route, ProxyHopConfig.routeMarks, hl,
        hf, hi]

theorem routes_eq_of_merged {a b : SshConfig}
    (h : (a.spelled environment).merged = (b.spelled environment).merged) :
    a.hops.map (·.route digest environment) = b.hops.map (·.route digest environment) := by
  have hroutes : ∀ config : SshConfig,
      ((config.spelled environment).merged.chain.map HopView.core).map (HopView.route digest) =
        config.hops.map (·.route digest environment) := by
    intro config
    rw [core_merged (isOffer_offerMarks _ _ _)]
    simp only [SshConfig.spelled, List.map_map]
    exact List.map_congr_left fun hop _ => route_core_view digest environment hop
  rw [← hroutes a, h, hroutes b]

theorem merged_chain_only (s : Spelled) : s.merged.username = s.username ∧
    s.merged.host = s.host ∧ s.merged.port = s.port ∧ s.merged.upstream = s.upstream ∧
    s.merged.legacy = s.legacy ∧ s.merged.agentForwarding = s.agentForwarding := by
  rw [Spelled.merged]
  split <;> exact ⟨rfl, rfl, rfl, rfl, rfl, rfl⟩

/-! ## A digest, and two routes -/

theorem digitChar_inj : ∀ i < 16, ∀ j < 16, i.digitChar = j.digitChar → i = j := by
  decide

theorem digitChar_mem : ∀ i < 16, i.digitChar ∈ "0123456789abcdef".toList := by
  decide +kernel

/-- The bytes themselves, in hexadecimal digits. -/
def plainHex (bytes : Bytes) : List Char :=
  bytes.flatMap fun b => [(b.toNat / 16).digitChar, (b.toNat % 16).digitChar]

theorem plainHex_inj : ∀ {bytes other : Bytes}, plainHex bytes = plainHex other → bytes = other
  | [], [], _ => rfl
  | [], c :: other, h => by cases h
  | b :: bytes, [], h => by cases h
  | b :: bytes, c :: other, h => by
    have hb := b.toNat_lt
    have hc := c.toNat_lt
    obtain ⟨hhigh, hrest⟩ := List.cons.inj h
    obtain ⟨hlow, hrest⟩ := List.cons.inj hrest
    have hhigh := digitChar_inj _ (by omega) _ (by omega) hhigh
    have hlow := digitChar_inj _ (by omega) _ (by omega) hlow
    have hbyte : b = c := by
      apply UInt8.toNat_inj.mp
      omega
    rw [hbyte, plainHex_inj hrest]

def plainDigest : PoolDigest where
  hex := plainHex
  injective := fun _ _ h => plainHex_inj h
  hexDigits := by
    intro bytes c hc
    obtain ⟨b, -, hc⟩ := List.mem_flatMap.mp hc
    have hb := b.toNat_lt
    unfold chars
    rcases List.mem_cons.mp hc with rfl | hc
    · exact digitChar_mem _ (by omega)
    · rw [List.mem_singleton.mp hc]
      exact digitChar_mem _ (by omega)

/-- There is no agent. -/
def noAgents : AgentEnvironment where
  valueOf _ := none
  socketExists _ := false

def onlyAes : SshAlgorithmPreferences :=
  { SshAlgorithmPreferences.default with cipher := [chars "aes256-gcm@openssh.com"] }

/-- A target behind one hop, and what each of them offers. -/
def behindHop (hopOffer targetOffer : SshAlgorithmPreferences) : SshConfig where
  totp := none
  host := ['t']
  port := 22
  username := ['u']
  auth := .keyboardInteractive
  proxyChain := some [{
    totp := none
    host := ['j']
    port := 22
    username := ['u']
    auth := .keyboardInteractive
    agentForwarding := false
    identityAgent := none
    agentForwardingSocket := none
    legacySshCompatibility := false
    sshAlgorithms := hopOffer }]
  upstreamProxy := none
  proxyCommand := none
  agentForwarding := false
  identityAgent := none
  agentForwardingSocket := none
  legacySshCompatibility := false
  sshChannelStrategy := .multiplexed
  sshAlgorithms := targetOffer

theorem cleanName_singleton (c : Char) (hat : c ≠ '@') (hbar : c ≠ '|') (hangle : c ≠ '>') :
    CleanName [c] :=
  ⟨by simpa using hat.symm, by simpa using hbar.symm, by simpa using hangle.symm⟩

theorem behindHop_cleanNames (hopOffer targetOffer : SshAlgorithmPreferences) :
    (behindHop hopOffer targetOffer).CleanNames where
  username := cleanName_singleton 'u' (by decide) (by decide) (by decide)
  host := cleanName_singleton 't' (by decide) (by decide) (by decide)
  hops := by
    intro hop hhop
    rw [List.mem_singleton.mp hhop]
    exact ⟨cleanName_singleton 'u' (by decide) (by decide) (by decide),
      cleanName_singleton 'j' (by decide) (by decide) (by decide)⟩
  upstream := by
    intro proxy hproxy
    cases hproxy

/-! ## Main result -/

/-- **A key separates routes, unless the configurations are confused.** -/
theorem connectionKey_separates_iff {a b : SshConfig} (ha : a.CleanNames) (hb : b.CleanNames) :
    (a.connectionKey digest environment = b.connectionKey digest environment →
      SameRoute digest environment a b) ↔ ¬ Confused environment a b := by
  have hkey : a.connectionKey digest environment = b.connectionKey digest environment ↔
      (a.spelled environment).merged = (b.spelled environment).merged := by
    rw [a.connectionKey_eq_text, b.connectionKey_eq_text]
    exact Spelled.text_eq_iff digest (ha.regular environment) (hb.regular environment)
  rw [hkey]
  constructor
  · rintro hseparates ⟨hmerged, hdiffer⟩
    have hsame := hseparates hmerged
    exact hdiffer.elim (fun hne => hne hsame.proxyCommand) fun hne => hne hsame.algorithms
  · intro hclear hmerged
    have hother : a.proxyCommand = b.proxyCommand ∧ a.algorithmOffers = b.algorithmOffers := by
      by_contra hne
      exact hclear ⟨hmerged, not_and_or.mp hne⟩
    obtain ⟨hu, hh, hp, hup, hl, hf⟩ := merged_chain_only (a.spelled environment)
    obtain ⟨hu', hh', hp', hup', hl', hf'⟩ := merged_chain_only (b.spelled environment)
    rw [hmerged] at hu hh hp hup hl hf
    exact ⟨hu.symm.trans hu', hh.symm.trans hh', hp.symm.trans hp',
      routes_eq_of_merged digest environment hmerged, hup.symm.trans hup', hother.1,
      hl.symm.trans hl', hf.symm.trans hf', hother.2⟩

/-- With the default offers twice, the key separates. -/
theorem connectionKey_separates_iff_default :
    ((behindHop .default .default).connectionKey plainDigest noAgents =
        (behindHop .default .default).connectionKey plainDigest noAgents →
      SameRoute plainDigest noAgents (behindHop .default .default) (behindHop .default .default)) ↔
      ¬ Confused noAgents (behindHop .default .default) (behindHop .default .default) :=
  connectionKey_separates_iff plainDigest noAgents (behindHop_cleanNames _ _)
    (behindHop_cleanNames _ _)

/-- A cipher is the hop's in one configuration and the target's in the other: the key is the same. -/
theorem offer_of_hop_lost :
    (behindHop onlyAes .default).CleanNames ∧ (behindHop .default onlyAes).CleanNames ∧
      (behindHop onlyAes .default).connectionKey plainDigest noAgents =
        (behindHop .default onlyAes).connectionKey plainDigest noAgents ∧
      ¬ SameRoute plainDigest noAgents (behindHop onlyAes .default)
        (behindHop .default onlyAes) := by
  refine ⟨behindHop_cleanNames _ _, behindHop_cleanNames _ _, ?_, ?_⟩
  · rw [SshConfig.connectionKey_eq_text, SshConfig.connectionKey_eq_text, ← Spelled.text_merged]
    rw [← Spelled.text_merged plainDigest ((behindHop .default onlyAes).spelled noAgents)]
    rfl
  · intro hsame
    have hoffers := hsame.algorithms
    cases hoffers

end Routes

end OxideTerm.Ssh
