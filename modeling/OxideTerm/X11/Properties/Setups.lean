import OxideTerm.X11.Properties.Packets

/-!
# Who may connect

The stream of a connection says when its first packet is complete, and the packet whether it is
forwarded. The buffer answers so for every division of the stream, unless bytes behind the packet take
it over the limit, the name of the protocol is padded with white space, or the local cookie is too long
for a packet.
-/

namespace OxideTerm.X11

open Lib Lib.Text

variable {ChannelId : Type} {registry : X11AuthSpoofRegistry ChannelId}
  {entry : X11SpoofedAuth ChannelId} {setup : Setup} {protocol : X11AuthProtocol}
  {fakeCookie : X11AuthCookie} {seen now bytes trailing chunk : Bytes} {chunks : List Bytes}
  {max required : Nat}

/-! ## What is expected -/

/-- The entry whose protocol a packet names and whose fake cookie it carries. -/
def X11AuthSpoofRegistry.named (registry : X11AuthSpoofRegistry ChannelId) (packet : Bytes) :
    Option (X11SpoofedAuth ChannelId) :=
  match inspectSetupAuthentication packet with
  | .ok auth => registry.entries.find? (X11AuthSpoofRegistry.answers auth.protocol auth.fakeCookie)
  | .error _ => none

/-- The entries that are left when one was used. -/
def X11AuthSpoofRegistry.afterUse (registry : X11AuthSpoofRegistry ChannelId)
    (entry : X11SpoofedAuth ChannelId) : List (X11SpoofedAuth ChannelId) :=
  if entry.singleConnection then
    registry.entries.filter fun existing => existing.auth.fakeCookie ≠ entry.auth.fakeCookie
  else registry.entries

/-- What the bytes of a connection call for. -/
inductive Verdict (ChannelId : Type) where
  | waiting
  | forward (entry : X11SpoofedAuth ChannelId)
  | reject
  | error

/-- **The verdict depends on the bytes alone**, and not on what is behind a complete packet. -/
def verdict (registry : X11AuthSpoofRegistry ChannelId) (max : Nat) (bytes : Bytes) :
    Verdict ChannelId :=
  match setupPacketTotalLen bytes with
  | .error _ => .error
  | .ok none => if max < bytes.length then .error else .waiting
  | .ok (some required) =>
    if max < required then if max < bytes.length then .error else .waiting
    else if bytes.length < required then .waiting
    else
      match registry.named (bytes.take required) with
      | some entry => .forward entry
      | none => .reject

/-- The forwarded packet says the same, with the local cookie as its data and nothing behind it. -/
structure Rewritten (setup localCookie : Bytes) (rewrite : X11SetupRewrite) : Prop where
  parses : ∃ parsed parsed', parseSetupPacket setup = .ok parsed ∧
    parseSetupPacket rewrite.rewrittenSetup = .ok parsed' ∧ rewrite.request = parsed.request ∧
    parsed'.request = { parsed.request with authDataLen := localCookie.length } ∧
    parsed'.authProtocolBytes = parsed.authProtocolBytes ∧
    slice rewrite.rewrittenSetup parsed'.authDataStart parsed'.authDataEnd = .ok localCookie ∧
    parsed'.authDataPaddedEnd = parsed'.authDataStart + pad localCookie.length ∧
    rewrite.rewrittenSetup.length = parsed'.authDataPaddedEnd

/-- The answer is what the verdict calls for: the packet and what is behind it are the bytes pushed so
far, and the registry loses an entry just when it was forwarded and is for one connection. -/
def Agrees (registry : X11AuthSpoofRegistry ChannelId) (chunks : List Bytes) :
    Verdict ChannelId → X11SetupBuffer.Answer ChannelId × X11AuthSpoofRegistry ChannelId → Prop
  | .waiting, (answer, registry') => answer = .waiting ∧ registry' = registry
  | .error, (answer, registry') => (∃ error, answer = .failed (.error error)) ∧ registry' = registry
  | .reject, (answer, registry') => (∃ reject, answer = .decided (.reject reject)) ∧
    registry' = registry
  | .forward entry, (answer, registry') => ∃ rewrite required taken left,
    answer = .decided (.forward entry.channelId rewrite) ∧
    registry'.entries = registry.afterUse entry ∧
    setupPacketTotalLen chunks.flatten = .ok (some required) ∧ chunks = taken ++ left ∧
    taken.flatten = chunks.flatten.take required ++ rewrite.trailingData ∧
    Rewritten (chunks.flatten.take required) entry.auth.localCookie.1 rewrite

/-! ## When it is met -/

/-- The bytes that are there with the push that makes so many. -/
def bufferedAt (required : Nat) : Bytes → List Bytes → Option Bytes
  | _, [] => none
  | seen, chunk :: chunks =>
    if required ≤ (seen ++ chunk).length then some (seen ++ chunk)
    else bufferedAt required (seen ++ chunk) chunks

/-- What is behind a packet that fits the limit does not take the buffer over it. -/
def StaysWithin (max : Nat) (chunks : List Bytes) : Prop :=
  ∀ required buffered, setupPacketTotalLen chunks.flatten = .ok (some required) →
    required ≤ max → bufferedAt required [] chunks = some buffered → buffered.length ≤ max

/-- A packet that names an entry has the name as the entry has it, and the entry's local cookie fits a
packet. -/
def NamesPlainly (registry : X11AuthSpoofRegistry ChannelId) (max : Nat) (bytes : Bytes) : Prop :=
  ∀ required entry, setupPacketTotalLen bytes = .ok (some required) → required ≤ max →
    required ≤ bytes.length → registry.named (bytes.take required) = some entry →
    (∃ parsed, parseSetupPacket (bytes.take required) = .ok parsed ∧
      parsed.authProtocolBytes = utf8Bytes entry.auth.protocol.sshName) ∧
    entry.auth.localCookie.1.length ≤ 65535

/-! ## The registry -/

theorem eraseP_answers {entries : List (X11SpoofedAuth ChannelId)}
    (hdistinct : entries.Pairwise fun entry entry' =>
      entry.auth.fakeCookie ≠ entry'.auth.fakeCookie)
    (hfind : entries.find? (X11AuthSpoofRegistry.answers protocol fakeCookie) = some entry) :
    entries.eraseP (X11AuthSpoofRegistry.answers protocol fakeCookie) =
      entries.filter fun existing => existing.auth.fakeCookie ≠ entry.auth.fakeCookie := by
  have hanswers : ∀ existing : X11SpoofedAuth ChannelId,
      X11AuthSpoofRegistry.answers protocol fakeCookie existing = true ↔
        existing.auth.fakeCookie = fakeCookie := by
    intro existing
    have hprotocol : existing.auth.protocol = protocol := by
      cases existing.auth.protocol
      cases protocol
      rfl
    rw [X11AuthSpoofRegistry.answers, Bool.and_eq_true, beq_iff_eq, beq_iff_eq]
    exact ⟨fun h => h.2, fun h => ⟨hprotocol, h⟩⟩
  have hcookie : entry.auth.fakeCookie = fakeCookie :=
    (hanswers entry).mp (List.find?_some hfind)
  rw [hcookie]
  clear hfind hcookie
  induction entries with
  | nil => rfl
  | cons first entries ih =>
    obtain ⟨hfirst, hrest⟩ := List.pairwise_cons.mp hdistinct
    by_cases hsame : X11AuthSpoofRegistry.answers protocol fakeCookie first = true
    · have hfirstCookie := (hanswers first).mp hsame
      rw [List.eraseP_cons_of_pos hsame, List.filter_cons_of_neg (by simp [hfirstCookie])]
      refine (List.filter_eq_self.mpr fun existing hexisting => ?_).symm
      have hother := hfirst existing hexisting
      rw [hfirstCookie] at hother
      simpa using hother.symm
    · have hfirstCookie := (hanswers first).not.mp hsame
      rw [List.eraseP_cons_of_neg hsame, List.filter_cons_of_pos (by simpa using hfirstCookie),
        ih hrest]

theorem X11AuthSpoofRegistry.resolve_some
    (hfind : registry.entries.find? (answers protocol fakeCookie) = some entry) :
    ∃ registry', registry.resolve protocol fakeCookie = (some entry, registry') ∧
      registry'.entries = registry.afterUse entry := by
  rw [resolve, hfind, afterUse]
  dsimp only
  split
  · exact ⟨_, rfl, eraseP_answers registry.distinct hfind⟩
  · exact ⟨_, rfl, rfl⟩

theorem X11AuthSpoofRegistry.resolve_none
    (hfind : registry.entries.find? (answers protocol fakeCookie) = none) :
    registry.resolve protocol fakeCookie = (none, registry) := by
  rw [resolve, hfind]

/-! ## Decisions -/

theorem rejectSetupPacket_ok (setup : Setup) (reason : X11SetupRejectReason)
    {failureMessage : List Char} (h : (utf8Bytes failureMessage).length ≤ 255) :
    ∃ reject, rejectSetupPacket setup.encoded reason failureMessage = .ok reject := by
  have hpadded := @paddedLen_eq (utf8Bytes failureMessage).length (by omega)
  have hunits : ¬ 65535 < pad (utf8Bytes failureMessage).length / 4 := by
    rw [pad]
    omega
  rw [rejectSetupPacket, inspectSetupRequest, setup.parseSetupPacket]
  simp only [bind, Except.bind, pure, Except.pure, buildAuthFailureResponse,
    if_neg (Nat.not_lt.mpr h), hpadded, if_neg hunits]
  exact ⟨_, rfl⟩

theorem Setup.rewritten (setup : Setup) {localCookie : Bytes} (h : localCookie.length ≤ 65535)
    (trailing : Bytes) : Rewritten setup.encoded localCookie
      ⟨setup.parsed.request, (setup.withData localCookie h).encoded, trailing⟩ := by
  have hlength : (UInt16.ofNat localCookie.length).toNat = localCookie.length :=
    UInt16.toNat_ofNat_of_lt' (Nat.lt_succ_of_le h)
  refine ⟨setup.parsed, (setup.withData localCookie h).parsed, setup.parseSetupPacket,
    (setup.withData localCookie h).parseSetupPacket, rfl, ?_, rfl, ?_, ?_, ?_⟩
  · have hdataLen : (setup.withData localCookie h).header.dataLen.toNat = localCookie.length :=
      hlength
    rw [parsed, hdataLen]
    rfl
  · exact (setup.withData localCookie h).slice_data
  · exact congrArg (fun n => setup.dataStart + pad n) hlength
  · exact (setup.withData localCookie h).length_encoded

/-- **What is decided about a complete packet.** -/
theorem decide_cases (setup : Setup) (trailing : Bytes)
    (registry : X11AuthSpoofRegistry ChannelId) :
    (registry.named setup.encoded = none ∧ ∃ reject,
      X11SetupBuffer.decide setup.encoded trailing registry = (.ok (.reject reject), registry)) ∨
    ∃ entry, registry.named setup.encoded = some entry ∧
      ((setup.name = utf8Bytes entry.auth.protocol.sshName ∧
          entry.auth.localCookie.1.length ≤ 65535 ∧ ∃ rewrite registry',
          X11SetupBuffer.decide setup.encoded trailing registry =
            (.ok (.forward entry.channelId rewrite), registry') ∧
          registry'.entries = registry.afterUse entry ∧ rewrite.trailingData = trailing ∧
          Rewritten setup.encoded entry.auth.localCookie.1 rewrite) ∨
        ¬ (setup.name = utf8Bytes entry.auth.protocol.sshName ∧
          entry.auth.localCookie.1.length ≤ 65535) ∧ ∃ error registry',
          X11SetupBuffer.decide setup.encoded trailing registry =
            (.error (.error error), registry')) := by
  have hinspect := setup.inspectSetupAuthentication
  have hmismatch : (utf8Bytes "X11 forwarding authentication failed".toList).length ≤ 255 := by
    decide +kernel
  have hunsupported : (utf8Bytes "Unsupported X11 auth protocol".toList).length ≤ 255 := by
    decide +kernel
  obtain ⟨mismatch, hmismatch⟩ := rejectSetupPacket_ok setup .authCookieMismatch hmismatch
  obtain ⟨unsupported, hunsupported⟩ :=
    rejectSetupPacket_ok setup .unsupportedAuthProtocol hunsupported
  cases hprotocol : setup.protocol with
  | error failure =>
    have hfailure : ∃ name, failure = .error (.unsupportedAuthProtocol name) := by
      rw [Setup.protocol, X11AuthProtocol.parse] at hprotocol
      split at hprotocol
      · cases hprotocol
      · cases hprotocol
        exact ⟨_, rfl⟩
    obtain ⟨name, rfl⟩ := hfailure
    rw [hprotocol] at hinspect
    have hinspect : inspectSetupAuthentication setup.encoded =
        .error (.error (.unsupportedAuthProtocol name)) := hinspect
    refine .inl ⟨?_, unsupported, ?_⟩
    · rw [X11AuthSpoofRegistry.named, hinspect]
    · rw [X11SetupBuffer.decide, X11AuthSpoofRegistry.resolveSetupPacket, hinspect]
      dsimp only
      rw [hunsupported]
      rfl
  | ok protocol =>
    rw [hprotocol] at hinspect
    by_cases hempty : setup.data = []
    · have hcookie : X11AuthCookie.fromBytes setup.data =
          .error (.error (.invalidAuthCookie "cookie bytes must not be empty")) :=
        dif_neg (not_not.mpr hempty)
      simp only [hcookie, bind, Except.bind] at hinspect
      refine .inl ⟨?_, mismatch, ?_⟩
      · rw [X11AuthSpoofRegistry.named, hinspect]
      · rw [X11SetupBuffer.decide, X11AuthSpoofRegistry.resolveSetupPacket, hinspect]
        dsimp only
        rw [hmismatch]
        rfl
    · have hcookie : X11AuthCookie.fromBytes setup.data = .ok ⟨setup.data, hempty⟩ :=
        dif_pos hempty
      simp only [hcookie, bind, Except.bind] at hinspect
      have hinspect : inspectSetupAuthentication setup.encoded =
          .ok ⟨setup.parsed.request, protocol, ⟨setup.data, hempty⟩⟩ := hinspect
      have hnamed : registry.named setup.encoded = registry.entries.find?
          (X11AuthSpoofRegistry.answers protocol ⟨setup.data, hempty⟩) := by
        rw [X11AuthSpoofRegistry.named, hinspect]
      cases hfind : registry.entries.find?
          (X11AuthSpoofRegistry.answers protocol ⟨setup.data, hempty⟩) with
      | none =>
        refine .inl ⟨hnamed.trans hfind, mismatch, ?_⟩
        rw [X11SetupBuffer.decide, X11AuthSpoofRegistry.resolveSetupPacket, hinspect]
        dsimp only
        rw [X11AuthSpoofRegistry.resolve_none hfind]
        dsimp only
        rw [hmismatch]
        rfl
      | some entry =>
        obtain ⟨registry', hresolve, hafter⟩ := X11AuthSpoofRegistry.resolve_some hfind
        refine .inr ⟨entry, hnamed.trans hfind, ?_⟩
        have hdata : setup.data = entry.auth.fakeCookie.1 := by
          have hanswers := List.find?_some hfind
          rw [X11AuthSpoofRegistry.answers, Bool.and_eq_true, beq_iff_eq, beq_iff_eq] at hanswers
          rw [hanswers.2]
        rw [X11SetupBuffer.decide, X11AuthSpoofRegistry.resolveSetupPacket, hinspect]
        dsimp only
        rw [hresolve]
        dsimp only
        by_cases hplain : setup.name = utf8Bytes entry.auth.protocol.sshName ∧
            entry.auth.localCookie.1.length ≤ 65535
        · rw [setup.rewriteSetupAuthentication_ok hplain.1 hdata hplain.2]
          exact .inl ⟨hplain.1, hplain.2, _, _, rfl, hafter, rfl, setup.rewritten hplain.2 trailing⟩
        · rw [not_and_or, Nat.not_le] at hplain
          obtain ⟨error, herror⟩ := setup.rewriteSetupAuthentication_error hplain
          rw [herror]
          refine .inr ⟨?_, error, _, rfl⟩
          rw [not_and_or, Nat.not_le]
          exact hplain

/-! ## Pushes -/

/-- The buffer goes on waiting with these bytes. -/
def Waits (max : Nat) (seen : Bytes) : Prop :=
  seen.length ≤ max ∧ (seen.length < setupHeaderLen ∨
    ∃ (header : SetupHeader) (rest : Bytes), seen = header.encoded ++ rest ∧
      seen.length < header.required)

/-- Nothing that begins with these bytes is a packet. -/
def NoPacket (now : Bytes) : Prop :=
  ∃ error, ∀ more, setupPacketTotalLen (now ++ more) = .error (.error error)

/-- The answer of a decision. -/
def X11SetupBuffer.Answer.of :
    Except Failure (X11RegisteredSetupDecision ChannelId) → Answer ChannelId
  | .ok decision => .decided decision
  | .error failure => .failed failure

/-- **One push**: too much, still waiting, no packet, or a decision about the packet. -/
theorem pushRegistryDecision_cases (max : Nat) (seen chunk : Bytes)
    (registry : X11AuthSpoofRegistry ChannelId) :
    (max < (seen ++ chunk).length ∧ ∃ error buffer,
      X11SetupBuffer.pushRegistryDecision ⟨seen, max, false⟩ chunk registry =
        (.error (.error error), buffer, registry)) ∨
    (Waits max (seen ++ chunk) ∧
      X11SetupBuffer.pushRegistryDecision ⟨seen, max, false⟩ chunk registry =
        (.ok none, ⟨seen ++ chunk, max, false⟩, registry)) ∨
    ((seen ++ chunk).length ≤ max ∧ NoPacket (seen ++ chunk) ∧ ∃ error buffer,
      X11SetupBuffer.pushRegistryDecision ⟨seen, max, false⟩ chunk registry =
        (.error (.error error), buffer, registry)) ∨
    ((seen ++ chunk).length ≤ max ∧ ∃ (setup : Setup) (trailing : Bytes),
      seen ++ chunk = setup.encoded ++ trailing ∧ ∃ buffer,
      X11SetupBuffer.pushRegistryDecision ⟨seen, max, false⟩ chunk registry =
        ((X11SetupBuffer.decide setup.encoded trailing registry).1.map some, buffer,
          (X11SetupBuffer.decide setup.encoded trailing registry).2)) := by
  rw [X11SetupBuffer.pushRegistryDecision, X11SetupBuffer.pushCompleteSetup,
    if_neg Bool.false_ne_true]
  dsimp only
  generalize seen ++ chunk = now
  by_cases hlong : max < now.length
  · rw [if_pos hlong]
    exact .inl ⟨hlong, _, _, rfl⟩
  · refine .inr ?_
    rw [if_neg hlong]
    have hle := Nat.not_lt.mp hlong
    rcases setupPacketTotalLen_cases now with
      ⟨hshort, htotal⟩ | ⟨header, rest, rfl⟩ | ⟨-, error, herror⟩
    · rw [htotal]
      exact .inl ⟨⟨hle, .inl hshort⟩, rfl⟩
    · rw [header.setupPacketTotalLen rest]
      dsimp only
      by_cases hincomplete : (header.encoded ++ rest).length < header.required
      · rw [if_pos hincomplete]
        exact .inl ⟨⟨hle, .inr ⟨header, rest, rfl, hincomplete⟩⟩, rfl⟩
      · rw [if_neg hincomplete]
        refine .inr (.inr ⟨hle, ?_⟩)
        -- the packet is cut off in front of what trails
        obtain ⟨body, trailing, rfl, hbody, -⟩ :=
          exists_front (header.required - setupHeaderLen) rest (by
            rw [List.length_append, header.length_encoded] at hincomplete
            omega)
        have hheader := header.setupHeaderLen_le_required
        obtain ⟨setup, hsetup, hencoded⟩ := exists_setup (show
          (header.encoded ++ body).length = header.required by
            rw [List.length_append, header.length_encoded, hbody]
            omega)
        have hwhole : header.encoded ++ (body ++ trailing) = setup.encoded ++ trailing := by
          rw [hencoded, List.append_assoc]
        have hlength : setup.encoded.length = header.required := by
          rw [setup.length_encoded, hsetup]
        rw [hwhole, ← hlength, List.take_left, List.drop_left]
        exact ⟨setup, trailing, rfl, _, rfl⟩
    · have hnow := herror []
      rw [List.append_nil] at hnow
      rw [hnow]
      exact .inr (.inl ⟨hle, ⟨error, herror⟩, _, _, rfl⟩)

/-- **A run of pushes**: it waits to its end, or one push brings the answer. -/
theorem pushAll_cases {max : Nat} {seen : Bytes} (hwaits : Waits max seen) (chunks : List Bytes)
    (registry : X11AuthSpoofRegistry ChannelId) :
    (Waits max (seen ++ chunks.flatten) ∧
      X11SetupBuffer.pushAll ⟨seen, max, false⟩ registry chunks = (.waiting, registry)) ∨
    ∃ before chunk left, chunks = before ++ chunk :: left ∧ Waits max (seen ++ before.flatten) ∧
      ((max < (seen ++ before.flatten ++ chunk).length ∧ ∃ error,
          X11SetupBuffer.pushAll ⟨seen, max, false⟩ registry chunks =
            (.failed (.error error), registry)) ∨
        ((seen ++ before.flatten ++ chunk).length ≤ max ∧
          NoPacket (seen ++ before.flatten ++ chunk) ∧ ∃ error,
          X11SetupBuffer.pushAll ⟨seen, max, false⟩ registry chunks =
            (.failed (.error error), registry)) ∨
        (seen ++ before.flatten ++ chunk).length ≤ max ∧ ∃ (setup : Setup) (trailing : Bytes),
          seen ++ before.flatten ++ chunk = setup.encoded ++ trailing ∧
          X11SetupBuffer.pushAll ⟨seen, max, false⟩ registry chunks =
            (X11SetupBuffer.Answer.of (X11SetupBuffer.decide setup.encoded trailing registry).1,
              (X11SetupBuffer.decide setup.encoded trailing registry).2)) := by
  induction chunks generalizing seen with
  | nil =>
    refine .inl ⟨?_, rfl⟩
    rw [List.flatten_nil, List.append_nil]
    exact hwaits
  | cons chunk chunks ih =>
    have hfirst : seen ++ ([] : List Bytes).flatten = seen := List.append_nil seen
    rw [X11SetupBuffer.pushAll]
    rcases pushRegistryDecision_cases max seen chunk registry with
      ⟨hlong, error, buffer, hpush⟩ | ⟨hnow, hpush⟩ | ⟨hle, hnone, error, buffer, hpush⟩ |
        ⟨hle, setup, trailing, hnow, buffer, hpush⟩
    · rw [hpush]
      refine .inr ⟨[], chunk, chunks, rfl, ?_, .inl ⟨?_, error, rfl⟩⟩
      · rw [hfirst]
        exact hwaits
      · rw [hfirst]
        exact hlong
    · rw [hpush]
      dsimp only
      rcases ih hnow with ⟨hend, hrun⟩ | ⟨before, later, left, rfl, hbefore, hrest⟩
      · refine .inl ⟨?_, hrun⟩
        rw [List.flatten_cons, ← List.append_assoc]
        exact hend
      · refine .inr ⟨chunk :: before, later, left, rfl, ?_⟩
        rw [List.flatten_cons, ← List.append_assoc]
        exact ⟨hbefore, hrest⟩
    · rw [hpush]
      refine .inr ⟨[], chunk, chunks, rfl, ?_, .inr (.inl ⟨?_, ?_, error, rfl⟩)⟩
      · rw [hfirst]
        exact hwaits
      · rw [hfirst]
        exact hle
      · rw [hfirst]
        exact hnone
    · rw [hpush]
      refine .inr ⟨[], chunk, chunks, rfl, ?_, .inr (.inr ⟨?_, setup, trailing, ?_, ?_⟩)⟩
      · rw [hfirst]
        exact hwaits
      · rw [hfirst]
        exact hle
      · rw [hfirst]
        exact hnow
      · cases (X11SetupBuffer.decide setup.encoded trailing registry).1 <;> rfl

/-! ## What is there with a push -/

theorem bufferedAt_eq {before left : List Bytes} (hless : (seen ++ before.flatten).length < required)
    (hle : required ≤ (seen ++ before.flatten ++ chunk).length) :
    bufferedAt required seen (before ++ chunk :: left) =
      some (seen ++ before.flatten ++ chunk) := by
  induction before generalizing seen with
  | nil =>
    rw [List.flatten_nil, List.append_nil] at hle ⊢
    exact if_pos hle
  | cons first before ih =>
    rw [List.flatten_cons, ← List.append_assoc] at hless hle ⊢
    have hfirst : ¬ required ≤ (seen ++ first).length := by
      rw [List.length_append] at hless
      omega
    rw [List.cons_append, bufferedAt, if_neg hfirst]
    exact ih hless hle

theorem le_of_bufferedAt (h : bufferedAt required seen chunks = some now) :
    required ≤ (seen ++ chunks.flatten).length := by
  induction chunks generalizing seen with
  | nil => cases h
  | cons chunk chunks ih =>
    rw [bufferedAt] at h
    rw [List.flatten_cons, ← List.append_assoc]
    split at h
    next hle =>
      rw [List.length_append]
      omega
    next => exact ih h

/-- Where a buffer waits, no packet is complete. -/
theorem Waits.length_lt (h : Waits max seen) {more : Bytes}
    (htotal : setupPacketTotalLen (seen ++ more) = .ok (some required)) :
    seen.length < required := by
  rcases h.2 with hshort | ⟨header, rest, rfl, hless⟩
  · rcases setupPacketTotalLen_cases (seen ++ more) with
      ⟨-, hnone⟩ | ⟨header, rest, hwhole⟩ | ⟨-, error, herror⟩
    · rw [hnone] at htotal
      cases htotal
    · rw [hwhole, header.setupPacketTotalLen] at htotal
      cases htotal
      exact Nat.lt_of_lt_of_le hshort header.setupHeaderLen_le_required
    · have hself := herror []
      rw [List.append_nil, htotal] at hself
      cases hself
  · rw [List.append_assoc, header.setupPacketTotalLen] at htotal
    cases htotal
    exact hless

/-! ## Runs -/

/-- While it waits, the verdict is to wait. -/
theorem agrees_of_waits (h : Waits max chunks.flatten) :
    Agrees registry chunks (verdict registry max chunks.flatten) (.waiting, registry) ∧
      StaysWithin max chunks ∧ NamesPlainly registry max chunks.flatten := by
  have hless : ∀ required, setupPacketTotalLen chunks.flatten = .ok (some required) →
      chunks.flatten.length < required := by
    intro required htotal
    rw [← List.append_nil chunks.flatten] at htotal
    exact h.length_lt htotal
  refine ⟨?_, fun required buffered htotal _ hbuffered => ?_,
    fun required entry htotal _ hle => absurd (hless required htotal) (Nat.not_lt.mpr hle)⟩
  · have hverdict : verdict registry max chunks.flatten = .waiting := by
      rw [verdict]
      rcases setupPacketTotalLen_cases chunks.flatten with
        ⟨-, hnone⟩ | ⟨header, rest, hwhole⟩ | ⟨hlong, -⟩
      · rw [hnone]
        exact if_neg (Nat.not_lt.mpr h.1)
      · have htotal : setupPacketTotalLen chunks.flatten = .ok (some header.required) := by
          rw [hwhole, header.setupPacketTotalLen]
        rw [htotal]
        dsimp only
        rw [if_neg (Nat.not_lt.mpr h.1), if_pos (hless _ htotal), ite_self]
      · rcases h.2 with hshort | ⟨header, rest, hwhole, hincomplete⟩
        · omega
        · have htotal : setupPacketTotalLen chunks.flatten = .ok (some header.required) := by
            rw [hwhole, header.setupPacketTotalLen]
          rw [htotal]
          dsimp only
          rw [if_neg (Nat.not_lt.mpr h.1), if_pos (hless _ htotal), ite_self]
    rw [hverdict]
    exact ⟨rfl, rfl⟩
  · have hle := le_of_bufferedAt hbuffered
    rw [List.nil_append] at hle
    exact absurd (hless required htotal) (Nat.not_lt.mpr hle)

/-- Where the packet fits and more than the limit was pushed with its end, an error is wrong. -/
theorem agrees_of_tooLong {before left : List Bytes} {error : X11ForwardingError}
    (hchunks : chunks = before ++ chunk :: left) (hbefore : Waits max before.flatten)
    (hlong : max < (before.flatten ++ chunk).length) :
    Agrees registry chunks (verdict registry max chunks.flatten) (.failed (.error error), registry) ↔
      StaysWithin max chunks ∧ NamesPlainly registry max chunks.flatten := by
  have hflatten : chunks.flatten = before.flatten ++ (chunk ++ left.flatten) := by
    rw [hchunks, List.flatten_append, List.flatten_cons]
  have hwholeLong : max < chunks.flatten.length := by
    rw [hflatten, ← List.append_assoc, List.length_append]
    omega
  have hagrees : ∀ verdict' : Verdict ChannelId, verdict registry max chunks.flatten = verdict' →
      verdict' = .error → Agrees registry chunks (verdict registry max chunks.flatten)
        (.failed (.error error), registry) := by
    rintro _ heq rfl
    rw [heq]
    exact ⟨⟨error, rfl⟩, rfl⟩
  cases htotal : setupPacketTotalLen chunks.flatten with
  | error failure =>
    refine iff_of_true (hagrees _ (by rw [verdict, htotal]) rfl) ⟨?_, ?_⟩
    · intro required buffered hsome
      rw [htotal] at hsome
      cases hsome
    · intro required entry hsome
      rw [htotal] at hsome
      cases hsome
  | ok total =>
    cases total with
    | none =>
      refine iff_of_true (hagrees .error ?_ rfl) ⟨?_, ?_⟩
      · rw [verdict, htotal]
        exact if_pos hwholeLong
      · intro required buffered hsome
        rw [htotal] at hsome
        cases hsome
      · intro required entry hsome
        rw [htotal] at hsome
        cases hsome
    | some required =>
      by_cases hfits : required ≤ max
      · refine iff_of_false (fun hagrees => ?_) fun hwithin => ?_
        · -- the packet is complete, so that a decision is called for
          have hverdict : (∃ entry, verdict registry max chunks.flatten = .forward entry) ∨
              verdict registry max chunks.flatten = .reject := by
            rw [verdict, htotal]
            dsimp only
            rw [if_neg (Nat.not_lt.mpr hfits), if_neg (by omega)]
            cases registry.named (chunks.flatten.take required) with
            | none => exact .inr rfl
            | some entry => exact .inl ⟨entry, rfl⟩
          rcases hverdict with ⟨entry, hverdict⟩ | hverdict
          · rw [hverdict] at hagrees
            obtain ⟨_, _, _, _, hanswer, -⟩ := hagrees
            cases hanswer
          · rw [hverdict] at hagrees
            obtain ⟨⟨_, hanswer⟩, -⟩ := hagrees
            cases hanswer
        · have hless := hbefore.length_lt (hflatten ▸ htotal)
          have hbuffered : bufferedAt required [] chunks = some ([] ++ before.flatten ++ chunk) := by
            rw [hchunks]
            refine bufferedAt_eq (by rwa [List.nil_append]) ?_
            rw [List.nil_append]
            omega
          have hle := hwithin.1 required _ htotal hfits hbuffered
          rw [List.nil_append] at hle
          omega
      · refine iff_of_true (hagrees .error ?_ rfl) ⟨?_, ?_⟩
        · rw [verdict, htotal]
          dsimp only
          rw [if_pos (Nat.not_le.mp hfits), if_pos hwholeLong]
        · intro required' buffered hsome hle
          rw [htotal] at hsome
          cases hsome
          exact absurd hle hfits
        · intro required' entry hsome hle
          rw [htotal] at hsome
          cases hsome
          exact absurd hle hfits

theorem pushAll_correct (registry : X11AuthSpoofRegistry ChannelId) (max : Nat)
    (chunks : List Bytes) :
    (X11SetupBuffer.pushAll (.withMaxSetupBytes max) registry chunks).1 ≠ .failed .panic ∧
    (Agrees registry chunks (verdict registry max chunks.flatten)
        (X11SetupBuffer.pushAll (.withMaxSetupBytes max) registry chunks) ↔
      StaysWithin max chunks ∧ NamesPlainly registry max chunks.flatten) := by
  have hbegin : Waits max [] := ⟨Nat.zero_le _, .inl (by decide)⟩
  rw [X11SetupBuffer.withMaxSetupBytes]
  rcases pushAll_cases hbegin chunks registry with
    ⟨hend, hrun⟩ | ⟨before, chunk, left, hchunks, hbefore, hrest⟩
  · rw [hrun]
    rw [List.nil_append] at hend
    obtain ⟨hagrees, hconditions⟩ := @agrees_of_waits _ registry _ _ hend
    exact ⟨fun h => (by cases h), iff_of_true hagrees hconditions⟩
  · simp only [List.nil_append] at hbefore hrest
    have hflatten : chunks.flatten = (before.flatten ++ chunk) ++ left.flatten := by
      rw [hchunks, List.flatten_append, List.flatten_cons, List.append_assoc]
    rcases hrest with ⟨hlong, error, hrun⟩ | ⟨hle, ⟨error', hnone⟩, error, hrun⟩ |
      ⟨hle, setup, trailing, hnow, hrun⟩
    · rw [hrun]
      exact ⟨fun h => (by cases h), agrees_of_tooLong hchunks hbefore hlong⟩
    · rw [hrun]
      have htotal : setupPacketTotalLen chunks.flatten = .error (.error error') := by
        rw [hflatten]
        exact hnone _
      refine ⟨fun h => (by cases h), iff_of_true ?_ ⟨?_, ?_⟩⟩
      · rw [verdict, htotal]
        exact ⟨⟨error, rfl⟩, rfl⟩
      · intro required buffered hsome
        rw [htotal] at hsome
        cases hsome
      · intro required entry hsome
        rw [htotal] at hsome
        cases hsome
    · have hwhole : chunks.flatten = setup.encoded ++ (trailing ++ left.flatten) := by
        rw [hflatten, hnow, List.append_assoc]
      have htotal : setupPacketTotalLen chunks.flatten = .ok (some setup.encoded.length) := by
        rw [hwhole, setup.length_encoded, Setup.encoded, List.append_assoc,
          setup.header.setupPacketTotalLen]
      have htake : chunks.flatten.take setup.encoded.length = setup.encoded := by
        rw [hwhole, List.take_left]
      have hnowLength := congrArg List.length hnow
      rw [@List.length_append _ setup.encoded trailing] at hnowLength
      have hfits : setup.encoded.length ≤ max := by omega
      have hcomplete : setup.encoded.length ≤ chunks.flatten.length := by
        rw [hwhole, List.length_append]
        omega
      have hverdict : verdict registry max chunks.flatten =
          (registry.named setup.encoded).elim .reject .forward := by
        rw [verdict, htotal]
        dsimp only
        rw [if_neg (Nat.not_lt.mpr hfits), if_neg (Nat.not_lt.mpr hcomplete), htake]
        cases registry.named setup.encoded <;> rfl
      have hwithin : StaysWithin max chunks := by
        intro required buffered hsome _ hbuffered
        rw [htotal] at hsome
        cases hsome
        have hless : before.flatten.length < setup.encoded.length := by
          rw [hflatten, List.append_assoc] at htotal
          exact hbefore.length_lt htotal
        have hat : bufferedAt setup.encoded.length [] chunks =
            some ([] ++ before.flatten ++ chunk) := by
          rw [hchunks]
          refine bufferedAt_eq (by rwa [List.nil_append]) ?_
          rw [List.nil_append]
          omega
        rw [hat, List.nil_append] at hbuffered
        cases hbuffered
        exact hle
      have hplain : ∀ entry, registry.named setup.encoded = some entry →
          (NamesPlainly registry max chunks.flatten ↔
            setup.name = utf8Bytes entry.auth.protocol.sshName ∧
              entry.auth.localCookie.1.length ≤ 65535) := by
        intro entry hentry
        constructor
        · intro hnames
          obtain ⟨⟨parsed, hparsed, hname⟩, hlocal⟩ :=
            hnames _ entry htotal hfits hcomplete (by rw [htake]; exact hentry)
          rw [htake, setup.parseSetupPacket] at hparsed
          cases hparsed
          exact ⟨hname, hlocal⟩
        · rintro ⟨hname, hlocal⟩ required entry' hsome - - hentry'
          rw [htotal] at hsome
          cases hsome
          rw [htake, hentry] at hentry'
          cases hentry'
          exact ⟨⟨_, by rw [htake]; exact setup.parseSetupPacket, hname⟩, hlocal⟩
      rw [hrun, hverdict]
      rcases decide_cases setup trailing registry with ⟨hnone, reject, hdecide⟩ |
        ⟨entry, hentry, ⟨hname, hlocal, rewrite, registry', hdecide, hafter, htrailing, hrewritten⟩ |
          ⟨hnot, error, registry', hdecide⟩⟩
      · rw [hdecide, hnone]
        refine ⟨fun h => (by cases h), iff_of_true ⟨⟨reject, rfl⟩, rfl⟩ ⟨hwithin, ?_⟩⟩
        intro required entry hsome _ _ hentry
        rw [htotal] at hsome
        cases hsome
        rw [htake, hnone] at hentry
        cases hentry
      · rw [hdecide, hentry]
        refine ⟨fun h => (by cases h), iff_of_true ?_
          ⟨hwithin, (hplain entry hentry).mpr ⟨hname, hlocal⟩⟩⟩
        refine ⟨rewrite, setup.encoded.length, before ++ [chunk], left, rfl, hafter, htotal, ?_, ?_,
          ?_⟩
        · rw [hchunks, List.append_assoc]
          rfl
        · rw [htake, htrailing, List.flatten_append, ← hnow]
          simp
        · rw [htake]
          exact hrewritten
      · rw [hdecide, hentry]
        refine ⟨fun h => (by cases h), iff_of_false ?_ fun hconditions =>
          hnot ((hplain entry hentry).mp hconditions.2)⟩
        rintro ⟨_, _, _, _, hanswer, -⟩
        cases hanswer

/-- **The buffer answers as the bytes call for**, without a panic, if and only if it stays within its
limit and the packet names its entry plainly; so the division of the bytes does not matter there. -/
theorem setups_agree_iff (registry : X11AuthSpoofRegistry ChannelId) (max : Nat)
    (chunks : List Bytes) :
    (X11SetupBuffer.pushAll (.withMaxSetupBytes max) registry chunks).1 ≠ .failed .panic ∧
    (Agrees registry chunks (verdict registry max chunks.flatten)
        (X11SetupBuffer.pushAll (.withMaxSetupBytes max) registry chunks) ↔
      StaysWithin max chunks ∧ NamesPlainly registry max chunks.flatten) ∧
    ∀ chunks', chunks'.flatten = chunks.flatten → StaysWithin max chunks' →
      NamesPlainly registry max chunks.flatten →
      Agrees registry chunks' (verdict registry max chunks.flatten)
        (X11SetupBuffer.pushAll (.withMaxSetupBytes max) registry chunks') := by
  obtain ⟨hreturns, hagrees⟩ := pushAll_correct registry max chunks
  refine ⟨hreturns, hagrees, fun chunks' hflatten hwithin hnames => ?_⟩
  rw [← hflatten] at hnames ⊢
  exact (pushAll_correct registry max chunks').2.mpr ⟨hwithin, hnames⟩

/-- The name of the protocol, with a blank in front. -/
def paddedName : Bytes := utf8Bytes " MIT-MAGIC-COOKIE-1".toList

theorem length_paddedName : paddedName.length = 19 := by decide +kernel

/-- A packet with this name and a cookie of one byte. -/
def paddedSetup : Setup where
  header := ⟨.littleEndian, 0, 11, 0, 19, 1, ⟨[0, 0], rfl⟩⟩
  name := paddedName
  namePad := [0]
  data := [1]
  dataPad := [0, 0, 0]
  length_name := length_paddedName
  length_namePad := congrArg (· + 1) length_paddedName
  length_data := rfl
  length_dataPad := rfl

/-- The registry with this cookie, for one connection. -/
def oneConnection : X11AuthSpoofRegistry Unit :=
  X11AuthSpoofRegistry.new.insert
    ⟨(), ⟨.mitMagicCookie1, ⟨[1], List.cons_ne_nil _ _⟩, ⟨[2], List.cons_ne_nil _ _⟩⟩, true⟩

/-- **A blank in front of the name** is cut off for the registry, which gives up the entry, and not for
the packet, which is an error then. -/
theorem padded_name_disagrees : ¬ ∀ (ChannelId : Type) (registry : X11AuthSpoofRegistry ChannelId)
    (max : Nat) (chunks : List Bytes), (∀ chunk ∈ chunks, chunk ≠ []) →
      Agrees registry chunks (verdict registry max chunks.flatten)
        (X11SetupBuffer.pushAll (.withMaxSetupBytes max) registry chunks) := by
  intro h
  have hflatten : [paddedSetup.encoded].flatten = paddedSetup.encoded := List.append_nil _
  have htrim : trim " MIT-MAGIC-COOKIE-1".toList = X11AuthProtocol.mitMagicCookie1.sshName := by
    decide +kernel
  have hprotocol : paddedSetup.protocol = .ok .mitMagicCookie1 := by
    have hname : paddedSetup.name = utf8Bytes " MIT-MAGIC-COOKIE-1".toList := rfl
    rw [Setup.protocol, X11AuthProtocol.parse, hname, fromUtf8Lossy_utf8Bytes]
    exact if_pos htrim
  have hnamed : ∃ entry, oneConnection.named paddedSetup.encoded = some entry := by
    rw [X11AuthSpoofRegistry.named, Setup.inspectSetupAuthentication, hprotocol]
    exact ⟨_, rfl⟩
  obtain ⟨entry, hentry⟩ := hnamed
  have hagrees := h Unit oneConnection 1048576 [paddedSetup.encoded] (by
    intro chunk hchunk
    obtain rfl := List.mem_singleton.mp hchunk
    exact List.cons_ne_nil _ _)
  have hplain := ((pushAll_correct oneConnection 1048576 _).2.mp hagrees).2
  rw [hflatten] at hplain
  have htotal : setupPacketTotalLen paddedSetup.encoded = .ok (some 36) :=
    paddedSetup.header.setupPacketTotalLen _
  have hlength : paddedSetup.encoded.length = 36 := paddedSetup.length_encoded
  have htake : paddedSetup.encoded.take 36 = paddedSetup.encoded := by
    rw [← hlength, List.take_length]
  obtain ⟨⟨parsed, hparsed, hname⟩, -⟩ :=
    hplain 36 entry htotal (by decide) (Nat.le_of_eq hlength.symm) (by rw [htake]; exact hentry)
  rw [htake, paddedSetup.parseSetupPacket] at hparsed
  cases hparsed
  have hlengths := congrArg List.length hname
  have hsshName : (utf8Bytes entry.auth.protocol.sshName).length = 18 := by
    cases entry.auth.protocol
    decide +kernel
  rw [hsshName] at hlengths
  exact absurd (length_paddedName.symm.trans hlengths) (by decide)

end OxideTerm.X11
