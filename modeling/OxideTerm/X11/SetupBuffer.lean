import OxideTerm.X11.Protocol

/-!
# The registry and the setup buffer

The registry knows the fake cookies that were handed out. The buffer gathers the first packet of a
connection, and then asks the registry once whether the connection goes on to the local display.
-/

namespace OxideTerm.X11

open Lib Lib.Text

/-! ## The registry -/

structure X11SpoofedAuth (ChannelId : Type) where
  channelId : ChannelId
  auth : X11AuthMaterial
  singleConnection : Bool

/-- `X11AuthSpoofRegistry`; no two entries have one fake cookie. -/
structure X11AuthSpoofRegistry (ChannelId : Type) where
  entries : List (X11SpoofedAuth ChannelId)
  distinct : entries.Pairwise fun entry entry' => entry.auth.fakeCookie ≠ entry'.auth.fakeCookie

namespace X11AuthSpoofRegistry

variable {ChannelId : Type}

def new : X11AuthSpoofRegistry ChannelId := ⟨[], .nil⟩

/-- The condition of `position` in `insert`. -/
def replaces (entry existing : X11SpoofedAuth ChannelId) : Bool :=
  existing.auth.fakeCookie == entry.auth.fakeCookie

theorem distinct_insert {entries : List (X11SpoofedAuth ChannelId)}
    (h : entries.Pairwise fun entry entry' => entry.auth.fakeCookie ≠ entry'.auth.fakeCookie)
    (entry : X11SpoofedAuth ChannelId) :
    (entries.eraseP (replaces entry) ++ [entry]).Pairwise fun entry entry' => entry.auth.fakeCookie ≠ entry'.auth.fakeCookie := by
  refine List.pairwise_append.mpr ⟨h.sublist List.eraseP_sublist, List.pairwise_singleton _ _, ?_⟩
  intro existing hexisting new hnew
  obtain rfl := List.mem_singleton.mp hnew
  induction entries with
  | nil => exact absurd hexisting List.not_mem_nil
  | cons first entries ih =>
    obtain ⟨hfirst, hrest⟩ := List.pairwise_cons.mp h
    by_cases hsame : replaces new first = true
    · rw [List.eraseP_cons_of_pos hsame] at hexisting
      intro heq
      exact hfirst existing hexisting ((beq_iff_eq.mp hsame).trans heq.symm)
    · rw [List.eraseP_cons_of_neg hsame] at hexisting
      rcases List.mem_cons.mp hexisting with rfl | hmem
      · exact fun heq => hsame (beq_iff_eq.mpr heq)
      · exact ih hrest hmem

/-- `insert`: the entry replaces the one with its fake cookie. -/
def insert (registry : X11AuthSpoofRegistry ChannelId) (entry : X11SpoofedAuth ChannelId) :
    X11AuthSpoofRegistry ChannelId :=
  { entries := registry.entries.eraseP (replaces entry) ++ [entry]
    distinct := distinct_insert registry.distinct entry }

/-- The condition of `position` in `resolve`. -/
def answers (protocol : X11AuthProtocol) (fakeCookie : X11AuthCookie)
    (entry : X11SpoofedAuth ChannelId) : Bool :=
  entry.auth.protocol == protocol && entry.auth.fakeCookie == fakeCookie

/-- `resolve`: the first entry that answers, which is removed if it is for one connection. -/
def resolve (registry : X11AuthSpoofRegistry ChannelId) (protocol : X11AuthProtocol)
    (fakeCookie : X11AuthCookie) :
    Option (X11SpoofedAuth ChannelId) × X11AuthSpoofRegistry ChannelId :=
  match registry.entries.find? (answers protocol fakeCookie) with
  | none => (none, registry)
  | some entry =>
    if entry.singleConnection then
      (some entry,
        { entries := registry.entries.eraseP (answers protocol fakeCookie)
          distinct := registry.distinct.sublist List.eraseP_sublist })
    else (some entry, registry)

/-- `resolve_setup_packet`. -/
def resolveSetupPacket (registry : X11AuthSpoofRegistry ChannelId) (packet : Bytes) :
    Except Failure (Option (X11SpoofedAuth ChannelId)) × X11AuthSpoofRegistry ChannelId :=
  match inspectSetupAuthentication packet with
  | .error failure => (.error failure, registry)
  | .ok setupAuth =>
    let (entry, registry) := registry.resolve setupAuth.protocol setupAuth.fakeCookie
    (.ok entry, registry)

end X11AuthSpoofRegistry

/-! ## The buffer -/

structure X11SetupRewrite where
  request : X11SetupRequest
  rewrittenSetup : Bytes
  trailingData : Bytes

inductive X11SetupRejectReason where
  | authCookieMismatch
  | unsupportedAuthProtocol
deriving DecidableEq, Repr

structure X11SetupReject where
  request : X11SetupRequest
  reason : X11SetupRejectReason
  failureResponse : Bytes

/-- `X11RegisteredSetupDecision`. -/
inductive X11RegisteredSetupDecision (ChannelId : Type) where
  | forward (channelId : ChannelId) (rewrite : X11SetupRewrite)
  | reject (reject : X11SetupReject)

structure X11SetupBuffer where
  bytes : Bytes
  maxSetupBytes : Nat
  complete : Bool

/-- `reject_setup_packet`. -/
def rejectSetupPacket (setup : Bytes) (reason : X11SetupRejectReason) (failureMessage : List Char) :
    Except Failure X11SetupReject := do
  let request ← inspectSetupRequest setup
  let failureResponse ← buildAuthFailureResponse request failureMessage
  return { request, reason, failureResponse }

namespace X11SetupBuffer

variable {ChannelId : Type}

def withMaxSetupBytes (maxSetupBytes : Nat) : X11SetupBuffer := ⟨[], maxSetupBytes, false⟩

/-- `push_complete_setup`: the first packet and what is behind it, once it is there. -/
def pushCompleteSetup (buffer : X11SetupBuffer) (chunk : Bytes) :
    Except Failure (Option (Bytes × Bytes)) × X11SetupBuffer :=
  if buffer.complete then (.error (.error .invalidSetupPacketLength), buffer)
  else
    let buffer := { buffer with bytes := buffer.bytes ++ chunk }
    if buffer.maxSetupBytes < buffer.bytes.length then
      (.error (.error (.setupPacketTooLarge buffer.maxSetupBytes)), buffer)
    else
      match setupPacketTotalLen buffer.bytes with
      | .error failure => (.error failure, buffer)
      | .ok none => (.ok none, buffer)
      | .ok (some required) =>
        if buffer.bytes.length < required then (.ok none, buffer)
        else
          (.ok (some (buffer.bytes.take required, buffer.bytes.drop required)),
            { buffer with bytes := [], complete := true })

/-- What `push_registry_decision` makes of a complete packet. -/
def decide (setup trailingData : Bytes) (registry : X11AuthSpoofRegistry ChannelId) :
    Except Failure (X11RegisteredSetupDecision ChannelId) × X11AuthSpoofRegistry ChannelId :=
  match registry.resolveSetupPacket setup with
  | (.ok (some entry), registry) =>
    match rewriteSetupAuthentication setup entry.auth with
    | .error failure => (.error failure, registry)
    | .ok (request, rewrittenSetup) =>
      (.ok (.forward entry.channelId { request, rewrittenSetup, trailingData }), registry)
  | (.ok none, registry) =>
    ((rejectSetupPacket setup .authCookieMismatch
      "X11 forwarding authentication failed".toList).map .reject, registry)
  | (.error (.error (.unsupportedAuthProtocol _)), registry) =>
    ((rejectSetupPacket setup .unsupportedAuthProtocol
      "Unsupported X11 auth protocol".toList).map .reject, registry)
  | (.error (.error (.invalidAuthCookie _)), registry) =>
    ((rejectSetupPacket setup .authCookieMismatch
      "X11 forwarding authentication failed".toList).map .reject, registry)
  | (.error failure, registry) => (.error failure, registry)

/-- `push_registry_decision`. -/
def pushRegistryDecision (buffer : X11SetupBuffer) (chunk : Bytes)
    (registry : X11AuthSpoofRegistry ChannelId) :
    Except Failure (Option (X11RegisteredSetupDecision ChannelId)) × X11SetupBuffer ×
      X11AuthSpoofRegistry ChannelId :=
  match buffer.pushCompleteSetup chunk with
  | (.error failure, buffer) => (.error failure, buffer, registry)
  | (.ok none, buffer) => (.ok none, buffer, registry)
  | (.ok (some (setup, trailingData)), buffer) =>
    let (decision, registry) := decide setup trailingData registry
    (decision.map some, buffer, registry)

/-- How pushing comes to an end. -/
inductive Answer (ChannelId : Type) where
  | waiting
  | decided (decision : X11RegisteredSetupDecision ChannelId)
  | failed (failure : Failure)

/-- Chunks are pushed until there is an answer, as the bridge of a channel does. -/
def pushAll : X11SetupBuffer → X11AuthSpoofRegistry ChannelId → List Bytes →
    Answer ChannelId × X11AuthSpoofRegistry ChannelId
  | _, registry, [] => (.waiting, registry)
  | buffer, registry, chunk :: chunks =>
    match buffer.pushRegistryDecision chunk registry with
    | (.error failure, _, registry) => (.failed failure, registry)
    | (.ok (some decision), _, registry) => (.decided decision, registry)
    | (.ok none, buffer, registry) => pushAll buffer registry chunks

end X11SetupBuffer

end OxideTerm.X11
