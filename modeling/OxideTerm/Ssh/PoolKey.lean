import OxideTerm.Lib.Separated
import OxideTerm.Ssh.Config

/-!
# What a key is made of

A key is split at its bars, a part between bars at its colons. `Spelled` is what then can be read,
and `Spelled.merged` is as much of it as can be told apart: where nothing stands between the chain
and what the target offers, this is the last hop's as well as the target's.
-/

namespace OxideTerm.Ssh

open OxideTerm.Lib

/-! ## Marks -/

/-- What stands between colons. -/
inductive Mark where
  | legacy
  | agentForwarding
  | identityAgent (agent : Bytes)
  | forwardingAgent (agent : Bytes)
  | targetIdentityAgent (agent : Bytes)
  | targetForwardingSocket (agent : Bytes)
  | gssapi (identity : Bytes)
  | delegate (allowed : Bool)
  | totp (credential : Bytes)
  | algorithms (offer : Bytes)
deriving DecidableEq

/-- Marks that a hop and the target may have. -/
def Mark.isOffer : Mark → Bool
  | .gssapi _ => true
  | .delegate _ => true
  | .totp _ => true
  | .algorithms _ => true
  | _ => false

/-- Marks that only the target has. -/
def Mark.isTarget : Mark → Bool
  | .targetIdentityAgent _ => true
  | .targetForwardingSocket _ => true
  | _ => false

section Text

variable (digest : PoolDigest)

def Mark.text : Mark → List Char
  | .legacy => chars "legacy"
  | .agentForwarding => chars "agent-forwarding"
  | .identityAgent agent => chars "identity-agent" ++ '=' :: digest.hex agent
  | .forwardingAgent agent => chars "forwarding-agent" ++ '=' :: digest.hex agent
  | .targetIdentityAgent agent => chars "identity_agent" ++ '=' :: digest.hex agent
  | .targetForwardingSocket agent => chars "agent_forwarding_socket" ++ '=' :: digest.hex agent
  | .gssapi identity => chars "gssapi=" ++ digest.hex identity
  | .delegate allowed => chars "delegate=" ++ boolText allowed
  | .totp credential => chars "totp=" ++ digest.hex credential
  | .algorithms offer => chars "algorithms=" ++ digest.hex offer

def marksText (marks : List Mark) : List Char := joined ':' (marks.map (Mark.text digest))

@[simp] theorem marksText_nil : marksText digest [] = [] := rfl

@[simp] theorem marksText_append (a b : List Mark) :
    marksText digest (a ++ b) = marksText digest a ++ marksText digest b := by
  rw [marksText, List.map_append, joined_append]
  rfl

/-- A hop as it stands in the key. -/
structure HopView where
  username : List Char
  host : List Char
  port : UInt16
  marks : List Mark
deriving DecidableEq

def HopView.text (hop : HopView) : List Char :=
  hop.username ++ '@' :: (hop.host ++ ':' :: (portText hop.port ++ marksText digest hop.marks))

def chainText : List HopView → List Char
  | [] => []
  | [hop] => hop.text digest
  | hop :: next :: rest => hop.text digest ++ '>' :: chainText (next :: rest)

/-- The proxy command, with its words as they are digested. -/
inductive CommandIdentity where
  | authorizationRequired
  | unavailable
  | direct (words : Bytes)
deriving DecidableEq

def CommandIdentity.text : CommandIdentity → List Char
  | .authorizationRequired => chars "proxy-command=authorization-required"
  | .unavailable => chars "proxy-command=unavailable"
  | .direct words => chars "proxy-command=" ++ digest.hex words

def UpstreamProxyConfig.text (proxy : UpstreamProxyConfig) : List Char :=
  (chars "upstream=" ++ proxy.protocol.text) ++
    ':' :: (proxy.host ++ ':' :: (portText proxy.port ++ ':' :: boolText proxy.remoteDns))

/-! ## The whole key -/

@[ext]
structure Spelled where
  username : List Char
  host : List Char
  port : UInt16
  chain : List HopView
  upstream : Option UpstreamProxyConfig
  legacy : Bool
  agentForwarding : Bool
  agents : List Mark
  command : Option CommandIdentity
  offer : List Mark
  dedicated : Bool
deriving DecidableEq

/-- The chain with more marks behind it, which are then the last hop's. -/
def withExtra : List HopView → List Mark → List HopView
  | [], _ => []
  | [hop], extra => [{ hop with marks := hop.marks ++ extra }]
  | hop :: next :: rest, extra => hop :: withExtra (next :: rest) extra

namespace Spelled

/-- There is a bar in front of the marks of the target. -/
def barred (s : Spelled) : Bool := s.upstream.isSome || s.legacy || s.agentForwarding

/-- The marks up to the proxy command, or up to the end. -/
def hanging (s : Spelled) : List Mark := s.agents ++ if s.command.isSome then [] else s.offer

def firstSegment (s : Spelled) : List Char :=
  chainText digest s.chain ++ marksText digest (if s.barred then [] else s.hanging)

def upstreamSegment (s : Spelled) : List (List Char) :=
  match s.upstream with
  | none => []
  | some proxy =>
    [proxy.text ++ marksText digest (if s.legacy || s.agentForwarding then [] else s.hanging)]

def legacySegment (s : Spelled) : List (List Char) :=
  if s.legacy then
    [chars "legacy_ssh=true" ++ marksText digest (if s.agentForwarding then [] else s.hanging)]
  else []

def forwardingSegment (s : Spelled) : List (List Char) :=
  if s.agentForwarding then [chars "agent_forwarding=true" ++ marksText digest s.hanging] else []

def commandSegment (s : Spelled) : List (List Char) :=
  match s.command with
  | none => []
  | some command => [command.text digest ++ marksText digest s.offer]

def strategySegment (s : Spelled) : List (List Char) :=
  if s.dedicated then [chars "channel_strategy=dedicated_per_consumer"] else []

/-- What stands behind the bars, up to the first one that follows the chain. -/
def segments (s : Spelled) : List (List Char) :=
  s.upstreamSegment digest ++ (s.legacySegment digest ++ (s.forwardingSegment digest ++
    (s.commandSegment digest ++ s.strategySegment)))

def text (s : Spelled) : List Char :=
  s.username ++ '@' :: (s.host ++ ':' :: (portText s.port ++
    joined '|' (s.firstSegment digest :: s.segments digest)))

/-- Something stands between the chain and the offer of the target. -/
def divided (s : Spelled) : Bool := s.barred || !s.agents.isEmpty || s.command.isSome

/-- What can be told apart in the key. -/
def merged (s : Spelled) : Spelled :=
  if s.divided || s.chain.isEmpty then s
  else { s with chain := withExtra s.chain s.offer, offer := [] }

end Spelled

end Text

/-! ## What a configuration spells out -/

section Views

variable (environment : AgentEnvironment)

def authenticationMarks (auth : AuthMethod) : List Mark :=
  match auth with
  | .kerberosPreferred serverIdentity delegateCredentials _ =>
    [.gssapi (Text.utf8Bytes (serverIdentity.getD [])), .delegate delegateCredentials]
  | _ => []

def totpMarks (binding : Option TotpBinding) : List Mark :=
  match binding with
  | none => []
  | some binding => [.totp (Text.utf8Bytes binding.credentialId)]

def algorithmMarks (preferences : SshAlgorithmPreferences) : List Mark :=
  if preferences.isDefault then [] else [.algorithms preferences.bytes]

def offerMarks (auth : AuthMethod) (totp : Option TotpBinding)
    (preferences : SshAlgorithmPreferences) : List Mark :=
  authenticationMarks auth ++ totpMarks totp ++ algorithmMarks preferences

/-- The marks that only a hop has. -/
def ProxyHopConfig.routeMarks (hop : ProxyHopConfig) : List Mark :=
  (if hop.legacySshCompatibility then [.legacy] else []) ++
  (if hop.agentForwarding then [.agentForwarding] else []) ++
  (match hop.identityAgent with
    | some endpoint => [.identityAgent (identityAgentBytes environment (some endpoint))]
    | none => []) ++
  if hop.agentForwarding then
    [.forwardingAgent
      (forwardingAgentBytes environment hop.agentForwardingSocket hop.identityAgent)]
  else []

def ProxyHopConfig.view (hop : ProxyHopConfig) : HopView where
  username := hop.username
  host := hop.host
  port := hop.port
  marks := hop.routeMarks environment ++ offerMarks hop.auth hop.totp hop.sshAlgorithms

def SshConfig.hops (config : SshConfig) : List ProxyHopConfig := config.proxyChain.getD []

def ProxyCommandConfig.identity : ProxyCommandConfig → CommandIdentity
  | .authorizationRequired => .authorizationRequired
  | .unavailable => .unavailable
  | .direct program args => .direct (wordBytes program args)

def SshConfig.agentMarks (config : SshConfig) : List Mark :=
  (match config.identityAgent with
    | some endpoint => [.targetIdentityAgent (identityAgentBytes environment (some endpoint))]
    | none => []) ++
  if config.agentForwarding then
    [.targetForwardingSocket
      (forwardingAgentBytes environment config.agentForwardingSocket config.identityAgent)]
  else []

def SshConfig.spelled (config : SshConfig) : Spelled where
  username := config.username
  host := config.host
  port := config.port
  chain := config.hops.map fun hop => hop.view environment
  upstream := config.upstreamProxy
  legacy := config.legacySshCompatibility
  agentForwarding := config.agentForwarding
  agents := config.agentMarks environment
  command := config.proxyCommand.map ProxyCommandConfig.identity
  offer := offerMarks config.auth config.totp config.sshAlgorithms
  dedicated := config.sshChannelStrategy.requiresDedicatedConsumers

end Views

/-! ## The key in its parts -/

section Key

variable (digest : PoolDigest) (environment : AgentEnvironment)

theorem marksText_singleton (mark : Mark) : marksText digest [mark] = ':' :: mark.text digest :=
  List.append_nil _

theorem authenticationKeySuffix_eq (auth : AuthMethod) :
    authenticationKeySuffix digest auth = marksText digest (authenticationMarks auth) := by
  cases auth with
  | kerberosPreferred serverIdentity delegateCredentials fallback =>
    unfold authenticationKeySuffix authenticationMarks marksText
    rw [List.map_cons, List.map_singleton, Mark.text, Mark.text]
    generalize chars "gssapi=" = identityLabel
    generalize chars "delegate=" = delegateLabel
    simp
  | _ => rfl

theorem totpKeySuffix_eq (totp : Option TotpBinding) :
    totpKeySuffix digest totp = marksText digest (totpMarks totp) := by
  cases totp with
  | none => rfl
  | some binding =>
    rw [totpMarks, marksText_singleton]
    rfl

theorem algorithmPreferencesKeySuffix_eq (preferences : SshAlgorithmPreferences) :
    algorithmPreferencesKeySuffix digest preferences =
      marksText digest (algorithmMarks preferences) := by
  unfold algorithmPreferencesKeySuffix algorithmMarks
  split
  · rfl
  · rw [marksText_singleton]
    rfl

theorem marksText_offerMarks (auth : AuthMethod) (totp : Option TotpBinding)
    (preferences : SshAlgorithmPreferences) : marksText digest (offerMarks auth totp preferences) =
      authenticationKeySuffix digest auth ++ totpKeySuffix digest totp ++
        algorithmPreferencesKeySuffix digest preferences := by
  rw [offerMarks, marksText_append, marksText_append, authenticationKeySuffix_eq,
    totpKeySuffix_eq, algorithmPreferencesKeySuffix_eq]

theorem marksText_if (condition : Bool) (mark : Mark) :
    marksText digest (if condition then [mark] else []) =
      if condition then ':' :: mark.text digest else [] := by
  cases condition
  · rfl
  · exact marksText_singleton digest mark

theorem marksText_agent (make : Bytes → Mark) (agent : Option (List Char)) :
    marksText digest (match agent with
      | some endpoint => [make (identityAgentBytes environment (some endpoint))]
      | none => []) =
      match agent with
      | some endpoint => ':' :: (make (identityAgentBytes environment (some endpoint))).text digest
      | none => [] := by
  cases agent
  · rfl
  · exact marksText_singleton digest _

theorem ProxyHopConfig.key_eq_text (hop : ProxyHopConfig) :
    hop.key digest environment = (hop.view environment).text digest := by
  simp only [ProxyHopConfig.key, HopView.text, ProxyHopConfig.view, ProxyHopConfig.routeMarks,
    marksText_append, marksText_offerMarks, marksText_if, marksText_agent, List.append_assoc,
    List.cons_append]
  rfl

theorem intercalate_eq_chainText : ∀ hops : List ProxyHopConfig,
    ['>'].intercalate (hops.map fun hop => hop.key digest environment) =
      chainText digest (hops.map fun hop => hop.view environment)
  | [] => rfl
  | [hop] => by
    rw [List.map_singleton, List.map_singleton, chainText, ← hop.key_eq_text]
    exact List.intercalate_singleton ..
  | hop :: next :: rest => by
    have ih := intercalate_eq_chainText (next :: rest)
    rw [List.map_cons, List.intercalate_cons_of_ne_nil (by simp), ih, hop.key_eq_text,
      List.append_assoc, List.singleton_append]
    rfl

theorem marksText_agentMarks (config : SshConfig) :
    marksText digest (config.agentMarks environment) =
      (match config.identityAgent with
        | some endpoint =>
          agentEndpointKeySuffix digest environment (chars "identity_agent") (some endpoint)
        | none => []) ++
      if config.agentForwarding then
        agentForwardingEndpointKeySuffix digest environment (chars "agent_forwarding_socket")
          config.agentForwardingSocket config.identityAgent
      else [] := by
  rw [SshConfig.agentMarks, marksText_append, marksText_agent, marksText_if]
  rfl

theorem connectionKeySuffix_eq (command : ProxyCommandConfig) :
    command.connectionKeySuffix digest = '|' :: command.identity.text digest := by
  cases command <;> rfl

/-- The parts in the order in which the key has them. -/
theorem Spelled.text_eq (s : Spelled) : s.text digest =
    s.username ++ '@' :: (s.host ++ ':' :: (portText s.port ++ '|' :: (chainText digest s.chain ++
      ((match s.upstream with | some proxy => '|' :: proxy.text | none => []) ++
      ((if s.legacy then '|' :: chars "legacy_ssh=true" else []) ++
      ((if s.agentForwarding then '|' :: chars "agent_forwarding=true" else []) ++
      (marksText digest s.agents ++
      ((match s.command with | some command => '|' :: command.text digest | none => []) ++
      (marksText digest s.offer ++
      if s.dedicated then '|' :: chars "channel_strategy=dedicated_per_consumer" else []))))))))) := by
  obtain ⟨username, host, port, chain, upstream, legacy, agentForwarding, agents, command, offer,
    dedicated⟩ := s
  simp only [Spelled.text, Spelled.firstSegment, Spelled.segments, Spelled.upstreamSegment,
    Spelled.legacySegment, Spelled.forwardingSegment, Spelled.commandSegment,
    Spelled.strategySegment, Spelled.barred, Spelled.hanging, joined_cons, joined_append]
  cases upstream <;> cases legacy <;> cases agentForwarding <;> cases command <;>
    cases dedicated <;>
      simp only [Option.isSome, Bool.or_true, Bool.or_false, if_true, if_false,
        Bool.false_eq_true, joined_cons, joined_nil, marksText_append, marksText_nil,
        List.append_nil, List.nil_append, List.append_assoc, List.cons_append]

/-- **The key is what its configuration spells out.** -/
theorem SshConfig.connectionKey_eq_text (config : SshConfig) :
    config.connectionKey digest environment = (config.spelled environment).text digest := by
  rw [Spelled.text_eq]
  simp only [SshConfig.spelled, marksText_agentMarks, marksText_offerMarks,
    ← intercalate_eq_chainText, SshConfig.hops, SshConfig.connectionKey, UpstreamProxyConfig.text,
    List.append_assoc, List.cons_append]
  cases config.proxyChain with
  | none => cases config.proxyCommand with
    | none => rfl
    | some command =>
      dsimp only
      rw [connectionKeySuffix_eq digest command]
      rfl
  | some chain => cases config.proxyCommand with
    | none => rfl
    | some command =>
      dsimp only
      rw [connectionKeySuffix_eq digest command]
      rfl

end Key

end OxideTerm.Ssh
