import OxideTerm.Lib.Utf8

/-!
# Configurations of SSH connections

What a connection is made with, and the key under which connections are shared: two configurations
with the same key use one connection. The key has names, ports and flags as they are, and digests of
what must not be seen in it.
-/

namespace OxideTerm.Ssh

open OxideTerm.Lib

/-- The characters of a literal. It is irreducible, since it takes long to compare two of them. -/
@[irreducible] def chars (literal : String) : List Char := literal.toList

/-! ## Configurations -/

structure TotpBinding where
  credentialId : List Char
deriving DecidableEq

structure SshAlgorithmPreferences where
  kex : List (List Char)
  hostKey : List (List Char)
  cipher : List (List Char)
  mac : List (List Char)
  compression : List (List Char)
deriving DecidableEq

namespace SshAlgorithmPreferences

def isDefault (preferences : SshAlgorithmPreferences) : Bool :=
  preferences.kex.isEmpty && preferences.hostKey.isEmpty && preferences.cipher.isEmpty &&
    preferences.mac.isEmpty && preferences.compression.isEmpty

def default : SshAlgorithmPreferences :=
  { kex := [], hostKey := [], cipher := [], mac := [], compression := [] }

end SshAlgorithmPreferences

inductive AuthMethod where
  | password (prompt : Bool) (password : List Char)
  | key (keyPath : List Char) (passphrase : Option (List Char))
  | agent
  | managedKey (keyId : List Char) (passphrase : Option (List Char))
  | certificate (keyPath certPath : List Char) (passphrase : Option (List Char))
  | keyboardInteractive
  | kerberosPreferred (serverIdentity : Option (List Char)) (delegateCredentials : Bool)
      (fallback : AuthMethod)
deriving DecidableEq

def AuthMethod.hasRuntimeSecret : AuthMethod → Bool
  | .password prompt _ => !prompt
  | .key _ passphrase => passphrase.isSome
  | .managedKey _ passphrase => passphrase.isSome
  | .certificate _ _ passphrase => passphrase.isSome
  | .kerberosPreferred _ _ fallback => fallback.hasRuntimeSecret
  | .agent => false
  | .keyboardInteractive => false

inductive UpstreamProxyProtocol where
  | socks5
  | httpConnect
deriving DecidableEq

structure UpstreamProxyConfig where
  protocol : UpstreamProxyProtocol
  host : List Char
  port : UInt16
  remoteDns : Bool
deriving DecidableEq

inductive ProxyCommandConfig where
  | authorizationRequired
  | unavailable
  | direct (program : List Char) (args : List (List Char))
deriving DecidableEq

def ProxyCommandConfig.ofWords : List (List Char) → Option ProxyCommandConfig
  | [] => none
  | program :: args => some (.direct program args)

structure ProxyHopConfig where
  totp : Option TotpBinding
  host : List Char
  port : UInt16
  username : List Char
  auth : AuthMethod
  agentForwarding : Bool
  identityAgent : Option (List Char)
  agentForwardingSocket : Option (List Char)
  legacySshCompatibility : Bool
  sshAlgorithms : SshAlgorithmPreferences
deriving DecidableEq

inductive SshChannelStrategy where
  | multiplexed
  | dedicatedPerConsumer
deriving DecidableEq

def SshChannelStrategy.requiresDedicatedConsumers (strategy : SshChannelStrategy) : Bool :=
  strategy = .dedicatedPerConsumer

structure SshConfig where
  totp : Option TotpBinding
  host : List Char
  port : UInt16
  username : List Char
  auth : AuthMethod
  proxyChain : Option (List ProxyHopConfig)
  upstreamProxy : Option UpstreamProxyConfig
  proxyCommand : Option ProxyCommandConfig
  agentForwarding : Bool
  identityAgent : Option (List Char)
  agentForwardingSocket : Option (List Char)
  legacySshCompatibility : Bool
  sshChannelStrategy : SshChannelStrategy
  sshAlgorithms : SshAlgorithmPreferences
deriving DecidableEq

/-- Whether there is a secret that must not be stored. -/
def SshConfig.hasRuntimeAuthSecret (config : SshConfig) : Bool :=
  config.auth.hasRuntimeSecret ||
    match config.proxyChain with
    | some chain => chain.any fun hop => hop.auth.hasRuntimeSecret
    | none => false

/-! ## Agents -/

/-- What the choice of an agent depends on, besides the configuration. -/
structure AgentEnvironment where
  valueOf : List Char → Option (List Char)
  socketExists : List Char → Bool

def sshAuthSockEnv : List Char := chars "SSH_AUTH_SOCK"

def configuredEnvironmentVariable (value : List Char) : Option (List Char) :=
  match value with
  | '$' :: '{' :: name =>
    match Text.stripSuffix ['}'] name with
    | some name => some name
    | none => some ('{' :: name)
  | '$' :: name => some name
  | _ => none

def defaultUnixAgentSocket (environment : AgentEnvironment) : Option (List Char) :=
  match environment.valueOf sshAuthSockEnv with
  | some socket => if environment.socketExists socket then some socket else none
  | none => none

/-- The socket of an agent, where there is one. -/
def resolveSshAgentEndpoint (environment : AgentEnvironment) (configured : Option (List Char))
    (noneDisablesAgent : Bool) : Option (List Char) :=
  if noneDisablesAgent ∧ configured.any fun value => value.map Char.toLower = chars "none" then none
  else
    let socket := match configured with
      | none => defaultUnixAgentSocket environment
      | some value =>
        if value = sshAuthSockEnv then environment.valueOf sshAuthSockEnv
        else match configuredEnvironmentVariable value with
          | some name => environment.valueOf name
          | none => some value
    match socket with
    | some socket => if environment.socketExists socket then some socket else none
    | none => none

def sshAgentPoolIdentity (environment : AgentEnvironment) (configured : Option (List Char))
    (noneDisablesAgent : Bool) : List Char :=
  match resolveSshAgentEndpoint environment configured noneDisablesAgent with
  | some socket => chars "unix:" ++ socket
  | none => chars "unavailable:" ++ configured.getD (chars "default")

/-! ## The key -/

/-- The digest as it stands in keys: lower-case hexadecimal digits, and no two inputs have the same
one. -/
structure PoolDigest where
  hex : Bytes → List Char
  injective : Function.Injective hex
  hexDigits : ∀ bytes, ∀ c ∈ hex bytes, c ∈ chars "0123456789abcdef"

/-- A number as `format!` writes it. -/
def portText (port : UInt16) : List Char := (toString port.toNat).toList

def boolText (b : Bool) : List Char := chars (if b then "true" else "false")

section Key

variable (digest : PoolDigest) (environment : AgentEnvironment)

def totpKeySuffix (binding : Option TotpBinding) : List Char :=
  match binding with
  | none => []
  | some binding => ':' :: chars "totp=" ++ digest.hex (Text.utf8Bytes binding.credentialId)

/-- Which agent is asked for identities, for the digest. -/
def identityAgentBytes (endpoint : Option (List Char)) : Bytes :=
  Text.utf8Bytes (sshAgentPoolIdentity environment endpoint true)

/-- Which agent is forwarded, for the digest. -/
def forwardingAgentBytes (forwardingEndpoint identityEndpoint : Option (List Char)) : Bytes :=
  match forwardingEndpoint with
  | none => identityAgentBytes environment identityEndpoint
  | some endpoint => Text.utf8Bytes (sshAgentPoolIdentity environment (some endpoint) false)

def agentEndpointKeySuffix (label : List Char) (endpoint : Option (List Char)) : List Char :=
  ':' :: label ++ '=' :: digest.hex (identityAgentBytes environment endpoint)

def agentForwardingEndpointKeySuffix (label : List Char)
    (forwardingEndpoint identityEndpoint : Option (List Char)) : List Char :=
  ':' :: label ++
    '=' :: digest.hex (forwardingAgentBytes environment forwardingEndpoint identityEndpoint)

def authenticationKeySuffix (auth : AuthMethod) : List Char :=
  match auth with
  | .kerberosPreferred serverIdentity delegateCredentials _ =>
    ':' :: chars "gssapi=" ++ digest.hex (Text.utf8Bytes (serverIdentity.getD [])) ++
      ':' :: chars "delegate=" ++ boolText delegateCredentials
  | _ => []

/-- The names of a category, for the digest. -/
def categoryBytes (category : Char) (algorithms : List (List Char)) : Bytes :=
  Text.utf8Bytes [category] ++ algorithms.flatMap fun algorithm => Text.utf8Bytes algorithm ++ [0]

/-- The offer of algorithms, for the digest. -/
def SshAlgorithmPreferences.bytes (preferences : SshAlgorithmPreferences) : Bytes :=
  categoryBytes 'k' preferences.kex ++ categoryBytes 'h' preferences.hostKey ++
    categoryBytes 'c' preferences.cipher ++ categoryBytes 'm' preferences.mac ++
    categoryBytes 'z' preferences.compression

def algorithmPreferencesKeySuffix (preferences : SshAlgorithmPreferences) : List Char :=
  if preferences.isDefault then [] else ':' :: chars "algorithms=" ++ digest.hex preferences.bytes

/-- The words of a command, for the digest. -/
def wordBytes (program : List Char) (args : List (List Char)) : Bytes :=
  Text.utf8Bytes program ++ args.flatMap fun argument => 0 :: Text.utf8Bytes argument

def ProxyCommandConfig.connectionKeySuffix (command : ProxyCommandConfig) : List Char :=
  match command with
  | .authorizationRequired => '|' :: chars "proxy-command=authorization-required"
  | .unavailable => '|' :: chars "proxy-command=unavailable"
  | .direct program args => '|' :: chars "proxy-command=" ++ digest.hex (wordBytes program args)

/-- The protocol as its `Debug` writes it. -/
def UpstreamProxyProtocol.text : UpstreamProxyProtocol → List Char
  | .socks5 => chars "Socks5"
  | .httpConnect => chars "HttpConnect"

def ProxyHopConfig.key (hop : ProxyHopConfig) : List Char :=
  let legacySuffix := if hop.legacySshCompatibility then ':' :: chars "legacy" else []
  let agentForwardingSuffix := if hop.agentForwarding then ':' :: chars "agent-forwarding" else []
  let identityAgentSuffix := match hop.identityAgent with
    | some endpoint =>
      agentEndpointKeySuffix digest environment (chars "identity-agent") (some endpoint)
    | none => []
  let forwardingSocketSuffix := if hop.agentForwarding then
      agentForwardingEndpointKeySuffix digest environment (chars "forwarding-agent")
        hop.agentForwardingSocket hop.identityAgent
    else []
  let authenticationSuffix := authenticationKeySuffix digest hop.auth ++ totpKeySuffix digest hop.totp
  hop.username ++ '@' :: hop.host ++ ':' :: portText hop.port ++ legacySuffix ++
    agentForwardingSuffix ++ identityAgentSuffix ++ forwardingSocketSuffix ++
    authenticationSuffix ++ algorithmPreferencesKeySuffix digest hop.sshAlgorithms

/-- **The key of the pool.** -/
def SshConfig.connectionKey (config : SshConfig) : List Char :=
  let proxyKey := match config.proxyChain with
    | some chain => ['>'].intercalate (chain.map fun hop => hop.key digest environment)
    | none => []
  let legacyKey := if config.legacySshCompatibility then '|' :: chars "legacy_ssh=true" else []
  let agentForwardingKey :=
    if config.agentForwarding then '|' :: chars "agent_forwarding=true" else []
  let identityAgentKey := match config.identityAgent with
    | some endpoint =>
      agentEndpointKeySuffix digest environment (chars "identity_agent") (some endpoint)
    | none => []
  let agentForwardingSocketKey := if config.agentForwarding then
      agentForwardingEndpointKeySuffix digest environment (chars "agent_forwarding_socket")
        config.agentForwardingSocket config.identityAgent
    else []
  let upstreamProxyKey := match config.upstreamProxy with
    | some proxy => '|' :: chars "upstream=" ++ proxy.protocol.text ++ ':' :: proxy.host ++
        ':' :: portText proxy.port ++ ':' :: boolText proxy.remoteDns
    | none => []
  let proxyCommandKey := match config.proxyCommand with
    | some command => command.connectionKeySuffix digest
    | none => []
  let authenticationKey := authenticationKeySuffix digest config.auth ++
    totpKeySuffix digest config.totp
  let algorithmKey := algorithmPreferencesKeySuffix digest config.sshAlgorithms
  let channelStrategyKey := if config.sshChannelStrategy.requiresDedicatedConsumers then
      '|' :: chars "channel_strategy=dedicated_per_consumer"
    else []
  config.username ++ '@' :: config.host ++ ':' :: portText config.port ++ '|' :: proxyKey ++
    upstreamProxyKey ++ legacyKey ++ agentForwardingKey ++ identityAgentKey ++
    agentForwardingSocketKey ++ proxyCommandKey ++ authenticationKey ++ algorithmKey ++
    channelStrategyKey

end Key

end OxideTerm.Ssh
