import OxideTerm.Lib.Utf8
import OxideTerm.Lib.Words

/-!
# Saved authentication

How a saved connection, a profile or a hop of a proxy chain authenticates, and the proxies in front
of it. Kerberos is preferred to another way, which may prefer Kerberos again.
-/

namespace OxideTerm.Connections

open OxideTerm.Lib Text

inductive SavedAuth where
  | password (emptyPassword : Bool) (keychainId plaintextPassword : Option (List Char))
  | key (keyPath : List Char) (hasPassphrase : Bool)
      (passphraseKeychainId plaintextPassphrase : Option (List Char))
  | certificate (keyPath certPath : List Char) (hasPassphrase : Bool)
      (passphraseKeychainId plaintextPassphrase : Option (List Char))
  | managedKey (keyId : List Char) (passphraseKeychainId plaintextPassphrase : Option (List Char))
  | keyboardInteractive
  | agent
  | kerberosPreferred (serverIdentity : Option (List Char)) (delegateCredentials : Bool)
      (fallback : SavedAuth)
deriving DecidableEq

namespace SavedAuth

def conventionalFallback : SavedAuth → SavedAuth
  | kerberosPreferred _ _ fallback => fallback.conventionalFallback
  | auth => auth

def usesEmptyPassword (auth : SavedAuth) : Bool :=
  match auth.conventionalFallback with
  | password true _ _ => true
  | _ => false

def managedKeyId : SavedAuth → Option (List Char)
  | managedKey keyId _ _ => some keyId
  | kerberosPreferred _ _ fallback => fallback.managedKeyId
  | _ => none

def withKerberosPreferred (fallback : SavedAuth) (serverIdentity : Option (List Char))
    (delegateCredentials : Bool) : SavedAuth :=
  kerberosPreferred serverIdentity delegateCredentials <|
    match fallback with
    | kerberosPreferred _ _ fallback => fallback
    | fallback => fallback

def isKerberosPreferred : SavedAuth → Bool
  | kerberosPreferred _ _ _ => true
  | _ => false

end SavedAuth

/-! ## Algorithms -/

structure SshAlgorithmPreferences where
  kex : List (List Char)
  hostKey : List (List Char)
  cipher : List (List Char)
  mac : List (List Char)
  compression : List (List Char)
deriving DecidableEq

def maxSshAlgorithmsPerCategory : Nat := 64
def maxSshAlgorithmNameBytes : Nat := 128

/-- `u8::is_ascii_whitespace`. -/
def isAsciiWhitespace (byte : UInt8) : Bool :=
  byte = 0x20 || byte = 0x09 || byte = 0x0a || byte = 0x0c || byte = 0x0d

def validateAlgorithms (category : String) (unique : List (List Char)) :
    List (List Char) → Except String Unit
  | [] => .ok ()
  | algorithm :: rest =>
    if algorithm = [] ∨ maxSshAlgorithmNameBytes < (utf8Bytes algorithm).length ∨
        (utf8Bytes algorithm).any (fun byte => byte = 0x2c || isAsciiWhitespace byte) then
      .error s!"Invalid SSH {category} algorithm name"
    else if algorithm ∈ unique then .error s!"Duplicate SSH {category} algorithm"
    else validateAlgorithms category (algorithm :: unique) rest

def validateCategory (category : String) (algorithms : List (List Char)) : Except String Unit :=
  if maxSshAlgorithmsPerCategory < algorithms.length then
    .error s!"Too many SSH {category} algorithms"
  else validateAlgorithms category [] algorithms

namespace SshAlgorithmPreferences

def default : SshAlgorithmPreferences :=
  { kex := [], hostKey := [], cipher := [], mac := [], compression := [] }

def validate (preferences : SshAlgorithmPreferences) : Except String Unit := do
  validateCategory "KEX" preferences.kex
  validateCategory "host key" preferences.hostKey
  validateCategory "cipher" preferences.cipher
  validateCategory "MAC" preferences.mac
  validateCategory "compression" preferences.compression

end SshAlgorithmPreferences

/-! ## Hops and proxies -/

structure SavedProxyHop where
  totpCredentialId : Option (List Char)
  host : List Char
  port : UInt16
  username : List Char
  auth : SavedAuth
  agentForwarding : Bool
  identityAgent : Option (List Char)
  agentForwardingSocket : Option (List Char)
  legacySshCompatibility : Bool
  sshAlgorithms : SshAlgorithmPreferences
deriving DecidableEq

inductive SavedUpstreamProxyProtocol where
  | socks5
  | httpConnect
deriving DecidableEq

inductive SavedUpstreamProxyAuth where
  | none
  | password (username : List Char) (keychainId plaintextPassword : Option (List Char))
deriving DecidableEq

structure SavedUpstreamProxyConfig where
  protocol : SavedUpstreamProxyProtocol
  host : List Char
  port : UInt16
  auth : SavedUpstreamProxyAuth
  remoteDns : Bool
  noProxy : List Char
deriving DecidableEq

inductive SavedUpstreamProxyPolicy where
  | useGlobal
  | direct
  | custom (proxy : SavedUpstreamProxyConfig)
deriving DecidableEq

structure SavedProxyCommand where
  keychainId : Option (List Char)
  plaintextCommand : Option (List Char)
deriving DecidableEq

end OxideTerm.Connections
