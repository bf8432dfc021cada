import OxideTerm.Lib.Casing
import OxideTerm.Lib.Words
import OxideTerm.Ssh.Config

/-!
# Known hosts

The file of known hosts: how it is read, how a line is added to it and how it is rewritten without
the key of a host. Each line has names of hosts, the type of a key, the key and perhaps more.

What is known of keys comes from elsewhere: their base64, their fingerprints and how base64 is read.
Failures of the file system are left out, and so is the cache of accepted keys.
-/

namespace OxideTerm.Ssh

open OxideTerm.Lib OxideTerm.Lib.Text

/-! ## Keys -/

/-- Public keys, and what is relied on of their base64. -/
structure KeyFormat (Key : Type) where
  algorithm : Key → List Char
  publicKeyBase64 : Key → List Char
  publicKeyFingerprint : Key → List Char
  parsePublicKeyBase64 : List Char → Option Key
  isWord_base64 : ∀ key, IsWord (publicKeyBase64 key)
  base64_start : ∀ key, ['A', 'A', 'A', 'A'] <+: publicKeyBase64 key
  fingerprint_parse : ∀ key,
    (parsePublicKeyBase64 (publicKeyBase64 key)).map publicKeyFingerprint =
      some (publicKeyFingerprint key)

variable {Key : Type}

def KeyFormat.publicKeyType (format : KeyFormat Key) (key : Key) : List Char :=
  if format.algorithm key = chars "ssh-ed25519" then chars "ssh-ed25519"
  else if format.algorithm key = chars "ssh-rsa" then chars "ssh-rsa"
  else if format.algorithm key = chars "ecdsa-sha2-nistp256" then chars "ecdsa-sha2-nistp256"
  else if format.algorithm key = chars "ecdsa-sha2-nistp384" then chars "ecdsa-sha2-nistp384"
  else if format.algorithm key = chars "ecdsa-sha2-nistp521" then chars "ecdsa-sha2-nistp521"
  else chars "ssh-rsa"

def KeyFormat.fingerprintFromKnownHostsKeyData (format : KeyFormat Key) (keyData : List Char) :
    List Char :=
  match format.parsePublicKeyBase64 keyData with
  | some key => format.publicKeyFingerprint key
  | none => chars "unknown"

inductive HostKeyVerification where
  | verified
  | unknown (fingerprint keyType : List Char)
  | changed (expectedFingerprint actualFingerprint keyType : List Char)
deriving DecidableEq

structure HostKeyEntry where
  keyType : List Char
  keyData : List Char
deriving DecidableEq

inductive KnownHostsError where
  | hostKeyCheckFailed (message : List Char)
deriving DecidableEq

/-! ## Names of hosts -/

/-- `str::split_once` at `]:`. -/
def splitOnceBracketColon : List Char → Option (List Char × List Char)
  | [] => none
  | c :: rest =>
    match c, rest with
    | ']', ':' :: back => some ([], back)
    | _, _ => (splitOnceBracketColon rest).map fun parts => (c :: parts.1, parts.2)

/-- `str::parse::<u16>`. -/
def parseU16 (text : List Char) : Option UInt16 :=
  match parseU64 text with
  | some n => if n < 2 ^ 16 then some (UInt16.ofNat n) else none
  | none => none

section Names

variable (casing : Casing)

def normalizeHostname (host : List Char) : List Char :=
  let host := host.dropWhile fun c => c = '['
  match splitOnceBracketColon host with
  | some parts => casing.toLowercase parts.1
  | none => casing.toLowercase (host.rdropWhile fun c => c = ']')

def makeKey (host : List Char) (port : UInt16) : List Char :=
  let host := casing.toLowercase host
  if port = 22 then host else '[' :: host ++ ']' :: ':' :: portText port

def canonicalHostEntry (hostname : List Char) : List Char :=
  let hostname := trim hostname
  let bracketed : Option (List Char) := match hostname with
    | '[' :: stripped =>
      match splitOnceBracketColon stripped with
      | some (host, portStr) =>
        match parseU16 portStr with
        | some port => some (makeKey casing host port)
        | none => none
      | none => none
    | _ => none
  match bracketed with
  | some key => key
  | none => normalizeHostname casing hostname

end Names

/-! ## The store -/

/-- What was read, in the order in which it was read. -/
@[ext]
structure KnownHostsStore where
  hosts : List (List Char × HostKeyEntry)

/-- The file, if there is one. -/
abbrev KnownHostsFile := Option (List Char)

namespace KnownHostsStore

/-- What is read from a line. -/
def readLine (casing : Casing) (line : List Char) : List (List Char × HostKeyEntry) :=
  let line := trim line
  if line = [] ∨ line.head? = some '#' then []
  else
    match splitWhitespace line with
    | names :: keyType :: keyData :: _ =>
      ((split ',' names).filter fun hostname => hostname.head? ≠ some '|').map fun hostname =>
        (canonicalHostEntry casing hostname, { keyType, keyData })
    | _ => []

def load (casing : Casing) (file : KnownHostsFile) : KnownHostsStore where
  hosts := match file with
    | some content => (lines content).flatMap (readLine casing)
    | none => []

def get (store : KnownHostsStore) (key : List Char) : Option (List HostKeyEntry) :=
  match (store.hosts.filter fun host => host.1 = key).map Prod.snd with
  | [] => none
  | entries => some entries

end KnownHostsStore

section Checks

variable (format : KeyFormat Key)

/-- The entries of other types and keys, and the first key of the same type. -/
def checkKnownHostEntriesFrom (expectedFingerprint : Option (List Char)) (actualKeyType
    actualKeyB64 actualFingerprint : List Char) : List HostKeyEntry → Option HostKeyVerification
  | [] => expectedFingerprint.map fun expected => .changed expected actualFingerprint actualKeyType
  | entry :: entries =>
    if entry.keyType ≠ actualKeyType then
      checkKnownHostEntriesFrom expectedFingerprint actualKeyType actualKeyB64 actualFingerprint
        entries
    else if entry.keyData = actualKeyB64 then some .verified
    else
      checkKnownHostEntriesFrom
        (expectedFingerprint.or (some (format.fingerprintFromKnownHostsKeyData entry.keyData)))
        actualKeyType actualKeyB64 actualFingerprint entries

def checkKnownHostEntries (entries : List HostKeyEntry) (actualKeyType actualKeyB64
    actualFingerprint : List Char) : Option HostKeyVerification :=
  checkKnownHostEntriesFrom format none actualKeyType actualKeyB64 actualFingerprint entries

variable (casing : Casing)

namespace KnownHostsStore

def verify (store : KnownHostsStore) (host : List Char) (port : UInt16) (key : Key) :
    HostKeyVerification :=
  let actualKeyB64 := format.publicKeyBase64 key
  let actualKeyType := format.publicKeyType key
  let fingerprint := format.publicKeyFingerprint key
  match store.get (makeKey casing host port) with
  | some entries =>
    match checkKnownHostEntries format entries actualKeyType actualKeyB64 fingerprint with
    | some result => result
    | none => .unknown fingerprint actualKeyType
  | none =>
    match store.get (casing.toLowercase host) with
    | some entries =>
      match checkKnownHostEntries format entries actualKeyType actualKeyB64 fingerprint with
      | some result => result
      | none => .unknown fingerprint actualKeyType
    | none => .unknown fingerprint actualKeyType

end KnownHostsStore

/-! ## Adding a host -/

def appendKnownHostLine (file : KnownHostsFile) (host keyType keyData : List Char) :
    KnownHostsFile :=
  some (file.getD [] ++ (host ++ ' ' :: keyType ++ ' ' :: keyData ++ ['\n']))

/-- The store and the file, with a host more. -/
def KnownHostsStore.addHost (store : KnownHostsStore) (file : KnownHostsFile) (host : List Char)
    (port : UInt16) (key : Key) : KnownHostsStore × KnownHostsFile :=
  let lookupKey := makeKey casing host port
  let keyType := format.publicKeyType key
  let keyData := format.publicKeyBase64 key
  ({ hosts := store.hosts ++ [(lookupKey, { keyType, keyData })] },
    appendKnownHostLine file lookupKey keyType keyData)

/-! ## Removing a key -/

/-- The names that stay. -/
def keptHostnames (removeHosts : List (List Char)) (hostnames : List Char) : List (List Char) :=
  (split ',' hostnames).filter fun hostname =>
    !removeHosts.contains (canonicalHostEntry casing hostname)

/-- The line that is written for a line, if there is one, and whether something was removed. -/
def rewriteLine (removeHosts : List (List Char)) (removeKeyType removeFingerprint line : List Char) :
    Option (List Char) × Bool :=
  match splitWhitespace line with
  | hostnames :: keyType :: keyData :: rest =>
    if keyType ≠ removeKeyType ∨
        format.fingerprintFromKnownHostsKeyData keyData ≠ removeFingerprint then
      (some line, false)
    else
      let kept := keptHostnames casing removeHosts hostnames
      if kept.length = (split ',' hostnames).length then (some line, false)
      else if kept = [] then (none, true)
      else (some ([' '].intercalate ([','].intercalate kept :: keyType :: keyData :: rest)), true)
  | _ => (some line, false)

/-- Whether something was removed, and the file. -/
def rewriteWithoutHostKey (file : KnownHostsFile) (removeHosts : List (List Char))
    (removeKeyType removeFingerprint : List Char) : Bool × KnownHostsFile :=
  match file with
  | none => (false, none)
  | some content =>
    let removeHosts := removeHosts.map casing.toLowercase
    let rewritten := (lines content).map
      (rewriteLine format casing removeHosts removeKeyType removeFingerprint)
    let filtered := rewritten.filterMap Prod.fst
    (rewritten.any Prod.snd, some (['\n'].intercalate filtered ++ ['\n']))

/-- The keys under which a host is looked up. -/
def removedLookupKeys (host : List Char) (port : UInt16) : List (List Char) :=
  let lookupKey := makeKey casing host port
  let hostOnlyKey := normalizeHostname casing host
  if hostOnlyKey ≠ lookupKey then [lookupKey, hostOnlyKey] else [lookupKey]

/-- The store, or why nothing was removed, and the file. -/
def KnownHostsStore.removeHostKey (file : KnownHostsFile) (host : List Char) (port : UInt16)
    (keyType expectedFingerprint : List Char) :
    Except KnownHostsError KnownHostsStore × KnownHostsFile :=
  let lookupKeys := removedLookupKeys casing host port
  let result := rewriteWithoutHostKey format casing file lookupKeys keyType expectedFingerprint
  if !result.1 then
    (.error (.hostKeyCheckFailed (chars "No saved host key matched " ++
      makeKey casing host port ++ chars " (type: " ++ keyType ++ chars ", fingerprint: " ++
      expectedFingerprint ++ chars ")")), result.2)
  else (.ok (load casing result.2), result.2)

end Checks

end OxideTerm.Ssh
