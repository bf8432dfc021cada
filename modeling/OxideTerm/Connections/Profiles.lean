import OxideTerm.Connections.Auth

/-!
# Connections and profiles

What the store keeps of saved connections, Mosh profiles and standalone SFTP profiles. Times are
numbers. Fields that nothing here reads (notes, icons, colours, terminal options) are left out.
-/

namespace OxideTerm.Connections

structure SavedConnection where
  id : List Char
  name : List Char
  group : Option (List Char)
  host : List Char
  port : UInt16
  username : List Char
  auth : SavedAuth
  proxyChain : List SavedProxyHop
  upstreamProxy : SavedUpstreamProxyPolicy
  proxyCommand : Option SavedProxyCommand
deriving DecidableEq

inductive MoshUdpPortSelection where
  | automatic
  | fixed (port : UInt16)
  | range (first last : UInt16)
deriving DecidableEq

structure MoshProfile where
  id : List Char
  name : List Char
  group : Option (List Char)
  host : List Char
  sshPort : UInt16
  username : List Char
  auth : SavedAuth
  proxyChain : List SavedProxyHop
  serverExecutable : List Char
  udpPort : MoshUdpPortSelection
  locale : Option (List Char)
  sshAlgorithms : SshAlgorithmPreferences
  updatedAt : Int
deriving DecidableEq

inductive StandaloneSftpTransferMode where
  | localRemote
  | remoteRemote
deriving DecidableEq

structure StandaloneSftpEndpoint where
  host : List Char
  port : UInt16
  username : List Char
  auth : SavedAuth
  connectTimeoutSeconds : UInt64
  proxyChain : List SavedProxyHop
  upstreamProxy : SavedUpstreamProxyPolicy
  proxyCommand : Option SavedProxyCommand
  sshAlgorithms : SshAlgorithmPreferences
deriving DecidableEq

structure StandaloneSftpProfile where
  id : List Char
  name : List Char
  group : Option (List Char)
  host : List Char
  port : UInt16
  username : List Char
  auth : SavedAuth
  connectTimeoutSeconds : UInt64
  proxyChain : List SavedProxyHop
  upstreamProxy : SavedUpstreamProxyPolicy
  proxyCommand : Option SavedProxyCommand
  sshAlgorithms : SshAlgorithmPreferences
  transferMode : StandaloneSftpTransferMode
  secondaryEndpoint : Option StandaloneSftpEndpoint
  updatedAt : Int
deriving DecidableEq

end OxideTerm.Connections
