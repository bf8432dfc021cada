import OxideTerm.Lib.Machine
import OxideTerm.Lib.Bytes
import OxideTerm.Lib.Loops
import OxideTerm.Lib.Protobuf
import OxideTerm.Lib.Replication
import OxideTerm.Lib.SlidingWindow
import OxideTerm.Lib.FiniteMap
import OxideTerm.Lib.Mailbox
import OxideTerm.Lib.Register
import OxideTerm.Fernomade.Crypto
import OxideTerm.Fernomade.Fragment
import OxideTerm.Fernomade.Message
import OxideTerm.Fernomade.State
import OxideTerm.Fernomade.History
import OxideTerm.Fernomade.Ground
import OxideTerm.Fernomade.Session
import OxideTerm.Fernomade.WireFormat
import OxideTerm.Fernomade.Reference
import OxideTerm.Fernomade.Client
import OxideTerm.Fernomade.Sealing
import OxideTerm.Fernomade.Remote
import OxideTerm.Fernomade.Accumulator
import OxideTerm.Fernomade.Properties.Sender
import OxideTerm.Fernomade.Properties.FragmentIdentity
import OxideTerm.Fernomade.Properties.Assemblies
import OxideTerm.Fernomade.Properties.Reassembly
import OxideTerm.Fernomade.Properties.Rejection
import OxideTerm.Fernomade.Properties.Compaction
import OxideTerm.Fernomade.Properties.Delivery
import OxideTerm.Fernomade.Properties.RemoteOutput
import OxideTerm.Fernomade.Properties.Application
import OxideTerm.Fernomade.Properties.SessionControls
import OxideTerm.Fernomade.Properties.Timer
import OxideTerm.Fernomade.Properties.PeerShutdown
import OxideTerm.CloudSync.Model
import OxideTerm.CloudSync.Replica
import OxideTerm.CloudSync.Validity
import OxideTerm.CloudSync.Writing
import OxideTerm.CloudSync.Capture
import OxideTerm.CloudSync.Network
import OxideTerm.CloudSync.Reference
import OxideTerm.CloudSync.Properties.Convergence
import OxideTerm.CloudSync.Properties.Presence
import OxideTerm.CloudSync.Devices
import OxideTerm.CloudSync.Properties.LocalEdits
import OxideTerm.CloudSync.Properties.Publications
import OxideTerm.CloudSync.AccessRules
import OxideTerm.CloudSync.Finishing
import OxideTerm.CloudSync.Restoring
import OxideTerm.CloudSync.Properties.Recovery
import OxideTerm.CloudSync.Properties.Discovery
import OxideTerm.CloudSync.Properties.RoundTrip
import OxideTerm.CloudSync.Properties.ThreeWay
import OxideTerm.Ssh.Properties.Mailbox
import OxideTerm.Ssh.Properties.ReconnectJobs
import OxideTerm.Ssh.Properties.KnownHosts
import OxideTerm.Ssh.Properties.PoolKey
import OxideTerm.Ssh.Properties.Persistence
import OxideTerm.Tmux.Properties.Sections
import OxideTerm.Tmux.Properties.PaneOutput
import OxideTerm.Tmux.Properties.Layouts
import OxideTerm.Modem.Properties.Corruption
import OxideTerm.Modem.Properties.FrameRoundTrip
import OxideTerm.Modem.Properties.Interoperation
import OxideTerm.Modem.Properties.Receiver
import OxideTerm.Modem.Properties.WriteQueue
import OxideTerm.Modem.Properties.YmodemBatch
import OxideTerm.Predict.Properties.Anchor
import OxideTerm.Predict.Properties.Rollback
import OxideTerm.Sftp.Properties.Permits
import OxideTerm.Sftp.Properties.Shutdown
import OxideTerm.Sftp.Properties.TextDiff
import OxideTerm.Trzsz.Properties.Escape
import OxideTerm.Trzsz.Properties.Finish
import OxideTerm.Trzsz.Properties.Panics
import OxideTerm.Workspace.Properties.PaneTree
import OxideTerm.Connections.Properties.Container
import OxideTerm.Connections.Properties.OxideFile
import OxideTerm.Connections.Properties.ManagedKeys
import OxideTerm.Forwarding.Properties.SavedStore
import OxideTerm.Forwarding.Properties.Snapshots
import OxideTerm.SshConfig.Properties.Lines
import OxideTerm.Connections.Properties.HostGlobs
import OxideTerm.Editor.Properties.Navigation
import OxideTerm.Editor.Properties.Offsets
import OxideTerm.Editor.Properties.Streaming
import OxideTerm.Editor.Properties.PieceTable
import OxideTerm.Editor.Properties.Revisions
import OxideTerm.Editor.Properties.ReplaceAll
import OxideTerm.X11.Properties.Setups
import OxideTerm.Sftp.Properties.ScpUploads
import OxideTerm.Ssh.Properties.Restart
import OxideTerm.Editor.Properties.LineIndex
import OxideTerm.Lib.Traversal
