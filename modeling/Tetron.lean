import Tetron.Bytes
import Tetron.Lib.BoundedWalk
import Tetron.Lib.ByteCodec
import Tetron.Lib.FlooredSum
import Tetron.Lib.Frames
import Tetron.Lib.LineReader
import Tetron.Lib.OnesComplement
import Tetron.Lib.Peak
import Tetron.Lib.Pieces
import Tetron.Lib.Radix
import Tetron.Lib.Run
import Tetron.Lib.SharedCell
import Tetron.Lib.Table
import Tetron.Lib.TumblingWindow
import Tetron.Packet.FragmentV4
import Tetron.Packet.FragmentV6
import Tetron.Packet.Parse
import Tetron.Packet.ReassemblyV4
import Tetron.Packet.ReassemblyV6
import Tetron.Forward.PeerReader
import Tetron.Forward.ReassemblyLog
import Tetron.Addressing
import Tetron.Membership.Roster
import Tetron.Membership.Assign
import Tetron.Membership.Invites
import Tetron.Membership.GroupBlob
import Tetron.Dht
import Tetron.Hostname
import Tetron.Hostname.Sanitize
import Tetron.Daemon.NetworkState
import Tetron.Daemon.Adopt
import Tetron.Daemon.Start
import Tetron.Daemon.MemberNode
import Tetron.Daemon.Published
import Tetron.Daemon.Redemption
import Tetron.Daemon.BurnedInvites
import Tetron.Daemon.PeerTable
import Tetron.Daemon.Disconnects
import Tetron.Daemon.Converge
import Tetron.Daemon.Sever
import Tetron.Daemon.Generations
import Tetron.Daemon.Publish
import Tetron.Daemon.Nuke
import Tetron.Daemon.Consensus
import Tetron.Daemon.Admission
import Tetron.Daemon.Serving
import Tetron.Daemon.Restart
import Tetron.Daemon.Canonical
import Tetron.Daemon.SavedNetwork
import Tetron.Control
import Tetron.Addressing.HostRange
import Tetron.Addressing.Subnets
import Tetron.Addressing.Cidr
import Tetron.Membership.RosterMap
import Tetron.Membership.Tiebreak
import Tetron.Daemon.AdmissionSearch
import Tetron.Daemon.PeerNames
import Tetron.Daemon.RecordSize
import Tetron.Daemon.ApplyPaths
import Tetron.Daemon.Reconnect
import Tetron.Daemon.Redials
import Tetron.Daemon.MemberGenerations
import Tetron.Daemon.Rosters
import Tetron.Daemon.Coordinators
import Tetron.Daemon.Records
import Tetron.Daemon.Tombstone
import Tetron.Daemon.Grant
import Tetron.Daemon.Kick
import Tetron.Daemon.PathSelect
import Tetron.Daemon.Backoff
import Tetron.Config.Storage
import Tetron.Config.Cache
import Tetron.Config.Transparent
import Tetron.Config.WriteFile
import Tetron.InviteCode
import Tetron.Ratelimit
import Tetron.Packet.Checksum
import Tetron.Forward.Buffered
import Tetron.Forward.RunMesh
import Tetron.Daemon.LogDecision
import Tetron.Daemon.OldRecords
import Tetron.Config.Overrides
import Tetron.Config.Settings
import Tetron.Config.ReadBack
import Tetron.Veilid.Client
import Tetron.Veilid.Calls
import Tetron.Veilid.Handles
import Tetron.Veilid.RoutingContext
import Tetron.Veilid.Lines
import Tetron.Veilid.Correlation
import Tetron.Daemon.StatusCache
import Tetron.Ipc.Authority
import Tetron.Ipc.Slots
import Tetron.Daemon.DataPlane
import Tetron.Daemon.Standby
import Tetron.Daemon.JoinWalk
import Tetron.Daemon.GroupPoller
import Tetron.Forward.DropMonitor
import Tetron.PeerCache
import Tetron.Forward.EndToEnd
import Tetron.Ipc.Session
import Tetron.Daemon.AcceptRouter
import Tetron.Daemon.JoinAgreement
import Tetron.Selfcapture
import Tetron.Identity
import Tetron.Veilid.Identity
