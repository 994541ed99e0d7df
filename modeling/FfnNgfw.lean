import FfnNgfw.Lib.Memory
import FfnNgfw.Lib.Bytes
import FfnNgfw.Lib.FirstMatch
import FfnNgfw.Lib.MaskedSet
import FfnNgfw.Lib.OpenTable
import FfnNgfw.Lib.Arena
import FfnNgfw.Lib.Fifo
import FfnNgfw.Lib.Fallible
import FfnNgfw.Lib.Effects
import FfnNgfw.Portable.Abi
import FfnNgfw.Portable.Tables
import FfnNgfw.Portable.Flow
import FfnNgfw.Portable.Process
import FfnNgfw.Portable.Control
import FfnNgfw.Portable.FlowCache
import FfnNgfw.Portable.CacheFidelity
import FfnNgfw.Portable.DefaultDecision
import FfnNgfw.Portable.Ring
import FfnNgfw.Portable.Outcomes
import FfnNgfw.Portable.Accounting
import FfnNgfw.Dpmem.Bank
import FfnNgfw.Dpmem.Wire
import FfnNgfw.Dpmem.Staging
import FfnNgfw.Dpmem.Rejected
import FfnNgfw.Dpmem.PolicyPush
import FfnNgfw.Dpmem.Rows
import FfnNgfw.Dpmem.ThreatIntel
import FfnNgfw.Dpmem.Exhaustion
import FfnNgfw.Fastpath.Classify
import FfnNgfw.Fastpath.Agreement
import FfnNgfw.Fastpath.Refresh
import FfnNgfw.Fastpath.DoubleBuffer
import FfnNgfw.Ha.Core
import FfnNgfw.Ha.Roles
import FfnNgfw.Policy.Objects
import FfnNgfw.Policy.Plan
import FfnNgfw.Policy.Nft
import FfnNgfw.Policy.Gather
import FfnNgfw.Policy.Meaning
import FfnNgfw.Policy.Naming
import FfnNgfw.Policy.PacketTest
import FfnNgfw.Policy.Applications
import FfnNgfw.Runtime.Apply
import FfnNgfw.Runtime.Assessment
import FfnNgfw.Runtime.Atomic
import FfnNgfw.Runtime.Events
import FfnNgfw.Runtime.Tokens
import FfnNgfw.Runtime.Supervisor
import FfnNgfw.Runtime.Lease
import FfnNgfw.Runtime.Watchdog
import FfnNgfw.Dhcp.Exclusive
import FfnNgfw.Dhcp.Filter
import FfnNgfw.Dhcp.Frames
import FfnNgfw.Dhcp.Honoured
import FfnNgfw.Policy.Candidate
import FfnNgfw.Runtime.ExactlyOnce
import FfnNgfw.Runtime.Reconcile
import FfnNgfw.Translate.Meaning
import FfnNgfw.Lib.Crash
import FfnNgfw.Patch.AllOrNothing
import FfnNgfw.Patch.Consistent
import FfnNgfw.Portable.Octeon
import FfnNgfw.Portable.Ownership
import FfnNgfw.Portable.AfPacket
import FfnNgfw.Threatdb.Reach
import FfnNgfw.Lib.Threads
import FfnNgfw.Protect.Addresses
import FfnNgfw.Protect.Revisions
import FfnNgfw.Config.Paths
import FfnNgfw.Config.Promotion
import FfnNgfw.Config.Diff
import FfnNgfw.Config.Document
import FfnNgfw.Config.Saving
import FfnNgfw.Config.Edits
import FfnNgfw.Config.SavedEdits
import FfnNgfw.Ctlease.Accounting
import FfnNgfw.Lib.Reader
import FfnNgfw.Mpdp.RoundTrip
import FfnNgfw.Plane.AtMostOnce
import FfnNgfw.Plane.Convergence
import FfnNgfw.Plane.Reports
import FfnNgfw.Portable.Handshake
import FfnNgfw.Protect.Authenticator
import FfnNgfw.Protect.Guessing
import FfnNgfw.Protect.Front
import FfnNgfw.Protect.Revocation
import FfnNgfw.Fpga.Append
import FfnNgfw.Fpga.Rules
import FfnNgfw.Ha.Liveness
import FfnNgfw.Lib.Mirror
import FfnNgfw.Portable.Conversation
import FfnNgfw.Portable.FlowMap
import FfnNgfw.Route.Agent
import FfnNgfw.Route.Sync
import FfnNgfw.Antivirus.Admission
import FfnNgfw.Antivirus.Prefilter
import FfnNgfw.Detect.Windows
import FfnNgfw.Detect.Flow
import FfnNgfw.Dpmem.Cidr
import FfnNgfw.Dpmem.Directory
import FfnNgfw.Dpmem.Marker
import FfnNgfw.Dpmem.Whole
import FfnNgfw.Fastpath.Headers
import FfnNgfw.Fastpath.Reset
import FfnNgfw.Fastpath.Views
import FfnNgfw.Fastpath.Forwarder
import FfnNgfw.Portable.BankReads
import FfnNgfw.Compile.Alignment
import FfnNgfw.Compile.AvHash
import FfnNgfw.Compile.Hspat
import FfnNgfw.Compile.Yara
import FfnNgfw.Route.Iproute
import FfnNgfw.Route.Tracking
import FfnNgfw.Route.Offload
import FfnNgfw.Emulator.Matching
import FfnNgfw.Detect.AhoCorasick
import FfnNgfw.Emulator.Hits
import FfnNgfw.Antivirus.Window
import FfnNgfw.Lib.Worklist
import FfnNgfw.Ipv6.Embedding
import FfnNgfw.Ipv6.Nptv6
import FfnNgfw.Ipv6.Kept
import FfnNgfw.Lib.Lexicographic
import FfnNgfw.Signing.Canonical
import FfnNgfw.Signing.Keyring
import FfnNgfw.Signing.License
import FfnNgfw.Cpu.Isolation
import FfnNgfw.Protect.Tunnel
