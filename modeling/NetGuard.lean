import NetGuard.Engine.Ip
import NetGuard.Engine.Loop
import NetGuard.Tcp.Downlink
import NetGuard.Tcp.SendWindow
import NetGuard.Tcp.Accounting
import NetGuard.Tcp.Order
import NetGuard.Tcp.Uplink
import NetGuard.Tcp.Acknowledgement
import NetGuard.Firewall.Verdict
import NetGuard.Firewall.Blocking
import NetGuard.Firewall.Attribution
import NetGuard.Udp.Keys
import NetGuard.Service.Polarity
import NetGuard.Loop.Entry
import NetGuard.Loop.Packet
import NetGuard.Tcp.Loop
import NetGuard.Tcp.Reset
import NetGuard.Tcp.Handshake
import NetGuard.Tcp.States
import NetGuard.Firewall.Recheck
import NetGuard.Firewall.Headers
import NetGuard.Loop.Descriptors
import NetGuard.Loop.Creators
import NetGuard.Loop.Limit
import NetGuard.Icmp.Replies
import NetGuard.Firewall.Observe
import NetGuard.Bounds.Agree
import NetGuard.Service.Uids
import NetGuard.Service.Names
import NetGuard.Service.Upcalls
import NetGuard.Service.Globals
import NetGuard.Service.Lists
import NetGuard.Service.Lifecycle
import NetGuard.Service.LogQueue
import NetGuard.Statistics.Traffic
import NetGuard.Statistics.Sessions
import NetGuard.Analysis.Views
import NetGuard.Storage.Rules
import NetGuard.Storage.Rescan
import NetGuard.Firewall.Checksum
import NetGuard.Bounds.Options
import NetGuard.Library.Wire
import NetGuard.Tls.Reading
import NetGuard.Tls.Hello
import NetGuard.Tls.Bounds
import NetGuard.Engine.Dns
import NetGuard.Dns.Names
import NetGuard.Dns.Decoding
import NetGuard.Dns.Records
import NetGuard.Dns.Response
import NetGuard.Dns.Bounds
import NetGuard.Engine.Write
import NetGuard.Tun.Receiver
import NetGuard.Loop.Sizes
import NetGuard.Tun.Tcp
import NetGuard.Tun.Udp
import NetGuard.Tun.Icmp
import NetGuard.Tun.Options
import NetGuard.Loop.Timeout
import NetGuard.Loop.Errors
import NetGuard.Udp.Dhcp
import NetGuard.Tcp.Answers
import NetGuard.Tcp.Refusal
import NetGuard.Tcp.Acked
import NetGuard.Tcp.Comparison
import NetGuard.Service.Outage
import NetGuard.Service.Merge
import NetGuard.Service.Remembered
import NetGuard.Storage.HostsEditor
import NetGuard.Analysis.Charts
import NetGuard.Firewall.UidCache
import NetGuard.Storage.Import
import NetGuard.Library.Search
import NetGuard.Storage.Addresses
import NetGuard.Storage.Fragments
import NetGuard.Storage.HostsFile
import NetGuard.Storage.BlockedIps
import NetGuard.Tun.Chaining
import NetGuard.Tcp.Placing
import NetGuard.Firewall.UidSlots
import NetGuard.Library.Lexicographic
import NetGuard.Storage.Ordering
import NetGuard.Loop.Calls
import NetGuard.Loop.Usage
import NetGuard.Loop.Openers
import NetGuard.Loop.Relay
import NetGuard.Tcp.Delivery
import NetGuard.Tcp.Dialogue
import NetGuard.Tun.ReadBack
import NetGuard.Service.Loading
import NetGuard.Service.Enforcement
import NetGuard.Loop.Refused
import NetGuard.Service.Firewall
import NetGuard.Service.Tunnel
import NetGuard.Service.Serial
import NetGuard.Service.Wakeup
import NetGuard.Service.Blocklist
import NetGuard.Firewall.UidHistory
import NetGuard.Loop.Drain
import NetGuard.Storage.RuleEditor
