import DtmaOne.Library.Run
import DtmaOne.Library.Collections
import DtmaOne.Paer.Candidate
import DtmaOne.Paer.Planner
import DtmaOne.Socks.Address
import DtmaOne.Socks.UdpRelay
import DtmaOne.Socks.UdpOwnership
import DtmaOne.Socks.ConnectRelay
import DtmaOne.Telegram.SmartConnect
import DtmaOne.Library.Text
import DtmaOne.Library.PaddedOrder
import DtmaOne.Paer.RvecPolicy
import DtmaOne.Storage.RvecStore
import DtmaOne.Storage.RvecAccounting
import DtmaOne.Library.Emit
import DtmaOne.Warp.Config
import DtmaOne.Warp.Controller
import DtmaOne.Warp.Failover
import DtmaOne.Warp.Health
import DtmaOne.Warp.StopEcho
import DtmaOne.Warp.Quiescence
import DtmaOne.Storage.RvecTable
import DtmaOne.Paer.PlanLaws
import DtmaOne.Library.RoundedArithmetic
import DtmaOne.Paer.Race
import DtmaOne.Socks.UdpTransducer
import DtmaOne.Library.InputStream
import DtmaOne.Socks.Handshake
import DtmaOne.Socks.AddressField
import DtmaOne.Library.Base64
import DtmaOne.Socks.DohCache
import DtmaOne.Warp.FailedStart
import DtmaOne.Storage.ConnectionTest
import DtmaOne.Dns.Answer
import DtmaOne.Dns.Truncation
import DtmaOne.Dns.Bootstrap
import DtmaOne.Library.Regex
import DtmaOne.Warp.ConfText
import DtmaOne.Vpn.Service
import DtmaOne.Vpn.Watcher
import DtmaOne.Telegram.PathCache
import DtmaOne.Https.ProbeRace
import DtmaOne.Https.Winner
import DtmaOne.Warp.Endpoint
import DtmaOne.Update.Notifier
import DtmaOne.Update.VersionOrder
import DtmaOne.Warp.BringUp
import DtmaOne.Warp.ImportedConf
import DtmaOne.Warp.Monitor
import DtmaOne.Library.Log
import DtmaOne.Tun.TcpBridge
import DtmaOne.Tun.Flows
import DtmaOne.Socks.DohBinding
import DtmaOne.Warp.ConfSections
import DtmaOne.Paer.Idempotence
import DtmaOne.Paer.FailureHistory
import DtmaOne.Paer.Recency
import DtmaOne.Paer.PassiveHypothesis
import DtmaOne.Socks.AcceptLoop
import DtmaOne.Socks.ConnectVerdict
import DtmaOne.Socks.ClientSocket
import DtmaOne.Library.JsonSearch
import DtmaOne.Update.ApkAsset
import DtmaOne.Library.OnesComplement
import DtmaOne.Tun.IpPacket
import DtmaOne.Tun.PacketBuilder
import DtmaOne.Tun.RoundTrip
import DtmaOne.Dns.Agreement
import DtmaOne.Dns.Query
import DtmaOne.Library.Numeral
import DtmaOne.Telegram.Ranges
import DtmaOne.Update.JsonString
import DtmaOne.Library.Loop
import DtmaOne.Library.RedBlack
import DtmaOne.Hev.RBTree
import DtmaOne.Hev.RBErase
import DtmaOne.Hev.RBSearch
import DtmaOne.Hev.HevList
import DtmaOne.Library.LruCache
import DtmaOne.Hev.MappedDns
import DtmaOne.Hev.MappedDnsHandle
import DtmaOne.Hev.MappedDnsRuns
import DtmaOne.Hev.Authenticator
import DtmaOne.Library.Circular
import DtmaOne.Hev.RingBuffer
import DtmaOne.Hev.TcpSplice
import DtmaOne.Library.Network
import DtmaOne.Hev.Socks5Addr
import DtmaOne.Hev.Socks5Client
import DtmaOne.Hev.Socks5Server
import DtmaOne.Hev.Socks5Handshake
import DtmaOne.Socks.TunnelClient
import DtmaOne.Hev.Socks5Udp
import DtmaOne.Socks.TunnelDatagrams
