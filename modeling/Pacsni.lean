import Pacsni.Lib.Bytes
import Pacsni.Lib.Trace
import Pacsni.Lib.CBuffer
import Pacsni.Capture.Types
import Pacsni.Capture.Layers
import Pacsni.Capture.LayerSpec
import Pacsni.Capture.Dissectors
import Pacsni.Capture.Raw
import Pacsni.Capture.Stages
import Pacsni.Capture.Bounds
import Pacsni.Capture.Window
import Pacsni.Capture.Layout
import Pacsni.Lib.Cursor
import Pacsni.Lib.Text
import Pacsni.Service.Decode
import Pacsni.Service.Framing
import Pacsni.Capture.Transmit
import Pacsni.Capture.Wire4
import Pacsni.Capture.Ipv6
import Pacsni.Capture.Wire6
import Pacsni.Capture.Send
import Pacsni.Lib.Runs
import Pacsni.Queue.LockFree
import Pacsni.Queue.Invariant
import Pacsni.Queue.Sequential
import Pacsni.Queue.Shutdown
import Pacsni.Lib.Net
import Pacsni.Lib.Strings
import Pacsni.Dashboard.Lru
import Pacsni.Dashboard.Packet
import Pacsni.Dashboard.Ring
import Pacsni.Dashboard.Matching
import Pacsni.Dashboard.Server
import Pacsni.Dashboard.Geo
import Pacsni.Lib.Markup
import Pacsni.Capture.Copied
import Pacsni.Capture.Exposure
import Pacsni.Dashboard.Page
import Pacsni.Service.Labels
import Pacsni.Service.Secret
import Pacsni.Dashboard.Steps
import Pacsni.Dashboard.Mutex
import Pacsni.Dashboard.History
import Pacsni.Dashboard.Client
import Pacsni.Dashboard.Order
import Pacsni.Dashboard.Opening
import Pacsni.Dashboard.Status
import Pacsni.Dashboard.Attribution
import Pacsni.Dashboard.Enrichment
import Pacsni.Dashboard.Stream
import Pacsni.Dashboard.Negation
import Pacsni.Service.Sack
import Pacsni.Lib.Json
import Pacsni.Service.Lines
import Pacsni.Capture.Residue
import Pacsni.Capture.Leftover
import Pacsni.Service.CStrings
import Pacsni.Capture.Memory
import Pacsni.Capture.Dhcp
import Pacsni.Capture.Offsets
import Pacsni.Capture.TcpOptions
import Pacsni.Lib.Options
import Pacsni.Capture.TlsHello
import Pacsni.Capture.DnsName
import Pacsni.Capture.Lldp
import Pacsni.Capture.Arp
import Pacsni.Capture.Http
import Pacsni.Dashboard.RingLog
import Pacsni.Lib.Recency
import Pacsni.Dashboard.LruMap
import Pacsni.Dashboard.Reconnect
import Pacsni.Capture.ByteStats
import Pacsni.Dashboard.Flow
import Pacsni.Dashboard.InfoText
import Pacsni.Lib.Pcap
import Pacsni.Dashboard.Export
import Pacsni.Dashboard.WireLength
import Pacsni.Lib.Cidr
import Pacsni.Lib.Script
import Pacsni.Dashboard.Subnet
import Pacsni.Dashboard.Search
import Pacsni.Service.Hosts
import Pacsni.Dashboard.Hosts
import Pacsni.Lib.JsonRead
import Pacsni.Lib.Utf8
import Pacsni.Lib.Scanner
import Pacsni.Lib.JsonCut
import Pacsni.Lib.Broadcast
import Pacsni.Service.Relay
import Pacsni.Dashboard.Unmarshal
import Pacsni.Dashboard.Intake
import Pacsni.Dashboard.Pipeline
import Pacsni.Lib.Linear
import Pacsni.Queue.Linear
import Pacsni.Queue.Progress
import Pacsni.Dashboard.CacheFile
import Pacsni.Dashboard.Restart
import Pacsni.Lib.Offer
import Pacsni.Dashboard.Forward
import Pacsni.Dashboard.Clients
import Pacsni.Lib.Pool
import Pacsni.Capture.Process
import Pacsni.Dashboard.Report
import Pacsni.Dashboard.Link
import Pacsni.Dashboard.EndToEnd
import Pacsni.Lib.Measure
import Pacsni.Dashboard.Drain
