import MongodProxy.Lib.Bitflags
import MongodProxy.Lib.CStr
import MongodProxy.Lib.Channel
import MongodProxy.Lib.Checked
import MongodProxy.Lib.Crc
import MongodProxy.Lib.DebugFmt
import MongodProxy.Lib.FramedReader
import MongodProxy.Lib.FramedWriter
import MongodProxy.Lib.Framing
import MongodProxy.Lib.Items
import MongodProxy.Lib.LittleEndian
import MongodProxy.Lib.Outcome
import MongodProxy.Lib.Overlay
import MongodProxy.Lib.PrefixSum
import MongodProxy.Lib.Put
import MongodProxy.Lib.Refusal
import MongodProxy.Lib.RetryLoop
import MongodProxy.Lib.Secrecy
import MongodProxy.Lib.Service
import MongodProxy.Lib.StableSort
import MongodProxy.Lib.Str
import MongodProxy.Lib.Utf8
import MongodProxy.Bson
import MongodProxy.Header
import MongodProxy.Operation.OpMsg
import MongodProxy.Operation.OpMsgGrammar
import MongodProxy.Operation.OpQuery
import MongodProxy.Operation.OpReply
import MongodProxy.Message
import MongodProxy.Encoding
import MongodProxy.RoundTrip
import MongodProxy.Decoder
import MongodProxy.Transparency
import MongodProxy.Forwarding
import MongodProxy.LegacyTransparency
import MongodProxy.Sections
import MongodProxy.Checksum
import MongodProxy.TrailingBytes.OpMsg
import MongodProxy.TrailingBytes.Legacy
import MongodProxy.TrailingBytes.Frame
import MongodProxy.Safety
import MongodProxy.Redact
import MongodProxy.MessageDebug
import MongodProxy.Uri
import MongodProxy.Uri.HostPort
import MongodProxy.Uri.Accepted
import MongodProxy.Uri.RoundTrip
import MongodProxy.Uri.Canonical
import MongodProxy.Srv
import MongodProxy.Srv.Draw
import MongodProxy.Srv.Order
import MongodProxy.Srv.PossibleOrders
import MongodProxy.Srv.Resolve
import MongodProxy.Serve.ProxyClient
import MongodProxy.Serve.Connection
import MongodProxy.Serve.Sequential
import MongodProxy.Serve.Relay
import MongodProxy.Serve.SharedUpstream
import MongodProxy.Serve.SharedProgress
import MongodProxy.Serve.RewriteHello
import MongodProxy.Serve.Layers
import MongodProxy.Serve.Stack
import MongodProxy.Serve.Log
import MongodProxy.Serve.Wire
import MongodProxy.Serve.EndToEnd
import MongodProxy.Serve.Buffers
import MongodProxy.Serve.Probe
import MongodProxy.Serve.Failover
import MongodProxy.Serve.Route
import MongodProxy.Serve.FromUri
import MongodProxy.Serve.HelloProbe
import MongodProxy.Serve.RunUntil
import MongodProxy.Serve.Server
import MongodProxy.Serve.Explain.Model
import MongodProxy.Serve.Explain.Layer
import MongodProxy.Serve.Explain.Sink
import MongodProxy.Serve.Explain.Sideband
import MongodProxy.Serve.Explain.Delivery
import MongodProxy.Serve.Explain.Session
import MongodProxy.Serve.Explain.Upstream
import MongodProxy.Serve.Explain.Envelope
import MongodProxy.Serve.Explain.Names
import MongodProxy.Serve.Explain.IndexBounds
import MongodProxy.Serve.Explain.PlanTree
import MongodProxy.Serve.Explain.RequestIds
import MongodProxy.Serve.Explain.Preview
