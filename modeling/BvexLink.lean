import BvexLink.Wire.JsonInfix
import BvexLink.Wire.Base64
import BvexLink.Wire.Framing
import BvexLink.Wire.JsonFraming
import BvexLink.Trace.Run
import BvexLink.Codec.Telecommand
import BvexLink.Codec.Validation
import BvexLink.Onboard.Server
import BvexLink.Onboard.Uplink
import BvexLink.Onboard.Commands
import BvexLink.Codec.Telemetry
import BvexLink.Codec.Coercion
import BvexLink.Codec.Construction
import BvexLink.Ground.Downlink
import BvexLink.CommandServer.Thread
import BvexLink.CommandServer.Table
import BvexLink.CommandServer.Pass
import BvexLink.CommandServer.Pipe
import BvexLink.Ground.SyncMetricIds
import BvexLink.Ground.Subscriptions
import BvexLink.Lists.Update
import BvexLink.Lists.Split
import BvexLink.Ground.Overlap
import BvexLink.Ground.Additions
import BvexLink.Ground.Bandwidth
import BvexLink.Onboard.DownlinkLoop
import BvexLink.Wire.Utf16
import BvexLink.Wire.JsonDumps
import BvexLink.Wire.Proto3
import BvexLink.FetchClient.SamplePb
import BvexLink.FetchClient.SendSample
import BvexLink.Ground.Realtime
import BvexLink.Ground.Endpoint
import BvexLink.Tasks.Group
import BvexLink.Ground.Ingest
import BvexLink.Openmct.RealtimeTelemetry
import BvexLink.RedisClient.Sample
import BvexLink.RedisClient.MetricIds
import BvexLink.RedisClient.ReadBack
import BvexLink.RedisClient.WaitForSample
import BvexLink.Ground.Discovery
import BvexLink.Ground.KeepsUp
import BvexLink.Trace.Progress
import BvexLink.CommandServer.Shutdown
import BvexLink.CommandServer.Delivery
import BvexLink.CommandServer.Clear
import BvexLink.CommandServer.Deadlock
import BvexLink.Wire.Path
import BvexLink.Ground.StoreFileSample
import BvexLink.Openmct.Sample
import BvexLink.Ground.AddSample
import BvexLink.Ground.Aexit
import BvexLink.Codec.Equality
import BvexLink.Openmct.History
import BvexLink.Codec.CEncoder
import BvexLink.Shared.EncodeTelemetry
import BvexLink.Shared.PayloadSize
import BvexLink.Lists.Slice
import BvexLink.Shared.Sample
import BvexLink.Wire.Decimal
import BvexLink.Shared.SampleId
import BvexLink.Trace.Descriptors
import BvexLink.Onboard.Malformed
import BvexLink.Onboard.Teardown
import BvexLink.Trace.EndOfStream
import BvexLink.Onboard.PeerClose
import BvexLink.Ground.Subscribe
import BvexLink.Lists.Changes
import BvexLink.Onboard.Polls
import BvexLink.Ground.FairShare
import BvexLink.Ground.Reallocation
import BvexLink.Ground.Repair
import BvexLink.Codec.FloatBits
import BvexLink.FetchClient.RequestSample
import BvexLink.Ground.FileStore
import BvexLink.FetchClient.Socket
import BvexLink.Wire.JsonText
import BvexLink.Shared.Transport
import BvexLink.Shared.Commands
import BvexLink.Shared.DatagramSize
import BvexLink.Trace.Ownership
import BvexLink.CommandServer.Create
import BvexLink.CommandServer.Lifetime
import BvexLink.CommandServer.Broadcast
import BvexLink.Onboard.Delivered
import BvexLink.Wire.Alignment
import BvexLink.Ground.Delivered
import BvexLink.EndToEnd.Link
import BvexLink.EndToEnd.Relay
import BvexLink.EndToEnd.Realtime
import BvexLink.Ground.RunServer
import BvexLink.Ground.Found
import BvexLink.EndToEnd.Budget
