import MarketData.Codec
import MarketData.Engine.CommitLiveness
import MarketData.Engine.Lives
import MarketData.Engine.Processing
import MarketData.Engine.Redelivery
import MarketData.Engine.SnapshotStore
import MarketData.Gateway.Accounting
import MarketData.Gateway.Baseline
import MarketData.Gateway.Convergence
import MarketData.Gateway.Delivery
import MarketData.Gateway.FailedReads
import MarketData.Gateway.Frames
import MarketData.Gateway.Handoff
import MarketData.Gateway.History
import MarketData.Gateway.Isolation
import MarketData.Gateway.Latency
import MarketData.Gateway.Payloads
import MarketData.Gateway.Progress
import MarketData.Gateway.Prometheus
import MarketData.Gateway.PubSub
import MarketData.Gateway.Refusals
import MarketData.Gateway.Replay
import MarketData.Lib.Json
import MarketData.Provenance
import MarketData.Storage.Deadline
import MarketData.Storage.ExactlyOnce
import MarketData.Storage.Liveness
import MarketData.Storage.PollTimeout
import MarketData.Storage.Pool
import MarketData.Storage.Timestamps
