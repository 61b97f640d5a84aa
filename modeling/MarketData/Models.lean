import MarketData.Lib.PyFloat
import MarketData.Lib.PyStr

/-!
# MarketData.Models

The records of `src/models.py`: the `MarketEvent` that travels from the feed through
Kafka, the engine and Redis Pub/Sub to the gateways, and the `SnapshotData` that Redis
holds per symbol.

Python integers are unbounded, so sizes, timestamps and sequence numbers are `Int`. Both records are
polymorphic in the symbol: the parsers copy whatever JSON value stands under `"symbol"`, the rest of
the system works with strings (`MarketEvent`), and Redis stores keys that can be encoded.
-/

namespace MarketData

/-- `EventType`. -/
inductive EventType
  | quote
  | trade
  | snapshot
  deriving Repr, DecidableEq

/-- `MarketEvent`, over the type of its symbol. -/
structure MarketEventOf (σ : Type) where
  symbol : σ
  bid : PyFloat
  ask : PyFloat
  bidSize : Int
  askSize : Int
  /-- Upstream timestamp (ms). -/
  eventTs : Int
  /-- Ingestion timestamp (ms). -/
  serverTs : Int
  /-- Monotonic sequence number within the symbol. -/
  seq : Int
  type : EventType := .quote
  lastPrice : PyFloat := .finite 0
  lastSize : Int := 0
  deriving DecidableEq

/-- A market event with a text symbol. -/
abbrev MarketEvent := MarketEventOf PyStr

/-- A quote of which only symbol and sequence number matter. -/
def MarketEventOf.quote (symbol : PyStr) (seq : Int) : MarketEvent where
  symbol := symbol
  bid := .finite 100
  ask := .finite 101
  bidSize := 1
  askSize := 1
  eventTs := seq
  serverTs := seq
  seq := seq

/-- `SnapshotData`: what is stored in Redis per symbol. -/
structure SnapshotDataOf (σ : Type) where
  symbol : σ
  bid : PyFloat
  ask : PyFloat
  bidSize : Int
  askSize : Int
  seq : Int
  /-- Timestamp of the last update (ms). -/
  ts : Int
  deriving DecidableEq

/-- The snapshot of a text symbol. -/
abbrev SnapshotData := SnapshotDataOf PyStr

/-- `SnapshotData.from_event`. -/
def SnapshotDataOf.fromEvent {σ : Type} (event : MarketEventOf σ) : SnapshotDataOf σ where
  symbol := event.symbol
  bid := event.bid
  ask := event.ask
  bidSize := event.bidSize
  askSize := event.askSize
  seq := event.seq
  ts := event.serverTs

end MarketData
