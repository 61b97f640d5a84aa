import MarketData.Lib.Decimal
import MarketData.Lib.Json
import MarketData.Models

/-!
# MarketData.Codec

**Events on the wire.** One encoder, `json.dumps(event.to_dict())`, is paired with three
hand-written decoders: `KafkaConsumerBridge._parse_event`, `_parse_pubsub_event` and
`TickWriter._parse_event`. The encoder writes all eleven fields. The decoders read nine of them
and leave `last_price` and `last_size` at their defaults.

So decoding gives back the event exactly when these two fields hold their defaults
(`codec_round_trip_iff`), and a trade loses its price and size on its first hop.
-/

namespace MarketData

/-- `EventType.value`. -/
def EventType.value : EventType → String
  | quote => "quote"
  | trade => "trade"
  | snapshot => "snapshot"

/-- `EventType(value)`; `none` is an exception. -/
def EventType.ofValue : Json → Option EventType
  | .str "quote" => some quote
  | .str "trade" => some trade
  | .str "snapshot" => some snapshot
  | _ => none

@[simp] theorem EventType.ofValue_value (type : EventType) :
    EventType.ofValue (.str type.value) = some type := by
  cases type <;> rfl

namespace MarketEventOf

/-- The event as a decoder sees it: its symbol is a JSON value. -/
def toWire (e : MarketEvent) : MarketEventOf Json where
  symbol := .str e.symbol
  bid := e.bid
  ask := e.ask
  bidSize := e.bidSize
  askSize := e.askSize
  eventTs := e.eventTs
  serverTs := e.serverTs
  seq := e.seq
  type := e.type
  lastPrice := e.lastPrice
  lastSize := e.lastSize

/-- `to_dict`. -/
def toDict (e : MarketEventOf Json) : List (PyStr × Json) :=
  [("symbol", e.symbol), ("bid", .float e.bid), ("ask", .float e.ask),
    ("bid_size", .int e.bidSize), ("ask_size", .int e.askSize), ("event_ts", .int e.eventTs),
    ("server_ts", .int e.serverTs), ("seq", .int e.seq), ("type", .str e.type.value),
    ("last_price", .float e.lastPrice), ("last_size", .int e.lastSize)]

/-- The integers of an event. -/
def ints {σ : Type} (e : MarketEventOf σ) : List Int :=
  [e.bidSize, e.askSize, e.eventTs, e.serverTs, e.seq, e.lastSize]

/-- What JSON carries unchanged: a text symbol, finite prices, and integers that are written out. -/
structure Exact (writes : Int → Prop) (e : MarketEventOf Json) : Prop where
  symbol : e.symbol.Exact writes
  bid : e.bid.isFinite = true
  ask : e.ask.isFinite = true
  lastPrice : e.lastPrice.isFinite = true
  ints : ∀ n ∈ e.ints, writes n

theorem Exact.toDict {writes : Int → Prop} {e : MarketEventOf Json} (h : e.Exact writes) :
    ∀ p ∈ e.toDict, p.2.Exact writes := by
  have hints := h.ints
  simp only [MarketEventOf.ints, List.forall_mem_cons] at hints
  obtain ⟨hbidSize, haskSize, heventTs, hserverTs, hseq, hlastSize, -⟩ := hints
  intro p hp
  simp only [MarketEventOf.toDict, List.mem_cons, List.not_mem_nil, or_false] at hp
  rcases hp with rfl | rfl | rfl | rfl | rfl | rfl | rfl | rfl | rfl | rfl | rfl
  · exact h.symbol
  · exact h.bid
  · exact h.ask
  · exact hbidSize
  · exact haskSize
  · exact heventTs
  · exact hserverTs
  · exact hseq
  · trivial
  · exact h.lastPrice
  · exact hlastSize

theorem Exact.setServerTs {writes : Int → Prop} {e : MarketEventOf Json} (h : e.Exact writes)
    {n : Int} (hn : writes n) : Exact writes { e with serverTs := n } := by
  refine ⟨h.symbol, h.bid, h.ask, h.lastPrice, ?_⟩
  have hints := h.ints
  simp only [MarketEventOf.ints, List.forall_mem_cons] at hints ⊢
  obtain ⟨hbidSize, haskSize, heventTs, -, hseq, hlastSize, -⟩ := hints
  exact ⟨hbidSize, haskSize, heventTs, hn, hseq, hlastSize, by simp⟩

/-- Without its last trade. -/
def dropLast {σ : Type} (e : MarketEventOf σ) : MarketEventOf σ :=
  { e with lastPrice := .finite 0, lastSize := 0 }

end MarketEventOf

variable {ρ : Type} (t : JsonText ρ)

/-- `json.dumps(event.to_dict())`. -/
def encode (e : MarketEventOf Json) : ρ := t.dumps (.obj e.toDict)

/-- The body the three decoders share, up to where `server_ts` comes from. Every exception is
caught and gives `None`. -/
def parseEventWith (serverTs : List (PyStr × Json) → Option Int) (raw : ρ) :
    Option (MarketEventOf Json) :=
  match t.loads raw with
  | some (.obj d) => do
    let symbol ← Json.field? "symbol" d
    let bid ← t.toFloat (← Json.field? "bid" d)
    let ask ← t.toFloat (← Json.field? "ask" d)
    let bidSize ← t.toInt (← Json.field? "bid_size" d)
    let askSize ← t.toInt (← Json.field? "ask_size" d)
    let eventTs ← t.toInt (← Json.field? "event_ts" d)
    let serverTs ← serverTs d
    let seq ← t.toInt (← Json.field? "seq" d)
    let type ← EventType.ofValue ((Json.field? "type" d).getD (.str "quote"))
    return { symbol, bid, ask, bidSize, askSize, eventTs, serverTs, seq, type }
  | _ => none

/-- `int(raw["server_ts"])`. -/
def serverTsField (d : List (PyStr × Json)) : Option Int := do
  t.toInt (← Json.field? "server_ts" d)

/-- `_parse_pubsub_event`; bytes from Redis are text here. -/
def Gateway.parsePubsubEvent : ρ → Option (MarketEventOf Json) :=
  parseEventWith t (serverTsField t)

/-- `TickWriter._parse_event`. -/
def Storage.TickWriter.parseEvent : ρ → Option (MarketEventOf Json) :=
  parseEventWith t (serverTsField t)

/-- `KafkaConsumerBridge._parse_event`, at the time `nowMs`. -/
def Engine.KafkaConsumerBridge.parseEvent (nowMs : Int) : ρ → Option (MarketEventOf Json) :=
  parseEventWith t fun _ => some nowMs

/-- The text a client is sent for a record: parsed and published by the engine, parsed and
written by the gateway. -/
def travel (nowMs : Int) (raw : ρ) : Option ρ := do
  let event ← Engine.KafkaConsumerBridge.parseEvent t nowMs raw
  let event ← Gateway.parsePubsubEvent t (encode t event)
  return encode t event

/-! ### What the decoders give back -/

variable {t} {writes : Int → Prop}

theorem loads_encode (ht : t.Exact writes) {e : MarketEventOf Json} (he : e.Exact writes) :
    t.loads (encode t e) = some (.obj e.toDict) :=
  ht e.toDict (by simp [MarketEventOf.toDict]) he.toDict

/-- **A decoder gives back the event without its last trade.** -/
theorem parseEventWith_encode (ht : t.Exact writes) {e : MarketEventOf Json} (he : e.Exact writes)
    (serverTs : List (PyStr × Json) → Option Int) :
    parseEventWith t serverTs (encode t e) =
      (serverTs e.toDict).map fun n => { e.dropLast with serverTs := n } := by
  unfold parseEventWith
  rw [loads_encode ht he]
  -- each field that is looked up is there, with a value its conversion leaves alone
  show (serverTs e.toDict).bind (fun n => (EventType.ofValue (.str e.type.value)).bind fun type =>
    some { e.dropLast with serverTs := n, type := type }) = _
  rw [EventType.ofValue_value]
  cases serverTs e.toDict <;> rfl

/-- The two decoders that keep `server_ts`. -/
theorem parseEventWith_serverTsField (ht : t.Exact writes) {e : MarketEventOf Json}
    (he : e.Exact writes) : parseEventWith t (serverTsField t) (encode t e) = some e.dropLast :=
  parseEventWith_encode ht he (serverTsField t)

/-- **A record that travels loses its last trade**, and gets the engine's `server_ts`. -/
theorem travel_encode (ht : t.Exact writes) {e : MarketEventOf Json} (he : e.Exact writes)
    {nowMs : Int} (he' : MarketEventOf.Exact writes { e.dropLast with serverTs := nowMs }) :
    travel t nowMs (encode t e) = some (encode t { e.dropLast with serverTs := nowMs }) := by
  have hengine : Engine.KafkaConsumerBridge.parseEvent t nowMs (encode t e) =
      some { e.dropLast with serverTs := nowMs } := parseEventWith_encode ht he fun _ => some nowMs
  have hgateway : Gateway.parsePubsubEvent t (encode t { e.dropLast with serverTs := nowMs }) =
      some { e.dropLast with serverTs := nowMs } := parseEventWith_serverTsField ht he'
  unfold travel
  rw [hengine]
  show (Gateway.parsePubsubEvent t (encode t { e.dropLast with serverTs := nowMs })).bind _ = _
  rw [hgateway]
  rfl

/-- The event has no last trade to lose. -/
theorem MarketEventOf.dropLast_eq_iff {σ : Type} {e : MarketEventOf σ} :
    e.dropLast = e ↔ e.lastPrice = .finite 0 ∧ e.lastSize = 0 := by
  constructor
  · intro h
    exact ⟨(congrArg lastPrice h).symm, (congrArg lastSize h).symm⟩
  · intro h
    obtain ⟨hprice, hsize⟩ := h
    rw [dropLast, ← hprice, ← hsize]

/-! ### The round trip -/

/-- Every decoder gives back what was encoded, and so does a client's, up to `server_ts`. -/
structure RoundTrips (t : JsonText ρ) (writes : Int → Prop) (e : MarketEventOf Json) : Prop where
  pubsub : Gateway.parsePubsubEvent t (encode t e) = some e
  tickWriter : Storage.TickWriter.parseEvent t (encode t e) = some e
  bridge : ∀ nowMs, Engine.KafkaConsumerBridge.parseEvent t nowMs (encode t e) =
    some { e with serverTs := nowMs }
  client : ∀ nowMs, writes nowMs → (travel t nowMs (encode t e)).bind t.loads =
    some (.obj { e with serverTs := nowMs }.toDict)

/-- **Events without a last trade survive the wire, and no others do**, where `json` is exact. -/
theorem codec_round_trip_iff {t : JsonText ρ} {writes : Int → Prop} (ht : t.Exact writes)
    (e : MarketEvent) (hbid : e.bid.isFinite = true) (hask : e.ask.isFinite = true)
    (hlast : e.lastPrice.isFinite = true) (hints : ∀ n ∈ e.ints, writes n) :
    RoundTrips t writes e.toWire ↔ e.lastPrice = .finite 0 ∧ e.lastSize = 0 := by
  have he : e.toWire.Exact writes := ⟨trivial, hbid, hask, hlast, hints⟩
  have hwire : e.toWire.dropLast = e.toWire ↔ e.lastPrice = .finite 0 ∧ e.lastSize = 0 :=
    MarketEventOf.dropLast_eq_iff
  rw [← hwire]
  constructor
  · intro h
    have hpubsub := h.pubsub
    rw [Gateway.parsePubsubEvent, parseEventWith_serverTsField ht he] at hpubsub
    exact Option.some.inj hpubsub
  · intro hdrop
    have hserver : ∀ nowMs : Int,
        ({ e.toWire.dropLast with serverTs := nowMs } : MarketEventOf Json) =
          { e.toWire with serverTs := nowMs } := by
      intro nowMs
      rw [hdrop]
    refine ⟨?_, ?_, fun nowMs => ?_, fun nowMs hnow => ?_⟩
    · exact (parseEventWith_serverTsField ht he).trans (congrArg some hdrop)
    · exact (parseEventWith_serverTsField ht he).trans (congrArg some hdrop)
    · exact (parseEventWith_encode ht he fun _ => some nowMs).trans (congrArg some (hserver nowMs))
    · have he' : MarketEventOf.Exact writes { e.toWire with serverTs := nowMs } :=
        he.setServerTs hnow
      rw [travel_encode ht he ((hserver nowMs).symm ▸ he'), hserver nowMs]
      exact loads_encode ht he'

/-- JSON values as their own text. -/
def JsonText.values : JsonText Json where
  loads := some
  dumps := id
  floatOfStr _ := none
  intOfStr _ := none

theorem JsonText.exact_values (writes : Int → Prop) : JsonText.values.Exact writes :=
  fun _ _ _ => rfl

/-- A quote survives. -/
theorem codec_round_trip_quote :
    RoundTrips .values (fun n => (Decimal.text n).isSome) (MarketEventOf.quote "A" 5).toWire :=
  (codec_round_trip_iff (JsonText.exact_values _) (.quote "A" 5) rfl rfl rfl (by decide)).mpr
    ⟨rfl, rfl⟩

/-- A trade of ten at 101. -/
def tradeEvent : MarketEvent :=
  { MarketEventOf.quote "A" 5 with type := .trade, lastPrice := .finite 101, lastSize := 10 }

/-- **A trade loses its price and size.** -/
theorem trade_lost :
    Gateway.parsePubsubEvent .values (encode .values tradeEvent.toWire) =
      some { tradeEvent.toWire with lastPrice := .finite 0, lastSize := 0 } ∧
    Storage.TickWriter.parseEvent .values (encode .values tradeEvent.toWire) =
      some { tradeEvent.toWire with lastPrice := .finite 0, lastSize := 0 } ∧
    (travel .values 7 (encode .values tradeEvent.toWire)).bind JsonText.values.loads =
      some (.obj { tradeEvent.toWire with
        serverTs := 7, lastPrice := .finite 0, lastSize := 0 }.toDict) ∧
    ¬ RoundTrips .values (fun _ => True) tradeEvent.toWire := by
  refine ⟨rfl, rfl, rfl, fun h => ?_⟩
  have hsize : tradeEvent.toWire.dropLast.lastSize = tradeEvent.toWire.lastSize :=
    congrArg MarketEventOf.lastSize (Option.some.inj h.pubsub)
  exact absurd hsize (by decide)

end MarketData
