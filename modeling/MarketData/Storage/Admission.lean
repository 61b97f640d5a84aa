import MarketData.Codec

/-!
# MarketData.Storage.Admission

**Which records storage admits.** The live path and the storage path each have a parser of their
own for the same Kafka topic. Both convert the same eight fields (`Reads`); they differ in
`server_ts`, which the live path stamps itself and the storage path reads from the record, only to
leave it out of the row.

So a record is read alike by both, unless it has all eight fields and no readable `server_ts`
(`live_stored_iff`): such a record is distributed to clients, and skipped as malformed by storage.
-/

namespace MarketData

variable {ρ : Type}

/-- The fields that every parser reads from a record, with what the conversions make of them. -/
structure Reads (t : JsonText ρ) (d : List (PyStr × Json)) (e : MarketEventOf Json) : Prop where
  symbol : Json.field? "symbol" d = some e.symbol
  bid : (Json.field? "bid" d).bind t.toFloat = some e.bid
  ask : (Json.field? "ask" d).bind t.toFloat = some e.ask
  bidSize : (Json.field? "bid_size" d).bind t.toInt = some e.bidSize
  askSize : (Json.field? "ask_size" d).bind t.toInt = some e.askSize
  eventTs : (Json.field? "event_ts" d).bind t.toInt = some e.eventTs
  seq : (Json.field? "seq" d).bind t.toInt = some e.seq
  type : EventType.ofValue ((Json.field? "type" d).getD (.str "quote")) = some e.type
  /-- No parser reads the last trade. -/
  last : e.lastPrice = .finite 0 ∧ e.lastSize = 0

/-- The record has the eight fields, and each can be converted. -/
def Readable (t : JsonText ρ) (d : List (PyStr × Json)) : Prop := ∃ e, Reads t d e

namespace Reads

variable {t : JsonText ρ} {d : List (PyStr × Json)} {e e' : MarketEventOf Json}

/-- `server_ts` is not among the fields. -/
theorem setServerTs (h : Reads t d e) (n : Int) : Reads t d { e with serverTs := n } :=
  ⟨h.symbol, h.bid, h.ask, h.bidSize, h.askSize, h.eventTs, h.seq, h.type, h.last⟩

/-- **A record is read in one way only**, up to `server_ts`. -/
theorem unique (h : Reads t d e) (h' : Reads t d e') : { e with serverTs := e'.serverTs } = e' := by
  obtain ⟨symbol, bid, ask, bidSize, askSize, eventTs, serverTs, seq, type, lastPrice,
    lastSize⟩ := e
  obtain ⟨symbol', bid', ask', bidSize', askSize', eventTs', serverTs', seq', type', lastPrice',
    lastSize'⟩ := e'
  obtain rfl : symbol = symbol' := Option.some.inj (h.symbol.symm.trans h'.symbol)
  obtain rfl : bid = bid' := Option.some.inj (h.bid.symm.trans h'.bid)
  obtain rfl : ask = ask' := Option.some.inj (h.ask.symm.trans h'.ask)
  obtain rfl : bidSize = bidSize' := Option.some.inj (h.bidSize.symm.trans h'.bidSize)
  obtain rfl : askSize = askSize' := Option.some.inj (h.askSize.symm.trans h'.askSize)
  obtain rfl : eventTs = eventTs' := Option.some.inj (h.eventTs.symm.trans h'.eventTs)
  obtain rfl : seq = seq' := Option.some.inj (h.seq.symm.trans h'.seq)
  obtain rfl : type = type' := Option.some.inj (h.type.symm.trans h'.type)
  obtain rfl : lastPrice = lastPrice' := h.last.1.trans h'.last.1.symm
  obtain rfl : lastSize = lastSize' := h.last.2.trans h'.last.2.symm
  rfl

end Reads

/-- A field that is looked up and converted before the rest. -/
theorem field_bind_eq_some {α β : Type} {d : List (PyStr × Json)} {name : PyStr}
    {f : Json → Option α} {k : α → Option β} {y : β} :
    ((Json.field? name d).bind fun v => (f v).bind k) = some y ↔
      ∃ x, (Json.field? name d).bind f = some x ∧ k x = some y := by
  rw [← Option.bind_assoc, Option.bind_eq_some_iff]

/-- **Inversion** of the parsers' common body. -/
theorem parseEventWith_eq_some {t : JsonText ρ} {serverTs : List (PyStr × Json) → Option Int}
    {raw : ρ} {e : MarketEventOf Json} :
    parseEventWith t serverTs raw = some e ↔
      ∃ d, t.loads raw = some (.obj d) ∧ Reads t d e ∧ serverTs d = some e.serverTs := by
  unfold parseEventWith
  constructor
  · intro h
    split at h
    · rename_i d hd
      -- the fields in the order of the code
      obtain ⟨symbol, hsymbol, h⟩ := Option.bind_eq_some_iff.mp h
      obtain ⟨bid, hbid, h⟩ := field_bind_eq_some.mp h
      obtain ⟨ask, hask, h⟩ := field_bind_eq_some.mp h
      obtain ⟨bidSize, hbidSize, h⟩ := field_bind_eq_some.mp h
      obtain ⟨askSize, haskSize, h⟩ := field_bind_eq_some.mp h
      obtain ⟨eventTs, heventTs, h⟩ := field_bind_eq_some.mp h
      obtain ⟨n, hn, h⟩ := Option.bind_eq_some_iff.mp h
      obtain ⟨seq, hseq, h⟩ := field_bind_eq_some.mp h
      obtain ⟨type, htype, h⟩ := Option.bind_eq_some_iff.mp h
      obtain rfl := Option.some.inj h
      exact ⟨d, hd, ⟨hsymbol, hbid, hask, hbidSize, haskSize, heventTs, hseq, htype, rfl, rfl⟩, hn⟩
    · cases h
  · intro h
    obtain ⟨d, hd, hr, hn⟩ := h
    obtain ⟨symbol, bid, ask, bidSize, askSize, eventTs, serverTs, seq, type, lastPrice,
      lastSize⟩ := e
    obtain ⟨rfl, rfl⟩ : lastPrice = .finite 0 ∧ lastSize = 0 := hr.last
    rw [hd]
    refine Option.bind_eq_some_iff.mpr ⟨symbol, hr.symbol, ?_⟩
    refine field_bind_eq_some.mpr ⟨bid, hr.bid, ?_⟩
    refine field_bind_eq_some.mpr ⟨ask, hr.ask, ?_⟩
    refine field_bind_eq_some.mpr ⟨bidSize, hr.bidSize, ?_⟩
    refine field_bind_eq_some.mpr ⟨askSize, hr.askSize, ?_⟩
    refine field_bind_eq_some.mpr ⟨eventTs, hr.eventTs, ?_⟩
    refine Option.bind_eq_some_iff.mpr ⟨serverTs, hn, ?_⟩
    refine field_bind_eq_some.mpr ⟨seq, hr.seq, ?_⟩
    exact Option.bind_eq_some_iff.mpr ⟨type, hr.type, rfl⟩

/-! ### The two parsers -/

/-- `KafkaConsumerBridge._parse_event` takes the time for `server_ts`. -/
theorem bridge_parseEvent_eq_some {t : JsonText ρ} {nowMs : Int} {raw : ρ}
    {e : MarketEventOf Json} :
    Engine.KafkaConsumerBridge.parseEvent t nowMs raw = some e ↔
      ∃ d, t.loads raw = some (.obj d) ∧ Reads t d e ∧ nowMs = e.serverTs := by
  unfold Engine.KafkaConsumerBridge.parseEvent
  rw [parseEventWith_eq_some]
  simp only [Option.some.injEq]

/-- `TickWriter._parse_event` reads it from the record. -/
theorem tickWriter_parseEvent_eq_some {t : JsonText ρ} {raw : ρ} {e : MarketEventOf Json} :
    Storage.TickWriter.parseEvent t raw = some e ↔
      ∃ d, t.loads raw = some (.obj d) ∧ Reads t d e ∧ serverTsField t d = some e.serverTs :=
  parseEventWith_eq_some

/-- The live path accepts every readable record. -/
theorem bridge_accepts_iff {t : JsonText ρ} {nowMs : Int} {raw : ρ} :
    (Engine.KafkaConsumerBridge.parseEvent t nowMs raw).isSome ↔
      ∃ d, t.loads raw = some (.obj d) ∧ Readable t d := by
  rw [Option.isSome_iff_exists]
  constructor
  · intro h
    obtain ⟨e, he⟩ := h
    obtain ⟨d, hd, hr, -⟩ := bridge_parseEvent_eq_some.mp he
    exact ⟨d, hd, e, hr⟩
  · intro h
    obtain ⟨d, hd, e, hr⟩ := h
    exact ⟨{ e with serverTs := nowMs },
      bridge_parseEvent_eq_some.mpr ⟨d, hd, hr.setServerTs nowMs, rfl⟩⟩

/-- The storage path accepts a readable record with a readable `server_ts`. -/
theorem tickWriter_accepts_iff {t : JsonText ρ} {raw : ρ} :
    (Storage.TickWriter.parseEvent t raw).isSome ↔
      ∃ d, t.loads raw = some (.obj d) ∧ Readable t d ∧ (serverTsField t d).isSome := by
  rw [Option.isSome_iff_exists]
  constructor
  · intro h
    obtain ⟨e, he⟩ := h
    obtain ⟨d, hd, hr, hn⟩ := tickWriter_parseEvent_eq_some.mp he
    exact ⟨d, hd, ⟨e, hr⟩, Option.isSome_iff_exists.mpr ⟨_, hn⟩⟩
  · intro h
    obtain ⟨d, hd, ⟨e, hr⟩, hn⟩ := h
    obtain ⟨n, hn⟩ := Option.isSome_iff_exists.mp hn
    exact ⟨{ e with serverTs := n },
      tickWriter_parseEvent_eq_some.mpr ⟨d, hd, hr.setServerTs n, hn⟩⟩

/-! ### Live and stored -/

/-- Both paths read the record alike: both reject it, or both accept it and agree on everything
but `server_ts`. -/
structure LiveStored (t : JsonText ρ) (nowMs : Int) (raw : ρ) : Prop where
  accepts : (Engine.KafkaConsumerBridge.parseEvent t nowMs raw).isSome ↔
    (Storage.TickWriter.parseEvent t raw).isSome
  agree : ∀ e e', Engine.KafkaConsumerBridge.parseEvent t nowMs raw = some e →
    Storage.TickWriter.parseEvent t raw = some e' → { e with serverTs := e'.serverTs } = e'

/-- **Both paths read a record alike exactly when it does not lack `server_ts` alone.** -/
theorem live_stored_iff (t : JsonText ρ) (nowMs : Int) (raw : ρ) :
    LiveStored t nowMs raw ↔
      ∀ d, t.loads raw = some (.obj d) → Readable t d → (serverTsField t d).isSome := by
  constructor
  · intro h d hd hr
    obtain ⟨d', hd', -, hn⟩ := tickWriter_accepts_iff.mp
      (h.accepts.mp (bridge_accepts_iff.mpr ⟨d, hd, hr⟩))
    obtain rfl : d = d' := by simpa [hd] using hd'
    exact hn
  · intro h
    refine ⟨⟨fun hb => ?_, fun hw => ?_⟩, fun e e' he he' => ?_⟩
    · obtain ⟨d, hd, hr⟩ := bridge_accepts_iff.mp hb
      exact tickWriter_accepts_iff.mpr ⟨d, hd, hr, h d hd hr⟩
    · obtain ⟨d, hd, hr, -⟩ := tickWriter_accepts_iff.mp hw
      exact bridge_accepts_iff.mpr ⟨d, hd, hr⟩
    · obtain ⟨d, hd, hr, -⟩ := bridge_parseEvent_eq_some.mp he
      obtain ⟨d', hd', hr', -⟩ := tickWriter_parseEvent_eq_some.mp he'
      obtain rfl : d = d' := by simpa [hd] using hd'
      exact hr.unique hr'

/-- A quote without `server_ts`. -/
def unstampedQuote : Json :=
  .obj ((MarketEventOf.quote "A" 5).toWire.toDict.filter fun p => p.1 != "server_ts")

/-- **The quote is distributed, and storage skips it.** -/
theorem unstamped_quote_skipped :
    Engine.KafkaConsumerBridge.parseEvent .values 7 unstampedQuote =
      some { (MarketEventOf.quote "A" 5).toWire with serverTs := 7 } ∧
    Storage.TickWriter.parseEvent .values unstampedQuote = none ∧
    ¬ LiveStored .values 7 unstampedQuote := by
  refine ⟨rfl, rfl, fun h => ?_⟩
  have hw : (Storage.TickWriter.parseEvent .values unstampedQuote).isSome := h.accepts.mp rfl
  exact Bool.false_ne_true hw

end MarketData
