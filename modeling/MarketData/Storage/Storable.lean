import MarketData.Storage.Admission
import MarketData.Storage.Flush

/-!
# MarketData.Storage.Storable

**Which admitted records can be stored.** `TickWriter._parse_event` takes any record whose fields
survive `int()` and `float()`. A row has to survive more: `_ms_to_datetime` raises outside the years
1 to 9999, the columns of `market_ticks` are text, 64-bit and 32-bit integers, and the indexes take
short texts only. `Storable` is what conversion and schema ask for, `InRange` the same on the fields
of the raw record; the parser does not ask for it (`accepted_storable_iff`).

A record in between blocks its partition: `_flush` retries the batch on any exception, and no insert
of the batch can go through (`flush_blocked`).
-/

namespace MarketData.Storage

/-! ### Conversion and schema -/

/-- Milliseconds from the epoch to 0001-01-01T00:00:00. -/
def minTimestampMs : Int := -62135596800000

/-- Milliseconds from the epoch to 9999-12-31T23:59:59.999. -/
def maxTimestampMs : Int := 253402300799999

/-- A `datetime`: the years 1 to 9999, in microseconds from the epoch. -/
structure Timestamp where
  micros : Int
  lower : minTimestampMs * 1000 ≤ micros
  upper : micros < (maxTimestampMs + 1) * 1000
  deriving DecidableEq

/-- `_ms_to_datetime`; `none` is the exception of `datetime.fromtimestamp`. The division by 1000.0
is exact here. -/
def msToDatetime (tsMs : Int) : Option Timestamp :=
  if h : minTimestampMs ≤ tsMs ∧ tsMs ≤ maxTimestampMs then
    some ⟨tsMs * 1000, by omega, by omega⟩
  else none

/-- A value of a signed integer column of this many bits. -/
def FitsInt (bits : Nat) (n : Int) : Prop := -2 ^ (bits - 1) ≤ n ∧ n < 2 ^ (bits - 1)

section Schema

-- an entry of the indexes on `symbol` has room for the text: PostgreSQL refuses one of more than a
-- third of a page, after compression
variable (indexable : String → Prop)

/-- A value of the indexed `TEXT` column: a string that UTF-8 can encode, without the NUL character,
and with room in the indexes. -/
def FitsText (v : Json) : Prop :=
  ∃ text : String, v = .str text ∧ Char.ofNat 0 ∉ text.toList ∧ indexable text

/-- The columns of `market_ticks` can hold the row; a double takes any float. -/
structure TickRow.Fits (r : TickRow Json Timestamp) : Prop where
  symbol : FitsText indexable r.symbol
  seq : FitsInt 64 r.seq
  bidSize : FitsInt 32 r.bidSize
  askSize : FitsInt 32 r.askSize

/-- `_event_to_row` converts the event, and the row fits. -/
def Storable (e : MarketEventOf Json) : Prop :=
  ∃ row, eventToRow msToDatetime e = some row ∧ row.Fits indexable

end Schema

variable {indexable : String → Prop}

theorem msToDatetime_isSome {tsMs : Int} :
    (msToDatetime tsMs).isSome ↔ minTimestampMs ≤ tsMs ∧ tsMs ≤ maxTimestampMs := by
  unfold msToDatetime
  by_cases h : minTimestampMs ≤ tsMs ∧ tsMs ≤ maxTimestampMs
  · rw [dif_pos h]
    exact iff_of_true rfl h
  · rw [dif_neg h]
    exact iff_of_false Bool.false_ne_true h

/-- **What conversion and schema ask of an event.** -/
theorem storable_iff {e : MarketEventOf Json} :
    Storable indexable e ↔ FitsText indexable e.symbol ∧ FitsInt 64 e.seq ∧ FitsInt 32 e.bidSize ∧
      FitsInt 32 e.askSize ∧ minTimestampMs ≤ e.eventTs ∧ e.eventTs ≤ maxTimestampMs := by
  constructor
  · intro h
    obtain ⟨row, hrow, hfits⟩ := h
    obtain ⟨time, ht, hrow⟩ := Option.bind_eq_some_iff.mp hrow
    obtain rfl := Option.some.inj hrow
    have htime : (msToDatetime e.eventTs).isSome := by
      rw [ht]
      rfl
    exact ⟨hfits.symbol, hfits.seq, hfits.bidSize, hfits.askSize, msToDatetime_isSome.mp htime⟩
  · intro h
    obtain ⟨hsymbol, hseq, hbid, hask, htime⟩ := h
    obtain ⟨time, ht⟩ := Option.isSome_iff_exists.mp (msToDatetime_isSome.mpr htime)
    have hrow : eventToRow msToDatetime e = some ⟨time, e.symbol, e.seq, e.bid, e.ask, e.bidSize,
        e.askSize⟩ := by
      rw [eventToRow, ht]
      rfl
    exact ⟨_, hrow, ⟨hsymbol, hseq, hbid, hask⟩⟩

/-! ### The raw record -/

variable {ρ : Type}

/-- What a record has to hold for its row to fit, field by field. -/
structure InRange (indexable : String → Prop) (t : JsonText ρ) (d : List (PyStr × Json)) :
    Prop where
  symbol : ∀ v, Json.field? "symbol" d = some v → FitsText indexable v
  seq : ∀ n, (Json.field? "seq" d).bind t.toInt = some n → FitsInt 64 n
  bidSize : ∀ n, (Json.field? "bid_size" d).bind t.toInt = some n → FitsInt 32 n
  askSize : ∀ n, (Json.field? "ask_size" d).bind t.toInt = some n → FitsInt 32 n
  eventTs : ∀ n, (Json.field? "event_ts" d).bind t.toInt = some n →
    minTimestampMs ≤ n ∧ n ≤ maxTimestampMs

/-- The event of a record is storable exactly if the record is in range. -/
theorem storable_iff_inRange {t : JsonText ρ} {d : List (PyStr × Json)} {e : MarketEventOf Json}
    (h : Reads t d e) : Storable indexable e ↔ InRange indexable t d := by
  rw [storable_iff]
  constructor
  · intro hs
    obtain ⟨hsymbol, hseq, hbid, hask, htime⟩ := hs
    refine ⟨fun v hv => ?_, fun n hn => ?_, fun n hn => ?_, fun n hn => ?_, fun n hn => ?_⟩
    · obtain rfl := Option.some.inj (h.symbol.symm.trans hv)
      exact hsymbol
    · obtain rfl := Option.some.inj (h.seq.symm.trans hn)
      exact hseq
    · obtain rfl := Option.some.inj (h.bidSize.symm.trans hn)
      exact hbid
    · obtain rfl := Option.some.inj (h.askSize.symm.trans hn)
      exact hask
    · obtain rfl := Option.some.inj (h.eventTs.symm.trans hn)
      exact htime
  · intro hd
    exact ⟨hd.symbol _ h.symbol, hd.seq _ h.seq, hd.bidSize _ h.bidSize, hd.askSize _ h.askSize,
      hd.eventTs _ h.eventTs⟩

/-- **No accepted record blocks storage, exactly when each is in range.** What
`TickWriter._parse_event` makes of the raw value can be stored if and only if the value does not
decode to an accepted record with a field out of range. -/
theorem accepted_storable_iff (indexable : String → Prop) (t : JsonText ρ) (raw : ρ) :
    (∀ e, TickWriter.parseEvent t raw = some e → Storable indexable e) ↔
      ∀ d, t.loads raw = some (.obj d) → Readable t d → (serverTsField t d).isSome →
        InRange indexable t d := by
  constructor
  · intro h d hd hr hn
    obtain ⟨e, he⟩ := hr
    obtain ⟨n, hn⟩ := Option.isSome_iff_exists.mp hn
    have hparse : TickWriter.parseEvent t raw = some { e with serverTs := n } :=
      tickWriter_parseEvent_eq_some.mpr ⟨d, hd, he.setServerTs n, hn⟩
    exact (storable_iff_inRange (he.setServerTs n)).mp (h _ hparse)
  · intro h e he
    obtain ⟨d, hd, hr, hn⟩ := tickWriter_parseEvent_eq_some.mp he
    have hserver : (serverTsField t d).isSome := by
      rw [hn]
      rfl
    exact (storable_iff_inRange hr).mpr (h d hd ⟨e, hr⟩ hserver)

/-! ### A blocked flush -/

section Blocked

variable {σ τ : Type} [DecidableEq ρ] [DecidableEq σ] [DecidableEq τ]
  {log : PartitionKey → Nat → Option ρ} {parseEvent : ρ → Option (MarketEventOf σ)}
  {toDatetime : Int → Option τ} {s s' : TickStorage ρ σ τ}

/-- A step of a flush that is not stopped, against a database that takes whole batches of storable
events only. -/
def Refuses (storable : MarketEventOf σ → Prop) (s : TickStorage ρ σ τ) (a : WriterAct ρ) : Prop :=
  a.Orderly ∧ a ≠ .stop ∧ (a = .inserted → ∀ c ∈ s.writer.batch, storable c.event)

/-- **A batch with a record that cannot be stored is retried for ever.** -/
theorem flush_blocked {storable : MarketEventOf σ → Prop} {reason : FlushReason ρ}
    {acts : List (WriterAct ρ)} {h : List (WriterObs ρ σ)} (ht : s.writer.task.Trying reason)
    (hs : s.writer.stopped = false) {c : ConsumedTick ρ σ} (hc : c ∈ s.writer.batch)
    (hbad : ¬ storable c.event)
    (hr : Machine.run (TickStorage.step log parseEvent toDatetime) s acts = some (s', h))
    (hC : Machine.Along (TickStorage.step log parseEvent toDatetime) (Refuses storable) s acts) :
    s'.writer.task.Trying reason ∧ s'.writer.batch = s.writer.batch ∧ h = [] := by
  have key := Machine.run_invariant_along (I := fun t g => t.writer.task.Trying reason ∧
    t.writer.stopped = false ∧ t.writer.batch = s.writer.batch ∧ g = []) ?_ ⟨ht, hs, rfl, rfl⟩ hC hr
  · obtain ⟨htask, -, hb, hh⟩ := key
    exact ⟨htask, hb, hh⟩
  · intro t a u o g hCa hI hstep
    obtain ⟨ha, hns, hins⟩ := hCa
    obtain ⟨htask, hstopped, hb, rfl⟩ := hI
    obtain ⟨rfl, ⟨-, hb', htask', hst⟩ | ⟨-, hst, -⟩ | ⟨rfl, -⟩⟩ :=
      trying_step htask ha (TickStorage.stepped hstep)
    · exact ⟨htask', (hst hns).trans hstopped, hb'.trans hb, rfl⟩
    · exact absurd (hst.symm.trans hstopped) (by simp)
    · exact absurd (hins rfl c (hb ▸ hc)) hbad

end Blocked

/-- A quote whose bid size needs 33 bits. -/
def wideQuote : MarketEventOf Json := { (MarketEventOf.quote "A" 5).toWire with bidSize := 2 ^ 32 }

/-- **The quote is accepted, cannot be stored, and blocks the flush of its batch.** -/
theorem wide_quote_blocks :
    TickWriter.parseEvent .values (encode .values wideQuote) = some wideQuote ∧
    ∀ indexable : String → Prop, ¬ Storable indexable wideQuote ∧
    ∀ [DecidableEq Json] (acts : List (WriterAct Json)) (s' : TickStorage Json Json Timestamp)
      (h : List (WriterObs Json Json)) (m : KafkaMessage Json),
      Machine.run (TickStorage.step (fun _ _ => none) (TickWriter.parseEvent .values) msToDatetime)
        { writer := { task := .flush .full initialBackoffSeconds, batch := [⟨wideQuote, m⟩] } }
        acts = some (s', h) →
      Machine.Along
        (TickStorage.step (fun _ _ => none) (TickWriter.parseEvent .values) msToDatetime)
        (Refuses (Storable indexable))
        { writer := { task := .flush .full initialBackoffSeconds, batch := [⟨wideQuote, m⟩] } }
        acts →
      s'.writer.task.Trying .full ∧ s'.writer.batch = [⟨wideQuote, m⟩] ∧ h = [] := by
  refine ⟨rfl, fun indexable => ?_⟩
  have hbad : ¬ Storable indexable wideQuote := by
    intro h
    obtain ⟨-, -, ⟨-, hlt⟩, -⟩ := storable_iff.mp h
    exact absurd hlt (by decide)
  refine ⟨hbad, ?_⟩
  intro _ acts s' h m hr hC
  refine flush_blocked ?_ rfl (List.mem_singleton_self _) hbad hr hC
  exact rfl

end MarketData.Storage
