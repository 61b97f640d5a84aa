import Mathlib.Data.Finset.Insert
import MarketData.Gateway.Aggregator
import MarketData.Gateway.Filter
import MarketData.Lib.Boundary
import MarketData.Lib.Decimal

/-!
# MarketData.Gateway.Session

`ClientSession` of `src/gateway/session.py`: the per-symbol sequence boundary
(`classify_sequence`), conditional delivery (`should_deliver`), the bounded outbound
queue with its slow-consumer policies (`enqueue`), and the writer task that drains the
queue into the WebSocket.

The outbound messages are the three shapes the gateway ever enqueues. Everything
downstream of `enqueue` sees only whether the queue took a message, so each function
that enqueues reports it as an observation (`ClientObs.accepted`, `ClientObs.refused`).
-/

namespace MarketData.Gateway

/-- `QUEUE_MAX_SIZE`. -/
def queueMaxSize : Nat := 500
theorem queueMaxSize_pos : 0 < queueMaxSize := by decide

/-- `SLOW_CLIENT_DROP_LIMIT`. -/
def slowClientDropLimit : Nat := 100
/-- `PERCENT_EPSILON`. -/
def percentEpsilon : ℚ := 1 / 10 ^ 9

/-- `SlowConsumerPolicy`. -/
inductive SlowConsumerPolicy
  | dropOldest
  | disconnect
  deriving Repr, DecidableEq

/-- `Encoding`. -/
inductive Encoding
  | json
  | msgpack
  deriving Repr, DecidableEq

/-- `SequenceDecision`. -/
inductive SequenceDecision
  | next
  | gap
  | stale
  deriving Repr, DecidableEq

/-- An outbound message: `{"type": "snapshot", ...}`, `event.to_dict()` or
`{"error": ...}`. -/
inductive Message
  | snapshot (s : SnapshotData)
  | incremental (e : MarketEvent)
  | error (text : PyStr)
  deriving DecidableEq

/-- The integers of a message. -/
def Message.ints : Message → List Int
  | .snapshot s => [s.bidSize, s.askSize, s.seq, s.ts]
  | .incremental e => [e.bidSize, e.askSize, e.eventTs, e.serverTs, e.seq, e.lastSize]
  | .error _ => []

/-- An integer that `json.dumps` (of at most 4300 digits) or `msgpack.packb` (of 64 bits, with or
without a sign) writes out; any other raises. -/
def Encoding.takesInt : Encoding → Int → Bool
  | .json, n => (Decimal.text n).isSome
  | .msgpack, n => decide (-2 ^ 63 ≤ n ∧ n < 2 ^ 64)

/-- The texts of a message. -/
def Message.texts : Message → List PyStr
  | .snapshot s => [s.symbol]
  | .incremental e => [e.symbol]
  | .error text => [text]

/-- `json.dumps` escapes a surrogate, `msgpack.packb` raises. -/
def Encoding.takesText : Encoding → PyStr → Bool
  | .json, _ => true
  | .msgpack, text => text.encodable

theorem Encoding.takesText_coe (encoding : Encoding) (text : String) :
    encoding.takesText text = true := by
  cases encoding <;> rfl

theorem Encoding.takesText_coe_append (encoding : Encoding) (text : String) (s : PyStr) :
    encoding.takesText (text ++ s) = encoding.takesText s := by
  cases encoding <;> rfl

/-- A message that can be written out. -/
def Message.encodable (m : Message) (encoding : Encoding) : Bool :=
  m.ints.all encoding.takesInt && m.texts.all encoding.takesText

/-- `message.get("event_ts")`. -/
def Message.eventTs? : Message → Option Int
  | .incremental e => some e.eventTs
  | .snapshot _ | .error _ => none

/-- `latency.record` of the message raises: its timestamp is too large for a float. -/
def Message.unrecordable (m : Message) : Bool := m.eventTs?.any Json.overflowsFloat

/-- The message holds nothing that makes its send or its record raise. -/
def Message.GoesOut (m : Message) (encoding : Encoding) : Prop :=
  m.encodable encoding = true ∧ m.unrecordable = false

instance (m : Message) (encoding : Encoding) : Decidable (m.GoesOut encoding) :=
  inferInstanceAs (Decidable (_ ∧ _))

/-- The market content of a message, as seen by the boundary of `symbol`. -/
def Message.emission? (symbol : PyStr) : Message → Option (Boundary.Emission Int)
  | .snapshot s => if s.symbol = symbol then some (.snapshot s.seq) else none
  | .incremental e => if e.symbol = symbol then some (.incremental e.seq) else none
  | .error _ => none

/-- The counters of `ClientStats`. -/
structure ClientStats where
  sent : Nat := 0
  dropped : Nat := 0
  gapsDetected : Nat := 0
  deriving Repr, DecidableEq

/-- Where `_writer_loop` is. -/
inductive WriterTask
  | notStarted
  /-- Awaiting `self._queue.get()`. -/
  | waiting
  /-- Awaiting the send of a taken message. -/
  | sending (m : Message)
  | stopped
  deriving DecidableEq

/-- `ClientSession`. -/
structure ClientSession where
  clientId : String
  policy : SlowConsumerPolicy := .dropOldest
  encoding : Encoding := .json
  subscriptions : Finset PyStr := ∅
  stats : ClientStats := {}
  lastSeq : Dict PyStr Int := .empty
  filters : Dict PyStr SubscriptionFilter := .empty
  lastPrice : Dict PyStr PyFloat := .empty
  aggregator : AggregationBuffer := {}
  queue : BoundedQueue Message := .empty queueMaxSize queueMaxSize_pos
  writer : WriterTask := .notStarted
  disconnected : Bool := false

/-- What a client's tasks visibly do. -/
inductive ClientObs
  /-- The dispatch loop took an event from the aggregator. -/
  | handled (e : MarketEvent)
  /-- It took one and went no further: the log of the event's gap raised. -/
  | unlogged (e : MarketEvent)
  /-- An in-sequence event failed `should_deliver`. -/
  | withheld (e : MarketEvent)
  /-- `enqueue` returned `True`. -/
  | accepted (m : Message)
  /-- `enqueue` returned `False`. -/
  | refused (m : Message)
  /-- `aggregator.push`. -/
  | pushed (e : MarketEvent)
  /-- The writer sent a message to the WebSocket. -/
  | sent (m : Message)
  deriving DecidableEq

/-- The observation `enqueue` makes. -/
def ClientObs.enqueued (ok : Bool) (m : Message) : ClientObs :=
  if ok then .accepted m else .refused m

namespace ClientSession

/-- The numbers in the log of a gap, as text; `none` is the `ValueError` of too many digits. -/
def gapLog (last seq : Int) : Option String := do
  let previous ← Decimal.text last
  let current ← Decimal.text seq
  let delta ← Decimal.text (seq - last)
  return s!"last={previous} current={current} delta={delta}"

/-- `classify_sequence`; `none` is the exception of the log. -/
def classifySequence (s : ClientSession) (symbol : PyStr) (seq : Int) (detectGap : Bool) :
    Option SequenceDecision × ClientSession :=
  match s.lastSeq.get? symbol with
  | none => (some .next, { s with lastSeq := s.lastSeq.set symbol seq })
  | some last =>
    if seq ≤ last then (some .stale, s)
    else if detectGap && seq != last + 1 then
      ((gapLog last seq).map fun _ => .gap,
        { s with stats := { s.stats with gapsDetected := s.stats.gapsDetected + 1 } })
    else (some .next, { s with lastSeq := s.lastSeq.set symbol seq })

/-- The spread half of `should_deliver`. -/
def spreadOk (maxSpread : Option PyFloat) (event : MarketEvent) : Bool :=
  match maxSpread with
  | none => true
  | some limit => !limit.lt (event.ask.sub event.bid)

/-- The change half of `should_deliver`, against the last delivered bid. -/
def changeOk (minChangePct : Option PyFloat) (last : Option PyFloat) (event : MarketEvent) : Bool :=
  match minChangePct, last with
  | none, _ => true
  | some _, none => true
  | some minimum, some last =>
    if last.isZero then true
    else
      let changePct := ((event.bid.sub last).div last).abs.scale 100
      !(changePct.add (.finite percentEpsilon)).lt minimum

/-- `should_deliver`. -/
def shouldDeliver (s : ClientSession) (event : MarketEvent) : Bool :=
  match s.filters.get? event.symbol with
  | none => true
  | some f =>
    spreadOk f.maxSpread event && changeOk f.minChangePct (s.lastPrice.get? event.symbol) event

/-- `mark_delivered`. -/
def markDelivered (s : ClientSession) (event : MarketEvent) : ClientSession :=
  { s with lastPrice := s.lastPrice.set event.symbol event.bid }

/-- The `except asyncio.QueueFull` branch of `enqueue`. -/
def onQueueFull (s : ClientSession) (m : Message) : Bool × ClientSession :=
  match s.policy with
  | .dropOldest =>
    match s.queue.getNowait with
    | some (_, q) =>
      match q.putNowait m with
      | some q' => (true, { s with queue := q' })
      | none => (false, { s with queue := q })
    | none => (false, s)
  | .disconnect =>
    if slowClientDropLimit ≤ s.stats.dropped then (false, { s with disconnected := true })
    else (false, s)

/-- `enqueue`. -/
def enqueue (s : ClientSession) (m : Message) : Bool × ClientSession :=
  match s.queue.putNowait m with
  | some q => (true, { s with queue := q })
  | none => onQueueFull { s with stats := { s.stats with dropped := s.stats.dropped + 1 } } m

/-- `enqueue` of an error reply, whose result the gateway ignores. -/
def enqueueError (s : ClientSession) (text : PyStr) : ClientSession × List ClientObs :=
  let (ok, s') := s.enqueue (.error text)
  (s', [.enqueued ok (.error text)])

theorem enqueueError_eq (s : ClientSession) (text : PyStr) :
    s.enqueueError text =
      ((s.enqueue (.error text)).2, [.enqueued (s.enqueue (.error text)).1 (.error text)]) := rfl

/-! ### `enqueue` touches the queue, the counters and the disconnect flag only -/

theorem onQueueFull_fields (s : ClientSession) (m : Message) :
    ∃ q d, (s.onQueueFull m).2 = { s with queue := q, disconnected := d } := by
  unfold onQueueFull
  split
  · split
    · split <;> exact ⟨_, _, rfl⟩
    · exact ⟨_, _, rfl⟩
  · split <;> exact ⟨_, _, rfl⟩

/-- Everything `enqueue` can change; the result keeps all other fields. -/
theorem enqueue_fields (s : ClientSession) (m : Message) :
    ∃ q stats d, (s.enqueue m).2 =
      { s with queue := q, stats := stats, disconnected := d } := by
  unfold enqueue
  split
  · exact ⟨_, _, _, rfl⟩
  · obtain ⟨q, d, h⟩ := onQueueFull_fields
      { s with stats := { s.stats with dropped := s.stats.dropped + 1 } } m
    exact ⟨q, _, d, h⟩

@[simp] theorem enqueue_clientId (s : ClientSession) (m : Message) :
    (s.enqueue m).2.clientId = s.clientId := by
  obtain ⟨q, st, d, h⟩ := s.enqueue_fields m; rw [h]
@[simp] theorem enqueue_encoding (s : ClientSession) (m : Message) :
    (s.enqueue m).2.encoding = s.encoding := by
  obtain ⟨q, st, d, h⟩ := s.enqueue_fields m; rw [h]
@[simp] theorem enqueue_policy (s : ClientSession) (m : Message) :
    (s.enqueue m).2.policy = s.policy := by
  obtain ⟨q, st, d, h⟩ := s.enqueue_fields m; rw [h]
@[simp] theorem enqueue_subscriptions (s : ClientSession) (m : Message) :
    (s.enqueue m).2.subscriptions = s.subscriptions := by
  obtain ⟨q, st, d, h⟩ := s.enqueue_fields m; rw [h]
@[simp] theorem enqueue_lastSeq (s : ClientSession) (m : Message) :
    (s.enqueue m).2.lastSeq = s.lastSeq := by
  obtain ⟨q, st, d, h⟩ := s.enqueue_fields m; rw [h]
@[simp] theorem enqueue_filters (s : ClientSession) (m : Message) :
    (s.enqueue m).2.filters = s.filters := by
  obtain ⟨q, st, d, h⟩ := s.enqueue_fields m; rw [h]
@[simp] theorem enqueue_lastPrice (s : ClientSession) (m : Message) :
    (s.enqueue m).2.lastPrice = s.lastPrice := by
  obtain ⟨q, st, d, h⟩ := s.enqueue_fields m; rw [h]
@[simp] theorem enqueue_aggregator (s : ClientSession) (m : Message) :
    (s.enqueue m).2.aggregator = s.aggregator := by
  obtain ⟨q, st, d, h⟩ := s.enqueue_fields m; rw [h]
@[simp] theorem enqueue_writer (s : ClientSession) (m : Message) :
    (s.enqueue m).2.writer = s.writer := by
  obtain ⟨q, st, d, h⟩ := s.enqueue_fields m; rw [h]

/-- **What `enqueue` does, by the fill level of the queue and the policy.** -/
theorem enqueue_cases (s : ClientSession) (m : Message) :
    (s.queue.items.length < s.queue.maxsize ∧
      s.enqueue m = (true, { s with queue := s.queue.putEvict m })) ∨
    (s.queue.items.length = s.queue.maxsize ∧ s.policy = .dropOldest ∧
      s.enqueue m = (true, { s with
        queue := s.queue.putEvict m
        stats := { s.stats with dropped := s.stats.dropped + 1 } })) ∨
    (s.queue.items.length = s.queue.maxsize ∧ s.policy = .disconnect ∧
      s.enqueue m = (false, { s with
        stats := { s.stats with dropped := s.stats.dropped + 1 }
        disconnected :=
          s.disconnected || decide (slowClientDropLimit ≤ s.stats.dropped + 1) })) := by
  unfold enqueue BoundedQueue.putEvict
  cases hput : s.queue.putNowait m with
  | some q => exact Or.inl ⟨(BoundedQueue.putNowait_eq_some.mp hput).1, rfl⟩
  | none =>
      have hfull := BoundedQueue.putNowait_eq_none.mp hput
      refine Or.inr ?_
      cases hp : s.policy with
      | dropOldest =>
          -- a full queue is not empty: it has an oldest entry to discard
          have hpos := s.queue.pos
          obtain ⟨x, rest, hitems⟩ := List.exists_cons_of_length_pos (hfull ▸ hpos)
          have hget : s.queue.getNowait = some (x, s.queue.pop) :=
            BoundedQueue.getNowait_eq_some.mpr ⟨⟨rest, hitems⟩, rfl⟩
          obtain ⟨q', hq', -⟩ := BoundedQueue.putNowait_pop (q := s.queue) m
          exact Or.inl ⟨hfull, rfl, by simp [onQueueFull, hget, hq']⟩
      | disconnect =>
          refine Or.inr ⟨hfull, rfl, ?_⟩
          simp only [onQueueFull]
          by_cases hlimit : slowClientDropLimit ≤ s.stats.dropped + 1
          · simp [hlimit]
          · simp [hlimit]

/-- **Under DROP_OLDEST every message is accepted**: a full queue has an oldest entry to discard,
and the second put finds the room it left. -/
theorem enqueue_dropOldest_eq {s : ClientSession} (h : s.policy = .dropOldest) (m : Message) :
    ∃ stats, s.enqueue m = (true, { s with queue := s.queue.putEvict m, stats := stats }) := by
  rcases s.enqueue_cases m with ⟨-, heq⟩ | ⟨-, -, heq⟩ | ⟨-, hp, -⟩
  · exact ⟨_, heq⟩
  · exact ⟨_, heq⟩
  · cases h.symm.trans hp

theorem enqueue_dropOldest {s : ClientSession} (h : s.policy = .dropOldest) (m : Message) :
    (s.enqueue m).1 = true := by
  obtain ⟨stats, heq⟩ := enqueue_dropOldest_eq h m
  rw [heq]

theorem enqueue_disconnected {s : ClientSession} (h : s.policy = .dropOldest) (m : Message) :
    (s.enqueue m).2.disconnected = s.disconnected := by
  obtain ⟨stats, heq⟩ := enqueue_dropOldest_eq h m
  rw [heq]

/-- A message that is refused leaves the queue as it was. -/
theorem enqueue_refused {s : ClientSession} {m : Message} (h : (s.enqueue m).1 = false) :
    ∃ stats d, (s.enqueue m).2 = { s with stats := stats, disconnected := d } := by
  rcases s.enqueue_cases m with ⟨-, heq⟩ | ⟨-, -, heq⟩ | ⟨-, -, heq⟩
  · rw [heq] at h
    cases h
  · rw [heq] at h
    cases h
  · rw [heq]
    exact ⟨_, _, rfl⟩

/-- **A message that is accepted ends the queue**, at the cost of the oldest one if the queue was
full; one that is refused leaves it as it was. -/
theorem enqueue_queue (s : ClientSession) (m : Message) :
    (s.enqueue m).2.queue = if (s.enqueue m).1 then s.queue.putEvict m else s.queue := by
  rcases s.enqueue_cases m with ⟨-, heq⟩ | ⟨-, -, heq⟩ | ⟨-, -, heq⟩ <;> rw [heq] <;> rfl

/-! ### `classify_sequence`, case by case -/

/-- What `classify_sequence` can answer: everything later proofs need to know of it. -/
theorem classifySequence_cases (s : ClientSession) (symbol : PyStr) (seq : Int) (g : Bool) :
    (∃ last, s.lastSeq.get? symbol = some last ∧ seq ≤ last ∧
      s.classifySequence symbol seq g = (some .stale, s)) ∨
    (∃ last, s.lastSeq.get? symbol = some last ∧ last < seq ∧ g = true ∧ seq ≠ last + 1 ∧
      gapLog last seq ≠ none ∧ s.classifySequence symbol seq g =
        (some .gap,
          { s with stats := { s.stats with gapsDetected := s.stats.gapsDetected + 1 } })) ∨
    ((∀ last ∈ s.lastSeq.get? symbol, last < seq ∧ (g = true → seq = last + 1)) ∧
      s.classifySequence symbol seq g =
        (some .next, { s with lastSeq := s.lastSeq.set symbol seq })) ∨
    (∃ last, s.lastSeq.get? symbol = some last ∧ last < seq ∧ g = true ∧ seq ≠ last + 1 ∧
      gapLog last seq = none ∧ s.classifySequence symbol seq g =
        (none, { s with stats := { s.stats with gapsDetected := s.stats.gapsDetected + 1 } })) := by
  unfold classifySequence
  cases hl : s.lastSeq.get? symbol with
  | none => exact Or.inr (Or.inr (Or.inl ⟨by simp, rfl⟩))
  | some last =>
      by_cases hle : seq ≤ last
      · exact Or.inl ⟨last, rfl, hle, by simp [hle]⟩
      · refine Or.inr ?_
        by_cases hg : g = true ∧ seq ≠ last + 1
        · cases hlog : gapLog last seq with
          | some text =>
              exact Or.inl ⟨last, rfl, by omega, hg.1, hg.2, by simp [hlog],
                by simp [hle, hg.1, hg.2, hlog]⟩
          | none =>
              exact Or.inr (Or.inr ⟨last, rfl, by omega, hg.1, hg.2, hlog,
                by simp [hle, hg.1, hg.2, hlog]⟩)
        · refine Or.inr (Or.inl ⟨?_, ?_⟩)
          · intro l hl'
            obtain rfl : last = l := by simpa using hl'
            exact ⟨by omega, fun h => by_contra fun hne => hg ⟨h, hne⟩⟩
          · have : (g && seq != last + 1) = false := by
              cases g <;> simp_all
            simp [hle, this]

end ClientSession

end MarketData.Gateway
