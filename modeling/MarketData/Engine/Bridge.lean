import MarketData.Kafka
import MarketData.Lib.BoundedQueue
import MarketData.Lib.Cursor
import MarketData.Lib.Dict
import MarketData.Lib.Machine

/-!
# MarketData.Engine.Bridge

`KafkaConsumerBridge` of `src/engine/engine.py`: the polling thread, the bounded queue
towards asyncio, the acknowledgement queue back, and the coalescing commit.

The machine interleaves three parties. The *polling thread* runs `_consume_loop`
(`check`, `drain`, `commit`, `poll`, `handed`, `abandoned`, `handoffFailed`); the *event
loop* completes or cancels the pending `queue.put` (`put`, `cancelPut`); the *consumer of
`events()`* takes records, acknowledges each at most once and in any order, and may set
the stop event (`take`, `acknowledge`, `stop`). `_drain_acknowledgements` is two steps, up
to the blocking `consumer.commit` and after it: the loop that empties the acknowledgement
queue is linearised at the `queue.Empty` that ends it.

The parser is a parameter: nothing here depends on which records are valid.
-/

namespace MarketData.Engine

/-- `ConsumedEvent`. -/
structure ConsumedEvent (ε : Type) where
  event : ε
  topic : String
  partition : Int
  offset : Nat
  deriving DecidableEq

/-- `(consumed.topic, consumed.partition)`. -/
def ConsumedEvent.key {ε : Type} (c : ConsumedEvent ε) : PartitionKey := (c.topic, c.partition)

/-- The `maxsize` of the bridge queue. -/
def bridgeQueueMaxSize : Nat := 10000
theorem bridgeQueueMaxSize_pos : 0 < bridgeQueueMaxSize := by decide

/-- Where `_consume_loop` is. -/
inductive PollThread (ε : Type)
  /-- About to test the stop event. -/
  | head
  /-- About to drain; `final` in the `finally` block. -/
  | draining (final : Bool)
  /-- Inside `consumer.commit`. -/
  | committing (final : Bool) (advances : Dict PartitionKey (Nat × Nat))
  | polling
  /-- Inside `_handoff`, waiting for the put future. -/
  | handing (consumed : ConsumedEvent ε)
  | closed

/-- Where the thread goes when a drain is over. -/
def PollThread.drained {ε : Type} (final : Bool) : PollThread ε :=
  if final then .closed else .polling

theorem PollThread.drained_ne_committing {ε : Type} (final final' : Bool)
    (adv : Dict PartitionKey (Nat × Nat)) :
    PollThread.drained (ε := ε) final ≠ .committing final' adv := by
  cases final <;> simp [PollThread.drained]

/-- `KafkaConsumerBridge`, with what its thread, its event loop and the broker hold. -/
structure KafkaConsumerBridge (ε : Type) where
  queue : BoundedQueue (ConsumedEvent ε) := .empty bridgeQueueMaxSize bridgeQueueMaxSize_pos
  acknowledgements : List (ConsumedEvent ε) := []
  pendingAcknowledgements : Dict PartitionKey (Dict Nat (ConsumedEvent ε)) := .empty
  nextCommitOffsets : Dict PartitionKey Nat := .empty
  stopEvent : Bool := false
  thread : PollThread ε := .head
  /-- The record of the latest `queue.put` that has neither completed nor been cancelled. -/
  handoff : Option (ConsumedEvent ε) := none
  /-- Yielded by `events()` and not acknowledged. -/
  taken : List (ConsumedEvent ε) := []
  /-- The broker's next offset to deliver. -/
  position : Dict PartitionKey Nat := .empty
  /-- The positions the broker has accepted from this consumer. -/
  committed : Dict PartitionKey Nat := .empty

/-- What happens around the bridge. -/
inductive BridgeAct (ε ρ : Type)
  /-- `while not self._stop_event.is_set()`. -/
  | check
  /-- `_drain_acknowledgements` up to its commit. -/
  | drain
  /-- `consumer.commit` returns or raises. -/
  | commit (ok : Bool)
  | poll (result : PollResult ρ)
  /-- `future.result` returns. -/
  | handed
  /-- The stop event ends the wait for the future, which is cancelled. -/
  | abandoned
  /-- `future.result` raises `CancelledError` or `RuntimeError`. -/
  | handoffFailed
  /-- The event loop puts the record. -/
  | put
  /-- The event loop sees the cancellation. -/
  | cancelPut
  /-- `events()` yields. -/
  | take
  | acknowledge (consumed : ConsumedEvent ε)
  | stop

/-- What the bridge visibly does. -/
inductive BridgeObs (ε : Type)
  /-- A valid record was polled and tracked. -/
  | polled (consumed : ConsumedEvent ε)
  | acknowledged (consumed : ConsumedEvent ε)
  /-- `consumer.commit` is called with these positions. -/
  | commit (offsets : List (PartitionKey × Nat))

namespace KafkaConsumerBridge

variable {ε ρ : Type} [DecidableEq ε]

/-- `_track_consumed`. -/
def trackConsumed (b : KafkaConsumerBridge ε) (c : ConsumedEvent ε) : KafkaConsumerBridge ε :=
  match b.nextCommitOffsets.get? c.key with
  | some _ => b
  | none => { b with nextCommitOffsets := b.nextCommitOffsets.set c.key c.offset }

/-- One iteration of the loop that empties the acknowledgement queue. -/
def addPending (pending : Dict PartitionKey (Dict Nat (ConsumedEvent ε))) (c : ConsumedEvent ε) :
    Dict PartitionKey (Dict Nat (ConsumedEvent ε)) :=
  pending.set c.key (((pending.get? c.key).getD .empty).set c.offset c)

/-- The loop itself. -/
def collect (b : KafkaConsumerBridge ε) : KafkaConsumerBridge ε :=
  { b with
    acknowledgements := []
    pendingAcknowledgements := b.acknowledgements.foldl addPending b.pendingAcknowledgements }

/-- The `advances` of a drain: partition to `(start, cursor)`. -/
def advances (b : KafkaConsumerBridge ε) : Dict PartitionKey (Nat × Nat) :=
  b.pendingAcknowledgements.filterMapValues fun key pending =>
    match b.nextCommitOffsets.get? key with
    | none => none
    | some start =>
      let cursor := cursor (fun n => decide (n ∈ pending)) pending.keys.length start
      if start < cursor then some (start, cursor) else none

/-- The `commit_offsets` of a drain. -/
def commitOffsets (advances : Dict PartitionKey (Nat × Nat)) : List (PartitionKey × Nat) :=
  advances.entries.map fun (key, _, cursor) => (key, cursor)

/-- A successful commit: the broker takes the positions, the committed acknowledgements are
dropped and the cursors move. -/
def settle (b : KafkaConsumerBridge ε) (advances : Dict PartitionKey (Nat × Nat)) :
    KafkaConsumerBridge ε :=
  { b with
    pendingAcknowledgements := b.pendingAcknowledgements.mapValues fun key pending =>
      match advances.get? key with
      | none => pending
      | some (start, cursor) =>
        pending.filterMapValues fun n c => if start ≤ n ∧ n < cursor then none else some c
    nextCommitOffsets := b.nextCommitOffsets.update (advances.mapValues fun _ adv => adv.2)
    committed := b.committed.update (advances.mapValues fun _ adv => adv.2) }

/-- One step of the bridge and its surroundings, over the parser `parseEvent`. -/
def step (parseEvent : ρ → Option ε) (b : KafkaConsumerBridge ε) :
    BridgeAct ε ρ → Option (KafkaConsumerBridge ε × List (BridgeObs ε))
  | .check =>
    match b.thread with
    | .head => some ({ b with thread := .draining b.stopEvent }, [])
    | _ => none
  | .drain =>
    match b.thread with
    | .draining final =>
      let b := b.collect
      if b.advances.isEmpty then some ({ b with thread := .drained final }, [])
      else some ({ b with thread := .committing final b.advances },
        [.commit (commitOffsets b.advances)])
    | _ => none
  | .commit ok =>
    match b.thread with
    | .committing final advances =>
      some ({ (if ok then b.settle advances else b) with thread := .drained final }, [])
    | _ => none
  | .poll result =>
    match b.thread, result with
    | .polling, .message m =>
      -- the broker delivers each partition in offset order
      if (b.position.get? m.key).all (fun p => decide (p ≤ m.offset)) then
        let b := { b with position := b.position.set m.key (m.offset + 1) }
        match parseEvent m.value with
        | none => some ({ b with thread := .head }, [])
        | some event =>
          let c : ConsumedEvent ε := ⟨event, m.topic, m.partition, m.offset⟩
          some ({ b.trackConsumed c with thread := .handing c, handoff := some c }, [.polled c])
      else none
    | .polling, .nothing | .polling, .error => some ({ b with thread := .head }, [])
    | .polling, .raised => some ({ b with thread := .draining true }, [])
    | _, _ => none
  | .handed =>
    match b.thread, b.handoff with
    | .handing _, none => some ({ b with thread := .head }, [])
    | _, _ => none
  | .abandoned =>
    match b.thread with
    | .handing _ => if b.stopEvent then some ({ b with thread := .draining true }, []) else none
    | _ => none
  | .handoffFailed =>
    match b.thread with
    | .handing _ => some ({ b with thread := .draining true, handoff := none }, [])
    | _ => none
  | .put =>
    match b.handoff with
    | some c =>
      match b.queue.putNowait c with
      | some queue => some ({ b with queue := queue, handoff := none }, [])
      | none => none
    | none => none
  | .cancelPut =>
    match b.thread with
    | .handing _ => none
    | _ => some ({ b with handoff := none }, [])
  | .take =>
    match b.queue.getNowait with
    | some (c, queue) => some ({ b with queue := queue, taken := c :: b.taken }, [])
    | none => none
  | .acknowledge c =>
    if c ∈ b.taken then
      some ({ b with taken := b.taken.erase c, acknowledgements := b.acknowledgements ++ [c] },
        [.acknowledged c])
    else none
  | .stop => some ({ b with stopEvent := true }, [])

/-! ### What a step can do -/

omit [DecidableEq ε] in
/-- Tracking a record starts the cursor of a partition that has none. -/
theorem trackConsumed_eq (b : KafkaConsumerBridge ε) (c : ConsumedEvent ε) :
    ∃ next, b.trackConsumed c = { b with nextCommitOffsets := next } ∧ ∀ key,
      next.get? key = (b.nextCommitOffsets.get? key).or
        (if c.key = key then some c.offset else none) := by
  unfold trackConsumed
  cases hn : b.nextCommitOffsets.get? c.key with
  | some n =>
      refine ⟨b.nextCommitOffsets, rfl, fun key => ?_⟩
      by_cases hk : c.key = key
      · subst hk
        simp [hn]
      · simp [hk]
  | none =>
      refine ⟨_, rfl, fun key => ?_⟩
      rw [Dict.get?_set]
      by_cases hk : c.key = key
      · subst hk
        simp [hn]
      · simp [hk]

omit [DecidableEq ε] in
theorem trackConsumed_get? {b : KafkaConsumerBridge ε} {c : ConsumedEvent ε}
    {next : Dict PartitionKey Nat} (h : b.trackConsumed c = { b with nextCommitOffsets := next })
    (key : PartitionKey) : next.get? key =
      (b.nextCommitOffsets.get? key).or (if c.key = key then some c.offset else none) := by
  obtain ⟨next', heq, hnext⟩ := b.trackConsumed_eq c
  obtain rfl : next' = next := congrArg nextCommitOffsets (heq.symm.trans h)
  exact hnext key

omit [DecidableEq ε] in
theorem trackConsumed_position (b : KafkaConsumerBridge ε) (position : Dict PartitionKey Nat)
    (c : ConsumedEvent ε) :
    ({ b with position := position } : KafkaConsumerBridge ε).trackConsumed c =
      { b.trackConsumed c with position := position } := by
  unfold trackConsumed
  dsimp only
  split <;> rfl

/-- **Everything one step of the bridge can do.** -/
inductive Stepped (parseEvent : ρ → Option ε) (b : KafkaConsumerBridge ε) :
    BridgeAct ε ρ → KafkaConsumerBridge ε → List (BridgeObs ε) → Prop
  | checked (ht : b.thread = .head) :
      Stepped parseEvent b .check { b with thread := .draining b.stopEvent } []
  | idle {final} (ht : b.thread = .draining final) (he : b.collect.advances.isEmpty = true) :
      Stepped parseEvent b .drain { b.collect with thread := .drained final } []
  | committing {final} (ht : b.thread = .draining final) :
      Stepped parseEvent b .drain
        { b.collect with thread := .committing final b.collect.advances }
        [.commit (commitOffsets b.collect.advances)]
  | committed {final adv} (ht : b.thread = .committing final adv) :
      Stepped parseEvent b (.commit true) { b.settle adv with thread := .drained final } []
  | commitFailed {final adv} (ht : b.thread = .committing final adv) :
      Stepped parseEvent b (.commit false) { b with thread := .drained final } []
  | malformed {m} (ht : b.thread = .polling)
      (hpos : ∀ p, b.position.get? m.key = some p → p ≤ m.offset) :
      Stepped parseEvent b (.poll (.message m))
        { b with position := b.position.set m.key (m.offset + 1), thread := .head } []
  | polled {m event next} (c : ConsumedEvent ε) (ht : b.thread = .polling)
      (hc : c = ⟨event, m.topic, m.partition, m.offset⟩) (hp : parseEvent m.value = some event)
      (hpos : ∀ p, b.position.get? c.key = some p → p ≤ c.offset)
      (hnext : b.trackConsumed c = { b with nextCommitOffsets := next }) :
      Stepped parseEvent b (.poll (.message m))
        { b with
          nextCommitOffsets := next
          position := b.position.set c.key (c.offset + 1)
          thread := .handing c
          handoff := some c } [.polled c]
  | empty {result} (ht : b.thread = .polling) (hr : result = .nothing ∨ result = .error) :
      Stepped parseEvent b (.poll result) { b with thread := .head } []
  | raised (ht : b.thread = .polling) :
      Stepped parseEvent b (.poll .raised) { b with thread := .draining true } []
  | handed {c} (ht : b.thread = .handing c) (hh : b.handoff = none) :
      Stepped parseEvent b .handed { b with thread := .head } []
  | abandoned {c} (ht : b.thread = .handing c) (hstop : b.stopEvent = true) :
      Stepped parseEvent b .abandoned { b with thread := .draining true } []
  | handoffFailed {c} (ht : b.thread = .handing c) :
      Stepped parseEvent b .handoffFailed { b with thread := .draining true, handoff := none } []
  | put {c queue} (hc : b.handoff = some c) (hq : b.queue.putNowait c = some queue) :
      Stepped parseEvent b .put { b with queue := queue, handoff := none } []
  | cancelPut (ht : ∀ c, b.thread ≠ .handing c) :
      Stepped parseEvent b .cancelPut { b with handoff := none } []
  | taken {c queue} (hq : b.queue.getNowait = some (c, queue)) :
      Stepped parseEvent b .take { b with queue := queue, taken := c :: b.taken } []
  | acknowledged {c} (hc : c ∈ b.taken) :
      Stepped parseEvent b (.acknowledge c)
        { b with taken := b.taken.erase c, acknowledgements := b.acknowledgements ++ [c] }
        [.acknowledged c]
  | stopped : Stepped parseEvent b .stop { b with stopEvent := true } []

theorem stepped {parseEvent : ρ → Option ε} {b b' : KafkaConsumerBridge ε} {a : BridgeAct ε ρ}
    {o : List (BridgeObs ε)} (hs : b.step parseEvent a = some (b', o)) :
    Stepped parseEvent b a b' o := by
  cases a with
  | check =>
      simp only [step] at hs
      split at hs
      · rename_i ht
        obtain ⟨rfl, rfl⟩ := Prod.mk.inj (Option.some.inj hs)
        exact .checked ht
      · cases hs
  | drain =>
      simp only [step] at hs
      split at hs
      · rename_i ht
        split at hs
        · rename_i he
          obtain ⟨rfl, rfl⟩ := Prod.mk.inj (Option.some.inj hs)
          exact .idle ht he
        · obtain ⟨rfl, rfl⟩ := Prod.mk.inj (Option.some.inj hs)
          exact .committing ht
      · cases hs
  | commit ok =>
      simp only [step] at hs
      split at hs
      · rename_i ht
        obtain ⟨rfl, rfl⟩ := Prod.mk.inj (Option.some.inj hs)
        cases ok with
        | true => exact .committed ht
        | false => exact .commitFailed ht
      · cases hs
  | poll result =>
      simp only [step] at hs
      split at hs
      · rename_i m ht
        split at hs
        · rename_i hpos
          replace hpos : ∀ p, b.position.get? m.key = some p → p ≤ m.offset := by
            rw [Option.all_eq_true] at hpos
            exact fun p hp => of_decide_eq_true (hpos p hp)
          split at hs
          · obtain ⟨rfl, rfl⟩ := Prod.mk.inj (Option.some.inj hs)
            exact .malformed ht hpos
          · rename_i event hp
            obtain ⟨rfl, rfl⟩ := Prod.mk.inj (Option.some.inj hs)
            obtain ⟨next, hnext, -⟩ := b.trackConsumed_eq ⟨event, m.topic, m.partition, m.offset⟩
            rw [trackConsumed_position, hnext]
            exact .polled _ ht rfl hp hpos hnext
        · cases hs
      · rename_i ht
        obtain ⟨rfl, rfl⟩ := Prod.mk.inj (Option.some.inj hs)
        exact .empty ht (.inl rfl)
      · rename_i ht
        obtain ⟨rfl, rfl⟩ := Prod.mk.inj (Option.some.inj hs)
        exact .empty ht (.inr rfl)
      · rename_i ht
        obtain ⟨rfl, rfl⟩ := Prod.mk.inj (Option.some.inj hs)
        exact .raised ht
      · cases hs
  | handed =>
      simp only [step] at hs
      split at hs
      · rename_i ht hh
        obtain ⟨rfl, rfl⟩ := Prod.mk.inj (Option.some.inj hs)
        exact .handed ht hh
      · cases hs
  | abandoned =>
      simp only [step] at hs
      split at hs
      · rename_i ht
        split at hs
        · rename_i hstop
          obtain ⟨rfl, rfl⟩ := Prod.mk.inj (Option.some.inj hs)
          exact .abandoned ht hstop
        · cases hs
      · cases hs
  | handoffFailed =>
      simp only [step] at hs
      split at hs
      · rename_i ht
        obtain ⟨rfl, rfl⟩ := Prod.mk.inj (Option.some.inj hs)
        exact .handoffFailed ht
      · cases hs
  | put =>
      simp only [step] at hs
      split at hs
      · rename_i hc
        split at hs
        · rename_i hq
          obtain ⟨rfl, rfl⟩ := Prod.mk.inj (Option.some.inj hs)
          exact .put hc hq
        · cases hs
      · cases hs
  | cancelPut =>
      simp only [step] at hs
      split at hs
      · cases hs
      · rename_i ht
        obtain ⟨rfl, rfl⟩ := Prod.mk.inj (Option.some.inj hs)
        exact .cancelPut ht
  | take =>
      simp only [step] at hs
      split at hs
      · rename_i hq
        obtain ⟨rfl, rfl⟩ := Prod.mk.inj (Option.some.inj hs)
        exact .taken hq
      · cases hs
  | acknowledge c =>
      simp only [step] at hs
      split at hs
      · rename_i hc
        obtain ⟨rfl, rfl⟩ := Prod.mk.inj (Option.some.inj hs)
        exact .acknowledged hc
      · cases hs
  | stop =>
      obtain ⟨rfl, rfl⟩ := Prod.mk.inj (Option.some.inj hs)
      exact .stopped

end KafkaConsumerBridge

end MarketData.Engine
