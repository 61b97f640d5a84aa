import Mathlib.Data.Rat.Defs
import Mathlib.Algebra.Order.Ring.Rat
import MarketData.Kafka
import MarketData.Lib.Dict
import MarketData.Lib.Machine
import MarketData.Storage.HistoryStore

/-!
# MarketData.Storage.TickWriter

`TickWriter` of `src/storage/tick_writer.py` over all its lives, together with the broker's
committed positions and the `market_ticks` table, which survive them.

A life begins with `start`, at the committed position of every partition (the beginning
where there is none, `auto.offset.reset: earliest`), and ends by itself, or by `crash` at
any point. The topic is a fixed log, `log key n` being the message value at offset `n`;
offsets without a value were compacted away or are control records. A poll delivers the
next value of a partition or nothing.

An insert either succeeds, or raises (timeout or not); one that raises has taken effect,
never will, or will at some later time (`Effect`). Every clock reading is part of the
action that makes it.
-/

namespace MarketData.Storage

/-- `ConsumedTick`; topic, partition and offset are those of its message. -/
structure ConsumedTick (ρ σ : Type) where
  event : MarketEventOf σ
  message : KafkaMessage ρ

/-- Which call of `_flush` is under way. -/
inductive FlushReason (ρ : Type)
  /-- Nothing polled and the batch has expired. -/
  | idle
  /-- `_should_flush` after an append. -/
  | full
  /-- `_handle_invalid_message` with a batch. -/
  | invalid (message : KafkaMessage ρ)

/-- Where `run` is. -/
inductive WriterTask (ρ : Type)
  /-- No life. -/
  | down
  /-- In `_ensure_schema_with_retry`. -/
  | schema (backoff : ℚ)
  /-- About to test `self._stop`. -/
  | head
  | polling
  /-- At the head of the loop of `_flush`. -/
  | flush (reason : FlushReason ρ) (backoff : ℚ)
  /-- Awaiting `insert_ticks`. -/
  | inserting (reason : FlushReason ρ) (backoff : ℚ)
  /-- Awaiting the backoff sleep. -/
  | sleeping (reason : FlushReason ρ) (backoff : ℚ)
  /-- In `_commit_batch`, with these messages still to commit. -/
  | committing (reason : FlushReason ρ) (remaining : List (KafkaMessage ρ))
  /-- About to commit a malformed message. -/
  | committingInvalid (message : KafkaMessage ρ)

/-- What becomes of an insert that raised. -/
inductive Effect
  | never
  | applied
  | later
  deriving DecidableEq

/-- `MAX_BACKOFF_SECONDS`. -/
def maxBackoffSeconds : ℚ := 5

/-- The first backoff. -/
def initialBackoffSeconds : ℚ := 1 / 10

/-- `TickWriter`, with the state of its `run`. -/
structure TickWriter (ρ σ : Type) where
  batchMaxSize : Int := 500
  batchMaxLatencyMs : ℚ := 100
  insertedTicks : Nat := 0
  stopped : Bool := false
  task : WriterTask ρ := .down
  batch : List (ConsumedTick ρ σ) := []
  batchStarted : ℚ := 0

/-- A writer with what outlives it, and the positions its consumer reads from. -/
structure TickStorage (ρ σ τ : Type) where
  writer : TickWriter ρ σ := {}
  /-- The consumer's next offset, by partition. -/
  position : Dict PartitionKey Nat := .empty
  /-- The broker's committed positions. -/
  committed : Dict PartitionKey Nat := .empty
  table : MarketTicks σ τ := .empty
  /-- Inserts the client gave up on that the server may still execute. -/
  abandoned : List (List (TickRow σ τ)) := []

/-- What happens to the writer. -/
inductive WriterAct (ρ : Type)
  /-- A new life, with its settings. -/
  | start (batchMaxSize : Int) (batchMaxLatencyMs : ℚ)
  /-- `ensure_schema` completes or raises. -/
  | schema (ok : Bool)
  /-- `while not self._stop` of `run`. -/
  | check
  /-- `consumer.poll`, with the clock readings at the append and at the expiry test. -/
  | poll (result : PollResult ρ) (started now : ℚ)
  /-- `while not self._stop` of `_flush`. -/
  | checkFlush
  /-- `insert_ticks` completes. -/
  | inserted
  /-- `insert_ticks` raises. -/
  | insertRaised (effect : Effect)
  /-- The backoff sleep ends. -/
  | wake
  /-- `consumer.commit` completes. -/
  | committed
  /-- `consumer.commit` raises; the broker may have taken the position. -/
  | commitRaised (taken : Bool)
  | stop
  | crash
  /-- The server executes an abandoned insert. -/
  | execute (i : Nat)

/-- What the writer visibly does. -/
inductive WriterObs (ρ σ : Type)
  /-- A valid record is delivered. -/
  | delivered (tick : ConsumedTick ρ σ)
  /-- `consumer.commit` is called for a message; the position is the one after it. -/
  | commit (key : PartitionKey) (position : Nat)

namespace TickWriter

variable {ρ σ : Type}

/-- `_batch_expired`. -/
def batchExpired (w : TickWriter ρ σ) (now : ℚ) : Bool :=
  decide (w.batchMaxLatencyMs ≤ (now - w.batchStarted) * 1000)

/-- `_should_flush`. -/
def shouldFlush (w : TickWriter ρ σ) (now : ℚ) : Bool :=
  decide (w.batchMaxSize ≤ w.batch.length) || w.batchExpired now

/-- `batch.append`, restarting the clock of an empty batch. -/
def append (w : TickWriter ρ σ) (tick : ConsumedTick ρ σ) (started : ℚ) : TickWriter ρ σ :=
  { w with
    batch := w.batch ++ [tick]
    batchStarted := if w.batch.isEmpty then started else w.batchStarted }

/-- The `last_by_partition` of `_commit_batch`. -/
def lastByPartition (batch : List (ConsumedTick ρ σ)) : Dict PartitionKey (ConsumedTick ρ σ) :=
  batch.foldl (fun last consumed =>
    match last.get? consumed.message.key with
    | none => last.set consumed.message.key consumed
    | some previous =>
      if previous.message.offset < consumed.message.offset then
        last.set consumed.message.key consumed
      else last) .empty

/-- `run` ends: its batch is gone. -/
def finish (w : TickWriter ρ σ) : TickWriter ρ σ := { w with task := .down, batch := [] }

/-- `_flush` returns `False`: its caller leaves, or is about to leave, the loop. -/
def unflushed (w : TickWriter ρ σ) : FlushReason ρ → TickWriter ρ σ
  | .idle | .full => { w with task := .head, batch := [] }
  | .invalid _ => w.finish

/-- `_commit_batch` with these messages left; after the last one `_flush` returns `True`. -/
def commitRest (w : TickWriter ρ σ) (reason : FlushReason ρ) (rest : List (KafkaMessage ρ)) :
    TickWriter ρ σ :=
  match rest, reason with
  | [], .idle | [], .full => { w with task := .head, batch := [] }
  | [], .invalid message => { w with task := .committingInvalid message }
  | rest, reason => { w with task := .committing reason rest }

/-- The message the writer is committing, and the writer once that is done. -/
def pendingCommit (w : TickWriter ρ σ) : Option (KafkaMessage ρ × TickWriter ρ σ) :=
  match w.task with
  | .committing reason (message :: rest) => some (message, w.commitRest reason rest)
  | .committingInvalid message => some (message, { w with task := .head, batch := [] })
  | _ => none

end TickWriter

namespace TickStorage

variable {ρ σ τ : Type}

/-- The consumer's position on a partition. -/
def positionOf (s : TickStorage ρ σ τ) (key : PartitionKey) : Nat := (s.position.get? key).getD 0

/-- The next value of a partition is at offset `n`. -/
def IsNext [DecidableEq ρ] (log : PartitionKey → Nat → Option ρ) (s : TickStorage ρ σ τ)
    (m : KafkaMessage ρ) : Prop :=
  s.positionOf m.key ≤ m.offset ∧ log m.key m.offset = some m.value ∧
    ∀ n < m.offset, s.positionOf m.key ≤ n → log m.key n = none

instance [DecidableEq ρ] (log : PartitionKey → Nat → Option ρ) (s : TickStorage ρ σ τ)
    (m : KafkaMessage ρ) : Decidable (s.IsNext log m) := by
  unfold IsNext
  infer_instance

/-- The broker takes the position after a message. -/
def takeCommit (s : TickStorage ρ σ τ) (m : KafkaMessage ρ) : TickStorage ρ σ τ :=
  { s with committed := s.committed.set m.key (m.offset + 1) }

/-- The rows of the batch, as `insert_ticks` builds them. -/
def batchRows (msToDatetime : Int → Option τ) (s : TickStorage ρ σ τ) :
    Option (List (TickRow σ τ)) :=
  (s.writer.batch.map ConsumedTick.event).mapM (eventToRow msToDatetime)

/-- The rest of an iteration of `run` after `consumer.poll` has returned a message. -/
def onMessage (parseEvent : ρ → Option (MarketEventOf σ)) (s : TickStorage ρ σ τ)
    (m : KafkaMessage ρ)
    (started now : ℚ) : TickStorage ρ σ τ × List (WriterObs ρ σ) :=
  let s := { s with position := s.position.set m.key (m.offset + 1) }
  match parseEvent m.value with
  | none =>
    let task := if s.writer.batch.isEmpty then .committingInvalid m
      else .flush (.invalid m) initialBackoffSeconds
    ({ s with writer := { s.writer with task := task } }, [])
  | some event =>
    let writer := s.writer.append ⟨event, m⟩ started
    let task := if writer.shouldFlush now then .flush .full initialBackoffSeconds else .head
    ({ s with writer := { writer with task := task } }, [.delivered ⟨event, m⟩])

variable [DecidableEq ρ] [DecidableEq σ] [DecidableEq τ]

/-- One step of the writer and its surroundings, over the topic, the parser and
`_ms_to_datetime`. -/
def step (log : PartitionKey → Nat → Option ρ) (parseEvent : ρ → Option (MarketEventOf σ))
    (msToDatetime : Int → Option τ) (s : TickStorage ρ σ τ) :
    WriterAct ρ → Option (TickStorage ρ σ τ × List (WriterObs ρ σ))
  | .start batchMaxSize batchMaxLatencyMs =>
    match s.writer.task with
    | .down =>
      some ({ s with
        writer := { batchMaxSize := batchMaxSize, batchMaxLatencyMs := batchMaxLatencyMs,
                    task := .schema initialBackoffSeconds }
        position := s.committed }, [])
    | _ => none
  | .schema ok =>
    match s.writer.task with
    | .schema backoff =>
      let task := if ok || s.writer.stopped then .head
        else .schema (min (backoff * 2) maxBackoffSeconds)
      some ({ s with writer := { s.writer with task := task } }, [])
    | _ => none
  | .check =>
    match s.writer.task with
    | .head =>
      if s.writer.stopped then some ({ s with writer := s.writer.finish }, [])
      else some ({ s with writer := { s.writer with task := .polling } }, [])
    | _ => none
  | .poll result started now =>
    match s.writer.task, result with
    | .polling, .nothing =>
      let task := if !s.writer.batch.isEmpty && s.writer.batchExpired now then
        .flush .idle initialBackoffSeconds else .head
      some ({ s with writer := { s.writer with task := task } }, [])
    | .polling, .error => some ({ s with writer := { s.writer with task := .head } }, [])
    | .polling, .raised => some ({ s with writer := s.writer.finish }, [])
    | .polling, .message m =>
      if s.IsNext log m then some (s.onMessage parseEvent m started now) else none
    | _, _ => none
  | .checkFlush =>
    match s.writer.task with
    | .flush reason backoff =>
      if s.writer.stopped then some ({ s with writer := s.writer.unflushed reason }, [])
      else some ({ s with writer := { s.writer with task := .inserting reason backoff } }, [])
    | _ => none
  | .inserted =>
    match s.writer.task, s.batchRows msToDatetime with
    | .inserting reason _, some rows =>
      let writer :=
        { s.writer with insertedTicks := s.writer.insertedTicks + s.table.rowsAffected rows }
      let messages :=
        (TickWriter.lastByPartition s.writer.batch).values.map ConsumedTick.message
      some ({ s with
          writer := writer.commitRest reason messages
          table := s.table.insertTicks rows },
        [])
    | _, _ => none
  | .insertRaised effect =>
    match s.writer.task with
    | .inserting reason backoff =>
      let s := { s with writer := { s.writer with task := .sleeping reason backoff } }
      match effect, s.batchRows msToDatetime with
      | .never, _ => some (s, [])
      | .applied, some rows => some ({ s with table := s.table.insertTicks rows }, [])
      | .later, some rows => some ({ s with abandoned := rows :: s.abandoned }, [])
      | _, none => none
    | _ => none
  | .wake =>
    match s.writer.task with
    | .sleeping reason backoff =>
      let task := .flush reason (min (backoff * 2) maxBackoffSeconds)
      some ({ s with writer := { s.writer with task := task } }, [])
    | _ => none
  | .committed =>
    match s.writer.pendingCommit with
    | some (m, writer) => some ({ s.takeCommit m with writer := writer },
        [.commit m.key (m.offset + 1)])
    | none => none
  | .commitRaised taken =>
    match s.writer.pendingCommit with
    | some (m, _) =>
      some ({ (if taken then s.takeCommit m else s) with writer := s.writer.finish },
        [.commit m.key (m.offset + 1)])
    | none => none
  | .stop => some ({ s with writer := { s.writer with stopped := true } }, [])
  | .crash => some ({ s with writer := s.writer.finish }, [])
  | .execute i =>
    match s.abandoned[i]? with
    | some rows => some ({ s with table := s.table.insertTicks rows }, [])
    | none => none

end TickStorage

namespace TickWriter

variable {ρ σ : Type}

/-! ### Inversion of a step -/

/-- What the writer can be about to commit. -/
theorem pendingCommit_cases {w w' : TickWriter ρ σ} {m : KafkaMessage ρ}
    (h : w.pendingCommit = some (m, w')) :
    (∃ reason rest, w.task = .committing reason (m :: rest) ∧ w' = w.commitRest reason rest) ∨
    (w.task = .committingInvalid m ∧ w' = { w with task := .head, batch := [] }) := by
  unfold pendingCommit at h
  split at h
  · rename_i reason m' rest ht
    obtain ⟨rfl, rfl⟩ := Prod.mk.inj (Option.some.inj h)
    exact Or.inl ⟨reason, rest, ht, rfl⟩
  · rename_i m' ht
    obtain ⟨rfl, rfl⟩ := Prod.mk.inj (Option.some.inj h)
    exact Or.inr ⟨ht, rfl⟩
  · exact absurd h (by simp)

/-- `_commit_batch` goes on, or `_flush` returns `True` to its caller. -/
theorem commitRest_cases (w : TickWriter ρ σ) (reason : FlushReason ρ)
    (rest : List (KafkaMessage ρ)) :
    (rest ≠ [] ∧ w.commitRest reason rest = { w with task := .committing reason rest }) ∨
    (rest = [] ∧ (w.commitRest reason rest = { w with task := .head, batch := [] } ∨
      ∃ m, reason = .invalid m ∧
        w.commitRest reason rest = { w with task := .committingInvalid m })) := by
  cases rest with
  | cons m rest => exact Or.inl ⟨List.cons_ne_nil m rest, rfl⟩
  | nil =>
      refine Or.inr ⟨rfl, ?_⟩
      cases reason with
      | idle | full => exact Or.inl rfl
      | invalid m => exact Or.inr ⟨m, rfl, rfl⟩

end TickWriter

namespace TickStorage

variable {ρ σ τ : Type} [DecidableEq ρ] [DecidableEq σ] [DecidableEq τ]

variable {log : PartitionKey → Nat → Option ρ} {parseEvent : ρ → Option (MarketEventOf σ)}
  {msToDatetime : Int → Option τ}

/-- **Everything one step can do.** -/
inductive Stepped (log : PartitionKey → Nat → Option ρ)
    (parseEvent : ρ → Option (MarketEventOf σ)) (msToDatetime : Int → Option τ)
    (s : TickStorage ρ σ τ) :
    WriterAct ρ → TickStorage ρ σ τ → List (WriterObs ρ σ) → Prop
  | started {size : Int} {latency : ℚ} (ht : s.writer.task = .down) :
      Stepped log parseEvent msToDatetime s (.start size latency) { s with
        writer := { batchMaxSize := size, batchMaxLatencyMs := latency,
                    task := .schema initialBackoffSeconds }
        position := s.committed } []
  | schema {ok : Bool} {backoff : ℚ} (ht : s.writer.task = .schema backoff) {task : WriterTask ρ}
      (ht' : task = .head ∨ ∃ backoff', task = .schema backoff') :
      Stepped log parseEvent msToDatetime s (.schema ok)
        { s with writer := { s.writer with task := task } } []
  /-- The stop flag ends `run`. -/
  | ended (ht : s.writer.task = .head) (hs : s.writer.stopped = true) :
      Stepped log parseEvent msToDatetime s .check { s with writer := s.writer.finish } []
  | checked (ht : s.writer.task = .head) (hs : s.writer.stopped = false) :
      Stepped log parseEvent msToDatetime s .check
        { s with writer := { s.writer with task := .polling } } []
  /-- Nothing polled, and the batch can wait. -/
  | idle {started now : ℚ} (ht : s.writer.task = .polling)
      (hb : s.writer.batch = [] ∨ s.writer.batchExpired now = false) :
      Stepped log parseEvent msToDatetime s (.poll .nothing started now)
        { s with writer := { s.writer with task := .head } } []
  /-- Nothing polled, and the batch has expired. -/
  | expired {started now : ℚ} (ht : s.writer.task = .polling) (hb : s.writer.batch ≠ [])
      (he : s.writer.batchExpired now = true) :
      Stepped log parseEvent msToDatetime s (.poll .nothing started now)
        { s with writer := { s.writer with task := .flush .idle initialBackoffSeconds } } []
  | pollError {started now : ℚ} (ht : s.writer.task = .polling) :
      Stepped log parseEvent msToDatetime s (.poll .error started now)
        { s with writer := { s.writer with task := .head } } []
  | pollRaised {started now : ℚ} (ht : s.writer.task = .polling) :
      Stepped log parseEvent msToDatetime s (.poll .raised started now)
        { s with writer := s.writer.finish } []
  /-- A malformed record is committed, once the batch before it is flushed. -/
  | malformed {m : KafkaMessage ρ} {started now : ℚ} (ht : s.writer.task = .polling)
      (hn : s.IsNext log m) (hp : parseEvent m.value = none) {task : WriterTask ρ}
      (ht' : task = if s.writer.batch.isEmpty then .committingInvalid m
        else .flush (.invalid m) initialBackoffSeconds) :
      Stepped log parseEvent msToDatetime s (.poll (.message m) started now)
        { s with
          writer := { s.writer with task := task }
          position := s.position.set m.key (m.offset + 1) } []
  /-- A valid record joins the batch. -/
  | delivered {m : KafkaMessage ρ} {event : MarketEventOf σ} {started now : ℚ}
      (ht : s.writer.task = .polling) (hn : s.IsNext log m) (hp : parseEvent m.value = some event)
      {w : TickWriter ρ σ} (hw : w = s.writer.append ⟨event, m⟩ started) {task : WriterTask ρ}
      (ht' : task = if w.shouldFlush now then .flush .full initialBackoffSeconds else .head) :
      Stepped log parseEvent msToDatetime s (.poll (.message m) started now)
        { s with
          writer := { w with task := task }
          position := s.position.set m.key (m.offset + 1) } [.delivered ⟨event, m⟩]
  /-- The stop flag ends `_flush`. -/
  | unflushed {reason : FlushReason ρ} {backoff : ℚ} (ht : s.writer.task = .flush reason backoff)
      (hs : s.writer.stopped = true) :
      Stepped log parseEvent msToDatetime s .checkFlush
        { s with writer := s.writer.unflushed reason } []
  | attempted {reason : FlushReason ρ} {backoff : ℚ} (ht : s.writer.task = .flush reason backoff)
      (hs : s.writer.stopped = false) :
      Stepped log parseEvent msToDatetime s .checkFlush
        { s with writer := { s.writer with task := .inserting reason backoff } } []
  | inserted {reason : FlushReason ρ} {backoff : ℚ} {rows : List (TickRow σ τ)} {inserted : Nat}
      (ht : s.writer.task = .inserting reason backoff)
      (hr : s.batchRows msToDatetime = some rows) :
      Stepped log parseEvent msToDatetime s .inserted
        { s with
          writer := { s.writer with insertedTicks := inserted }.commitRest reason
            ((TickWriter.lastByPartition s.writer.batch).values.map ConsumedTick.message)
          table := s.table.insertTicks rows } []
  /-- An insert raises; what it did to the table is not known. -/
  | insertRaised {effect : Effect} {reason : FlushReason ρ} {backoff : ℚ}
      (ht : s.writer.task = .inserting reason backoff) {table : MarketTicks σ τ}
      {abandoned : List (List (TickRow σ τ))}
      (hr : table = s.table ∨ ∃ rows, s.batchRows msToDatetime = some rows ∧
        table = s.table.insertTicks rows) :
      Stepped log parseEvent msToDatetime s (.insertRaised effect)
        { s with
          writer := { s.writer with task := .sleeping reason backoff }
          table := table, abandoned := abandoned } []
  | woken {reason : FlushReason ρ} {backoff backoff' : ℚ}
      (ht : s.writer.task = .sleeping reason backoff) :
      Stepped log parseEvent msToDatetime s .wake
        { s with writer := { s.writer with task := .flush reason backoff' } } []
  | committed {m : KafkaMessage ρ} {w : TickWriter ρ σ}
      (hp : s.writer.pendingCommit = some (m, w)) :
      Stepped log parseEvent msToDatetime s .committed { s.takeCommit m with writer := w }
        [.commit m.key (m.offset + 1)]
  | commitRaised {taken : Bool} {m : KafkaMessage ρ} {w : TickWriter ρ σ}
      (hp : s.writer.pendingCommit = some (m, w)) :
      Stepped log parseEvent msToDatetime s (.commitRaised taken)
        { (if taken then s.takeCommit m else s) with writer := s.writer.finish }
        [.commit m.key (m.offset + 1)]
  | stop : Stepped log parseEvent msToDatetime s .stop
      { s with writer := { s.writer with stopped := true } } []
  | crash : Stepped log parseEvent msToDatetime s .crash { s with writer := s.writer.finish } []
  | executed {i : Nat} {rows : List (TickRow σ τ)} (hr : s.abandoned[i]? = some rows) :
      Stepped log parseEvent msToDatetime s (.execute i)
        { s with table := s.table.insertTicks rows } []

/-- **Inversion** of `poll`. -/
theorem stepped_poll {s s' : TickStorage ρ σ τ} {result : PollResult ρ} {started now : ℚ}
    {o : List (WriterObs ρ σ)}
    (h : s.step log parseEvent msToDatetime (.poll result started now) = some (s', o)) :
    Stepped log parseEvent msToDatetime s (.poll result started now) s' o := by
  simp only [step] at h
  split at h
  case h_1 ht =>
    obtain ⟨rfl, rfl⟩ := Machine.outcome h
    dsimp only
    split
    · rename_i hx
      obtain ⟨hb, he⟩ := Bool.and_eq_true_iff.mp hx
      exact .expired ht (by simpa using hb) he
    · rename_i hx
      refine .idle ht ?_
      cases hb : s.writer.batch with
      | nil => exact Or.inl rfl
      | cons c batch => exact Or.inr (by simpa [hb] using hx)
  case h_2 ht =>
    obtain ⟨rfl, rfl⟩ := Machine.outcome h
    exact .pollError ht
  case h_3 ht =>
    obtain ⟨rfl, rfl⟩ := Machine.outcome h
    exact .pollRaised ht
  case h_4 m ht =>
    split at h
    · rename_i hn
      unfold onMessage at h
      dsimp only at h
      split at h
      · rename_i hp
        obtain ⟨rfl, rfl⟩ := Machine.outcome h
        exact .malformed ht hn hp rfl
      · rename_i event hp
        obtain ⟨rfl, rfl⟩ := Machine.outcome h
        exact .delivered ht hn hp rfl rfl
    · cases h
  case h_5 => cases h

/-- **Inversion** of what `insert_ticks` can do by raising. -/
theorem stepped_insertRaised {s s' : TickStorage ρ σ τ} {effect : Effect} {o : List (WriterObs ρ σ)}
    (h : s.step log parseEvent msToDatetime (.insertRaised effect) = some (s', o)) :
    Stepped log parseEvent msToDatetime s (.insertRaised effect) s' o := by
  simp only [step] at h
  split at h
  · rename_i reason backoff ht
    split at h
    · obtain ⟨rfl, rfl⟩ := Machine.outcome h
      exact .insertRaised ht (Or.inl rfl)
    · rename_i rows hr
      obtain ⟨rfl, rfl⟩ := Machine.outcome h
      exact .insertRaised ht (Or.inr ⟨rows, hr, rfl⟩)
    · obtain ⟨rfl, rfl⟩ := Machine.outcome h
      exact .insertRaised ht (Or.inl rfl)
    · cases h
  · cases h

/-- **Inversion**: every step is one of the constructors of `Stepped`. -/
theorem stepped {s s' : TickStorage ρ σ τ} {a : WriterAct ρ} {o : List (WriterObs ρ σ)}
    (h : s.step log parseEvent msToDatetime a = some (s', o)) :
    Stepped log parseEvent msToDatetime s a s' o := by
  cases a with
  | poll result started now => exact stepped_poll h
  | insertRaised effect => exact stepped_insertRaised h
  | start size latency =>
      simp only [step] at h
      split at h
      · rename_i ht
        obtain ⟨rfl, rfl⟩ := Machine.outcome h
        exact .started ht
      · cases h
  | schema ok =>
      simp only [step] at h
      split at h
      · rename_i backoff ht
        obtain ⟨rfl, rfl⟩ := Machine.outcome h
        refine .schema ht ?_
        split
        · exact Or.inl rfl
        · exact Or.inr ⟨_, rfl⟩
      · cases h
  | check =>
      simp only [step] at h
      split at h
      · rename_i ht
        split at h
        · rename_i hs
          obtain ⟨rfl, rfl⟩ := Machine.outcome h
          exact .ended ht hs
        · rename_i hs
          obtain ⟨rfl, rfl⟩ := Machine.outcome h
          exact .checked ht (Bool.eq_false_iff.mpr hs)
      · cases h
  | checkFlush =>
      simp only [step] at h
      split at h
      · rename_i reason backoff ht
        split at h
        · rename_i hs
          obtain ⟨rfl, rfl⟩ := Machine.outcome h
          exact .unflushed ht hs
        · rename_i hs
          obtain ⟨rfl, rfl⟩ := Machine.outcome h
          exact .attempted ht (Bool.eq_false_iff.mpr hs)
      · cases h
  | inserted =>
      simp only [step] at h
      split at h
      · rename_i reason backoff rows ht hr
        obtain ⟨rfl, rfl⟩ := Machine.outcome h
        exact .inserted ht hr
      · cases h
  | wake =>
      simp only [step] at h
      split at h
      · rename_i reason backoff ht
        obtain ⟨rfl, rfl⟩ := Machine.outcome h
        exact .woken ht
      · cases h
  | committed =>
      simp only [step] at h
      split at h
      · rename_i m w hp
        obtain ⟨rfl, rfl⟩ := Machine.outcome h
        exact .committed hp
      · cases h
  | commitRaised taken =>
      simp only [step] at h
      split at h
      · rename_i m w hp
        obtain ⟨rfl, rfl⟩ := Machine.outcome h
        exact .commitRaised hp
      · cases h
  | stop =>
      obtain ⟨rfl, rfl⟩ := Machine.outcome h
      exact .stop
  | crash =>
      obtain ⟨rfl, rfl⟩ := Machine.outcome h
      exact .crash
  | execute i =>
      simp only [step] at h
      split at h
      · rename_i rows hr
        obtain ⟨rfl, rfl⟩ := Machine.outcome h
        exact .executed hr
      · cases h

end TickStorage

end MarketData.Storage
