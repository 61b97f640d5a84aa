import Mathlib.Data.Rat.Defs
import Mathlib.Algebra.Order.Ring.Rat
import MarketData.Engine.Ledger

/-!
# MarketData.Engine.Processing

`DistributionEngine` of `src/engine/engine.py` on top of its consumer bridge: the asyncio
task takes one record at a time, updates the snapshot, publishes, retries both with backoff
after any failure, and acknowledges only when both have completed.

`EngineAct.bridge` steps are those of the polling thread and the event loop; the engine
itself is the consumer of `events()`, so every engine run is a bridge run
(`run_bridge`), and commit safety of the bridge becomes commit safety of the whole
pipeline (`commit_safety`).
-/

namespace MarketData.Engine

/-- Where `run` is. -/
inductive EngineTask (ε : Type)
  /-- Awaiting the next record. -/
  | waiting
  /-- Awaiting `snapshot_store.update`. -/
  | updating (consumed : ConsumedEvent ε) (backoff : ℚ)
  /-- Awaiting `snapshot_store.publish_event`. -/
  | publishing (consumed : ConsumedEvent ε) (backoff : ℚ)
  /-- Awaiting the shutdown event for at most `backoff` seconds. -/
  | backingOff (consumed : ConsumedEvent ε) (backoff : ℚ)
  | stopped

/-- `DistributionEngine`. -/
structure DistributionEngine (ε : Type) where
  consumer : KafkaConsumerBridge ε := {}
  processed : Nat := 0
  redisRetries : Nat := 0
  shutdown : Bool := false
  redisRetryInitial : ℚ := 1 / 10
  redisRetryMax : ℚ := 5
  task : EngineTask ε := .waiting

/-- What happens to the engine. -/
inductive EngineAct (ε ρ : Type)
  /-- A step of the polling thread or of its pending put. -/
  | bridge (a : BridgeAct ε ρ)
  /-- `events()` yields a record. -/
  | take
  /-- `snapshot_store.update` completes or raises. -/
  | updated (ok : Bool)
  /-- `snapshot_store.publish_event` completes or raises. -/
  | published (ok : Bool)
  /-- The backoff wait ends. -/
  | retry
  /-- `shutdown()`. -/
  | shutdown
  /-- The task is cancelled. -/
  | cancel

/-- What the engine visibly does. -/
inductive EngineObs (ε : Type)
  | bridge (o : BridgeObs ε)
  | updateDone (consumed : ConsumedEvent ε)
  | publishDone (consumed : ConsumedEvent ε)

/-- The bridge's share of an observation. -/
def EngineObs.bridge? {ε : Type} : EngineObs ε → Option (BridgeObs ε)
  | .bridge o => some o
  | _ => none

theorem EngineObs.mem_bridge {ε : Type} {h : List (EngineObs ε)} {o : BridgeObs ε} :
    o ∈ h.filterMap EngineObs.bridge? ↔ .bridge o ∈ h := by
  rw [List.mem_filterMap]
  constructor
  · rintro ⟨x, hx, hox⟩
    cases x with
    | bridge y =>
        obtain rfl : y = o := Option.some.inj hox
        exact hx
    | updateDone | publishDone => simp [EngineObs.bridge?] at hox
  · exact fun h => ⟨_, h, rfl⟩

namespace DistributionEngine

variable {ε ρ : Type} [DecidableEq ε]

/-- `run` leaves its loop: the `finally` block stops the consumer. -/
def finish (e : DistributionEngine ε) : DistributionEngine ε :=
  { e with consumer := { e.consumer with stopEvent := true }, task := .stopped }

/-- The head of the loop of `process_consumed_event`. -/
def attempt (e : DistributionEngine ε) (c : ConsumedEvent ε) (backoff : ℚ) : DistributionEngine ε :=
  if e.shutdown then e.finish else { e with task := .updating c backoff }

/-- The `except Exception` branch of `process_consumed_event`. -/
def failed (e : DistributionEngine ε) (c : ConsumedEvent ε) (backoff : ℚ) : DistributionEngine ε :=
  { e with redisRetries := e.redisRetries + 1, task := .backingOff c backoff }

/-- One step of the engine. -/
def step (parseEvent : ρ → Option ε) (e : DistributionEngine ε) :
    EngineAct ε ρ → Option (DistributionEngine ε × List (EngineObs ε))
  | .bridge (.take) | .bridge (.acknowledge _) | .bridge (.stop) => none
  | .bridge a =>
    match e.consumer.step parseEvent a with
    | some (consumer, obs) => some ({ e with consumer := consumer }, obs.map .bridge)
    | none => none
  | .take =>
    match e.task, e.consumer.queue.getNowait with
    | .waiting, some (c, queue) =>
      let consumer := { e.consumer with queue := queue, taken := c :: e.consumer.taken }
      some ({ e with consumer := consumer }.attempt c e.redisRetryInitial, [])
    | _, _ => none
  | .updated ok =>
    match e.task with
    | .updating c backoff =>
      if ok then some ({ e with task := .publishing c backoff }, [.updateDone c])
      else some (e.failed c backoff, [])
    | _ => none
  | .published ok =>
    match e.task with
    | .publishing c backoff =>
      if ok then
        let consumer :=
          { e.consumer with
            taken := e.consumer.taken.erase c
            acknowledgements := e.consumer.acknowledgements ++ [c] }
        some ({ e with consumer := consumer, processed := e.processed + 1, task := .waiting },
          [.publishDone c, .bridge (.acknowledged c)])
      else some (e.failed c backoff, [])
    | _ => none
  | .retry =>
    match e.task with
    | .backingOff c backoff => some (e.attempt c (min (backoff * 2) e.redisRetryMax), [])
    | _ => none
  | .shutdown =>
    some ({ e with shutdown := true, consumer := { e.consumer with stopEvent := true } }, [])
  | .cancel =>
    match e.task with
    | .stopped => none
    | _ => some (e.finish, [])

end DistributionEngine

/-- The record `process_consumed_event` is working on. -/
def EngineTask.current? {ε : Type} : EngineTask ε → Option (ConsumedEvent ε)
  | .updating c _ | .publishing c _ | .backingOff c _ => some c
  | .waiting | .stopped => none

/-- The record in progress has been taken and not acknowledged. -/
def DistributionEngine.Holds {ε : Type} (e : DistributionEngine ε) : Prop :=
  ∀ c, e.task.current? = some c → c ∈ e.consumer.taken

/-- Only the consumer of `events()` touches what it has taken. -/
theorem KafkaConsumerBridge.step_taken {ε ρ : Type} [DecidableEq ε] {parseEvent : ρ → Option ε}
    {b b' : KafkaConsumerBridge ε} {a : BridgeAct ε ρ} {o : List (BridgeObs ε)}
    (hs : b.step parseEvent a = some (b', o)) (ht : a ≠ .take)
    (ha : ∀ c, a ≠ .acknowledge c) : b'.taken = b.taken := by
  cases stepped hs with
  | taken hq => exact absurd rfl ht
  | acknowledged hc => exact absurd rfl (ha _)
  | _ => rfl

/-- Only the consumer of `events()` acknowledges. -/
theorem KafkaConsumerBridge.step_not_acknowledged {ε ρ : Type} [DecidableEq ε]
    {parseEvent : ρ → Option ε} {b b' : KafkaConsumerBridge ε} {a : BridgeAct ε ρ}
    {o : List (BridgeObs ε)} (hs : b.step parseEvent a = some (b', o))
    (ha : ∀ c, a ≠ .acknowledge c) (c : ConsumedEvent ε) : .acknowledged c ∉ o := by
  cases stepped hs with
  | acknowledged hc => exact absurd rfl (ha _)
  | _ => simp

namespace DistributionEngine

variable {ε ρ : Type} [DecidableEq ε] {parseEvent : ρ → Option ε} {e e' : DistributionEngine ε}
  {a : EngineAct ε ρ} {o : List (EngineObs ε)}

/-- **Everything an engine step can do.** -/
inductive Stepped (parseEvent : ρ → Option ε) (e : DistributionEngine ε) :
    DistributionEngine ε → List (EngineObs ε) → Prop
  /-- The polling thread or its pending put moves. -/
  | bridge (b : BridgeAct ε ρ) (consumer : KafkaConsumerBridge ε) (obs : List (BridgeObs ε))
      (ht : b ≠ .take) (ha : ∀ c, b ≠ .acknowledge c)
      (hb : e.consumer.step parseEvent b = some (consumer, obs)) :
      Stepped parseEvent e { e with consumer := consumer } (obs.map .bridge)
  /-- A record is taken. -/
  | taken (c : ConsumedEvent ε) (queue : BoundedQueue (ConsumedEvent ε)) (ht : e.task = .waiting)
      (hq : e.consumer.queue.getNowait = some (c, queue)) :
      Stepped parseEvent e (({ e with consumer := { e.consumer with
        queue := queue, taken := c :: e.consumer.taken } } : DistributionEngine ε).attempt c
          e.redisRetryInitial) []
  /-- The snapshot update has completed. -/
  | updated (c : ConsumedEvent ε) (backoff : ℚ) (ht : e.task = .updating c backoff) :
      Stepped parseEvent e { e with task := .publishing c backoff } [.updateDone c]
  /-- The publish has completed, and the record is acknowledged. -/
  | published (c : ConsumedEvent ε) (backoff : ℚ) (ht : e.task = .publishing c backoff) :
      Stepped parseEvent e { e with
        consumer := { e.consumer with
          taken := e.consumer.taken.erase c
          acknowledgements := e.consumer.acknowledgements ++ [c] }
        processed := e.processed + 1
        task := .waiting } [.publishDone c, .bridge (.acknowledged c)]
  /-- An attempt has failed. -/
  | failed (c : ConsumedEvent ε) (backoff : ℚ) (ht : e.task.current? = some c) :
      Stepped parseEvent e (e.failed c backoff) []
  /-- The next attempt, or the end of the run. -/
  | attempt (c : ConsumedEvent ε) (backoff : ℚ) (ht : e.task.current? = some c) :
      Stepped parseEvent e (e.attempt c backoff) []
  /-- Shutdown or cancellation. -/
  | halt (shutdown : Bool) (task : EngineTask ε) (ht : task = e.task ∨ task = .stopped) :
      Stepped parseEvent e { e with
        shutdown := shutdown, consumer := { e.consumer with stopEvent := true }, task := task } []

theorem stepped (hs : e.step parseEvent a = some (e', o)) : Stepped parseEvent e e' o := by
  cases a with
  | bridge b =>
      have hb : ∀ b, b ≠ .take → (∀ c, b ≠ .acknowledge c) →
          (match e.consumer.step parseEvent b with
            | some (consumer, obs) => some ({ e with consumer := consumer }, obs.map .bridge)
            | none => none) = some (e', o) → Stepped parseEvent e e' o := by
        intro b ht ha h
        split at h
        · rename_i consumer obs hb
          obtain ⟨rfl, rfl⟩ := Prod.mk.inj (Option.some.inj h)
          exact .bridge b consumer obs ht ha hb
        · exact absurd h (by simp)
      cases b with
      | take | acknowledge | stop => exact absurd hs (by simp [step])
      | check | drain | commit | poll | handed | abandoned | handoffFailed | put | cancelPut =>
          exact hb _ (by simp) (by simp) hs
  | take =>
      simp only [step] at hs
      split at hs
      · rename_i c queue ht hq
        obtain ⟨rfl, rfl⟩ := Prod.mk.inj (Option.some.inj hs)
        exact .taken c queue ht hq
      · exact absurd hs (by simp)
  | updated ok =>
      simp only [step] at hs
      split at hs
      · rename_i c backoff ht
        split at hs
        · obtain ⟨rfl, rfl⟩ := Prod.mk.inj (Option.some.inj hs)
          exact .updated c backoff ht
        · obtain ⟨rfl, rfl⟩ := Prod.mk.inj (Option.some.inj hs)
          exact .failed c backoff (by rw [ht]; rfl)
      · exact absurd hs (by simp)
  | published ok =>
      simp only [step] at hs
      split at hs
      · rename_i c backoff ht
        split at hs
        · obtain ⟨rfl, rfl⟩ := Prod.mk.inj (Option.some.inj hs)
          exact .published c backoff ht
        · obtain ⟨rfl, rfl⟩ := Prod.mk.inj (Option.some.inj hs)
          exact .failed c backoff (by rw [ht]; rfl)
      · exact absurd hs (by simp)
  | retry =>
      simp only [step] at hs
      split at hs
      · rename_i c backoff ht
        obtain ⟨rfl, rfl⟩ := Prod.mk.inj (Option.some.inj hs)
        exact .attempt c _ (by rw [ht]; rfl)
      · exact absurd hs (by simp)
  | shutdown =>
      obtain ⟨rfl, rfl⟩ := Prod.mk.inj (Option.some.inj hs)
      exact .halt true e.task (Or.inl rfl)
  | cancel =>
      simp only [step] at hs
      split at hs
      · exact absurd hs (by simp)
      · obtain ⟨rfl, rfl⟩ := Prod.mk.inj (Option.some.inj hs)
        exact .halt e.shutdown .stopped (Or.inr rfl)

omit [DecidableEq ε] in
/-- An attempt takes up the record, or ends the run. -/
theorem attempt_cases (e : DistributionEngine ε) (c : ConsumedEvent ε) (backoff : ℚ) :
    e.attempt c backoff = e.finish ∨
      e.attempt c backoff = { e with task := .updating c backoff } := by
  unfold attempt
  split
  · exact Or.inl rfl
  · exact Or.inr rfl

omit [DecidableEq ε] in
theorem attempt_task (e : DistributionEngine ε) (c c' : ConsumedEvent ε) (backoff backoff' : ℚ) :
    (e.attempt c backoff).task ≠ .publishing c' backoff' := by
  rcases e.attempt_cases c backoff with heq | heq <;> simp [heq, finish]

/-- **Every engine step is a run of the bridge.** -/
theorem step_bridge (hh : e.Holds) (hs : e.step parseEvent a = some (e', o)) :
    e'.Holds ∧ ∃ bs, Machine.run (KafkaConsumerBridge.step parseEvent) e.consumer bs =
      some (e'.consumer, o.filterMap EngineObs.bridge?) := by
  cases stepped hs with
  | bridge b consumer obs ht ha hb =>
      refine ⟨fun c hc => ?_, [b], ?_⟩
      · exact (KafkaConsumerBridge.step_taken hb ht ha).symm ▸ hh c hc
      · have hobs : (obs.map EngineObs.bridge).filterMap EngineObs.bridge? = obs := by
          rw [List.filterMap_map]
          exact List.filterMap_some
        simp [Machine.run, hb, hobs]
  | taken c queue ht hq =>
      rcases attempt_cases _ c e.redisRetryInitial with heq | heq
      · rw [heq]
        exact ⟨by simp [Holds, finish, EngineTask.current?], [.take, .stop],
          by simp [Machine.run, KafkaConsumerBridge.step, hq, finish]⟩
      · rw [heq]
        refine ⟨fun c' hc' => ?_, [.take], by simp [Machine.run, KafkaConsumerBridge.step, hq]⟩
        obtain rfl : c = c' := Option.some.inj hc'
        exact List.mem_cons_self
  | updated c backoff ht =>
      exact ⟨fun c' hc' => hh c' (by rw [ht]; exact hc'), [], rfl⟩
  | published c backoff ht =>
      have hc : c ∈ e.consumer.taken := hh c (by rw [ht]; rfl)
      refine ⟨by simp [Holds, EngineTask.current?], [.acknowledge c], ?_⟩
      simp only [Machine.run, KafkaConsumerBridge.step, hc, if_true, List.append_nil]
      rfl
  | failed c backoff ht =>
      exact ⟨fun c' hc' => hh c' (ht.trans hc'), [], rfl⟩
  | attempt c backoff ht =>
      rcases attempt_cases e c backoff with heq | heq
      · rw [heq]
        exact ⟨by simp [Holds, finish, EngineTask.current?], [.stop],
          by simp [Machine.run, KafkaConsumerBridge.step, finish]⟩
      · rw [heq]
        exact ⟨fun c' hc' => hh c' (ht.trans hc'), [], rfl⟩
  | halt shutdown task ht =>
      refine ⟨fun c hc => ?_, [.stop], by simp [Machine.run, KafkaConsumerBridge.step]⟩
      rcases ht with rfl | rfl
      · exact hh c hc
      · simp [EngineTask.current?] at hc

/-- **The engine refines its bridge**: seen through the bridge, every engine run is a run of
the bridge with one particular consumer of `events()`. -/
theorem run_bridge {acts : List (EngineAct ε ρ)} {h : List (EngineObs ε)} (hh : e.Holds)
    (hr : Machine.run (step parseEvent) e acts = some (e', h)) :
    ∃ bs, Machine.run (KafkaConsumerBridge.step parseEvent) e.consumer bs =
      some (e'.consumer, h.filterMap EngineObs.bridge?) :=
  Machine.run_project (m := step parseEvent) (P := Holds) consumer EngineObs.bridge?
    (fun _ _ _ _ hP hs => step_bridge hP hs) hh hr

/-! ### Nothing is acknowledged early -/

/-- An acknowledged record has been through Redis. -/
def AckedDone (h : List (EngineObs ε)) : EngineObs ε → Prop
  | .bridge (.acknowledged c) => .updateDone c ∈ h ∧ .publishDone c ∈ h
  | _ => True

/-- What the engine has done for the record in progress and for every acknowledged one. -/
structure Processed (e : DistributionEngine ε) (h : List (EngineObs ε)) : Prop where
  publishing : ∀ c backoff, e.task = .publishing c backoff → .updateDone c ∈ h
  acked : Always AckedDone h

omit [DecidableEq ε] in
/-- A step without observations that enters no publish. -/
theorem Processed.quiet {h : List (EngineObs ε)} (hI : Processed e h)
    (ht : ∀ c backoff, e'.task = .publishing c backoff → e.task = .publishing c backoff) :
    Processed e' (h ++ []) := by
  rw [List.append_nil]
  exact ⟨fun c backoff hc => hI.publishing c backoff (ht c backoff hc), hI.acked⟩

theorem Processed.step {h : List (EngineObs ε)} (hI : Processed e h)
    (hs : e.step parseEvent a = some (e', o)) : Processed e' (h ++ o) := by
  cases stepped hs with
  | bridge b consumer obs ht ha hb =>
      refine ⟨fun c backoff hc => List.mem_append_left _ (hI.publishing c backoff hc), ?_⟩
      refine hI.acked.append fun os₁ x os₂ heq => ?_
      have hx : x ∈ obs.map EngineObs.bridge := by simp [heq]
      obtain ⟨y, hy, rfl⟩ := List.mem_map.mp hx
      cases y with
      | acknowledged c => exact absurd hy (KafkaConsumerBridge.step_not_acknowledged hb ha c)
      | polled | commit => trivial
  | taken c queue ht hq =>
      exact hI.quiet fun c' backoff' hc' => absurd hc' (attempt_task _ c c' _ backoff')
  | updated c backoff ht =>
      refine ⟨fun c' backoff' hc' => ?_, hI.acked.snoc trivial⟩
      obtain ⟨rfl, -⟩ := EngineTask.publishing.inj hc'
      exact List.mem_append_right _ (List.mem_singleton_self _)
  | published c backoff ht =>
      refine ⟨by simp, ?_⟩
      rw [← List.singleton_append, ← List.append_assoc]
      have hpub : AckedDone h (.publishDone c) := trivial
      refine (hI.acked.snoc hpub).snoc ⟨?_, by simp⟩
      exact List.mem_append_left _ (hI.publishing c backoff ht)
  | failed c backoff ht => exact hI.quiet (by simp [DistributionEngine.failed])
  | attempt c backoff ht =>
      exact hI.quiet fun c' backoff' hc' => absurd hc' (attempt_task e c c' _ backoff')
  | halt shutdown task ht =>
      refine hI.quiet fun c backoff hc => ?_
      rcases ht with rfl | rfl
      · exact hc
      · simp at hc

end DistributionEngine

/-- **Engine commit safety.** Over every run of the engine — any partitions and records, any
Redis failures, any interleaving of the two threads, any failing commits, shutdown or
cancellation anywhere — whenever `consumer.commit` is called with a position of a partition,
every valid record of that partition polled so far below it has had both its snapshot update
and its publish complete. -/
theorem commit_safety {ε ρ : Type} [DecidableEq ε] {parseEvent : ρ → Option ε} {initial max : ℚ}
    {e : DistributionEngine ε} {acts : List (EngineAct ε ρ)} {h : List (EngineObs ε)}
    (hr : Machine.run (DistributionEngine.step parseEvent)
      { redisRetryInitial := initial, redisRetryMax := max } acts = some (e, h)) :
    Always (fun h₁ o => ∀ offsets, o = .bridge (.commit offsets) →
      ∀ key cursor, (key, cursor) ∈ offsets → ∀ c, .bridge (.polled c) ∈ h₁ → c.key = key →
        c.offset < cursor → .updateDone c ∈ h₁ ∧ .publishDone c ∈ h₁) h := by
  rintro h₁ o h₂ rfl offsets rfl key cursor hkc c hpc hk hlt
  obtain ⟨bs, hbs⟩ := DistributionEngine.run_bridge (by simp [DistributionEngine.Holds,
    EngineTask.current?]) hr
  have hP : DistributionEngine.Processed e (h₁ ++ .bridge (.commit offsets) :: h₂) :=
    Machine.run_invariant (I := DistributionEngine.Processed)
      (fun _ _ _ _ _ hI hs => hI.step hs) ⟨by simp, Always.nil⟩ hr
  have hsplit : (h₁ ++ .bridge (.commit offsets) :: h₂).filterMap EngineObs.bridge? =
      h₁.filterMap EngineObs.bridge? ++ .commit offsets :: h₂.filterMap EngineObs.bridge? := by
    rw [List.filterMap_append]
    rfl
  have hacked : EngineObs.bridge (.acknowledged c) ∈ h₁ := by
    rw [← EngineObs.mem_bridge]
    exact commit_acknowledged hbs _ _ _ hsplit offsets rfl key cursor hkc c
      (EngineObs.mem_bridge.mpr hpc) hk hlt
  obtain ⟨g₁, g₂, rfl⟩ := List.append_of_mem hacked
  obtain ⟨hu, hpub⟩ := hP.acked g₁ (.bridge (.acknowledged c)) _ (List.append_assoc _ _ _)
  exact ⟨List.mem_append_left _ hu, List.mem_append_left _ hpub⟩

/-- The update of the first record fails once, its publish once; the record after it is
malformed; then the drain commits. -/
def retriedActs : List (EngineAct Unit (Option Unit)) :=
  [.bridge .check, .bridge .drain, .bridge (.poll (.message ⟨"market-events", 0, 3, some ()⟩)),
    .bridge .put, .bridge .handed, .take, .updated false, .bridge .check, .bridge .drain,
    .bridge (.poll (.message ⟨"market-events", 0, 4, none⟩)), .retry, .updated true,
    .published false, .retry, .updated true, .published true, .bridge .check, .bridge .drain]

theorem commit_safety_retried :
    ∃ e h, Machine.run (DistributionEngine.step (id : Option Unit → Option Unit))
        { redisRetryInitial := 1 / 10, redisRetryMax := 5 } retriedActs =
          some (e, h ++ [.bridge (.commit [(("market-events", 0), 4)])]) ∧
      .bridge (.polled ⟨(), "market-events", 0, 3⟩) ∈ h ∧
      .updateDone ⟨(), "market-events", 0, 3⟩ ∈ h ∧
        .publishDone ⟨(), "market-events", 0, 3⟩ ∈ h := by
  obtain ⟨e, hr⟩ : ∃ e, Machine.run (DistributionEngine.step (id : Option Unit → Option Unit))
      { redisRetryInitial := 1 / 10, redisRetryMax := 5 } retriedActs =
        some (e, [.bridge (.polled ⟨(), "market-events", 0, 3⟩),
          .updateDone ⟨(), "market-events", 0, 3⟩, .updateDone ⟨(), "market-events", 0, 3⟩,
          .publishDone ⟨(), "market-events", 0, 3⟩,
          .bridge (.acknowledged ⟨(), "market-events", 0, 3⟩)] ++
            [.bridge (.commit [(("market-events", 0), 4)])]) := ⟨_, rfl⟩
  exact ⟨e, _, hr, List.mem_cons_self,
    commit_safety hr _ _ [] rfl _ rfl ("market-events", 0) 4 List.mem_cons_self _
      List.mem_cons_self rfl (Nat.lt_succ_self 3)⟩

end MarketData.Engine
