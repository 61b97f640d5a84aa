import Mathlib.Data.Nat.Find
import MarketData.Engine.Order
import MarketData.Lib.Liveness

/-!
# MarketData.Engine.Life

**A life of the engine that goes on.** The engine stands on a topic, so that the broker delivers
what there is (`DistributionEngine.stepOn`); it is neither shut down nor cancelled, and its polling
thread does not break off. `LifeStep` says what is left for a step to do, `Serves` what holds after
it, and `Life` what is assumed of the scheduler, of Redis and of the broker. What such a life gets
done is the subject of the modules that follow.
-/

namespace MarketData.Engine

variable {ε ρ : Type}

/-! ### The engine on a topic -/

namespace KafkaConsumerBridge

/-- The broker's next offset, where the consumer was started at `start`. -/
def positionOf (start : PartitionKey → Nat) (b : KafkaConsumerBridge ε)
    (key : PartitionKey) : Nat :=
  (b.position.get? key).getD (start key)

/-- The next value of a partition is at the offset of `m`. -/
def IsNext [DecidableEq ρ] (log : PartitionKey → Nat → Option ρ) (start : PartitionKey → Nat)
    (b : KafkaConsumerBridge ε) (m : KafkaMessage ρ) : Prop :=
  b.positionOf start m.key ≤ m.offset ∧ log m.key m.offset = some m.value ∧
    ∀ n < m.offset, b.positionOf start m.key ≤ n → log m.key n = none

instance [DecidableEq ρ] (log : PartitionKey → Nat → Option ρ) (start : PartitionKey → Nat)
    (b : KafkaConsumerBridge ε) (m : KafkaMessage ρ) : Decidable (b.IsNext log start m) := by
  unfold IsNext
  infer_instance

end KafkaConsumerBridge

/-- What the broker delivers in a step. -/
def EngineAct.message? : EngineAct ε ρ → Option (KafkaMessage ρ)
  | .bridge (.poll (.message m)) => some m
  | _ => none

/-- The broker has the message of a step. -/
def DistributionEngine.Follows [DecidableEq ρ] (log : PartitionKey → Nat → Option ρ)
    (start : PartitionKey → Nat) (e : DistributionEngine ε) (a : EngineAct ε ρ) : Prop :=
  ∀ m ∈ a.message?, e.consumer.IsNext log start m

instance [DecidableEq ρ] (log : PartitionKey → Nat → Option ρ) (start : PartitionKey → Nat)
    (e : DistributionEngine ε) (a : EngineAct ε ρ) : Decidable (e.Follows log start a) :=
  match h : a.message? with
  | none => isTrue fun m hm => by simp [h] at hm
  | some m => decidable_of_iff (e.consumer.IsNext log start m)
    ⟨fun hn m' hm' => by
      obtain rfl : m = m' := by simpa [h] using hm'
      exact hn, fun hf => hf m (by simp [h])⟩

/-- The engine on the topic `log`, started at the positions `start`. -/
def DistributionEngine.stepOn [DecidableEq ε] [DecidableEq ρ] (log : PartitionKey → Nat → Option ρ)
    (start : PartitionKey → Nat) (parseEvent : ρ → Option ε) :
    Machine (DistributionEngine ε) (EngineAct ε ρ) (EngineObs ε) :=
  Machine.guarded (DistributionEngine.step parseEvent) (DistributionEngine.Follows log start)

/-! ### A life that goes on -/

/-- A step of the polling thread or of its put that does not end the loop. -/
def BridgeAct.Loops : BridgeAct ε ρ → Prop
  | .take | .acknowledge _ | .stop | .handoffFailed | .poll .raised => False
  | _ => True

/-- The step does not end the engine's life. -/
def EngineAct.KeepsLife : EngineAct ε ρ → Prop
  | .shutdown | .cancel => False
  | .bridge b => b.Loops
  | _ => True

/-- A step of the polling thread besides its poll. -/
def EngineAct.Threads : EngineAct ε ρ → Prop
  | .bridge .check | .bridge .drain | .bridge (.commit _) | .bridge .handed => True
  | _ => False

/-- The broker delivers a message of the partition. -/
def EngineAct.Delivers (key : PartitionKey) : EngineAct ε ρ → Prop
  | .bridge (.poll (.message m)) => m.key = key
  | _ => False

/-- `consumer.poll` returns or raises. -/
def EngineAct.Polls : EngineAct ε ρ → Prop
  | .bridge (.poll _) => True
  | _ => False

/-- How far the polling thread is from its poll. -/
def PollThread.stage : PollThread ε → ℕ
  | .handing _ => 4
  | .head => 3
  | .draining _ => 2
  | .committing _ _ => 1
  | .polling | .closed => 0

/-- A bridge in the middle of its life. -/
structure KafkaConsumerBridge.Up (b : KafkaConsumerBridge ε) : Prop where
  stopEvent : b.stopEvent = false
  thread : ¬ b.thread.Final
  /-- A put is pending only while the thread waits for it. -/
  settled : b.thread.Between → b.handoff = none

namespace KafkaConsumerBridge.Up

variable {b b' : KafkaConsumerBridge ε}

/-- The thread that waits for its put. -/
theorem handing (h : b.Up) (hh : b.handoff ≠ none) : ∃ c, b.thread = .handing c := by
  by_contra hno
  rcases PollThread.final_or_between fun c hc => hno ⟨c, hc⟩ with hf | hb
  · exact h.thread hf
  · exact hh (h.settled hb)

/-- What the thread does within the loop. -/
theorem of_between (h : b.Up) (hs : b'.stopEvent = b.stopEvent) (ht : b'.thread.Between)
    (hh : b'.handoff = none) : b'.Up := by
  refine ⟨hs.trans h.stopEvent, fun hf => ?_, fun _ => hh⟩
  generalize b'.thread = t at ht hf
  cases t with
  | draining final | committing final adv => cases ht.symm.trans hf
  | head | polling | handing c | closed => first | exact hf | exact ht

variable [DecidableEq ε] {parseEvent : ρ → Option ε} {a : BridgeAct ε ρ} {o : List (BridgeObs ε)}

/-- The loop goes on. -/
theorem step (h : b.Up) (ha : a.Loops) (hs : Stepped parseEvent b a b' o) : b'.Up := by
  have hnone : b.thread.Between → b.handoff = none := h.settled
  have hfinal : ∀ final, b.thread = .draining final ∨ (∃ adv, b.thread = .committing final adv) →
      final = false := by
    intro final ht
    have hno := h.thread
    rcases ht with ht | ⟨adv, ht⟩ <;> rw [ht] at hno <;> simpa [PollThread.Final] using hno
  cases hs with
  | checked ht =>
      exact h.of_between rfl h.stopEvent (hnone (by rw [ht]; trivial))
  | idle ht he =>
      obtain rfl := hfinal _ (Or.inl ht)
      exact h.of_between rfl trivial (hnone (by rw [ht]; rfl))
  | committing ht =>
      obtain rfl := hfinal _ (Or.inl ht)
      exact h.of_between rfl rfl (hnone (by rw [ht]; rfl))
  | committed ht | commitFailed ht =>
      obtain rfl := hfinal _ (Or.inr ⟨_, ht⟩)
      exact h.of_between rfl trivial (hnone (by rw [ht]; rfl))
  | malformed ht hpos | empty ht hr =>
      exact h.of_between rfl trivial (hnone (by rw [ht]; trivial))
  | polled c ht hc hp hpos hnext => exact ⟨h.stopEvent, id, False.elim⟩
  | handed ht hh => exact h.of_between rfl trivial hh
  | abandoned ht hstop => cases h.stopEvent.symm.trans hstop
  | put hc hq => exact ⟨h.stopEvent, h.thread, fun _ => rfl⟩
  | cancelPut ht => exact ⟨h.stopEvent, h.thread, fun _ => rfl⟩
  | raised | handoffFailed | taken | acknowledged | stopped => exact ha.elim

/-- A put that is pending stays so, or is done. -/
theorem put_cases (hup : b.Up) (hl : a.Loops) (hh : b.handoff ≠ none)
    (hs : Stepped parseEvent b a b' o) :
    (a = .put ∧ b'.handoff = none ∧ b'.queue.items ≠ []) ∨
      (a ≠ .put ∧ b'.handoff ≠ none ∧ b'.queue = b.queue) := by
  obtain ⟨c, hc⟩ := hup.handing hh
  cases hs with
  | put hc' hq =>
      obtain ⟨-, hitems, -⟩ := BoundedQueue.putNowait_eq_some.mp hq
      exact Or.inl ⟨rfl, rfl, by simp [hitems]⟩
  | handed _ hnone => exact absurd hnone hh
  | cancelPut ht => exact absurd hc (ht c)
  | checked ht | idle ht | committing ht | committed ht | commitFailed ht | malformed ht | empty ht
  | raised ht | polled _ ht => cases hc.symm.trans ht
  | abandoned _ hstop => cases hup.stopEvent.symm.trans hstop
  | handoffFailed | taken | acknowledged | stopped => exact hl.elim

/-- Every step of the thread brings it closer to its poll. -/
theorem thread_cases (hup : b.Up) (hl : a.Loops) (hs : Stepped parseEvent b a b' o)
    (hno : b.thread ≠ .polling) :
    b'.thread = .polling ∨ b'.thread.stage ≤ b.thread.stage ∧
      ((EngineAct.bridge a).Threads → b'.thread.stage < b.thread.stage) := by
  have hup' := hup.step hl hs
  have hdrained : ∀ final, b'.thread = .drained final → b'.thread = .polling := by
    intro final ht
    have hopen := hup'.thread
    rw [ht, PollThread.final_drained, Bool.not_eq_true] at hopen
    rw [ht, hopen]
    rfl
  cases hs with
  | checked ht | committing ht | handed ht =>
      refine Or.inr ⟨?_, fun _ => ?_⟩ <;> rw [ht] <;> simp [PollThread.stage]
  | idle | committed | commitFailed => exact Or.inl (hdrained _ rfl)
  | malformed ht | polled _ ht | empty ht | raised ht => exact absurd ht hno
  | abandoned _ hstop => cases hup.stopEvent.symm.trans hstop
  | put | cancelPut => exact Or.inr ⟨le_rfl, False.elim⟩
  | handoffFailed | taken | acknowledged | stopped => exact hl.elim

end KafkaConsumerBridge.Up

namespace KafkaConsumerBridge

variable {b b' : KafkaConsumerBridge ε} {log : PartitionKey → Nat → Option ρ}
  {start : PartitionKey → Nat} [DecidableEq ρ]

/-- No position goes back, and a delivery moves its partition on. -/
theorem positionOf_step [DecidableEq ε] {parseEvent : ρ → Option ε} {a : BridgeAct ε ρ}
    {o : List (BridgeObs ε)} (hn : ∀ m, a = .poll (.message m) → b.IsNext log start m)
    (hs : Stepped parseEvent b a b' o) (key : PartitionKey) :
    b.positionOf start key ≤ b'.positionOf start key ∧ ∀ m, a = .poll (.message m) →
      m.key = key → b.positionOf start key < b'.positionOf start key := by
  have hmessage : ∀ m, a = .poll (.message m) →
      b'.position = b.position.set m.key (m.offset + 1) →
      b.positionOf start key ≤ b'.positionOf start key ∧ ∀ m, a = .poll (.message m) →
        m.key = key → b.positionOf start key < b'.positionOf start key := by
    intro m ha hp
    have hfrom := (hn m ha).1
    have hkey : b'.positionOf start key =
        if m.key = key then m.offset + 1 else b.positionOf start key := by
      rw [positionOf, hp, Dict.get?_set]
      split <;> rfl
    rw [hkey]
    split
    · rename_i hk
      subst hk
      exact ⟨by omega, fun _ _ _ => by omega⟩
    · rename_i hk
      refine ⟨le_rfl, fun m' ha' hk' => ?_⟩
      obtain rfl : m' = m := by simpa [ha'] using ha
      exact absurd hk' hk
  cases hs with
  | @malformed m => exact hmessage m rfl rfl
  | polled c ht hc =>
      subst hc
      exact hmessage _ rfl rfl
  | empty ht hr =>
      rcases hr with rfl | rfl <;> exact ⟨le_rfl, by simp⟩
  | _ => exact ⟨le_rfl, by simp⟩

/-- Where there is something to deliver, there is a next message. -/
theorem exists_next {key : PartitionKey} {n : ℕ} {v : ρ} (hle : b.positionOf start key ≤ n)
    (hlog : log key n = some v) : ∃ m : KafkaMessage ρ, m.key = key ∧ b.IsNext log start m := by
  have hex : ∃ i, b.positionOf start key ≤ i ∧ (log key i).isSome = true := ⟨n, hle, by simp [hlog]⟩
  obtain ⟨hfrom, hsome⟩ := Nat.find_spec hex
  obtain ⟨w, hw⟩ := Option.isSome_iff_exists.mp hsome
  refine ⟨⟨key.1, key.2, Nat.find hex, w⟩, rfl, hfrom, hw, fun i hi hpos => ?_⟩
  by_contra hne
  exact Nat.find_min hex hi ⟨hpos, Option.isSome_iff_ne_none.mpr hne⟩

end KafkaConsumerBridge

/-- An engine in the middle of its life. -/
structure DistributionEngine.Up (e : DistributionEngine ε) : Prop where
  task : e.task ≠ .stopped
  shutdown : e.shutdown = false
  consumer : e.consumer.Up

/-- **What a step of a life that goes on does.** -/
inductive LifeStep [DecidableEq ε] (parseEvent : ρ → Option ε) (e : DistributionEngine ε) :
    EngineAct ε ρ → DistributionEngine ε → List (EngineObs ε) → Prop
  | bridge {b consumer obs} (hl : b.Loops)
      (hb : e.consumer.step parseEvent b = some (consumer, obs)) :
      LifeStep parseEvent e (.bridge b) { e with consumer := consumer } (obs.map .bridge)
  | taken {c queue} (ht : e.task = .waiting) (hq : e.consumer.queue.getNowait = some (c, queue)) :
      LifeStep parseEvent e .take
        { e with
          consumer := { e.consumer with queue := queue, taken := c :: e.consumer.taken }
          task := .updating c e.redisRetryInitial } []
  | updated {c backoff} (ht : e.task = .updating c backoff) :
      LifeStep parseEvent e (.updated true) { e with task := .publishing c backoff } [.updateDone c]
  | published {c backoff} (ht : e.task = .publishing c backoff) :
      LifeStep parseEvent e (.published true)
        { e with
          consumer := { e.consumer with
            taken := e.consumer.taken.erase c
            acknowledgements := e.consumer.acknowledgements ++ [c] }
          processed := e.processed + 1
          task := .waiting } [.publishDone c, .bridge (.acknowledged c)]
  | updateFailed {c backoff} (ht : e.task = .updating c backoff) :
      LifeStep parseEvent e (.updated false) (e.failed c backoff) []
  | publishFailed {c backoff} (ht : e.task = .publishing c backoff) :
      LifeStep parseEvent e (.published false) (e.failed c backoff) []
  | retried {c backoff backoff'} (ht : e.task = .backingOff c backoff) :
      LifeStep parseEvent e .retry { e with task := .updating c backoff' } []

section Steps

variable [DecidableEq ε] {parseEvent : ρ → Option ε} {e e' : DistributionEngine ε}
  {a : EngineAct ε ρ} {o : List (EngineObs ε)}

omit [DecidableEq ε] in
theorem DistributionEngine.attempt_of_open (hsd : e.shutdown = false) (c : ConsumedEvent ε)
    (backoff : ℚ) : e.attempt c backoff = { e with task := .updating c backoff } := by
  rw [attempt, hsd]
  exact if_neg (by simp)

/-- **Every step of a life that goes on is one of these.** -/
theorem lifeStep (h : e.Up) (ha : a.KeepsLife) (hs : e.step parseEvent a = some (e', o)) :
    LifeStep parseEvent e a e' o := by
  cases a with
  | bridge b =>
      have hl : b.Loops := ha
      have hstep : ∃ consumer obs, e.consumer.step parseEvent b = some (consumer, obs) ∧
          { e with consumer := consumer } = e' ∧ obs.map EngineObs.bridge = o := by
        cases b with
        | take | acknowledge | stop | handoffFailed => exact hl.elim
        | check | drain | commit | poll | handed | abandoned | put | cancelPut =>
            simp only [DistributionEngine.step] at hs
            split at hs
            · rename_i consumer obs hb
              obtain ⟨rfl, rfl⟩ := Machine.outcome hs
              exact ⟨consumer, obs, hb, rfl, rfl⟩
            · cases hs
      obtain ⟨consumer, obs, hb, rfl, rfl⟩ := hstep
      exact .bridge hl hb
  | take =>
      simp only [DistributionEngine.step] at hs
      split at hs
      · rename_i c queue ht hq
        obtain ⟨rfl, rfl⟩ := Machine.outcome hs
        dsimp only
        rw [DistributionEngine.attempt_of_open]
        · exact .taken ht hq
        · exact h.shutdown
      · cases hs
  | updated ok =>
      simp only [DistributionEngine.step] at hs
      split at hs
      · rename_i c backoff ht
        cases ok with
        | true =>
            obtain ⟨rfl, rfl⟩ := Machine.outcome hs
            exact .updated ht
        | false =>
            obtain ⟨rfl, rfl⟩ := Machine.outcome hs
            exact .updateFailed ht
      · cases hs
  | published ok =>
      simp only [DistributionEngine.step] at hs
      split at hs
      · rename_i c backoff ht
        cases ok with
        | true =>
            obtain ⟨rfl, rfl⟩ := Machine.outcome hs
            exact .published ht
        | false =>
            obtain ⟨rfl, rfl⟩ := Machine.outcome hs
            exact .publishFailed ht
      · cases hs
  | retry =>
      simp only [DistributionEngine.step] at hs
      split at hs
      · rename_i c backoff ht
        obtain ⟨rfl, rfl⟩ := Machine.outcome hs
        dsimp only
        rw [DistributionEngine.attempt_of_open h.shutdown]
        exact .retried ht
      · cases hs
  | shutdown | cancel => exact ha.elim

/-- The life goes on. -/
theorem DistributionEngine.Up.step (h : e.Up) (hl : LifeStep parseEvent e a e' o) : e'.Up := by
  cases hl with
  | bridge hloops hb =>
      exact ⟨h.task, h.shutdown, h.consumer.step hloops (KafkaConsumerBridge.stepped hb)⟩
  | taken | updated | published | updateFailed | publishFailed | retried =>
      exact ⟨by simp [DistributionEngine.failed], h.shutdown,
        ⟨h.consumer.stopEvent, h.consumer.thread, h.consumer.settled⟩⟩

end Steps

/-! ### What a life rests on -/

/-- The valid records an engine has polled, in order. -/
def polledBy (h : List (EngineObs ε)) : List (ConsumedEvent ε) :=
  polls (h.filterMap EngineObs.bridge?)

theorem polledBy_append (h h' : List (EngineObs ε)) :
    polledBy (h ++ h') = polledBy h ++ polledBy h' := by
  rw [polledBy, List.filterMap_append, polls_append]
  rfl

/-- What is in progress and under way. -/
def DistributionEngine.backlog (e : DistributionEngine ε) : List (ConsumedEvent ε) :=
  e.task.current?.toList ++ e.consumer.underWay

/-- The valid records behind the positions have been polled. -/
def Followed (log : PartitionKey → Nat → Option ρ) (start : PartitionKey → Nat)
    (parseEvent : ρ → Option ε) (b : KafkaConsumerBridge ε) (polled : List (ConsumedEvent ε)) :
    Prop :=
  ∀ key n v event, start key ≤ n → n < b.positionOf start key → log key n = some v →
    parseEvent v = some event → ⟨event, key.1, key.2, n⟩ ∈ polled

section Serves

variable [DecidableEq ε] [DecidableEq ρ] {log : PartitionKey → Nat → Option ρ}
  {start : PartitionKey → Nat} {parseEvent : ρ → Option ε}

namespace Followed

variable {b b' : KafkaConsumerBridge ε} {polled new : List (ConsumedEvent ε)}

omit [DecidableEq ε] in
/-- A delivery goes to the next value of its partition. -/
theorem deliver (hI : Followed log start parseEvent b polled) {m : KafkaMessage ρ}
    (hn : b.IsNext log start m) (hp : b'.position = b.position.set m.key (m.offset + 1))
    (hnew : ∀ event, parseEvent m.value = some event →
      ⟨event, m.topic, m.partition, m.offset⟩ ∈ new) :
    Followed log start parseEvent b' (polled ++ new) := by
  intro key n v event hstart hlt hlog hevent
  rw [KafkaConsumerBridge.positionOf, hp, Dict.get?_set] at hlt
  by_cases hk : m.key = key
  · subst hk
    rw [if_pos rfl, Option.getD_some] at hlt
    obtain ⟨-, hvalue, hbetween⟩ := hn
    rcases lt_trichotomy n m.offset with hless | rfl | hmore
    · by_cases hold : n < b.positionOf start m.key
      · exact List.mem_append_left _ (hI m.key n v event hstart hold hlog hevent)
      · cases hlog.symm.trans (hbetween n hless (not_lt.mp hold))
    · obtain rfl : v = m.value := Option.some.inj (hlog.symm.trans hvalue)
      exact List.mem_append_right _ (hnew event hevent)
    · omega
  · rw [if_neg hk] at hlt
    exact List.mem_append_left _ (hI key n v event hstart hlt hlog hevent)

/-- **No valid record is passed over.** -/
theorem step (hI : Followed log start parseEvent b polled) {a : BridgeAct ε ρ}
    {o : List (BridgeObs ε)} (hn : ∀ m, a = .poll (.message m) → b.IsNext log start m)
    (hs : b.step parseEvent a = some (b', o)) :
    Followed log start parseEvent b' (polled ++ polls o) := by
  have hsame : b'.position = b.position → polls o = [] →
      Followed log start parseEvent b' (polled ++ polls o) := by
    intro hp ho
    rw [ho, List.append_nil]
    intro key n v event hstart hlt
    rw [KafkaConsumerBridge.positionOf, hp] at hlt
    exact hI key n v event hstart hlt
  cases KafkaConsumerBridge.stepped hs with
  | @malformed m ht hpos =>
      refine hI.deliver (hn m rfl) rfl fun event hevent => ?_
      -- a record that is not tracked was not valid
      simp only [KafkaConsumerBridge.step, ht, hevent] at hs
      split at hs <;> simp at hs
  | polled c ht hc hp hpos hnext =>
      subst hc
      refine hI.deliver (hn _ rfl) rfl fun event hevent => ?_
      obtain rfl := Option.some.inj (hp.symm.trans hevent)
      exact List.mem_singleton_self _
  | _ => exact hsame rfl rfl

end Followed

/-- An engine in the middle of its life, after what it has done so far. -/
structure Serves (log : PartitionKey → Nat → Option ρ) (start : PartitionKey → Nat)
    (parseEvent : ρ → Option ε) (r : DistributionEngine ε × List (EngineObs ε)) : Prop where
  up : r.1.Up
  inOrder : InOrder r.1 (polledBy r.2) (dones r.2)
  delivered : Delivered r.1.consumer (polledBy r.2)
  followed : Followed log start parseEvent r.1.consumer (polledBy r.2)

namespace Serves

variable {r : DistributionEngine ε × List (EngineObs ε)} {a : EngineAct ε ρ}
  {e' : DistributionEngine ε} {o : List (EngineObs ε)}

omit [DecidableEq ε] [DecidableEq ρ] in
theorem initial (initial max : ℚ) :
    Serves log start parseEvent ({ redisRetryInitial := initial, redisRetryMax := max }, []) where
  up := ⟨by simp, rfl, rfl, id, fun _ => rfl⟩
  inOrder := ⟨List.prefix_rfl, fun _ => ⟨⟨[], rfl, fun _ => rfl⟩, fun _ => rfl⟩⟩
  delivered := ⟨fun c hc => absurd hc List.not_mem_nil, List.Pairwise.nil⟩
  followed key n v event hstart hlt := absurd (hstart.trans_lt hlt) (lt_irrefl _)

omit [DecidableEq ε] [DecidableEq ρ] in
/-- What was polled is published, or is yet to be. -/
theorem split (h : Serves log start parseEvent r) : polledBy r.2 = dones r.2 ++ r.1.backlog := by
  obtain ⟨lost, hp, hl⟩ := (h.inOrder.live h.up.task).split
  rw [hp, hl h.up.consumer.thread, List.append_nil, List.append_assoc]
  rfl

omit [DecidableEq ε] [DecidableEq ρ] in
/-- Nothing is polled twice. -/
theorem nodup (h : Serves log start parseEvent r) : (polledBy r.2).Nodup := by
  refine h.delivered.ascending.imp fun hlt heq => ?_
  exact absurd (hlt (congrArg _ heq)) (by rw [heq]; exact lt_irrefl _)

/-- The life goes on. -/
theorem step (h : Serves log start parseEvent r) (ha : a.KeepsLife)
    (hn : r.1.Follows log start a) (hs : r.1.step parseEvent a = some (e', o)) :
    Serves log start parseEvent (e', r.2 ++ o) := by
  have hl := lifeStep h.up ha hs
  refine ⟨h.up.step hl, ?_, ?_, ?_⟩
  · rw [polledBy_append, dones_append]
    exact h.inOrder.step hs
  · rw [polledBy_append]
    exact h.delivered.forward (Forward.engine_step hs)
  · rw [polledBy_append]
    cases hl with
    | bridge hloops hb =>
        rw [polledBy, polledBy, bridge?_map_bridge]
        refine h.followed.step (fun m hm => hn m ?_) hb
        subst hm
        rfl
    | taken | updated | published | updateFailed | publishFailed | retried =>
        show Followed log start parseEvent r.1.consumer (polledBy r.2 ++ [])
        rw [List.append_nil]
        exact h.followed

end Serves

/-! ### Fairness -/

/-- **A life that goes on.** The scheduler lets both threads run, Redis takes an update and a
publish again and again, and the broker delivers the partition. -/
structure Life (x : Machine.Path (DistributionEngine.stepOn log start parseEvent))
    (key : PartitionKey) : Prop where
  begins : ∃ initial max, x.state 0 = { redisRetryInitial := initial, redisRetryMax := max }
  goesOn : ∀ n a, x.act n = some a → a.KeepsLife
  threads : x.Fair EngineAct.Threads
  puts : x.Fair (· = .bridge .put)
  takes : x.Fair (· = .take)
  retries : x.Fair (· = .retry)
  updates : x.Fair (· = .updated true)
  publishes : x.Fair (· = .published true)
  delivers : x.Fair (EngineAct.Delivers key)

/-- The topic lets every step be taken that delivers nothing. -/
theorem enabled_of_step {A : EngineAct ε ρ → Prop} {e : DistributionEngine ε} {a : EngineAct ε ρ}
    (hA : A a) (hm : a.message? = none) (hs : (e.step parseEvent a).isSome = true) :
    Machine.Enabled (DistributionEngine.stepOn log start parseEvent) A e := by
  obtain ⟨r, hr⟩ := Option.isSome_iff_exists.mp hs
  refine ⟨a, hA, ?_⟩
  rw [DistributionEngine.stepOn, Machine.guarded_eq_some.mpr ⟨fun m h => by simp [hm] at h, hr⟩]
  rfl

theorem thread_enabled {e : DistributionEngine ε} (hup : e.consumer.Up)
    (hnone : e.consumer.handoff = none) (hno : e.consumer.thread ≠ .polling) :
    Machine.Enabled (DistributionEngine.stepOn log start parseEvent) EngineAct.Threads e := by
  cases ht : e.consumer.thread with
  | head =>
      exact enabled_of_step (a := .bridge .check) trivial rfl
        (by simp [DistributionEngine.step, KafkaConsumerBridge.step, ht])
  | draining final =>
      refine enabled_of_step (a := .bridge .drain) trivial rfl ?_
      by_cases he : e.consumer.collect.advances.isEmpty = true <;>
        simp [DistributionEngine.step, KafkaConsumerBridge.step, ht, he]
  | committing final adv =>
      exact enabled_of_step (a := .bridge (.commit true)) trivial rfl
        (by simp [DistributionEngine.step, KafkaConsumerBridge.step, ht])
  | polling => exact absurd ht hno
  | handing c =>
      exact enabled_of_step (a := .bridge .handed) trivial rfl
        (by simp [DistributionEngine.step, KafkaConsumerBridge.step, ht, hnone])
  | closed =>
      refine absurd ?_ hup.thread
      rw [ht]
      trivial

theorem deliver_enabled {e : DistributionEngine ε} (ht : e.consumer.thread = .polling)
    {m : KafkaMessage ρ} (hn : e.consumer.IsNext log start m) :
    Machine.Enabled (DistributionEngine.stepOn log start parseEvent)
      (EngineAct.Delivers m.key) e := by
  refine ⟨.bridge (.poll (.message m)), rfl, ?_⟩
  have hf : e.Follows log start (.bridge (.poll (.message m))) := by
    intro m' hm'
    obtain rfl : m = m' := Option.some.inj hm'
    exact hn
  have hpos : (e.consumer.position.get? m.key).all (fun p => decide (p ≤ m.offset)) = true := by
    have hfrom := hn.1
    unfold KafkaConsumerBridge.positionOf at hfrom
    cases hp : e.consumer.position.get? m.key with
    | none => rfl
    | some p => simpa [hp] using hfrom
  rw [DistributionEngine.stepOn, Machine.guarded, if_pos hf]
  simp only [DistributionEngine.step, KafkaConsumerBridge.step, ht, if_pos hpos]
  cases parseEvent m.value <;> rfl

namespace Life

variable {x : Machine.Path (DistributionEngine.stepOn log start parseEvent)} {key : PartitionKey}

/-- A life rests on the same things at all times. -/
theorem serves (hx : Life x key) (n : ℕ) : Serves log start parseEvent (x.recorded.state n) := by
  refine Machine.Path.stays (x := x.recorded) (C := fun _ => EngineAct.KeepsLife)
    (I := Serves log start parseEvent) (fun n _ => hx.goesOn n) (fun r a t o ha hI hs => ?_) ?_ n
    (Nat.zero_le n)
  · obtain ⟨hs, hrec⟩ := Machine.recorded_eq_some.mp hs
    obtain ⟨hn, hs⟩ := Machine.guarded_eq_some.mp hs
    have hI' := hI.step ha hn hs
    rw [← hrec] at hI'
    exact hI'
  · obtain ⟨initial, max, h0⟩ := hx.begins
    show Serves log start parseEvent (x.state 0, [])
    rw [h0]
    exact .initial initial max

/-- What the steps of a life keep, with what is known of it, goes on to hold. -/
theorem stays (hx : Life x key) {N : ℕ} {K I : DistributionEngine ε × List (EngineObs ε) → Prop}
    (hK : ∀ n ≥ N, K (x.recorded.state n))
    (hstep : ∀ e h a e' o, Serves log start parseEvent (e, h) → K (e, h) → I (e, h) →
      e.Follows log start a → LifeStep parseEvent e a e' o → I (e', h ++ o))
    (hN : I (x.recorded.state N)) : ∀ n ≥ N, I (x.recorded.state n) := by
  refine Machine.Path.stays (x := x.recorded)
    (C := fun r a => a.KeepsLife ∧ Serves log start parseEvent r ∧ K r)
    (fun n hn a ha => ⟨hx.goesOn n a ha, hx.serves n, hK n hn⟩) (fun r a t o hC hI hs => ?_) hN
  obtain ⟨e, h⟩ := r
  obtain ⟨e', h'⟩ := t
  obtain ⟨ha, hS, hk⟩ := hC
  obtain ⟨hs, rfl⟩ := Machine.recorded_eq_some.mp hs
  obtain ⟨hn, hs⟩ := Machine.guarded_eq_some.mp hs
  exact hstep e h a e' o hS hk hI hn (lifeStep hS.up ha hs)

/-- The rank rule for a stretch of a life of which something is known. -/
theorem leadsTo_of (hx : Life x key) {N : ℕ}
    {K p q : DistributionEngine ε × List (EngineObs ε) → Prop} {A : EngineAct ε ρ → Prop}
    (hK : ∀ n ≥ N, K (x.recorded.state n))
    (rank : DistributionEngine ε × List (EngineObs ε) → ℕ) (hfair : x.Fair A)
    (hstep : ∀ e h a e' o, Serves log start parseEvent (e, h) → K (e, h) → p (e, h) → ¬ q (e, h) →
      e.Follows log start a → LifeStep parseEvent e a e' o →
      q (e', h ++ o) ∨ (p (e', h ++ o) ∧ rank (e', h ++ o) ≤ rank (e, h) ∧
        (A a → rank (e', h ++ o) < rank (e, h))))
    (hen : ∀ n ≥ N, (∀ k ≥ n, p (x.recorded.state k) ∧ ¬ q (x.recorded.state k)) →
      ∃ k ≥ n, Machine.Enabled (DistributionEngine.stepOn log start parseEvent) A (x.state k)) :
    x.recorded.LeadsTo N p q := by
  have hmove : ∀ r a t o, (a.KeepsLife ∧ Serves log start parseEvent r ∧ K r) → p r → ¬ q r →
      Machine.recorded (DistributionEngine.stepOn log start parseEvent) r a = some (t, o) →
      q t ∨ (p t ∧ rank t ≤ rank r ∧ (A a → rank t < rank r)) := by
    intro r a t o hC hp hno hs
    obtain ⟨e, h⟩ := r
    obtain ⟨e', h'⟩ := t
    obtain ⟨ha, hS, hk⟩ := hC
    obtain ⟨hs, rfl⟩ := Machine.recorded_eq_some.mp hs
    obtain ⟨hn, hs⟩ := Machine.guarded_eq_some.mp hs
    exact hstep e h a e' o hS hk hp hno hn (lifeStep hS.up ha hs)
  refine .of_rank (C := fun r a => a.KeepsLife ∧ Serves log start parseEvent r ∧ K r) (A := A) rank
    (fun n hn a ha => ⟨hx.goesOn n a ha, hx.serves n, hK n hn⟩) ?_ ?_
    (Machine.Path.fair_recorded hfair) fun n hn hk => ?_
  · intro r a t o hC hp hno hs
    exact (hmove r a t o hC hp hno hs).imp id fun h => ⟨h.1, h.2.1⟩
  · intro r a t o hC hp hno hA hs
    exact (hmove r a t o hC hp hno hs).imp id fun h => h.2.2 hA
  · obtain ⟨k, hkn, he⟩ := hen n hn hk
    exact ⟨k, hkn, Machine.enabled_recorded.mpr he⟩

/-- The rank rule for a stretch of a life. -/
theorem leadsTo (hx : Life x key) {p q : DistributionEngine ε × List (EngineObs ε) → Prop}
    {A : EngineAct ε ρ → Prop} (rank : DistributionEngine ε × List (EngineObs ε) → ℕ)
    (hfair : x.Fair A)
    (hstep : ∀ e h a e' o, Serves log start parseEvent (e, h) → p (e, h) → ¬ q (e, h) →
      e.Follows log start a → LifeStep parseEvent e a e' o →
      q (e', h ++ o) ∨ (p (e', h ++ o) ∧ rank (e', h ++ o) ≤ rank (e, h) ∧
        (A a → rank (e', h ++ o) < rank (e, h))))
    (hen : ∀ n, (∀ k ≥ n, p (x.recorded.state k) ∧ ¬ q (x.recorded.state k)) →
      ∃ k ≥ n, Machine.Enabled (DistributionEngine.stepOn log start parseEvent) A (x.state k)) :
    x.recorded.LeadsTo 0 p q :=
  hx.leadsTo_of (K := fun _ => True) (fun _ _ => trivial) rank hfair
    (fun e h a e' o hS _ => hstep e h a e' o hS) fun n _ => hen n

end Life

/-! ### An engine with nothing to do -/

/-- An engine that polls for ever, before the drain, before the poll and in it. -/
def idleState (e : DistributionEngine ε) (n : ℕ) : DistributionEngine ε :=
  if n % 3 = 0 then e
  else if n % 3 = 1 then { e with consumer := { e.consumer with thread := .draining false } }
  else { e with consumer := { e.consumer with thread := .polling } }

/-- What its polling thread does. -/
def idleAct (n : ℕ) : EngineAct ε ρ :=
  if n % 3 = 0 then .bridge .check
  else if n % 3 = 1 then .bridge .drain
  else .bridge (.poll .nothing)

/-- An engine that waits for its next record, with nothing to commit. -/
structure DistributionEngine.Idle (e : DistributionEngine ε) : Prop where
  task : e.task = .waiting
  thread : e.consumer.thread = .head
  stopEvent : e.consumer.stopEvent = false
  handoff : e.consumer.handoff = none
  queue : e.consumer.queue.items = []
  acknowledgements : e.consumer.acknowledgements = []
  advances : e.consumer.advances.isEmpty = true

namespace DistributionEngine.Idle

variable {e : DistributionEngine ε}

variable (log start parseEvent) in
theorem moved (h : e.Idle) (n : ℕ) :
    Machine.Moved (DistributionEngine.stepOn log start parseEvent) (idleState e n)
      (some (idleAct n)) (idleState e (n + 1)) := by
  have hstep : ∀ {e e' : DistributionEngine ε} {a : EngineAct ε ρ}, a.message? = none →
      e.step parseEvent a = some (e', []) →
      Machine.Moved (DistributionEngine.stepOn log start parseEvent) e (some a) e' := by
    intro e e' a hm hs
    exact .stepped (Machine.guarded_eq_some.mpr ⟨fun m h => by simp [hm] at h, hs⟩)
  have hcases : n % 3 = 0 ∨ n % 3 = 1 ∨ n % 3 = 2 := by omega
  unfold idleState idleAct
  rcases hcases with hn | hn | hn
  · rw [if_pos hn, if_pos hn, if_neg (by omega), if_pos (by omega)]
    refine hstep rfl ?_
    simp [DistributionEngine.step, KafkaConsumerBridge.step, h.thread, h.stopEvent]
  · rw [if_neg (by omega), if_pos hn, if_neg (by omega), if_pos hn, if_neg (by omega),
      if_neg (by omega)]
    refine hstep rfl ?_
    obtain ⟨consumer, processed, redisRetries, shutdown, initial, max, task⟩ := e
    obtain ⟨queue, acks, pending, next, stop, thread, handoff, taken, position, committed⟩ :=
      consumer
    obtain rfl : acks = [] := h.acknowledgements
    have hadv : (KafkaConsumerBridge.advances ⟨queue, [], pending, next, stop, .draining false,
      handoff, taken, position, committed⟩).isEmpty = true := h.advances
    simp [DistributionEngine.step, KafkaConsumerBridge.step, KafkaConsumerBridge.collect, hadv,
      PollThread.drained]
  · rw [if_neg (by omega), if_neg (by omega), if_neg (by omega), if_neg (by omega),
      if_pos (by omega)]
    refine hstep rfl ?_
    obtain ⟨consumer, processed, redisRetries, shutdown, initial, max, task⟩ := e
    obtain ⟨queue, acks, pending, next, stop, thread, handoff, taken, position, committed⟩ :=
      consumer
    obtain rfl : thread = .head := h.thread
    rfl

variable (log start parseEvent) in
/-- The path of an engine with nothing to do. -/
def path (h : e.Idle) : Machine.Path (DistributionEngine.stepOn log start parseEvent) where
  state := idleState e
  act n := some (idleAct n)
  moved := h.moved log start parseEvent

variable (log start parseEvent) in
theorem path_zero (h : e.Idle) : (h.path log start parseEvent).state 0 = e := rfl

omit [DecidableEq ε] in
theorem frame (h : e.Idle) (n : ℕ) : (idleState e n).task = .waiting ∧
    (idleState e n).consumer.handoff = none ∧ (idleState e n).consumer.queue.items = [] ∧
    (idleState e n).consumer.position = e.consumer.position := by
  unfold idleState
  split
  · exact ⟨h.task, h.handoff, h.queue, rfl⟩
  · split <;> exact ⟨h.task, h.handoff, h.queue, rfl⟩

/-- An action that is not enabled in any of its states. -/
theorem fair (h : e.Idle) {A : EngineAct ε ρ → Prop}
    (hno : ∀ n a, A a → (idleState e n).step parseEvent a = none) :
    (h.path log start parseEvent).Fair A := by
  refine Machine.Path.fair_of_disabled fun n henabled => ?_
  obtain ⟨a, hA, hsome⟩ := henabled
  obtain ⟨r, hr⟩ := Option.isSome_iff_exists.mp hsome
  obtain ⟨-, hs⟩ := Machine.guarded_eq_some.mp hr
  cases (hno n a hA).symm.trans hs

/-- There is nothing left to deliver. -/
theorem fair_delivers (h : e.Idle) {key : PartitionKey}
    (hend : ∀ m, m.key = key → ¬ e.consumer.IsNext log start m) :
    (h.path log start parseEvent).Fair (EngineAct.Delivers key) := by
  refine Machine.Path.fair_of_disabled fun n henabled => ?_
  obtain ⟨a, hA, hsome⟩ := henabled
  obtain ⟨r, hr⟩ := Option.isSome_iff_exists.mp hsome
  obtain ⟨hf, -⟩ := Machine.guarded_eq_some.mp hr
  have hp : (idleState e n).consumer.position = e.consumer.position := (h.frame n).2.2.2
  unfold EngineAct.Delivers at hA
  split at hA
  · rename_i m
    have hnext : (idleState e n).consumer.IsNext log start m := hf m rfl
    unfold KafkaConsumerBridge.IsNext KafkaConsumerBridge.positionOf at hnext
    rw [hp] at hnext
    exact hend m hA hnext
  · exact hA

/-- **An engine with nothing to do lives on**, after any life before. -/
theorem life {acts : List (EngineAct ε ρ)} {e₀ : DistributionEngine ε} {h : List (EngineObs ε)}
    {key : PartitionKey} (hi : e.Idle)
    (hr : Machine.run (DistributionEngine.stepOn log start parseEvent) e₀ acts = some (e, h))
    (h₀ : ∃ initial max, e₀ = { redisRetryInitial := initial, redisRetryMax := max })
    (hacts : ∀ a ∈ acts, a.KeepsLife)
    (hend : ∀ m, m.key = key → ¬ e.consumer.IsNext log start m) :
    Life (Machine.Path.prepend hr (hi.path log start parseEvent)
      (hi.path_zero log start parseEvent)) key := by
  have hzero := hi.path_zero log start parseEvent
  refine
    { begins := ?begins
      goesOn := ?goesOn
      threads := ?threads
      puts := Machine.Path.fair_prepend hr hzero (hi.fair ?puts)
      takes := Machine.Path.fair_prepend hr hzero (hi.fair ?takes)
      retries := Machine.Path.fair_prepend hr hzero (hi.fair ?retries)
      updates := Machine.Path.fair_prepend hr hzero (hi.fair ?updates)
      publishes := Machine.Path.fair_prepend hr hzero (hi.fair ?publishes)
      delivers := Machine.Path.fair_prepend hr hzero (hi.fair_delivers hend) }
  case begins =>
    obtain ⟨initial, max, rfl⟩ := h₀
    refine ⟨initial, max, ?_⟩
    cases acts with
    | nil =>
        obtain ⟨rfl, -⟩ : _ = e ∧ [] = h := by simpa using hr
        rfl
    | cons a acts => rfl
  case goesOn =>
    intro n a hact
    by_cases hn : n < acts.length
    · simp only [Machine.Path.prepend, if_pos hn] at hact
      exact hacts a (List.mem_of_getElem? hact)
    · simp only [Machine.Path.prepend, if_neg hn, path, idleAct, Option.some.injEq] at hact
      subst hact
      split
      · trivial
      · split <;> trivial
  case threads =>
    refine Machine.Path.fair_prepend hr hzero fun _ n =>
      ⟨3 * n, by omega, .bridge .check, ?_, trivial⟩
    simp [path, idleAct]
  case puts =>
    intro n a hA
    subst hA
    obtain ⟨-, hh, -, -⟩ := hi.frame n
    simp [DistributionEngine.step, KafkaConsumerBridge.step, hh]
  case takes =>
    intro n a hA
    subst hA
    obtain ⟨ht, -, hq, -⟩ := hi.frame n
    simp [DistributionEngine.step, ht, BoundedQueue.getNowait, hq]
  case retries | updates | publishes =>
    intro n a hA
    subst hA
    simp [DistributionEngine.step, (hi.frame n).1]

/-- Its polls return. -/
theorem fair_polls {acts : List (EngineAct ε ρ)} {e₀ : DistributionEngine ε}
    {h : List (EngineObs ε)}
    (hi : e.Idle)
    (hr : Machine.run (DistributionEngine.stepOn log start parseEvent) e₀ acts = some (e, h)) :
    (Machine.Path.prepend hr (hi.path log start parseEvent)
      (hi.path_zero log start parseEvent)).Fair EngineAct.Polls := by
  refine Machine.Path.fair_prepend hr _ fun _ n =>
    ⟨3 * n + 2, by omega, .bridge (.poll .nothing), ?_,
    trivial⟩
  simp only [path, idleAct]
  rw [if_neg (by omega), if_neg (by omega)]

/-- It has nothing to commit. -/
theorem fair_commits {acts : List (EngineAct ε ρ)} {e₀ : DistributionEngine ε}
    {h : List (EngineObs ε)} (hi : e.Idle)
    (hr : Machine.run (DistributionEngine.stepOn log start parseEvent) e₀ acts = some (e, h)) :
    (Machine.Path.prepend hr (hi.path log start parseEvent)
      (hi.path_zero log start parseEvent)).Fair (· = .bridge (.commit true)) := by
  refine Machine.Path.fair_prepend hr _ (hi.fair fun n a hA => ?_)
  subst hA
  unfold idleState
  split
  · simp [DistributionEngine.step, KafkaConsumerBridge.step, hi.thread]
  · split <;> rfl

end DistributionEngine.Idle

end Serves

end MarketData.Engine
