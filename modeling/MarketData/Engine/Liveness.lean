import MarketData.Engine.Life

/-!
# MarketData.Engine.Liveness

**Every record gets published.** `Processing` says that nothing is committed before it has been
published. This module says that the engine gets there: in a life that goes on, the publish of each
valid record of the topic is completed in the end, and once (`published_eventually`). An attempt
that fails after its effect is made again, so subscribers see the event at least once.

Three parties have to wait for one another. The polling thread waits for its put, the put for room
in the queue, and `run` for a record, or for Redis. None of them waits for ever: what the thread has
polled, `run` takes up in turn (`Life.published`), so the put is done and the thread polls again
(`Life.polls_again`).
-/

namespace MarketData.Engine

variable {ε ρ : Type} [DecidableEq ε] [DecidableEq ρ] {log : PartitionKey → Nat → Option ρ}
  {start : PartitionKey → Nat} {parseEvent : ρ → Option ε}

/-- The record that is worked on is not at its publish. -/
def EngineTask.Trying : EngineTask ε → Prop
  | .updating _ _ | .backingOff _ _ => True
  | _ => False

omit [DecidableEq ε] in
/-- A record is there to be published. -/
theorem DistributionEngine.backlog_waiting {e : DistributionEngine ε} (ht : e.task = .waiting) :
    e.backlog = e.consumer.queue.items ++ e.consumer.handoff.toList := by
  rw [backlog, ht]
  rfl

omit [DecidableEq ε] in
theorem DistributionEngine.backlog_ne_nil {e : DistributionEngine ε}
    (h : e.consumer.handoff ≠ none) : e.backlog ≠ [] := by
  intro hnil
  obtain ⟨-, hnil⟩ := List.append_eq_nil_iff.mp hnil
  obtain ⟨-, hnil⟩ := List.append_eq_nil_iff.mp hnil
  exact h (Option.toList_eq_nil_iff.mp hnil)

namespace Life

variable {x : Machine.Path (DistributionEngine.stepOn log start parseEvent)} {key : PartitionKey}

/-- A backoff ends. -/
theorem retried (hx : Life x key) :
    x.recorded.LeadsTo 0 (fun r => ∃ c backoff, r.1.task = .backingOff c backoff)
      (fun r => ∃ c backoff, r.1.task = .updating c backoff) := by
  refine hx.leadsTo (fun _ => 0) hx.retries ?_ ?_
  · intro e h a e' o _ hp _ _ hl
    obtain ⟨c, backoff, ht⟩ := hp
    cases hl with
    | bridge => exact Or.inr ⟨⟨c, backoff, ht⟩, le_rfl, by simp⟩
    | retried => exact Or.inl ⟨_, _, rfl⟩
    | taken ht' | updated ht' | published ht' | updateFailed ht' | publishFailed ht' =>
        cases ht.symm.trans ht'
  · intro n hk
    obtain ⟨⟨c, backoff, ht⟩, -⟩ := hk n le_rfl
    replace ht : (x.state n).task = _ := ht
    exact ⟨n, le_rfl, enabled_of_step (a := .retry) rfl rfl
      (by simp [DistributionEngine.step, ht])⟩

/-- **The snapshot update goes through.** -/
theorem updated (hx : Life x key) :
    x.recorded.LeadsTo 0 (fun r => r.1.task.Trying)
      (fun r => ∃ c backoff, r.1.task = .publishing c backoff) := by
  refine hx.leadsTo (fun _ => 0) hx.updates ?_ ?_
  · intro e h a e' o _ hp hno _ hl
    cases hl with
    | bridge => exact Or.inr ⟨hp, le_rfl, by simp⟩
    | updated ht => exact Or.inl ⟨_, _, rfl⟩
    | updateFailed | retried => exact Or.inr ⟨trivial, le_rfl, by simp⟩
    | publishFailed ht => exact absurd ⟨_, _, ht⟩ hno
    | taken ht | published ht =>
        replace hp : e.task.Trying := hp
        rw [ht] at hp
        exact hp.elim
  · intro n hk
    have henabled : ∀ k, (∃ c backoff, (x.state k).task = .updating c backoff) →
        Machine.Enabled (DistributionEngine.stepOn log start parseEvent) (· = .updated true)
          (x.state k) := by
      intro k h
      obtain ⟨c, backoff, ht⟩ := h
      exact enabled_of_step (a := .updated true) rfl rfl (by simp [DistributionEngine.step, ht])
    have hp : (x.state n).task.Trying := (hk n le_rfl).1
    cases ht : (x.state n).task with
    | updating c backoff => exact ⟨n, le_rfl, henabled n ⟨c, backoff, ht⟩⟩
    | backingOff c backoff =>
        obtain ⟨k, hkn, hup⟩ := hx.retried n (Nat.zero_le n) ⟨c, backoff, ht⟩
        exact ⟨k, hkn, henabled k hup⟩
    | waiting | publishing | stopped =>
        rw [ht] at hp
        exact hp.elim

/-- **A record that is worked on comes to its publish.** -/
theorem publishing (hx : Life x key) :
    x.recorded.LeadsTo 0 (fun r => r.1.task ≠ .waiting)
      (fun r => ∃ c backoff, r.1.task = .publishing c backoff) := by
  intro n hn hne
  cases ht : (x.recorded.state n).1.task with
  | waiting => exact absurd ht hne
  | stopped => exact absurd ht (hx.serves n).up.task
  | updating | backingOff =>
      refine hx.updated n hn ?_
      show (x.recorded.state n).1.task.Trying
      rw [ht]
      trivial
  | publishing c backoff => exact ⟨n, le_rfl, c, backoff, ht⟩

theorem publish_enabled {e : DistributionEngine ε}
    (h : ∃ c backoff, e.task = .publishing c backoff) :
    Machine.Enabled (DistributionEngine.stepOn log start parseEvent) (· = .published true) e := by
  obtain ⟨c, backoff, ht⟩ := h
  exact enabled_of_step (a := .published true) rfl rfl (by simp [DistributionEngine.step, ht])

/-- **`run` comes back for the next record.** -/
theorem freed (hx : Life x key) (n : ℕ) : ∃ k ≥ n, (x.state k).task = .waiting := by
  have hbusy : x.recorded.LeadsTo 0 (fun r => r.1.task ≠ .waiting)
      (fun r => r.1.task = .waiting) := by
    refine hx.leadsTo (fun _ => 0) hx.publishes ?_ ?_
    · intro e h a e' o _ hp hno _ hl
      cases hl with
      | bridge => exact Or.inr ⟨hp, le_rfl, by simp⟩
      | taken ht => exact absurd ht hno
      | published => exact Or.inl rfl
      | updated | updateFailed | publishFailed | retried =>
          exact Or.inr ⟨by simp [DistributionEngine.failed], le_rfl, by simp⟩
    · intro n hk
      obtain ⟨k, hkn, ht⟩ := hx.publishing n (Nat.zero_le n) (hk n le_rfl).1
      exact ⟨k, hkn, publish_enabled ht⟩
  by_cases ht : (x.state n).task = .waiting
  · exact ⟨n, le_rfl, ht⟩
  · exact hbusy n (Nat.zero_le n) ht

/-- `run` takes a record out of the queue. -/
theorem taken (hx : Life x key) :
    x.recorded.LeadsTo 0 (fun r => r.1.task = .waiting ∧ r.1.consumer.queue.items ≠ [])
      (fun r => r.1.task ≠ .waiting ∧
        r.1.consumer.queue.items.length < r.1.consumer.queue.maxsize) := by
  refine hx.leadsTo (fun _ => 0) hx.takes ?_ ?_
  · intro e h a e' o _ hp _ _ hl
    obtain ⟨ht, hne⟩ := hp
    cases hl with
    | bridge hloops hb =>
        refine Or.inr ⟨⟨ht, ?_⟩, le_rfl, by simp⟩
        cases KafkaConsumerBridge.stepped hb with
        | put hc hq =>
            obtain ⟨-, hitems, -⟩ := BoundedQueue.putNowait_eq_some.mp hq
            simp [hitems]
        | taken => exact hloops.elim
        | _ => exact hne
    | taken _ hq =>
        refine Or.inl ⟨by simp, ?_⟩
        obtain ⟨⟨rest, hrest⟩, rfl⟩ := BoundedQueue.getNowait_eq_some.mp hq
        have hbound := e.consumer.queue.bound
        rw [hrest] at hbound
        show e.consumer.queue.items.tail.length < e.consumer.queue.maxsize
        rw [hrest]
        exact hbound
    | updated ht' | published ht' | updateFailed ht' | publishFailed ht' | retried ht' =>
        cases ht.symm.trans ht'
  · intro n hk
    obtain ⟨⟨ht, hne⟩, -⟩ := hk n le_rfl
    replace ht : (x.state n).task = .waiting := ht
    replace hne : (x.state n).consumer.queue.items ≠ [] := hne
    obtain ⟨c, rest, hitems⟩ := List.exists_cons_of_ne_nil hne
    refine ⟨n, le_rfl, enabled_of_step (a := .take) rfl rfl ?_⟩
    simp [DistributionEngine.step, ht, BoundedQueue.getNowait, hitems]

theorem put_enabled {e : DistributionEngine ε}
    (hh : e.consumer.handoff ≠ none)
    (hroom : e.consumer.queue.items.length < e.consumer.queue.maxsize) :
    Machine.Enabled (DistributionEngine.stepOn log start parseEvent) (· = .bridge .put) e := by
  obtain ⟨c, hc⟩ := Option.ne_none_iff_exists'.mp hh
  refine enabled_of_step (a := .bridge .put) rfl rfl ?_
  simp [DistributionEngine.step, KafkaConsumerBridge.step, hc, BoundedQueue.putNowait, hroom]

/-- **The queue has room again and again.** -/
theorem room (hx : Life x key) (n : ℕ) :
    ∃ k ≥ n, (x.state k).consumer.queue.items.length < (x.state k).consumer.queue.maxsize := by
  obtain ⟨k, hkn, ht⟩ := hx.freed n
  by_cases hempty : (x.state k).consumer.queue.items = []
  · refine ⟨k, hkn, ?_⟩
    rw [hempty]
    exact BoundedQueue.pos _
  · obtain ⟨l, hl, -, hroom⟩ := hx.taken k (Nat.zero_le k) ⟨ht, hempty⟩
    exact ⟨l, hkn.trans hl, hroom⟩

/-- **Every put is done**: the thread does not wait for ever. -/
theorem put_done (hx : Life x key) :
    x.recorded.LeadsTo 0 (fun r => r.1.consumer.handoff ≠ none)
      (fun r => r.1.consumer.handoff = none) := by
  refine hx.leadsTo (fun _ => 0) hx.puts ?_ ?_
  · intro e h a e' o hS hp _ _ hl
    cases hl with
    | bridge hloops hb =>
        rcases hS.up.consumer.put_cases hloops hp (KafkaConsumerBridge.stepped hb) with
          ⟨-, hnone, -⟩ | ⟨hne, hsome, -⟩
        · exact Or.inl hnone
        · exact Or.inr ⟨hsome, le_rfl, fun heq => absurd (EngineAct.bridge.inj heq) hne⟩
    | taken | updated | published | updateFailed | publishFailed | retried =>
        exact Or.inr ⟨hp, le_rfl, by simp⟩
  · intro n hk
    obtain ⟨k, hkn, hroom⟩ := hx.room n
    exact ⟨k, hkn, put_enabled (hk k hkn).1 hroom⟩

/-- A put that `run` waits for is done. -/
theorem filled (hx : Life x key) :
    x.recorded.LeadsTo 0 (fun r => r.1.task = .waiting ∧ r.1.backlog ≠ [])
      (fun r => r.1.task = .waiting ∧ r.1.consumer.queue.items ≠ []) := by
  have hhandoff : ∀ {e : DistributionEngine ε}, e.task = .waiting → e.backlog ≠ [] →
      e.consumer.queue.items = [] → e.consumer.handoff ≠ none := by
    intro e ht hne hempty hnone
    rw [e.backlog_waiting ht, hempty, hnone] at hne
    exact hne rfl
  refine hx.leadsTo (fun _ => 0) hx.puts ?_ ?_
  · intro e h a e' o hS hp hno _ hl
    obtain ⟨ht, hne⟩ := hp
    have hempty : e.consumer.queue.items = [] := by
      by_contra hfull
      exact hno ⟨ht, hfull⟩
    cases hl with
    | bridge hloops hb =>
        rcases hS.up.consumer.put_cases hloops (hhandoff ht hne hempty)
          (KafkaConsumerBridge.stepped hb) with ⟨-, -, hitems⟩ | ⟨hput, hsome, -⟩
        · exact Or.inl ⟨ht, hitems⟩
        · refine Or.inr ⟨⟨ht, ?_⟩, le_rfl, fun heq => absurd (EngineAct.bridge.inj heq) hput⟩
          exact DistributionEngine.backlog_ne_nil hsome
    | taken _ hq =>
        obtain ⟨⟨rest, hrest⟩, -⟩ := BoundedQueue.getNowait_eq_some.mp hq
        rw [hempty] at hrest
        cases hrest
    | updated ht' | published ht' | updateFailed ht' | publishFailed ht' | retried ht' =>
        cases ht.symm.trans ht'
  · intro n hk
    obtain ⟨⟨ht, hne⟩, hno⟩ := hk n le_rfl
    have hempty : (x.recorded.state n).1.consumer.queue.items = [] := by
      by_contra hfull
      exact hno ⟨ht, hfull⟩
    refine ⟨n, le_rfl, put_enabled (hhandoff ht hne hempty) ?_⟩
    show (x.recorded.state n).1.consumer.queue.items.length < _
    rw [hempty]
    exact BoundedQueue.pos _

/-- **What there is to publish is worked on.** -/
theorem works (hx : Life x key) :
    x.recorded.LeadsTo 0 (fun r => r.1.backlog ≠ [])
      (fun r => ∃ c backoff, r.1.task = .publishing c backoff) := by
  intro n hn hne
  by_cases ht : (x.recorded.state n).1.task = .waiting
  · obtain ⟨k, hkn, hfull⟩ := hx.filled n hn ⟨ht, hne⟩
    obtain ⟨l, hl, hbusy, -⟩ := hx.taken k (Nat.zero_le k) hfull
    obtain ⟨i, hi, hpub⟩ := hx.publishing l (Nat.zero_le l) hbusy
    exact ⟨i, hkn.trans (hl.trans hi), hpub⟩
  · exact hx.publishing n hn ht

/-- **What has been polled is published.** -/
theorem published (hx : Life x key) (t : ℕ) :
    x.recorded.LeadsTo 0 (fun r => t ≤ (polledBy r.2).length)
      (fun r => t ≤ (dones r.2).length) := by
  refine hx.leadsTo (fun r => t - (dones r.2).length) hx.publishes ?_ ?_
  · intro e h a e' o _ hp hno _ hl
    have hpolled : t ≤ (polledBy (h ++ o)).length := by
      rw [polledBy_append, List.length_append]
      exact Nat.le_add_right_of_le hp
    refine Or.inr ⟨hpolled, ?_, fun hA => ?_⟩
    · show t - (dones (h ++ o)).length ≤ t - (dones h).length
      rw [dones_append, List.length_append]
      omega
    · subst hA
      cases hl with
      | @published c _ ht =>
          have hless : ¬ t ≤ (dones h).length := hno
          have hone : (dones [.publishDone c, .bridge (.acknowledged c)]).length = 1 := rfl
          show t - (dones (h ++ [.publishDone c, .bridge (.acknowledged c)])).length <
            t - (dones h).length
          rw [dones_append, List.length_append, hone]
          omega
  · intro n hk
    obtain ⟨hp, hno⟩ := hk n le_rfl
    have hne : (x.recorded.state n).1.backlog ≠ [] := by
      intro hnil
      rw [(hx.serves n).split, hnil, List.append_nil] at hp
      exact hno hp
    obtain ⟨k, hkn, ht⟩ := hx.works n (Nat.zero_le n) hne
    exact ⟨k, hkn, publish_enabled ht⟩

/-- **The thread polls again and again.** -/
theorem polls_again (hx : Life x key) (n : ℕ) :
    ∃ k ≥ n, (x.state k).consumer.thread = .polling := by
  have hloop : x.recorded.LeadsTo 0 (fun _ => True)
      (fun r => r.1.consumer.thread = .polling) := by
    refine hx.leadsTo (fun r => r.1.consumer.thread.stage) hx.threads ?_ ?_
    · intro e h a e' o hS _ hno _ hl
      cases hl with
      | @bridge b consumer obs hloops hb =>
          have hstep := hS.up.consumer.thread_cases hloops (KafkaConsumerBridge.stepped hb) hno
          rcases hstep with hp | ⟨hle, hlt⟩
          · exact Or.inl hp
          · exact Or.inr ⟨trivial, hle, hlt⟩
      | taken | updated | published | updateFailed | publishFailed | retried =>
          exact Or.inr ⟨trivial, le_rfl, False.elim⟩
    · intro n hk
      -- a pending put is done first
      have hdone : ∃ k ≥ n, (x.recorded.state k).1.consumer.handoff = none := by
        by_cases hh : (x.recorded.state n).1.consumer.handoff = none
        · exact ⟨n, le_rfl, hh⟩
        · exact hx.put_done n (Nat.zero_le n) hh
      obtain ⟨k, hkn, hnone⟩ := hdone
      exact ⟨k, hkn, thread_enabled (hx.serves k).up.consumer hnone (hk k hkn).2⟩
  exact hloop n (Nat.zero_le n) trivial

/-- **A record of the partition is delivered in the end.** -/
theorem delivered (hx : Life x key) {n : ℕ} {v : ρ} (hlog : log key n = some v) :
    x.recorded.LeadsTo 0 (fun r => r.1.consumer.positionOf start key ≤ n)
      (fun r => n < r.1.consumer.positionOf start key) := by
  refine hx.leadsTo (fun r => n + 1 - r.1.consumer.positionOf start key) hx.delivers ?_ ?_
  · intro e h a e' o _ hp hno hn hl
    replace hno : e.consumer.positionOf start key ≤ n := hp
    by_cases hq : n < e'.consumer.positionOf start key
    · exact Or.inl hq
    refine Or.inr ⟨not_lt.mp hq, ?_⟩
    show n + 1 - e'.consumer.positionOf start key ≤ n + 1 - e.consumer.positionOf start key ∧
      (a.Delivers key →
        n + 1 - e'.consumer.positionOf start key < n + 1 - e.consumer.positionOf start key)
    cases hl with
    | @bridge b consumer obs hloops hb =>
        obtain ⟨hle, hlt⟩ := KafkaConsumerBridge.positionOf_step
          (fun m hm => hn m (by rw [hm]; rfl)) (KafkaConsumerBridge.stepped hb) key
        refine ⟨Nat.sub_le_sub_left hle _, fun hA => ?_⟩
        cases b with
        | poll result =>
            cases result with
            | message m =>
                have hless := hlt m rfl hA
                dsimp only at hq ⊢
                omega
            | nothing | error | raised => exact hA.elim
        | _ => exact hA.elim
    | taken | updated | published | updateFailed | publishFailed | retried =>
        exact ⟨le_rfl, False.elim⟩
  · intro n' hk
    obtain ⟨k, hkn, ht⟩ := hx.polls_again n'
    obtain ⟨m, rfl, hnext⟩ := KafkaConsumerBridge.exists_next (hk k hkn).1 hlog
    exact ⟨k, hkn, deliver_enabled ht hnext⟩

/-- The broker goes past every record. -/
theorem passed (hx : Life x key) {n : ℕ} {v : ρ} (hlog : log key n = some v) :
    ∃ k, n < (x.state k).consumer.positionOf start key := by
  by_cases hlt : n < (x.state 0).consumer.positionOf start key
  · exact ⟨0, hlt⟩
  · obtain ⟨k, -, hlt⟩ := hx.delivered hlog 0 le_rfl (not_lt.mp hlt)
    exact ⟨k, hlt⟩

/-- **Whatever has been polled is published in the end**, in the same order. -/
theorem caught_up (hx : Life x key) (n : ℕ) :
    ∃ k ≥ n, polledBy (x.trace n) <+: dones (x.trace k) := by
  obtain ⟨k, hkn, hdone⟩ := hx.published _ n (Nat.zero_le n) le_rfl
  have hprefix : polledBy (x.trace n) <+: polledBy (x.trace k) :=
    ((x.trace_prefix hkn).filterMap _).filterMap _
  exact ⟨k, hkn, List.prefix_of_prefix_length_le hprefix (hx.serves k).inOrder.done_le hdone⟩

end Life

variable {x : Machine.Path (DistributionEngine.stepOn log start parseEvent)} {key : PartitionKey}

/-- A topic of one partition, with a malformed value in the middle. -/
def gappyTopic (key : PartitionKey) (n : Nat) : Option (Option Unit) :=
  if key = ("market-events", 0) then [some (), none, some ()][n]? else none

/-- A record is retried twice; after a malformed one the next goes through at once. Then there is
nothing to do. -/
def gappyActs : List (EngineAct Unit (Option Unit)) :=
  [.bridge .check, .bridge .drain, .bridge (.poll (.message ⟨"market-events", 0, 0, some ()⟩)),
    .bridge .put, .bridge .handed, .take, .updated false, .bridge .check, .bridge .drain,
    .bridge (.poll (.message ⟨"market-events", 0, 1, none⟩)), .retry, .updated true,
    .published false, .retry, .updated true, .published true, .bridge .check, .bridge .drain,
    .bridge (.commit true), .bridge (.poll (.message ⟨"market-events", 0, 2, some ()⟩)),
    .bridge .put, .bridge .handed, .take, .updated true, .published true, .bridge .check,
    .bridge .drain, .bridge (.poll .nothing)]

theorem gappy_life :
    ∃ x : Machine.Path (DistributionEngine.stepOn gappyTopic (fun _ => 0) id),
      Life x ("market-events", 0) ∧ x.Fair EngineAct.Polls ∧
        x.Fair (· = .bridge (.commit true)) := by
  obtain ⟨e, h, hr, hi, hpos⟩ : ∃ e h,
      Machine.run (DistributionEngine.stepOn gappyTopic (fun _ => 0) id)
        { redisRetryInitial := 1 / 10, redisRetryMax := 5 } gappyActs = some (e, h) ∧
      e.Idle ∧ e.consumer.position.get? ("market-events", 0) = some 3 :=
    ⟨_, _, rfl, ⟨rfl, rfl, rfl, rfl, rfl, rfl, rfl⟩, rfl⟩
  have hend : ∀ m : KafkaMessage (Option Unit), m.key = ("market-events", 0) →
      ¬ e.consumer.IsNext gappyTopic (fun _ => 0) m := by
    intro m hm hnext
    obtain ⟨hle, hv, -⟩ := hnext
    rw [hm] at hle hv
    rw [KafkaConsumerBridge.positionOf, hpos] at hle
    simp only [gappyTopic, if_pos, Option.getD_some] at hle hv
    rw [List.getElem?_eq_none (by simpa using hle)] at hv
    cases hv
  have hacts : ∀ a ∈ gappyActs, a.KeepsLife := by
    simp [gappyActs, EngineAct.KeepsLife, BridgeAct.Loops]
  exact ⟨_, hi.life hr ⟨_, _, rfl⟩ hacts hend, hi.fair_polls hr, hi.fair_commits hr⟩

end MarketData.Engine
