import MarketData.Engine.Liveness
import MarketData.Engine.Progress

/-!
# MarketData.Engine.CommitLiveness

**How far the commits get.** `Liveness` says that every valid record of a partition is published in
the end. It is not always committed: `Progress` says when a drain gets past a record. Here the two
meet. In a life in which commits go through again and again, the broker's position gets past a valid
record for good if and only if from the first valid record of the partition on every offset carries
one (`committed_eventually_iff`). What stands behind the first hole is published again in the next
life, however long this one has been.
-/

namespace MarketData.Engine

open KafkaConsumerBridge

variable {ε ρ : Type}

/-! ### Records of a topic -/

/-- The record is in the topic, behind the start of its partition. -/
def InTopic (log : PartitionKey → Nat → Option ρ) (start : PartitionKey → Nat)
    (parseEvent : ρ → Option ε) (c : ConsumedEvent ε) : Prop :=
  start c.key ≤ c.offset ∧ ∃ v, log c.key c.offset = some v ∧ parseEvent v = some c.event

/-- Every offset from the first valid record of the partition up to `n` carries a valid record. -/
def HoleFree (log : PartitionKey → Nat → Option ρ) (start : PartitionKey → Nat)
    (parseEvent : ρ → Option ε) (key : PartitionKey) (n : Nat) : Prop :=
  ∀ c, InTopic log start parseEvent c → c.key = key → ∀ i, c.offset ≤ i → i ≤ n →
    ∃ c', InTopic log start parseEvent c' ∧ c'.key = key ∧ c'.offset = i

/-- All records of the partition up to `n` have been published. -/
def DoneUpTo (log : PartitionKey → Nat → Option ρ) (start : PartitionKey → Nat)
    (parseEvent : ρ → Option ε) (key : PartitionKey) (n : Nat)
    (r : DistributionEngine ε × List (EngineObs ε)) : Prop :=
  ∀ c, InTopic log start parseEvent c → c.key = key → c.offset ≤ n → c ∈ dones r.2

/-- And none of their acknowledgements is still queued. -/
structure Collected (log : PartitionKey → Nat → Option ρ) (start : PartitionKey → Nat)
    (parseEvent : ρ → Option ε) (key : PartitionKey) (n : Nat)
    (r : DistributionEngine ε × List (EngineObs ε)) : Prop where
  done : DoneUpTo log start parseEvent key n r
  queued : ∀ c ∈ r.1.consumer.acknowledgements, c.key = key → n < c.offset

/-- The broker's position of the partition is past `n`. -/
def Past (key : PartitionKey) (n : Nat) (b : KafkaConsumerBridge ε) : Prop :=
  ∃ p, b.committed.get? key = some p ∧ n < p

/-! ### The books of a life -/

/-- Without a commit the cursor is in front of all records. -/
def Unmoved (b : KafkaConsumerBridge ε) (polled : ConsumedEvent ε → Prop) : Prop :=
  ∀ key, b.committed.get? key = none → ∀ m, b.nextCommitOffsets.get? key = some m →
    ∀ c, polled c → c.key = key → m ≤ c.offset

section Books

variable [DecidableEq ε] {parseEvent : ρ → Option ε}

/-- A cursor that is set starts in front of what comes. -/
theorem Unmoved.step {b b' : KafkaConsumerBridge ε} {a : BridgeAct ε ρ} {o h : List (BridgeObs ε)}
    (hU : Unmoved b (fun c => .polled c ∈ h))
    (hI : Ledger b (fun c => .polled c ∈ h) (fun c => .acknowledged c ∈ h))
    (hs : b.step parseEvent a = some (b', o)) : Unmoved b' (fun c => .polled c ∈ h ++ o) := by
  have hsame : b'.committed = b.committed → b'.nextCommitOffsets = b.nextCommitOffsets →
      (∀ c, .polled c ∉ o) → Unmoved b' (fun c => .polled c ∈ h ++ o) := by
    intro hc hn ho key hnone m hm c hpc hk
    rw [hc] at hnone
    rw [hn] at hm
    exact hU key hnone m hm c ((List.mem_append.mp hpc).resolve_right (ho c)) hk
  cases KafkaConsumerBridge.stepped hs with
  | committed ht =>
      obtain rfl := hI.committing _ _ ht
      intro key hnone m hm c hpc hk
      replace hnone : (b.settle b.advances).committed.get? key = none := hnone
      replace hm : (b.settle b.advances).nextCommitOffsets.get? key = some m := hm
      rw [committed_settle] at hnone
      rw [nextCommitOffsets_settle] at hm
      cases hadv : b.advances.get? key with
      | some adv => simp [hadv] at hnone
      | none =>
          rw [hadv] at hnone hm
          exact hU key hnone m hm c (by simpa using hpc) hk
  | @polled m event next c ht hc hp hpos hnext =>
      intro key hnone n hn c' hpc hk
      replace hn : next.get? key = some n := hn
      rw [trackConsumed_get? hnext] at hn
      cases hold : b.nextCommitOffsets.get? key with
      | some n' =>
          obtain rfl : n' = n := by simpa [hold] using hn
          rcases List.mem_append.mp hpc with hpc | hpc
          · exact hU key hnone n' hold c' hpc hk
          · obtain rfl : c' = c := by simpa using hpc
            obtain ⟨p, hposp, hle⟩ := hI.next_le key n' hold
            exact hle.trans (hpos p (by rw [hk]; exact hposp))
      | none =>
          rcases List.mem_append.mp hpc with hpc | hpc
          · have htracked := hI.tracked c' hpc
            rw [hk, hold] at htracked
            cases htracked
          · obtain rfl : c' = c := by simpa using hpc
            rw [hold, Option.none_or, if_pos hk] at hn
            exact (Option.some.inj hn).ge
  | committing => exact hsame rfl rfl (by simp)
  | acknowledged => exact hsame rfl rfl (by simp)
  | _ => exact hsame rfl rfl (by simp)

/-- The publish and the acknowledgement of a record are one step. -/
theorem acknowledged_iff_step {e e' : DistributionEngine ε} {a : EngineAct ε ρ}
    {o : List (EngineObs ε)} (hs : e.step parseEvent a = some (e', o)) (c : ConsumedEvent ε) :
    .acknowledged c ∈ o.filterMap EngineObs.bridge? ↔ c ∈ dones o := by
  cases DistributionEngine.stepped hs with
  | bridge b consumer obs ht ha hb =>
      rw [bridge?_map_bridge, dones_map_bridge]
      exact iff_of_false (KafkaConsumerBridge.step_not_acknowledged hb ha c) List.not_mem_nil
  | published c' => simp [dones, EngineObs.bridge?, EngineObs.publishDone?, eq_comm]
  | updated => simp [dones, EngineObs.bridge?, EngineObs.publishDone?]
  | taken | failed | attempt | halt => exact iff_of_false List.not_mem_nil List.not_mem_nil

theorem acknowledged_iff {e e' : DistributionEngine ε} {acts : List (EngineAct ε ρ)}
    {h : List (EngineObs ε)}
    (hr : Machine.run (DistributionEngine.step parseEvent) e acts = some (e', h))
    (c : ConsumedEvent ε) : .acknowledged c ∈ h.filterMap EngineObs.bridge? ↔ c ∈ dones h := by
  refine Machine.run_invariant (I := fun _ h =>
    (.acknowledged c ∈ h.filterMap EngineObs.bridge? ↔ c ∈ dones h)) (fun s a t o h hI hs => ?_)
    (iff_of_false List.not_mem_nil List.not_mem_nil) hr
  rw [List.filterMap_append, dones_append, List.mem_append, List.mem_append, hI,
    acknowledged_iff_step hs]

end Books

/-- The books of a life, after what it has done so far. -/
structure Booked (log : PartitionKey → Nat → Option ρ) (start : PartitionKey → Nat)
    (parseEvent : ρ → Option ε) (r : DistributionEngine ε × List (EngineObs ε)) : Prop where
  ledger : Ledger r.1.consumer (· ∈ polledBy r.2) (· ∈ dones r.2)
  unmoved : Unmoved r.1.consumer (· ∈ polledBy r.2)
  /-- What has been polled is in the topic. -/
  genuine : ∀ c ∈ polledBy r.2, InTopic log start parseEvent c

theorem mem_polledBy {h : List (EngineObs ε)} {c : ConsumedEvent ε} :
    c ∈ polledBy h ↔ .polled c ∈ h.filterMap EngineObs.bridge? := by
  unfold polledBy polls
  rw [List.mem_filterMap]
  constructor
  · intro hmem
    obtain ⟨o, ho, hc⟩ := hmem
    cases o with
    | polled c' =>
        obtain rfl : c' = c := Option.some.inj hc
        exact ho
    | acknowledged | commit => cases hc
  · intro hmem
    exact ⟨_, hmem, rfl⟩

variable [DecidableEq ε] [DecidableEq ρ] {log : PartitionKey → Nat → Option ρ}
  {start : PartitionKey → Nat} {parseEvent : ρ → Option ε}
  {x : Machine.Path (DistributionEngine.stepOn log start parseEvent)} {key : PartitionKey} {n : ℕ}

namespace Life

/-- No position is in front of the start. -/
theorem start_le (hx : Life x key) (k : ℕ) (key' : PartitionKey) :
    start key' ≤ (x.state k).consumer.positionOf start key' := by
  refine hx.stays (N := 0) (K := fun _ => True)
    (I := fun r => start key' ≤ r.1.consumer.positionOf start key') (fun _ _ => trivial) ?_ ?_ k
    (Nat.zero_le k)
  · intro e h a e' o _ _ hI hn hl
    cases hl with
    | bridge _ hb =>
        exact hI.trans (positionOf_step (fun m hm => hn m (by rw [hm]; rfl)) (stepped hb) key').1
    | taken | updated | published | updateFailed | publishFailed | retried => exact hI
  · obtain ⟨initial, max, h0⟩ := hx.begins
    show start key' ≤ (x.state 0).consumer.positionOf start key'
    rw [h0]
    exact le_rfl

/-- What a life has polled is in the topic. -/
theorem genuine (hx : Life x key) (k : ℕ) :
    ∀ c ∈ polledBy (x.trace k), InTopic log start parseEvent c := by
  refine hx.stays (N := 0)
    (K := fun r => ∀ key', start key' ≤ r.1.consumer.positionOf start key')
    (I := fun r => ∀ c ∈ polledBy r.2, InTopic log start parseEvent c) (fun k _ => hx.start_le k)
    ?_ (fun c hc => absurd hc List.not_mem_nil) k (Nat.zero_le k)
  intro e h a e' o _ hstart hI hn hl c hc
  rw [polledBy_append] at hc
  rcases List.mem_append.mp hc with hc | hc
  · exact hI c hc
  cases hl with
  | bridge _ hb =>
      rw [mem_polledBy, bridge?_map_bridge] at hc
      cases stepped hb with
      | polled c' ht hc' hp =>
          obtain rfl : c = c' := by simpa using hc
          subst hc'
          obtain ⟨hle, hvalue, -⟩ := hn _ rfl
          exact ⟨(hstart _).trans hle, _, hvalue, hp⟩
      | _ => simp at hc
  | taken | updated | published | updateFailed | publishFailed | retried =>
      exact absurd (mem_polledBy.mp hc) (by simp [EngineObs.bridge?])

/-- **A life keeps its books.** -/
theorem booked (hx : Life x key) (k : ℕ) : Booked log start parseEvent (x.recorded.state k) := by
  obtain ⟨acts, hr⟩ := x.run_trace k
  replace hr := Machine.run_of_guarded hr
  obtain ⟨initial, max, h0⟩ := hx.begins
  rw [h0] at hr
  obtain ⟨bs, hbs⟩ := DistributionEngine.run_bridge
    (by simp [DistributionEngine.Holds, EngineTask.current?]) hr
  have hinvariant := Machine.run_invariant (I := fun b h =>
    Ledger b (fun c => .polled c ∈ h) (fun c => .acknowledged c ∈ h) ∧
      Unmoved b (fun c => .polled c ∈ h)) (fun _ _ _ _ _ hI hs => ⟨hI.1.step hs, hI.2.step hI.1 hs⟩)
    ⟨Ledger.init.congr (by simp) (by simp), fun _ _ _ hm => by cases hm⟩ hbs
  have hpolled : ∀ c, .polled c ∈ (x.trace k).filterMap EngineObs.bridge? ↔
      c ∈ polledBy (x.trace k) := fun c => mem_polledBy.symm
  refine ⟨hinvariant.1.congr (fun c => (hpolled c).symm) fun c => (acknowledged_iff hr c).symm, ?_,
    hx.genuine k⟩
  intro key hnone m hm c hc hk
  exact hinvariant.2 key hnone m hm c (mem_polledBy.mp hc) hk

end Life

/-! ### From drain to drain -/

/-- How far the polling thread is from its drain. -/
def PollThread.toDrain : PollThread ε → ℕ
  | .committing _ _ => 4
  | .polling => 3
  | .handing _ => 2
  | .head => 1
  | .draining _ | .closed => 0

omit [DecidableEq ρ] in
/-- Every step of the thread brings it closer to its drain. -/
theorem drain_cases {b b' : KafkaConsumerBridge ε} {a : BridgeAct ε ρ} {o : List (BridgeObs ε)}
    (hup : b.Up) (hl : a.Loops) (hs : Stepped parseEvent b a b' o)
    (hno : ¬ ∃ final, b.thread = .draining final) :
    (∃ final, b'.thread = .draining final) ∨ b'.thread.toDrain ≤ b.thread.toDrain ∧
      ((EngineAct.bridge a).Threads ∨ (EngineAct.bridge a).Polls →
        b'.thread.toDrain < b.thread.toDrain) := by
  cases hs with
  | checked => exact Or.inl ⟨_, rfl⟩
  | idle ht | committing ht => exact absurd ⟨_, ht⟩ hno
  | @committed final _ ht | @commitFailed final _ ht =>
      refine Or.inr ?_
      rw [ht]
      cases final <;> simp [PollThread.drained, PollThread.toDrain]
  | malformed ht | polled _ ht | empty ht | handed ht =>
      refine Or.inr ?_
      rw [ht]
      simp [PollThread.toDrain]
  | abandoned _ hstop => cases hup.stopEvent.symm.trans hstop
  | put | cancelPut =>
      exact Or.inr ⟨le_rfl, fun h => h.elim False.elim False.elim⟩
  | raised | handoffFailed | taken | acknowledged | stopped => exact hl.elim

theorem draining_enabled {e : DistributionEngine ε} (hup : e.consumer.Up) {final : Bool}
    (ht : e.consumer.thread = .draining final) :
    Machine.Enabled (DistributionEngine.stepOn log start parseEvent) EngineAct.Threads e := by
  refine thread_enabled hup ?_ fun ht' => by cases ht'.symm.trans ht
  by_contra hh
  obtain ⟨c, hc⟩ := hup.handing hh
  cases hc.symm.trans ht

namespace Life

/-- **The thread drains again and again.** -/
theorem drains_again (hx : Life x key) (hpolls : x.Fair EngineAct.Polls) (n : ℕ) :
    ∃ k ≥ n, ∃ final, (x.state k).consumer.thread = .draining final := by
  have hloop : x.recorded.LeadsTo 0 (fun _ => True)
      (fun r => ∃ final, r.1.consumer.thread = .draining final) := by
    refine hx.leadsTo (fun r => r.1.consumer.thread.toDrain)
      (Machine.Path.fair_or hx.threads hpolls) ?_ ?_
    · intro e h a e' o hS _ hno _ hl
      cases hl with
      | bridge hloops hb =>
          rcases drain_cases hS.up.consumer hloops (stepped hb) hno with hp | ⟨hle, hlt⟩
          · exact Or.inl hp
          · exact Or.inr ⟨trivial, hle, hlt⟩
      | taken | updated | published | updateFailed | publishFailed | retried =>
          exact Or.inr ⟨trivial, le_rfl, fun h => h.elim False.elim False.elim⟩
    · intro n hk
      obtain ⟨k, hkn, ht⟩ := hx.polls_again n
      have henabled : Machine.Enabled (DistributionEngine.stepOn log start parseEvent)
          EngineAct.Polls (x.state k) :=
        enabled_of_step (a := .bridge (.poll .nothing)) trivial rfl
          (by simp [DistributionEngine.step, KafkaConsumerBridge.step, ht])
      obtain ⟨a, hA, hsome⟩ := henabled
      exact ⟨k, hkn, a, Or.inr hA, hsome⟩
  exact hloop n (Nat.zero_le n) trivial

/-- **A drain that is due takes place**: until then nothing else moves the thread. -/
theorem drain_leadsTo (hx : Life x key) {N : ℕ}
    {K q : DistributionEngine ε × List (EngineObs ε) → Prop}
    (hK : ∀ n ≥ N, K (x.recorded.state n))
    (hdrain : ∀ e h b o, K (e, h) → ¬ q (e, h) →
      e.consumer.step parseEvent .drain = some (b, o) →
      q ({ e with consumer := b }, h ++ o.map .bridge)) :
    x.recorded.LeadsTo N (fun r => ∃ final, r.1.consumer.thread = .draining final) q := by
  refine hx.leadsTo_of hK (fun _ => 0) hx.threads ?_ ?_
  · intro e h a e' o _ hk hp hno _ hl
    obtain ⟨final, ht⟩ := hp
    cases hl with
    | bridge hloops hb =>
        cases stepped hb with
        | idle | committing => exact Or.inl (hdrain _ _ _ _ hk hno hb)
        | put | cancelPut => exact Or.inr ⟨⟨final, ht⟩, le_rfl, False.elim⟩
        | checked ht' | committed ht' | commitFailed ht' | malformed ht' | polled _ ht' | empty ht'
        | raised ht' | handed ht' | abandoned ht' | handoffFailed ht' => cases ht.symm.trans ht'
        | taken | acknowledged | stopped => exact hloops.elim
    | taken | updated | published | updateFailed | publishFailed | retried =>
        exact Or.inr ⟨⟨final, ht⟩, le_rfl, False.elim⟩
  · intro k _ hk
    obtain ⟨⟨final, ht⟩, -⟩ := hk k le_rfl
    exact ⟨k, le_rfl, draining_enabled (hx.serves k).up.consumer ht⟩

/-! ### Everything is published and collected -/

/-- In the end all records up to `n` are published. -/
theorem done_up_to (hx : Life x key) (hvalid : ∃ v, log key n = some v) :
    ∃ N, ∀ k ≥ N, DoneUpTo log start parseEvent key n (x.recorded.state k) := by
  obtain ⟨v, hlog⟩ := hvalid
  obtain ⟨i, hpassed⟩ := hx.passed hlog
  obtain ⟨N, -, hdone⟩ := hx.caught_up i
  refine ⟨N, fun k hk c hc hkey hle => ?_⟩
  subst hkey
  obtain ⟨hstart, w, hlogw, hevent⟩ := hc
  have hpolled := (hx.serves i).followed c.key c.offset w c.event hstart
    (hle.trans_lt hpassed) hlogw
    hevent
  exact (hdone.trans ((x.trace_prefix hk).filterMap _)).subset hpolled

omit [DecidableEq ε] [DecidableEq ρ] in
/-- The record at its publish has not been published. -/
theorem current_not_done {r : DistributionEngine ε × List (EngineObs ε)}
    (hS : Serves log start parseEvent r) {c : ConsumedEvent ε} (ht : r.1.task.current? = some c) :
    c ∈ polledBy r.2 ∧ c ∉ dones r.2 := by
  have hsplit := hS.split
  have hnodup := hS.nodup
  have hmem : c ∈ r.1.backlog := by
    rw [DistributionEngine.backlog, ht]
    exact List.mem_append_left _ (List.mem_singleton_self c)
  rw [hsplit] at hnodup ⊢
  exact ⟨List.mem_append_right _ hmem, fun hd => List.disjoint_of_nodup_append hnodup hd hmem⟩

/-- **In the end no acknowledgement of a record up to `n` is queued any more.** -/
theorem collected (hx : Life x key) (hpolls : x.Fair EngineAct.Polls)
    (hvalid : ∃ v, log key n = some v) :
    ∃ N, ∀ k ≥ N, Collected log start parseEvent key n (x.recorded.state k) := by
  obtain ⟨N, hdone⟩ := hx.done_up_to hvalid
  -- the next drain collects them
  have hdrained : x.recorded.LeadsTo N (fun r => ∃ final, r.1.consumer.thread = .draining final)
      (fun r => r.1.consumer.acknowledgements = []) := by
    refine hx.drain_leadsTo (K := fun _ => True) (fun _ _ => trivial) ?_
    intro e h b o _ _ hb
    cases stepped hb with
    | idle | committing => rfl
  obtain ⟨i, hi, ht⟩ := hx.drains_again hpolls N
  obtain ⟨k, hk, hempty⟩ := hdrained i hi ht
  refine ⟨k, hx.stays (K := fun r => DoneUpTo log start parseEvent key n r ∧
    ∀ c ∈ polledBy r.2, InTopic log start parseEvent c) (fun l hl =>
      ⟨hdone l (hi.trans (hk.trans hl)), hx.genuine l⟩) ?_
    ⟨hdone k (hi.trans hk), fun c hc => ?_⟩⟩
  · intro e h a e' o hS hK hI _ hl
    obtain ⟨hall, hgenuine⟩ := hK
    have hgrow : DoneUpTo log start parseEvent key n (e', h ++ o) := by
      intro c hc hkey hle
      rw [dones_append]
      exact List.mem_append_left _ (hall c hc hkey hle)
    refine ⟨hgrow, ?_⟩
    cases hl with
    | bridge hloops hb =>
        cases stepped hb with
        | idle | committing => exact fun c hc => absurd hc List.not_mem_nil
        | acknowledged => exact hloops.elim
        | _ => exact hI.queued
    | @published c' _ ht =>
        intro c hc hkey
        rcases List.mem_append.mp hc with hc | hc
        · exact hI.queued c hc hkey
        · obtain rfl := List.mem_singleton.mp hc
          have hcurrent : e.task.current? = some c := by
            rw [ht]
            rfl
          obtain ⟨hpolled, hno⟩ := current_not_done (r := (e, h)) hS hcurrent
          by_contra hle
          exact hno (hall c (hgenuine c hpolled) hkey (not_lt.mp hle))
    | taken | updated | updateFailed | publishFailed | retried => exact hI.queued
  · replace hempty : (x.recorded.state k).1.consumer.acknowledgements = [] := hempty
    rw [hempty] at hc
    cases hc

end Life

/-! ### The commit -/

section Commit

variable {r : DistributionEngine ε × List (EngineObs ε)}

omit [DecidableEq ε] [DecidableEq ρ] in
/-- **What is ready to be committed**: without a hole, all acknowledgements from the cursor up to
`n` are pending, unless the commit is past `n`. -/
theorem Collected.pending (hC : Collected log start parseEvent key n r)
    (hB : Booked log start parseEvent r) (hfree : HoleFree log start parseEvent key n)
    {c : ConsumedEvent ε} (hc : InTopic log start parseEvent c) (hkey : c.key = key)
    (hn : c.offset = n) (hno : ¬ Past key n r.1.consumer) :
    ∃ m, r.1.consumer.nextCommitOffsets.get? key = some m ∧ m ≤ n ∧
      ∀ i, m ≤ i → i ≤ n → (r.1.consumer.pendingAt key i).isSome := by
  have hpolled : c ∈ polledBy r.2 := hB.ledger.acked_polled c (hC.done c hc hkey hn.le)
  obtain ⟨m, hm⟩ := Option.isSome_iff_exists.mp (hB.ledger.tracked c hpolled)
  rw [hkey] at hm
  have hle : m ≤ n := by
    cases hcom : r.1.consumer.committed.get? key with
    | none => exact (hB.unmoved key hcom m hm c hpolled hkey).trans hn.le
    | some p =>
        obtain rfl : p = m := Option.some.inj ((hB.ledger.committed key p hcom).symm.trans hm)
        exact not_lt.mp fun hlt => hno ⟨p, hcom, hlt⟩
  refine ⟨m, hm, hle, fun i hmi hin => ?_⟩
  -- the cursor started at a record of the topic, so there is one at `i`
  obtain ⟨c₁, hc₁, hkey₁, hle₁⟩ := hB.ledger.started key m hm
  obtain ⟨c', hc', hkey', rfl⟩ := hfree c₁ (hB.genuine c₁ hc₁) hkey₁ i (hle₁.trans hmi) hin
  rcases hB.ledger.accounted c' (hC.done c' hc' hkey' hin) with hq | hp | ⟨m', hm', hlt⟩
  · exact absurd (hC.queued c' hq hkey') (not_lt.mpr hin)
  · rw [← hkey', hp]
    rfl
  · rw [hkey'] at hm'
    obtain rfl : m = m' := Option.some.inj (hm.symm.trans hm')
    omega

omit [DecidableEq ε] [DecidableEq ρ] in
/-- The advance of a drain gets past `n`. -/
theorem advances_past {b : KafkaConsumerBridge ε} {m : ℕ}
    (hm : b.nextCommitOffsets.get? key = some m) (hle : m ≤ n)
    (hp : ∀ i, m ≤ i → i ≤ n → (b.pendingAt key i).isSome) :
    ∃ cursor, b.advances.get? key = some (m, cursor) ∧ n < cursor := by
  have hstop := advances_stop hm
  cases hadv : b.advances.get? key with
  | none =>
      rw [hadv] at hstop
      have hsome := hp m le_rfl hle
      rw [show b.pendingAt key m = none from hstop] at hsome
      cases hsome
  | some adv =>
      obtain ⟨m', cursor⟩ := adv
      obtain ⟨hm', hlt, -⟩ := advances_get? hadv
      obtain rfl : m = m' := Option.some.inj (hm.symm.trans hm')
      refine ⟨cursor, rfl, not_le.mp fun hcn => ?_⟩
      rw [hadv] at hstop
      have hsome := hp cursor hlt.le hcn
      rw [show b.pendingAt key cursor = none from hstop] at hsome
      cases hsome

omit [DecidableEq ρ] in
/-- A drain comes to its commit, -/
theorem Collected.drain_commits (hC : Collected log start parseEvent key n r)
    (hB : Booked log start parseEvent r) (hfree : HoleFree log start parseEvent key n)
    {c : ConsumedEvent ε} (hc : InTopic log start parseEvent c) (hkey : c.key = key)
    (hn : c.offset = n) (hno : ¬ Past key n r.1.consumer) {b : KafkaConsumerBridge ε}
    {o : List (BridgeObs ε)} (hs : Stepped parseEvent r.1.consumer .drain b o) :
    ∃ final adv, b.thread = .committing final adv := by
  cases hs with
  | idle ht he =>
      obtain ⟨m, hm, hle, hpend⟩ := hC.pending hB hfree hc hkey hn hno
      have hsome := pendingAt_collect_isSome (Or.inl (hpend m le_rfl hle))
      rw [idle_stop he hm] at hsome
      cases hsome
  | committing => exact ⟨_, _, rfl⟩

omit [DecidableEq ρ] in
/-- and the commit gets past `n`. -/
theorem Collected.commit_past (hC : Collected log start parseEvent key n r)
    (hB : Booked log start parseEvent r) (hfree : HoleFree log start parseEvent key n)
    {c : ConsumedEvent ε} (hc : InTopic log start parseEvent c) (hkey : c.key = key)
    (hn : c.offset = n) (hno : ¬ Past key n r.1.consumer) {b : KafkaConsumerBridge ε}
    {o : List (BridgeObs ε)} (hs : Stepped parseEvent r.1.consumer (.commit true) b o) :
    Past key n b := by
  cases hs with
  | committed ht =>
      obtain rfl := hB.ledger.committing _ _ ht
      obtain ⟨m, hm, hle, hpend⟩ := hC.pending hB hfree hc hkey hn hno
      obtain ⟨cursor, hadv, hlt⟩ := advances_past hm hle hpend
      exact ⟨cursor, (committed_settle r.1.consumer _ key).trans (by rw [hadv]; rfl), hlt⟩

omit [DecidableEq ρ] in
/-- The broker's position does not go back. -/
theorem Past.step {b b' : KafkaConsumerBridge ε} {a : BridgeAct ε ρ} {o : List (BridgeObs ε)}
    {polled acked : ConsumedEvent ε → Prop} (h : Past key n b) (hI : Ledger b polled acked)
    (hs : Stepped parseEvent b a b' o) : Past key n b' := by
  cases hs with
  | committed ht =>
      obtain rfl := hI.committing _ _ ht
      obtain ⟨p, hp, hlt⟩ := h
      cases hadv : b.advances.get? key with
      | none => exact ⟨p, (committed_settle b _ key).trans (by rw [hadv]; exact hp), hlt⟩
      | some adv =>
          obtain ⟨m, cursor⟩ := adv
          obtain ⟨hm, hless, -⟩ := advances_get? hadv
          obtain rfl : m = p := Option.some.inj (hm.symm.trans (hI.committed key p hp))
          exact ⟨cursor, (committed_settle b _ key).trans (by rw [hadv]; rfl), hlt.trans hless⟩
  | _ => exact h

end Commit

namespace Life

/-- What is committed stays so. -/
theorem past_stays (hx : Life x key) {N : ℕ} (h : Past key n (x.state N).consumer) :
    ∀ k ≥ N, Past key n (x.state k).consumer := by
  refine hx.stays (K := Booked log start parseEvent) (I := fun r => Past key n r.1.consumer)
    (fun k _ => hx.booked k) ?_ h
  intro e h a e' o _ hB hI _ hl
  cases hl with
  | bridge _ hb => exact hI.step hB.ledger (stepped hb)
  | taken | updated | published | updateFailed | publishFailed | retried => exact hI

/-- **Without a hole the record is committed.** -/
theorem committed (hx : Life x key) (hpolls : x.Fair EngineAct.Polls)
    (hcommits : x.Fair (· = .bridge (.commit true))) {c : ConsumedEvent ε}
    (hc : InTopic log start parseEvent c) (hkey : c.key = key) (hn : c.offset = n)
    (hfree : HoleFree log start parseEvent key n) : ∃ k, Past key n (x.state k).consumer := by
  obtain ⟨v, hlog, -⟩ := hc.2
  rw [hkey, hn] at hlog
  obtain ⟨N, hcollected⟩ := hx.collected hpolls ⟨v, hlog⟩
  have hready : ∀ k ≥ N, Collected log start parseEvent key n (x.recorded.state k) ∧
      Booked log start parseEvent (x.recorded.state k) := fun k hk => ⟨hcollected k hk, hx.booked k⟩
  -- a drain comes to its commit
  have hcommitting : x.recorded.LeadsTo N (fun r => ∃ final, r.1.consumer.thread = .draining final)
      (fun r => Past key n r.1.consumer ∨
        ∃ final adv, r.1.consumer.thread = .committing final adv) := by
    refine hx.drain_leadsTo (K := fun r => Collected log start parseEvent key n r ∧
      Booked log start parseEvent r) hready ?_
    intro e h b o hK hno hb
    exact Or.inr (hK.1.drain_commits hK.2 hfree hc hkey hn (fun hpast => hno (Or.inl hpast))
      (stepped hb))
  -- and the commit gets past `n`
  have hpast : x.recorded.LeadsTo N (fun _ => True) (fun r => Past key n r.1.consumer) := by
    refine hx.leadsTo_of (K := fun r => Collected log start parseEvent key n r ∧
      Booked log start parseEvent r) hready (fun _ => 0) hcommits ?_ ?_
    · intro e h a e' o hS hK _ hno _ hl
      refine or_iff_not_imp_left.mpr fun hno' => ⟨trivial, le_rfl, fun ha => absurd ?_ hno'⟩
      subst ha
      cases hl with
      | bridge hloops hb =>
          exact hK.1.commit_past hK.2 hfree hc hkey hn hno (stepped hb)
    · intro k hkN hk
      obtain ⟨i, hi, ht⟩ := hx.drains_again hpolls k
      obtain ⟨l, hl, hor⟩ := hcommitting i (hkN.trans hi) ht
      obtain ⟨final, adv, hcom⟩ := hor.resolve_left (hk l (hi.trans hl)).2
      replace hcom : (x.state l).consumer.thread = .committing final adv := hcom
      exact ⟨l, hi.trans hl, enabled_of_step (a := .bridge (.commit true)) rfl rfl
        (by simp [DistributionEngine.step, KafkaConsumerBridge.step, hcom])⟩
  obtain ⟨k, -, hk⟩ := hpast N le_rfl trivial
  exact ⟨k, hk⟩

end Life

/-- **Commit progress over a whole life, exactly.** In a life of the engine that goes on, in which
polls return and commits succeed again and again, the broker's position gets past a valid record of
the partition for good if and only if no offset between the first valid record of the partition and
this one is without a valid record. -/
theorem committed_eventually_iff (hx : Life x key) (hpolls : x.Fair EngineAct.Polls)
    (hcommits : x.Fair (· = .bridge (.commit true))) {c : ConsumedEvent ε}
    (hc : InTopic log start parseEvent c) (hkey : c.key = key) :
    (∃ k, ∀ l ≥ k, Past key c.offset (x.state l).consumer) ↔
      HoleFree log start parseEvent key c.offset := by
  constructor
  · intro h c₁ hc₁ hkey₁ i hi hin
    obtain ⟨k, hk⟩ := h
    obtain ⟨v₁, hlog₁, -⟩ := hc₁.2
    rw [hkey₁] at hlog₁
    obtain ⟨N, hdone⟩ := hx.done_up_to ⟨v₁, hlog₁⟩
    -- when both have happened, the cursor has passed acknowledged offsets only
    have hB := hx.booked (max k N)
    obtain ⟨p, hp, hlt⟩ := hk _ (le_max_left k N)
    have hacked := hdone _ (le_max_right k N) c₁ hc₁ hkey₁ le_rfl
    obtain ⟨c', hc', hkey', ho⟩ := hB.ledger.passed key p (hB.ledger.committed key p hp) c₁
      (hB.ledger.acked_polled c₁ hacked) hkey₁ i hi (hin.trans_lt hlt)
    exact ⟨c', hB.genuine c' (hB.ledger.acked_polled c' hc'), hkey', ho⟩
  · intro hfree
    obtain ⟨k, hk⟩ := hx.committed hpolls hcommits hc hkey rfl hfree
    exact ⟨k, hx.past_stays hk⟩

theorem committed_eventually_iff_gappy :
    ∃ x : Machine.Path (DistributionEngine.stepOn gappyTopic (fun _ => 0) id),
      Life x ("market-events", 0) ∧
      (∃ k, ∀ l ≥ k, Past ("market-events", 0) 0 (x.state l).consumer) ∧
      ¬ ∃ k, ∀ l ≥ k, Past ("market-events", 0) 2 (x.state l).consumer := by
  obtain ⟨x, hx, hpolls, hcommits⟩ := gappy_life
  have htopic : ∀ {i : ℕ}, [some (), none, some ()][i]? = some (some ()) →
      InTopic gappyTopic (fun _ => 0) id ⟨(), "market-events", 0, i⟩ :=
    fun {i} hi => ⟨Nat.zero_le i, some (), hi, rfl⟩
  refine ⟨x, hx, (committed_eventually_iff hx hpolls hcommits (htopic (i := 0) rfl) rfl).mpr ?_,
    fun h => ?_⟩
  · intro c _ _ i _ hi
    obtain rfl : i = 0 := Nat.le_zero.mp hi
    exact ⟨_, htopic (i := 0) rfl, rfl, rfl⟩
  · -- there is no valid record at offset 1
    have hfree := (committed_eventually_iff hx hpolls hcommits (htopic (i := 2) rfl) rfl).mp h
    obtain ⟨c, ⟨-, v, hlog, hv⟩, hkey, ho⟩ := hfree _ (htopic (i := 0) rfl) rfl 1 Nat.one_pos.le
      (Nat.le_succ 1)
    rw [hkey, ho] at hlog
    obtain rfl : none = v := Option.some.inj hlog
    cases hv

end MarketData.Engine
