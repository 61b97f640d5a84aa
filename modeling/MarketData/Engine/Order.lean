import MarketData.Engine.Processing

/-!
# MarketData.Engine.Order

**Records stay in order** between `consumer.poll` and the engine's acknowledgement. The
polling thread waits for each hand-over before it polls again, so at most one put is pending;
a put that is given up ends the polling. What has been polled is therefore, in this order:
the records the engine is done with, the one in progress, the queue, the pending put, and
what an abandoned put has lost (`Orderly`).
-/

namespace MarketData.Engine

variable {ε ρ : Type}

/-- The record that was polled. -/
def BridgeObs.polled? : BridgeObs ε → Option (ConsumedEvent ε)
  | .polled c => some c
  | _ => none

/-- The valid records polled, in order. -/
def polls (h : List (BridgeObs ε)) : List (ConsumedEvent ε) := h.filterMap BridgeObs.polled?

theorem polls_append (h h' : List (BridgeObs ε)) : polls (h ++ h') = polls h ++ polls h' :=
  List.filterMap_append

/-- The thread has left the loop. -/
def PollThread.Final : PollThread ε → Prop
  | .draining final | .committing final _ => final = true
  | .closed => True
  | _ => False

/-- The thread is in the loop, and no hand-over is pending. -/
def PollThread.Between : PollThread ε → Prop
  | .head | .polling => True
  | .draining final | .committing final _ => final = false
  | _ => False

@[simp] theorem PollThread.final_drained (final : Bool) :
    (PollThread.drained final : PollThread ε).Final ↔ final = true := by
  cases final <;> simp [drained, Final]

@[simp] theorem PollThread.between_drained (final : Bool) :
    (PollThread.drained final : PollThread ε).Between ↔ final = false := by
  cases final <;> simp [drained, Between]

/-- Outside a hand-over the thread has left the loop, or is in it without a pending put. -/
theorem PollThread.final_or_between {t : PollThread ε} (h : ∀ c, t ≠ .handing c) :
    t.Final ∨ t.Between := by
  cases t with
  | head | polling => exact Or.inr trivial
  | draining final | committing final adv => cases final <;> simp [Final, Between]
  | handing c => exact absurd rfl (h c)
  | closed => exact Or.inl trivial

namespace KafkaConsumerBridge

/-- The records between the poll and `events()`, in order. -/
def underWay (b : KafkaConsumerBridge ε) : List (ConsumedEvent ε) :=
  b.queue.items ++ b.handoff.toList

end KafkaConsumerBridge

/-- **How the broker moves on**: no position goes back, and a record is polled at or after its
partition's position, which it moves past the record. -/
inductive Forward (b b' : KafkaConsumerBridge ε) : List (ConsumedEvent ε) → Prop
  | quiet (hp : ∀ key p, b.position.get? key = some p →
        ∃ p', b'.position.get? key = some p' ∧ p ≤ p') : Forward b b' []
  | polled {c} (hc : ∀ p, b.position.get? c.key = some p → p ≤ c.offset)
      (hp : b'.position = b.position.set c.key (c.offset + 1)) : Forward b b' [c]

namespace Forward

variable {b b' : KafkaConsumerBridge ε} {polled : List (ConsumedEvent ε)}

theorem of_position (h : b'.position = b.position) : Forward b b' [] :=
  .quiet fun _ p hpos => ⟨p, h ▸ hpos, le_rfl⟩

/-- No position goes back. -/
theorem position (h : Forward b b' polled) {key : PartitionKey} {p : Nat}
    (hpos : b.position.get? key = some p) : ∃ p', b'.position.get? key = some p' ∧ p ≤ p' := by
  cases h with
  | quiet hp => exact hp key p hpos
  | polled hc hp =>
      rw [hp, Dict.get?_set]
      split
      · rename_i hk
        exact ⟨_, rfl, (hc p (hk ▸ hpos)).trans (Nat.le_succ _)⟩
      · exact ⟨p, hpos, le_rfl⟩

/-- What is polled was not behind its partition's position. -/
theorem at_position (h : Forward b b' polled) {c : ConsumedEvent ε} (hmem : c ∈ polled) {p : Nat}
    (hpos : b.position.get? c.key = some p) : p ≤ c.offset := by
  cases h with
  | quiet hp => cases hmem
  | polled hc hp =>
      obtain rfl := List.mem_singleton.mp hmem
      exact hc p hpos

variable [DecidableEq ε] {parseEvent : ρ → Option ε} {a : BridgeAct ε ρ} {o : List (BridgeObs ε)}

/-- **Only a poll moves the broker.** -/
theorem step (hs : b.step parseEvent a = some (b', o)) : Forward b b' (polls o) := by
  cases KafkaConsumerBridge.stepped hs with
  | malformed ht hpos =>
      rename_i m
      refine .quiet fun key p hp => ?_
      rw [Dict.get?_set]
      by_cases hk : m.key = key
      · exact ⟨m.offset + 1, if_pos hk, (hpos p (hk ▸ hp)).trans (Nat.le_succ _)⟩
      · exact ⟨p, (if_neg hk).trans hp, le_rfl⟩
  | polled c ht hc hp hpos hnext => exact .polled hpos rfl
  | _ => exact of_position rfl

end Forward

/-- The broker delivers each partition in offset order. -/
structure Delivered (b : KafkaConsumerBridge ε) (polled : List (ConsumedEvent ε)) : Prop where
  position : ∀ c ∈ polled, ∃ p, b.position.get? c.key = some p ∧ c.offset < p
  ascending : polled.Pairwise fun c c' => c.key = c'.key → c.offset < c'.offset

/-- **The bridge sees each partition in offset order.** -/
theorem Delivered.forward {b b' : KafkaConsumerBridge ε} {polled new : List (ConsumedEvent ε)}
    (hI : Delivered b polled) (h : Forward b b' new) : Delivered b' (polled ++ new) := by
  -- what was polled before stays behind the position
  have hold : ∀ c ∈ polled, ∃ p, b'.position.get? c.key = some p ∧ c.offset < p := by
    intro c hc
    obtain ⟨p, hpos, hlt⟩ := hI.position c hc
    obtain ⟨p', hpos', hle⟩ := h.position hpos
    exact ⟨p', hpos', hlt.trans_le hle⟩
  cases h with
  | quiet hp =>
      rw [List.append_nil]
      exact ⟨hold, hI.ascending⟩
  | polled hc hp =>
      rename_i c
      refine ⟨fun c' hc' => ?_,
        List.pairwise_append.mpr ⟨hI.ascending, List.pairwise_singleton _ _, ?_⟩⟩
      · rcases List.mem_append.mp hc' with hc' | hc'
        · exact hold c' hc'
        · obtain rfl := List.mem_singleton.mp hc'
          exact ⟨c'.offset + 1, by rw [hp, Dict.get?_set_self], Nat.lt_succ_self _⟩
      · intro c' hc' x hx hk
        obtain rfl := List.mem_singleton.mp hx
        obtain ⟨p, hpos, hlt⟩ := hI.position c' hc'
        exact hlt.trans_le (hc p (hk ▸ hpos))

/-- The records polled are those that `events()` has yielded, `front`, then those under way,
then those a hand-over has lost. -/
structure Orderly (b : KafkaConsumerBridge ε) (polled front : List (ConsumedEvent ε)) : Prop where
  split : ∃ lost, polled = front ++ b.underWay ++ lost ∧ (¬ b.thread.Final → lost = [])
  settled : b.thread.Between → b.handoff = none

namespace Orderly

variable {b b' : KafkaConsumerBridge ε} {polled front : List (ConsumedEvent ε)}

/-- A step that moves nothing. -/
theorem of_underWay (hI : Orderly b polled front) (hu : b'.underWay = b.underWay)
    (hf : b.thread.Final → b'.thread.Final) (hb : b'.thread.Between → b'.handoff = none) :
    Orderly b' polled front := by
  obtain ⟨lost, hp, hl⟩ := hI.split
  exact ⟨⟨lost, by rw [hp, hu], fun h => hl fun hf' => h (hf hf')⟩, hb⟩

/-- The pending put is given up. -/
theorem drop (hI : Orderly b polled front) (hq : b'.queue = b.queue) (hh : b'.handoff = none)
    (hf : b'.thread.Final ∨ b.handoff = none ∧ b'.thread = b.thread) : Orderly b' polled front := by
  obtain ⟨lost, hp, hl⟩ := hI.split
  refine ⟨⟨b.handoff.toList ++ lost, ?_, fun hnf => ?_⟩, fun _ => hh⟩
  · rw [hp]
    simp [KafkaConsumerBridge.underWay, hq, hh]
  · obtain ⟨hnone, ht⟩ := hf.resolve_left hnf
    rw [hnone, hl (ht ▸ hnf)]
    rfl

variable [DecidableEq ε] {parseEvent : ρ → Option ε} {a : BridgeAct ε ρ} {o : List (BridgeObs ε)}

/-- **The bridge keeps records in order.** -/
theorem step (hI : Orderly b polled front) (hs : b.step parseEvent a = some (b', o))
    (ha : a ≠ .take) : Orderly b' (polled ++ polls o) front := by
  have hquiet : Orderly b' polled front → polls o = [] → Orderly b' (polled ++ polls o) front :=
    fun h ho => by rwa [ho, List.append_nil]
  cases KafkaConsumerBridge.stepped hs with
  | taken hq => exact absurd rfl ha
  | checked ht | malformed ht hpos | empty ht hr | raised ht =>
      refine hquiet (hI.of_underWay rfl ?_ fun _ => hI.settled ?_) rfl
      · rw [ht]
        exact False.elim
      · rw [ht]
        trivial
  | idle ht he =>
      refine hquiet (hI.of_underWay rfl ?_ fun hb => hI.settled ?_) rfl
      · rw [ht]
        exact (PollThread.final_drained _).mpr
      · rw [ht]
        exact (PollThread.between_drained _).mp hb
  | committing ht =>
      refine hquiet (hI.of_underWay rfl ?_ fun hb => hI.settled ?_) rfl
      · rw [ht]
        exact id
      · rw [ht]
        exact hb
  | committed ht | commitFailed ht =>
      refine hquiet (hI.of_underWay rfl ?_ fun hb => hI.settled ?_) rfl
      · rw [ht]
        exact (PollThread.final_drained _).mpr
      · rw [ht]
        exact (PollThread.between_drained _).mp hb
  | polled c ht hc hp hpos hnext =>
      have hopen : ¬ b.thread.Final := by
        rw [ht]
        exact id
      have hnone : b.handoff = none := hI.settled (by rw [ht]; trivial)
      obtain ⟨lost, hpolled, hl⟩ := hI.split
      refine ⟨⟨[], ?_, fun _ => rfl⟩, False.elim⟩
      rw [hpolled, hl hopen]
      simp [KafkaConsumerBridge.underWay, hnone, polls, BridgeObs.polled?]
  | handed ht hh =>
      refine hquiet (hI.of_underWay rfl ?_ fun _ => hh) rfl
      rw [ht]
      exact False.elim
  | abandoned ht hstop =>
      exact hquiet (hI.of_underWay rfl (fun _ => rfl) fun hb => by cases hb) rfl
  | handoffFailed ht => exact hquiet (hI.drop rfl rfl (Or.inl rfl)) rfl
  | put hc hq =>
      obtain ⟨-, hitems, -⟩ := BoundedQueue.putNowait_eq_some.mp hq
      refine hquiet (hI.of_underWay ?_ id fun _ => rfl) rfl
      simp [KafkaConsumerBridge.underWay, hitems, hc]
  | cancelPut ht =>
      refine hquiet (hI.drop rfl rfl ?_) rfl
      rcases PollThread.final_or_between ht with hf | hb
      · exact Or.inl hf
      · exact Or.inr ⟨hI.settled hb, rfl⟩
  | acknowledged hc => exact hquiet (hI.of_underWay rfl id hI.settled) rfl
  | stopped => exact hquiet (hI.of_underWay rfl id hI.settled) rfl

end Orderly

/-! ### The engine -/

/-- The record whose publish has completed. -/
def EngineObs.publishDone? : EngineObs ε → Option (ConsumedEvent ε)
  | .publishDone c => some c
  | _ => none

/-- The records the engine is done with, in order. -/
def dones (h : List (EngineObs ε)) : List (ConsumedEvent ε) := h.filterMap EngineObs.publishDone?

theorem dones_append (h h' : List (EngineObs ε)) : dones (h ++ h') = dones h ++ dones h' :=
  List.filterMap_append

@[simp] theorem dones_map_bridge (o : List (BridgeObs ε)) :
    dones (o.map EngineObs.bridge) = [] := by
  simp [dones, List.filterMap_map, Function.comp_def, EngineObs.publishDone?]

@[simp] theorem bridge?_map_bridge (o : List (BridgeObs ε)) :
    (o.map EngineObs.bridge).filterMap EngineObs.bridge? = o := by
  rw [List.filterMap_map]
  exact List.filterMap_some

/-- An engine with a record in progress has not stopped. -/
theorem EngineTask.ne_stopped {t : EngineTask ε} {c : ConsumedEvent ε} (h : t.current? = some c) :
    t ≠ .stopped := by
  rintro rfl
  cases h

/-- The records the engine is done with, the one in progress, and those under way make up what
was polled, until the engine stops. -/
structure InOrder (e : DistributionEngine ε) (polled done : List (ConsumedEvent ε)) : Prop where
  done_le : done <+: polled
  live : e.task ≠ .stopped → Orderly e.consumer polled (done ++ e.task.current?.toList)

/-- **Only a poll of the engine's bridge moves the broker.** -/
theorem Forward.engine_step [DecidableEq ε] {parseEvent : ρ → Option ε}
    {e e' : DistributionEngine ε} {a : EngineAct ε ρ} {o : List (EngineObs ε)}
    (hs : e.step parseEvent a = some (e', o)) :
    Forward e.consumer e'.consumer (polls (o.filterMap EngineObs.bridge?)) := by
  have hattempt : ∀ (e' : DistributionEngine ε) c backoff,
      e'.consumer.position = e.consumer.position →
      Forward e.consumer (e'.attempt c backoff).consumer [] := by
    intro e' c backoff hp
    rcases DistributionEngine.attempt_cases e' c backoff with heq | heq <;> rw [heq]
    · exact of_position hp
    · exact of_position hp
  cases DistributionEngine.stepped hs with
  | bridge b consumer obs ht ha hb =>
      rw [bridge?_map_bridge]
      exact step hb
  | taken c queue ht hq => exact hattempt _ c _ rfl
  | attempt c backoff ht => exact hattempt e c backoff rfl
  | updated c backoff ht => exact of_position rfl
  | published c backoff ht => exact of_position rfl
  | failed c backoff ht => exact of_position rfl
  | halt shutdown task ht => exact of_position rfl

namespace InOrder

variable {e e' : DistributionEngine ε} {polled done : List (ConsumedEvent ε)}

/-- The record in progress follows those the engine is done with. -/
theorem current_le (hI : InOrder e polled done) {c : ConsumedEvent ε}
    (hc : e.task.current? = some c) : done ++ [c] <+: polled := by
  obtain ⟨lost, hp, -⟩ := (hI.live (EngineTask.ne_stopped hc)).split
  exact ⟨e.consumer.underWay ++ lost, by rw [hp, hc]; simp⟩

/-- The same records are in progress and under way. -/
theorem of_current (hI : InOrder e polled done)
    (ht : e'.task ≠ .stopped → e.task ≠ .stopped ∧ e'.task.current? = e.task.current?)
    (hu : e'.consumer.underWay = e.consumer.underWay)
    (hth : e'.consumer.thread = e.consumer.thread)
    (hh : e'.consumer.handoff = e.consumer.handoff) : InOrder e' polled done := by
  refine ⟨hI.done_le, fun hlive => ?_⟩
  obtain ⟨hlive', hc⟩ := ht hlive
  have hO := hI.live hlive'
  rw [hc]
  exact hO.of_underWay hu (fun hf => hth ▸ hf) fun hb => hh.trans (hO.settled (hth ▸ hb))

/-- The engine takes up a record, or ends its run. -/
theorem attempt (hd : done <+: polled) {c : ConsumedEvent ε} {backoff : ℚ}
    (hO : Orderly e.consumer polled (done ++ [c])) : InOrder (e.attempt c backoff) polled done := by
  refine ⟨hd, fun hlive => ?_⟩
  rcases e.attempt_cases c backoff with heq | heq
  · exact absurd (by rw [heq]; rfl) hlive
  · rw [heq]
    exact hO

variable [DecidableEq ε] {parseEvent : ρ → Option ε} {a : EngineAct ε ρ} {o : List (EngineObs ε)}

/-- **The engine takes up one record after the other.** -/
theorem step (hI : InOrder e polled done) (hs : e.step parseEvent a = some (e', o)) :
    InOrder e' (polled ++ polls (o.filterMap EngineObs.bridge?)) (done ++ dones o) := by
  have hquiet : InOrder e' polled done → o = [] →
      InOrder e' (polled ++ polls (o.filterMap EngineObs.bridge?)) (done ++ dones o) := by
    rintro h rfl
    simpa [polls, dones] using h
  cases DistributionEngine.stepped hs with
  | bridge b consumer obs ht ha hb =>
      rw [bridge?_map_bridge, dones_map_bridge, List.append_nil]
      exact ⟨hI.done_le.trans (List.prefix_append _ _), fun hlive => (hI.live hlive).step hb ht⟩
  | taken c queue ht hq =>
      have hlive : e.task ≠ .stopped := by
        rw [ht]
        exact fun h => by cases h
      have hO := hI.live hlive
      obtain ⟨lost, hp, hl⟩ := hO.split
      obtain ⟨⟨rest, hrest⟩, rfl⟩ := BoundedQueue.getNowait_eq_some.mp hq
      refine hquiet (attempt hI.done_le ⟨⟨lost, ?_, hl⟩, hO.settled⟩) rfl
      rw [hp, ht]
      simp [KafkaConsumerBridge.underWay, hrest, EngineTask.current?]
  | updated c backoff ht =>
      have hcurrent : polls ([.updateDone c].filterMap (EngineObs.bridge? (ε := ε))) = [] := rfl
      rw [hcurrent, List.append_nil, show dones [.updateDone c] = [] from rfl, List.append_nil]
      refine hI.of_current (fun _ => ⟨?_, by rw [ht]; rfl⟩) rfl rfl rfl
      rw [ht]
      exact fun h => by cases h
  | published c backoff ht =>
      have hc : e.task.current? = some c := by
        rw [ht]
        rfl
      have hO := hI.live (EngineTask.ne_stopped hc)
      have hdone : dones [.publishDone c, .bridge (.acknowledged c)] = [c] := rfl
      have hpolls : polls ([.publishDone c, .bridge (.acknowledged c)].filterMap
          (EngineObs.bridge? (ε := ε))) = [] := rfl
      rw [hdone, hpolls, List.append_nil]
      refine ⟨hI.current_le hc, fun _ => ?_⟩
      rw [hc] at hO
      have hacked : Orderly { e.consumer with
          taken := e.consumer.taken.erase c
          acknowledgements := e.consumer.acknowledgements ++ [c] }
          polled (done ++ [c]) := hO.of_underWay rfl id hO.settled
      simpa [EngineTask.current?] using hacked
  | failed c backoff ht =>
      exact hquiet (hI.of_current (fun _ => ⟨EngineTask.ne_stopped ht, ht.symm⟩) rfl rfl rfl) rfl
  | attempt c backoff ht =>
      refine hquiet (attempt hI.done_le ?_) rfl
      have hO := hI.live (EngineTask.ne_stopped ht)
      rwa [ht] at hO
  | halt shutdown task ht =>
      refine hquiet (hI.of_current (fun hlive => ?_) rfl rfl rfl) rfl
      rcases ht with rfl | rfl
      · exact ⟨hlive, rfl⟩
      · exact absurd rfl hlive

end InOrder

end MarketData.Engine
