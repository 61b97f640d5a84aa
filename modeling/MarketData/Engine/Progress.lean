import MarketData.Engine.Ledger

/-!
# MarketData.Engine.Progress

**When the commit cursor makes progress.** The cursor of `_drain_acknowledgements` walks
consecutive integers, while `_track_consumed` and `acknowledge` know only the offsets that
carried a valid record. So a partition is committed past its last valid record exactly when
its valid records occupy consecutive offsets (`commit_progress_iff`): the first malformed,
compacted or otherwise missing offset between two valid ones stops every later commit of
the partition.
-/

namespace MarketData.Engine

open KafkaConsumerBridge

variable {ε ρ : Type} [DecidableEq ε] {parseEvent : ρ → Option ε}

/-- Every offset between two valid records of the partition carries a valid record. -/
def NoHoles (key : PartitionKey) (h : List (BridgeObs ε)) : Prop :=
  ∀ c₁ c₂ : ConsumedEvent ε, .polled c₁ ∈ h → .polled c₂ ∈ h → c₁.key = key → c₂.key = key →
    ∀ n, c₁.offset ≤ n → n ≤ c₂.offset → ∃ c, .polled c ∈ h ∧ c.key = key ∧ c.offset = n

omit [DecidableEq ε] in
/-- Two records at consecutive offsets leave no hole. -/
theorem noHoles_pair {key : PartitionKey} {h : List (BridgeObs ε)} {x y : ConsumedEvent ε}
    (hx : x.key = key) (hy : y.key = key) (hnext : y.offset = x.offset + 1)
    (hpolled : ∀ c, .polled c ∈ h ↔ c = x ∨ c = y) : NoHoles key h := by
  intro c₁ c₂ h₁ h₂ _ _ n hle hle'
  have hn : n = x.offset ∨ n = y.offset := by
    rcases (hpolled c₁).mp h₁ with rfl | rfl <;> rcases (hpolled c₂).mp h₂ with rfl | rfl <;> omega
  rcases hn with rfl | rfl
  · exact ⟨x, (hpolled x).mpr (.inl rfl), hx, rfl⟩
  · exact ⟨y, (hpolled y).mpr (.inr rfl), hy, rfl⟩

/-- A drain that ended without a failed commit leaves no queued acknowledgement, and every
cursor in front of a hole. -/
theorem drained_stop {b b' : KafkaConsumerBridge ε} {acts : List (BridgeAct ε ρ)}
    {h : List (BridgeObs ε)} {final : Bool} (hd : b.thread = .draining final)
    (hacts : acts = [.drain] ∨ acts = [.drain, .commit true])
    (hr : Machine.run (step parseEvent) b acts = some (b', h))
    (hdone : b'.thread = .drained final) :
    b'.acknowledgements = [] ∧ (∀ c, .polled c ∉ h ∧ .acknowledged c ∉ h) ∧
    ∀ key n, b'.nextCommitOffsets.get? key = some n → b'.pendingAt key n = none := by
  have hneq : ∀ adv, PollThread.committing (ε := ε) final adv ≠ .drained final := by
    cases final <;> simp [PollThread.drained]
  rcases hacts with rfl | rfl
  · obtain ⟨t, o, h', hs, hnil, rfl⟩ := Machine.run_cons.mp hr
    obtain ⟨rfl, rfl⟩ : t = b' ∧ [] = h' := by simpa using hnil
    simp only [step, hd] at hs
    split at hs
    · rename_i hempty
      obtain ⟨rfl, rfl⟩ := Prod.mk.inj (Option.some.inj hs)
      exact ⟨rfl, by simp, fun key n hn => idle_stop (b := b.collect) hempty hn⟩
    · obtain ⟨rfl, rfl⟩ := Prod.mk.inj (Option.some.inj hs)
      exact absurd hdone (hneq _)
  · obtain ⟨t, o, h', hs, hr', rfl⟩ := Machine.run_cons.mp hr
    obtain ⟨t', o', h'', hs', hnil, rfl⟩ := Machine.run_cons.mp hr'
    obtain ⟨rfl, rfl⟩ : t' = b' ∧ [] = h'' := by simpa using hnil
    simp only [step, hd] at hs
    split at hs
    · obtain ⟨rfl, rfl⟩ := Prod.mk.inj (Option.some.inj hs)
      cases final <;> simp [step, PollThread.drained] at hs'
    · obtain ⟨rfl, rfl⟩ := Prod.mk.inj (Option.some.inj hs)
      simp only [step, if_true] at hs'
      obtain ⟨rfl, rfl⟩ := Prod.mk.inj (Option.some.inj hs')
      exact ⟨rfl, by simp, fun key n hn => settle_stop (b := b.collect) hn⟩

/-- **Commit progress, exactly.** Take any run to the start of a drain in which every valid
record of the partition polled so far has been acknowledged, in whatever order. After that
drain, if its commit (when it makes one) succeeds, the broker's position is past every valid
record and nothing of the partition is left pending if and only if the valid records of the
partition left no hole. -/
theorem commit_progress_iff {b b' : KafkaConsumerBridge ε} {acts drain : List (BridgeAct ε ρ)}
    {h h' : List (BridgeObs ε)} {final : Bool} {key : PartitionKey}
    (hr : Machine.run (step parseEvent) {} acts = some (b, h)) (hd : b.thread = .draining final)
    (hsome : ∃ c, .polled c ∈ h ∧ c.key = key)
    (hack : ∀ c, .polled c ∈ h → c.key = key → .acknowledged c ∈ h)
    (hdrain : drain = [.drain] ∨ drain = [.drain, .commit true])
    (hr' : Machine.run (step parseEvent) b drain = some (b', h'))
    (hdone : b'.thread = .drained final) :
    ((∃ p, b'.committed.get? key = some p ∧ ∀ c, .polled c ∈ h → c.key = key → c.offset < p) ∧
      ∀ n, b'.pendingAt key n = none) ↔ NoHoles key h := by
  obtain ⟨hqueue, hquiet, hstop⟩ := drained_stop hd hdrain hr' hdone
  have hI : Ledger b' (fun c => .polled c ∈ h) (fun c => .acknowledged c ∈ h) :=
    (Ledger.run (Machine.run_append.mpr ⟨b, h, h', hr, hr', rfl⟩)).congr
      (fun c => by simp [(hquiet c).1]) (fun c => by simp [(hquiet c).2])
  obtain ⟨c₀, hc₀, hk₀⟩ := hsome
  obtain ⟨n, hn⟩ := Option.isSome_iff_exists.mp (hI.tracked c₀ hc₀)
  rw [hk₀] at hn
  -- a record is either pending or behind the cursor
  have hplace : ∀ c, .polled c ∈ h → c.key = key →
      b'.pendingAt key c.offset = some c ∨ c.offset < n := by
    rintro c hc rfl
    rcases hI.accounted c (hack c hc rfl) with hq | hp | ⟨m, hm, hlt⟩
    · simp [hqueue] at hq
    · exact Or.inl hp
    · obtain rfl : n = m := Option.some.inj (hn.symm.trans hm)
      exact Or.inr hlt
  constructor
  · rintro ⟨⟨p, hp, hpast⟩, -⟩ c₁ c₂ hc₁ hc₂ hk₁ hk₂ k hle hle'
    obtain rfl : n = p := Option.some.inj (hn.symm.trans (hI.committed key p hp))
    obtain ⟨c, hc, hk, ho⟩ := hI.passed key n hn c₁ hc₁ hk₁ k hle
      (lt_of_le_of_lt hle' (hpast c₂ hc₂ hk₂))
    exact ⟨c, hI.acked_polled c hc, hk, ho⟩
  · intro hholes
    have hpast : ∀ c, .polled c ∈ h → c.key = key → c.offset < n := by
      intro c hc hk
      by_contra hge
      obtain ⟨c₁, hc₁, hk₁, hle⟩ := hI.started key n hn
      obtain ⟨c', hc', hk', ho'⟩ := hholes c₁ c hc₁ hc hk₁ hk n hle (not_lt.mp hge)
      rcases hplace c' hc' hk' with hp | hlt
      · rw [ho', hstop key n hn] at hp
        simp at hp
      · omega
    refine ⟨⟨n, ?_, hpast⟩, fun m => ?_⟩
    · rcases hI.first key n hn with hcom | ⟨c, hc, hk, ho⟩
      · exact hcom
      · exact absurd (hpast c hc hk) (by omega)
    · cases hp : b'.pendingAt key m with
      | none => rfl
      | some c =>
          obtain ⟨hk, ho, ha, hge⟩ := hI.pending key m c hp
          have := hpast c (hI.acked_polled c ha) hk
          have := hge n hn
          omega

/-- Two consecutive valid records, acknowledged in the opposite order. -/
def consecutiveActs : List (BridgeAct Unit (Option Unit)) :=
  [.check, .drain, .poll (.message ⟨"market-events", 0, 7, some ()⟩), .put, .handed,
    .check, .drain, .poll (.message ⟨"market-events", 0, 8, some ()⟩), .put, .handed,
    .take, .take, .acknowledge ⟨(), "market-events", 0, 8⟩,
    .acknowledge ⟨(), "market-events", 0, 7⟩, .check]

theorem commit_progress_consecutive :
    ∃ b h b' h', Machine.run (step id) {} consecutiveActs = some (b, h) ∧
      Machine.run (step (id : Option Unit → Option Unit)) b [.drain, .commit true] = some (b', h') ∧
      b'.committed.get? ("market-events", 0) = some 9 ∧
      ∀ n, b'.pendingAt ("market-events", 0) n = none := by
  obtain ⟨b, hr, hd, b', h', hr', hdone, hcom⟩ : ∃ b,
      Machine.run (step id) {} consecutiveActs =
        some (b, [.polled ⟨(), "market-events", 0, 7⟩, .polled ⟨(), "market-events", 0, 8⟩,
          .acknowledged ⟨(), "market-events", 0, 8⟩, .acknowledged ⟨(), "market-events", 0, 7⟩]) ∧
      b.thread = .draining false ∧ ∃ b' h',
      Machine.run (step (id : Option Unit → Option Unit)) b [.drain, .commit true] = some (b', h') ∧
      b'.thread = .drained false ∧ b'.committed.get? ("market-events", 0) = some 9 :=
    ⟨_, rfl, rfl, _, _, rfl, rfl, rfl⟩
  refine ⟨b, _, b', h', hr, hr', hcom, ?_⟩
  refine ((commit_progress_iff hr hd ⟨_, List.mem_cons_self, rfl⟩ ?_ (Or.inr rfl) hr' hdone).mpr
    ?_).2
  · intro c hc _
    simp only [List.mem_cons, BridgeObs.polled.injEq, reduceCtorEq, or_false,
      List.not_mem_nil] at hc
    rcases hc with rfl | rfl <;> simp
  · exact noHoles_pair (x := ⟨(), "market-events", 0, 7⟩) (y := ⟨(), "market-events", 0, 8⟩)
      rfl rfl rfl fun c => by simp

/-- Two valid records with a malformed one between them, both acknowledged. -/
def holeActs : List (BridgeAct Unit (Option Unit)) :=
  [.check, .drain, .poll (.message ⟨"market-events", 0, 0, some ()⟩), .put, .handed,
    .check, .drain, .poll (.message ⟨"market-events", 0, 1, none⟩),
    .check, .drain, .poll (.message ⟨"market-events", 0, 2, some ()⟩), .put, .handed,
    .take, .take, .acknowledge ⟨(), "market-events", 0, 0⟩,
    .acknowledge ⟨(), "market-events", 0, 2⟩, .check]

/-- **A malformed record stops the partition**: everything valid is acknowledged and the
commit succeeds, yet the position stays before the last valid record, whose
acknowledgement stays pending. -/
theorem commit_stuck_at_malformed :
    ∃ b b' h', Machine.run (step id) {} holeActs =
        some (b, [.polled ⟨(), "market-events", 0, 0⟩, .polled ⟨(), "market-events", 0, 2⟩,
          .acknowledged ⟨(), "market-events", 0, 0⟩, .acknowledged ⟨(), "market-events", 0, 2⟩]) ∧
      b.thread = .draining false ∧
      Machine.run (step (id : Option Unit → Option Unit)) b [.drain, .commit true] = some (b', h') ∧
      b'.thread = .drained false ∧
      b'.committed.get? ("market-events", 0) = some 1 ∧
      b'.pendingAt ("market-events", 0) 2 = some ⟨(), "market-events", 0, 2⟩ :=
  ⟨_, _, _, rfl, rfl, rfl, rfl, rfl, rfl⟩

end MarketData.Engine
