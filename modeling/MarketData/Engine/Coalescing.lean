import Mathlib.Order.Bounds.Basic
import MarketData.Engine.Ledger

/-!
# MarketData.Engine.Coalescing

**Acknowledgement coalescing, as a data structure of its own.** `_track_consumed`,
`acknowledge` and `_drain_acknowledgements` are called in any order, on any events, with any
of the commits failing; nothing is assumed about what was polled or who acknowledges.

What a successful drain leaves is then a function of two things only: where each partition was
first tracked, and which of its offsets have been acknowledged (`Target`). So the cursors do
not depend on the order of the calls, on repetitions, or on failed commits in between.

`Coalesced` is the invariant of all three calls; `drain_target` reads the cursor off it.
-/

namespace MarketData.Engine

/-- A call of the acknowledgement half of `KafkaConsumerBridge`. -/
inductive AckAct (ε : Type)
  | track (consumed : ConsumedEvent ε)
  | acknowledge (consumed : ConsumedEvent ε)
  /-- `_drain_acknowledgements`; its commit, if it makes one, succeeds if `ok`. -/
  | drain (ok : Bool)

variable {ε ρ : Type}

namespace KafkaConsumerBridge

/-- `_drain_acknowledgements`, with the positions it commits, if it calls `consumer.commit`.
An acknowledgement that arrives while the call blocks waits in the queue for the next drain. -/
def drainAcknowledgements (b : KafkaConsumerBridge ε) (ok : Bool) :
    KafkaConsumerBridge ε × Option (List (PartitionKey × Nat)) :=
  let b := b.collect
  if b.advances.isEmpty then (b, none)
  else (if ok then b.settle b.advances else b, some (commitOffsets b.advances))

/-- Make one call. -/
def call (b : KafkaConsumerBridge ε) : AckAct ε → KafkaConsumerBridge ε
  | .track c => b.trackConsumed c
  | .acknowledge c => { b with acknowledgements := b.acknowledgements ++ [c] }
  | .drain ok => (b.drainAcknowledgements ok).1

/-- The bridge after these calls. -/
def calls (acts : List (AckAct ε)) : KafkaConsumerBridge ε := acts.foldl call {}

theorem calls_snoc (acts : List (AckAct ε)) (a : AckAct ε) :
    calls (acts ++ [a]) = (calls acts).call a := by
  simp [calls]

/-- The polling thread's two steps are one call. -/
theorem run_drainAcknowledgements [DecidableEq ε] (parseEvent : ρ → Option ε)
    {b : KafkaConsumerBridge ε} {final : Bool} (ht : b.thread = .draining final) (ok : Bool) :
    match b.drainAcknowledgements ok with
    | (b', none) => Machine.run (step parseEvent) b [.drain] =
        some ({ b' with thread := .drained final }, [])
    | (b', some offsets) => Machine.run (step parseEvent) b [.drain, .commit ok] =
        some ({ b' with thread := .drained final }, [.commit offsets]) := by
  unfold drainAcknowledgements
  cases he : b.collect.advances.isEmpty with
  | true => simp [Machine.run, step, ht, he]
  | false => cases ok <;> simp [Machine.run, step, ht, he, settle]

end KafkaConsumerBridge

open KafkaConsumerBridge

/-! ### What the calls have said -/

/-- The offset at which a partition was first tracked. -/
def firstTracked (acts : List (AckAct ε)) (key : PartitionKey) : Option Nat :=
  acts.findSome? fun
    | .track c => if c.key = key then some c.offset else none
    | _ => none

/-- An offset has been acknowledged. -/
def Acked (acts : List (AckAct ε)) (key : PartitionKey) (n : Nat) : Prop :=
  ∃ c, .acknowledge c ∈ acts ∧ c.key = key ∧ c.offset = n

/-- Where the cursor of a partition belongs: at the first offset, from the first tracked one
on, that has not been acknowledged. -/
def Target (acts : List (AckAct ε)) (key : PartitionKey) (n : Nat) : Prop :=
  ∃ first, firstTracked acts key = some first ∧ IsLeast {k | first ≤ k ∧ ¬ Acked acts key k} n

section history

variable {acts : List (AckAct ε)} {a : AckAct ε} {key : PartitionKey} {n : Nat}

theorem firstTracked_snoc : firstTracked (acts ++ [a]) key = (firstTracked acts key).or
    (match a with
      | .track c => if c.key = key then some c.offset else none
      | _ => none) := by
  unfold firstTracked
  rw [List.findSome?_append, List.findSome?_singleton]

theorem Acked.snoc (h : Acked acts key n) : Acked (acts ++ [a]) key n := by
  obtain ⟨c, hc, hk⟩ := h
  exact ⟨c, List.mem_append_left _ hc, hk⟩

theorem acked_snoc (ha : ∀ c, a ≠ .acknowledge c) :
    Acked (acts ++ [a]) key n ↔ Acked acts key n := by
  refine ⟨fun h => ?_, Acked.snoc⟩
  obtain ⟨c, hc, hk⟩ := h
  rcases List.mem_append.mp hc with hc | hc
  · exact ⟨c, hc, hk⟩
  · exact absurd (List.mem_singleton.mp hc).symm (ha c)

/-- There is at most one place for the cursor. -/
theorem Target.unique {m : Nat} (h : Target acts key n) (h' : Target acts key m) : n = m := by
  obtain ⟨first, hf, hn⟩ := h
  obtain ⟨first', hf', hm⟩ := h'
  obtain rfl := Option.some.inj (hf.symm.trans hf')
  exact hn.unique hm

/-- The place of the cursor depends on first tracked offsets and acknowledged offsets only. -/
theorem Target.congr {acts' : List (AckAct ε)} (hf : firstTracked acts' key = firstTracked acts key)
    (ha : ∀ k, Acked acts' key k ↔ Acked acts key k) :
    Target acts' key n ↔ Target acts key n := by
  unfold Target
  simp only [hf, ha]

end history

/-! ### The invariant of the calls -/

/-- The bridge agrees with what the calls have said. -/
structure Coalesced (b : KafkaConsumerBridge ε) (acts : List (AckAct ε)) : Prop where
  /-- A partition has a cursor once it is tracked. -/
  tracked : ∀ key, (b.nextCommitOffsets.get? key).isSome = (firstTracked acts key).isSome
  /-- The cursor has passed acknowledged offsets only. -/
  passed : ∀ key n first, b.nextCommitOffsets.get? key = some n →
    firstTracked acts key = some first →
    first ≤ n ∧ ∀ k, first ≤ k → k < n → Acked acts key k
  queued : ∀ c ∈ b.acknowledgements, Acked acts c.key c.offset
  pending : ∀ key n, (b.pendingAt key n).isSome → Acked acts key n
  /-- No acknowledgement is lost. -/
  accounted : ∀ key n, Acked acts key n →
    (∃ c ∈ b.acknowledgements, c.key = key ∧ c.offset = n) ∨ (b.pendingAt key n).isSome ∨
      ∃ m ∈ b.nextCommitOffsets.get? key, n < m

namespace Coalesced

variable {b : KafkaConsumerBridge ε} {acts : List (AckAct ε)}

theorem track (hI : Coalesced b acts) (c : ConsumedEvent ε) :
    Coalesced (b.trackConsumed c) (acts ++ [.track c]) := by
  obtain ⟨next, heq, hnext⟩ := b.trackConsumed_eq c
  rw [heq]
  have hsame : ∀ {key n}, Acked (acts ++ [.track c]) key n ↔ Acked acts key n :=
    acked_snoc fun c' h => by cases h
  refine ⟨fun key => ?_, fun key n first hn hf => ?_, fun c' hc' => (hI.queued c' hc').snoc,
    fun key n hp => (hI.pending key n hp).snoc, fun key n ha => ?_⟩
  · rw [hnext, firstTracked_snoc, Option.isSome_or, Option.isSome_or, hI.tracked]
  · rw [hnext] at hn
    rw [firstTracked_snoc] at hf
    have htracked := hI.tracked key
    -- either the partition was tracked before, or this event is where its cursor starts
    cases hold : b.nextCommitOffsets.get? key with
    | some m =>
        cases hfirst : firstTracked acts key with
        | none => simp [hold, hfirst] at htracked
        | some first' =>
            obtain rfl : m = n := by simpa [hold] using hn
            obtain rfl : first' = first := by simpa [hfirst] using hf
            obtain ⟨hle, hpassed⟩ := hI.passed key m first' hold hfirst
            exact ⟨hle, fun k hk hlt => (hpassed k hk hlt).snoc⟩
    | none =>
        cases hfirst : firstTracked acts key with
        | some first' => simp [hold, hfirst] at htracked
        | none =>
            rw [hold, Option.none_or] at hn
            rw [hfirst, Option.none_or] at hf
            obtain rfl := Option.some.inj (hn.symm.trans hf)
            exact ⟨le_rfl, fun k hk hlt => absurd hlt (not_lt.mpr hk)⟩
  · rcases hI.accounted key n (hsame.mp ha) with h | h | h
    · exact Or.inl h
    · exact Or.inr (Or.inl h)
    · obtain ⟨m, hm, hlt⟩ := h
      refine Or.inr (Or.inr ⟨m, ?_, hlt⟩)
      show next.get? key = some m
      rw [hnext, hm, Option.some_or]

theorem acknowledge (hI : Coalesced b acts) (c : ConsumedEvent ε) :
    Coalesced { b with acknowledgements := b.acknowledgements ++ [c] }
      (acts ++ [.acknowledge c]) := by
  have hfirst : ∀ key, firstTracked (acts ++ [.acknowledge c]) key = firstTracked acts key := by
    intro key
    rw [firstTracked_snoc, Option.or_none]
  refine ⟨fun key => (hI.tracked key).trans (by rw [hfirst]), fun key n first hn hf => ?_,
    fun c' hc' => ?_, fun key n hp => (hI.pending key n hp).snoc, fun key n ha => ?_⟩
  · obtain ⟨hle, hpassed⟩ := hI.passed key n first hn (hfirst key ▸ hf)
    exact ⟨hle, fun k hk hlt => (hpassed k hk hlt).snoc⟩
  · rcases List.mem_append.mp hc' with hc' | hc'
    · exact (hI.queued c' hc').snoc
    · obtain rfl := List.mem_singleton.mp hc'
      exact ⟨c', List.mem_append_right _ (List.mem_singleton.mpr rfl), rfl, rfl⟩
  · obtain ⟨c', hc', hk⟩ := ha
    rcases List.mem_append.mp hc' with hc' | hc'
    · rcases hI.accounted key n ⟨c', hc', hk⟩ with h | h
      · obtain ⟨x, hx, hxk⟩ := h
        exact Or.inl ⟨x, List.mem_append_left _ hx, hxk⟩
      · exact Or.inr h
    · obtain rfl := AckAct.acknowledge.inj (List.mem_singleton.mp hc')
      exact Or.inl ⟨c', List.mem_append_right _ (List.mem_singleton.mpr rfl), hk⟩

/-- Emptying the acknowledgement queue. -/
theorem collect (hI : Coalesced b acts) : Coalesced b.collect acts where
  tracked := hI.tracked
  passed := hI.passed
  queued c hc := absurd hc List.not_mem_nil
  pending key n hp := by
    obtain ⟨c, hc⟩ := Option.isSome_iff_exists.mp hp
    rcases pendingAt_collect hc with h | h
    · exact hI.pending key n (by rw [h]; rfl)
    · obtain ⟨hq, rfl, rfl⟩ := h
      exact hI.queued c hq
  accounted key n ha := by
    rcases hI.accounted key n ha with h | h | h
    · exact Or.inr (Or.inl (pendingAt_collect_isSome (Or.inr h)))
    · exact Or.inr (Or.inl (pendingAt_collect_isSome (Or.inl h)))
    · exact Or.inr (Or.inr h)

/-- The cursor of a drain is at or after its start, and what lies between has been acknowledged. -/
theorem advanced (hI : Coalesced b acts) {key : PartitionKey} {start : Nat}
    (hs : b.nextCommitOffsets.get? key = some start) :
    start ≤ (b.advances.get? key).elim start Prod.snd ∧
    ∀ k, start ≤ k → k < (b.advances.get? key).elim start Prod.snd → Acked acts key k := by
  cases ha : b.advances.get? key with
  | none => exact ⟨le_rfl, fun k hk hlt => absurd hlt (not_lt.mpr hk)⟩
  | some a =>
      obtain ⟨start', cursor⟩ := a
      obtain ⟨hs', hlt, hpend⟩ := advances_get? ha
      obtain rfl := Option.some.inj (hs.symm.trans hs')
      exact ⟨hlt.le, fun k hk hlt => hI.pending key k (hpend k hk hlt)⟩

/-- **The cursor of a successful drain is where it belongs**: it has passed acknowledged
offsets, and stops at one that is not. -/
theorem target (hI : Coalesced b acts) (hq : b.acknowledgements = []) {key : PartitionKey}
    {start : Nat} (hs : b.nextCommitOffsets.get? key = some start) :
    Target acts key ((b.advances.get? key).elim start Prod.snd) := by
  have htracked := hI.tracked key
  rw [hs] at htracked
  obtain ⟨first, hf⟩ := Option.isSome_iff_exists.mp htracked.symm
  obtain ⟨hle, hpassed⟩ := hI.passed key start first hs hf
  have hstop := advances_stop hs
  obtain ⟨hstart, hbetween⟩ := hI.advanced hs
  refine ⟨first, hf, ⟨hle.trans hstart, fun ha => ?_⟩, fun k hk => ?_⟩
  · rcases hI.accounted key _ ha with h | h | h
    · obtain ⟨c, hc, -⟩ := h
      exact absurd hc (by rw [hq]; exact List.not_mem_nil)
    · rw [hstop] at h
      exact absurd h (by simp)
    · obtain ⟨m, hm, hlt⟩ := h
      obtain rfl := Option.some.inj (hs.symm.trans hm)
      exact absurd hlt (not_lt.mpr hstart)
  · obtain ⟨hfk, hnot⟩ := hk
    by_contra hlt
    have hlt := not_le.mp hlt
    rcases Nat.lt_or_ge k start with hks | hks
    · exact hnot (hpassed k hfk hks)
    · exact hnot (hbetween k hks hlt)

/-- A successful commit. -/
theorem settle (hI : Coalesced b acts) : Coalesced (b.settle b.advances) acts where
  tracked key := by
    rw [nextCommitOffsets_settle, ← hI.tracked]
    cases ha : b.advances.get? key with
    | none => rfl
    | some a =>
        obtain ⟨start, cursor⟩ := a
        obtain ⟨hs, -⟩ := advances_get? ha
        rw [hs]
        rfl
  passed key n first hn hf := by
    have hstart : ∃ start, b.nextCommitOffsets.get? key = some start ∧
        (b.advances.get? key).elim start Prod.snd = n := by
      rcases Ledger.next_settle_cases hn with h | h
      · obtain ⟨start, ha⟩ := h
        exact ⟨start, (advances_get? ha).1, by rw [ha]; rfl⟩
      · exact ⟨n, h.2, by rw [h.1]; rfl⟩
    obtain ⟨start, hs, rfl⟩ := hstart
    obtain ⟨hle, hpassed⟩ := hI.passed key start first hs hf
    obtain ⟨hstart, hbetween⟩ := hI.advanced hs
    refine ⟨hle.trans hstart, fun k hk hlt => ?_⟩
    rcases Nat.lt_or_ge k start with hks | hks
    · exact hpassed k hk hks
    · exact hbetween k hks hlt
  queued := hI.queued
  pending key n hp := by
    rw [pendingAt_settle] at hp
    split at hp
    · exact absurd hp (by simp)
    · exact hI.pending key n hp
  accounted key n ha := by
    rw [pendingAt_settle, nextCommitOffsets_settle]
    cases hadv : b.advances.get? key with
    | none =>
        rw [Option.any_none, if_neg (by simp), Option.map_none, Option.none_or]
        exact hI.accounted key n ha
    | some a =>
        obtain ⟨start, cursor⟩ := a
        obtain ⟨hs, hlt, -⟩ := advances_get? hadv
        -- what the commit drops is behind the new cursor
        rcases hI.accounted key n ha with h | h | h
        · exact Or.inl h
        · by_cases hn : start ≤ n ∧ n < cursor
          · exact Or.inr (Or.inr ⟨cursor, rfl, hn.2⟩)
          · rw [Option.any_some, if_neg (by simpa using hn)]
            exact Or.inr (Or.inl h)
        · obtain ⟨m, hm, hnm⟩ := h
          obtain rfl := Option.some.inj (hs.symm.trans hm)
          exact Or.inr (Or.inr ⟨cursor, rfl, hnm.trans hlt⟩)

theorem drain (hI : Coalesced b acts) (ok : Bool) :
    Coalesced (b.drainAcknowledgements ok).1 acts := by
  unfold drainAcknowledgements
  dsimp only
  split
  · exact hI.collect
  · cases ok with
    | true => exact hI.collect.settle
    | false => exact hI.collect

/-- A drain says nothing. -/
theorem snoc_drain (hI : Coalesced b acts) (ok : Bool) : Coalesced b (acts ++ [.drain ok]) := by
  have hfirst : ∀ key, firstTracked (acts ++ [.drain ok]) key = firstTracked acts key := by
    intro key
    rw [firstTracked_snoc, Option.or_none]
  have hsame : ∀ {key n}, Acked (acts ++ [.drain ok]) key n ↔ Acked acts key n :=
    acked_snoc fun c h => by cases h
  refine ⟨fun key => (hI.tracked key).trans (by rw [hfirst]), fun key n first hn hf => ?_,
    fun c hc => (hI.queued c hc).snoc, fun key n hp => (hI.pending key n hp).snoc,
    fun key n ha => hI.accounted key n (hsame.mp ha)⟩
  obtain ⟨hle, hpassed⟩ := hI.passed key n first hn (hfirst key ▸ hf)
  exact ⟨hle, fun k hk hlt => (hpassed k hk hlt).snoc⟩

theorem initial : Coalesced ({} : KafkaConsumerBridge ε) [] where
  tracked _ := rfl
  passed key n first hn := by
    rw [Dict.get?_empty] at hn
    cases hn
  queued c hc := absurd hc List.not_mem_nil
  pending key n hp := by
    change (none : Option (ConsumedEvent ε)).isSome at hp
    cases hp
  accounted key n ha := by
    obtain ⟨c, hc, -⟩ := ha
    exact absurd hc List.not_mem_nil

end Coalesced

/-- **After any calls the bridge agrees with what they have said.** -/
theorem coalesced (acts : List (AckAct ε)) : Coalesced (calls acts) acts := by
  induction acts using List.reverseRecOn with
  | nil => exact .initial
  | append_singleton acts a ih =>
      rw [calls_snoc]
      cases a with
      | track c => exact ih.track c
      | acknowledge c => exact ih.acknowledge c
      | drain ok => exact (ih.drain ok).snoc_drain ok

/-! ### What a drain does -/

section drain

variable (acts : List (AckAct ε)) (key : PartitionKey) (n : Nat)

/-- The cursors after a drain that was not stopped by a failing commit. -/
theorem drain_target {ok : Bool}
    (hok : ok = true ∨ ((calls acts).drainAcknowledgements ok).2 = none) :
    ((calls acts).drainAcknowledgements ok).1.nextCommitOffsets.get? key = some n ↔
      Target acts key n := by
  have hI := (coalesced acts).collect
  -- either way the cursor is the one the drain computed
  have hcursor : ((calls acts).drainAcknowledgements ok).1.nextCommitOffsets.get? key =
      (((calls acts).collect.advances.get? key).map Prod.snd).or
        ((calls acts).collect.nextCommitOffsets.get? key) := by
    unfold drainAcknowledgements at hok ⊢
    dsimp only at hok ⊢
    split
    · rename_i he
      rw [Dict.isEmpty_iff.mp he key]
      rfl
    · rename_i he
      rw [if_neg he] at hok
      obtain rfl := hok.resolve_right (fun h => by cases h)
      exact nextCommitOffsets_settle ..
  have htarget : ∀ start, (calls acts).collect.nextCommitOffsets.get? key = some start →
      Target acts key (((calls acts).collect.advances.get? key).elim start Prod.snd) :=
    fun start hs => hI.target rfl hs
  rw [hcursor]
  constructor
  · intro h
    cases ha : (calls acts).collect.advances.get? key with
    | none =>
        rw [ha] at h htarget
        exact htarget n h
    | some a =>
        obtain ⟨start, cursor⟩ := a
        rw [ha] at h htarget
        obtain rfl : cursor = n := Option.some.inj h
        exact htarget start (advances_get? ha).1
  · intro h
    have htracked := hI.tracked key
    obtain ⟨first, hf, -⟩ := id h
    rw [hf] at htracked
    obtain ⟨start, hs⟩ := Option.isSome_iff_exists.mp htracked
    rw [h.unique (htarget start hs), hs]
    cases (calls acts).collect.advances.get? key <;> rfl

/-- The positions a drain commits. -/
theorem mem_advances : (∃ start, (calls acts).collect.advances.get? key = some (start, n)) ↔
    Target acts key n ∧ (calls acts).nextCommitOffsets.get? key ≠ some n := by
  have hI := (coalesced acts).collect
  constructor
  · intro h
    obtain ⟨start, ha⟩ := h
    obtain ⟨hs, hlt, -⟩ := advances_get? ha
    have ht := hI.target rfl hs
    rw [ha] at ht
    refine ⟨ht, fun hn => ?_⟩
    obtain rfl := Option.some.inj (hs.symm.trans hn)
    exact absurd hlt (lt_irrefl _)
  · intro h
    obtain ⟨ht, hne⟩ := h
    have htracked := hI.tracked key
    obtain ⟨first, hf, -⟩ := id ht
    rw [hf] at htracked
    obtain ⟨start, hs⟩ := Option.isSome_iff_exists.mp htracked
    have hn := ht.unique (hI.target rfl hs)
    cases ha : (calls acts).collect.advances.get? key with
    | none =>
        rw [ha] at hn
        exact absurd (hn ▸ hs) hne
    | some a =>
        rw [ha] at hn
        exact ⟨a.1, by rw [hn]; rfl⟩

/-- A failing drain keeps the cursors and everything that was acknowledged. -/
theorem drain_failed :
    ((calls acts).drainAcknowledgements false).1.nextCommitOffsets =
      (calls acts).nextCommitOffsets ∧
    ∀ key n, ((calls acts).pendingAt key n).isSome ∨
        (∃ c ∈ (calls acts).acknowledgements, c.key = key ∧ c.offset = n) →
      (((calls acts).drainAcknowledgements false).1.pendingAt key n).isSome := by
  have heq : ((calls acts).drainAcknowledgements false).1 = (calls acts).collect := by
    unfold drainAcknowledgements
    dsimp only
    split <;> rfl
  rw [heq]
  exact ⟨rfl, fun key n h => pendingAt_collect_isSome h⟩

end drain

/-- The commit call of a drain, if it makes one. -/
theorem drain_commit (acts : List (AckAct ε)) (ok : Bool) :
    ((calls acts).drainAcknowledgements ok).2 =
      if (calls acts).collect.advances.isEmpty then none
      else some (commitOffsets (calls acts).collect.advances) := by
  unfold drainAcknowledgements
  dsimp only
  split <;> rfl

/-- What holds of a drain after the calls `acts`, if its commit succeeds exactly if `ok`. -/
structure DrainExact (acts : List (AckAct ε)) (ok : Bool) : Prop where
  /-- Without a failing commit, each cursor is where it belongs. -/
  cursors : ok = true ∨ ((calls acts).drainAcknowledgements ok).2 = none → ∀ key n,
    ((calls acts).drainAcknowledgements ok).1.nextCommitOffsets.get? key = some n ↔
      Target acts key n
  /-- The commit lists each partition whose cursor is to move, once, with that cursor. -/
  commit : ∀ offsets, ((calls acts).drainAcknowledgements ok).2 = some offsets →
    (offsets.map Prod.fst).Nodup ∧ ∀ key n, (key, n) ∈ offsets ↔
      Target acts key n ∧ (calls acts).nextCommitOffsets.get? key ≠ some n
  /-- There is no commit exactly if no cursor is to move. -/
  idle : ((calls acts).drainAcknowledgements ok).2 = none ↔
    ∀ key n, Target acts key n → (calls acts).nextCommitOffsets.get? key = some n
  /-- If the commit fails, the cursors stay and no acknowledgement is lost. -/
  failed : ok = false →
    ((calls acts).drainAcknowledgements ok).1.nextCommitOffsets =
      (calls acts).nextCommitOffsets ∧
    ∀ key n, Acked acts key n →
      (((calls acts).drainAcknowledgements ok).1.pendingAt key n).isSome ∨
        ∃ m ∈ (calls acts).nextCommitOffsets.get? key, n < m
  /-- The same first offsets and the same acknowledgements, in whatever order and batches, lead
  to the same cursors. -/
  schedule : ∀ acts' : List (AckAct ε),
    (∀ key, firstTracked acts' key = firstTracked acts key) →
    (∀ key n, Acked acts' key n ↔ Acked acts key n) → ∀ key,
      ((calls acts').drainAcknowledgements true).1.nextCommitOffsets.get? key =
        ((calls acts).drainAcknowledgements true).1.nextCommitOffsets.get? key

/-- **Coalescing is exact and schedule-independent**, after any calls whatsoever. -/
theorem coalescing_exact (acts : List (AckAct ε)) (ok : Bool) : DrainExact acts ok where
  cursors hok key n := drain_target acts key n hok
  commit offsets hoff := by
    rw [drain_commit] at hoff
    split at hoff
    · cases hoff
    · obtain rfl := Option.some.inj hoff
      refine ⟨?_, fun key n => ?_⟩
      · simpa [commitOffsets, Function.comp_def] using (calls acts).collect.advances.nodup
      · rw [← mem_advances]
        simp [commitOffsets, Dict.mem_entries]
  idle := by
    rw [drain_commit]
    constructor
    · intro hnone key n ht
      have hempty : (calls acts).collect.advances.isEmpty = true := by
        by_contra hne
        rw [if_neg hne] at hnone
        cases hnone
      by_contra hne
      obtain ⟨start, ha⟩ := (mem_advances acts key n).mpr ⟨ht, hne⟩
      rw [Dict.isEmpty_iff.mp hempty key] at ha
      cases ha
    · intro h
      refine if_pos (Dict.isEmpty_iff.mpr fun key => ?_)
      by_contra hne
      obtain ⟨a, ha⟩ := Option.ne_none_iff_exists'.mp hne
      obtain ⟨ht, hmoves⟩ := (mem_advances acts key a.2).mp ⟨a.1, ha⟩
      exact hmoves (h key a.2 ht)
  failed hok := by
    subst hok
    obtain ⟨hnext, hkeeps⟩ := drain_failed acts
    refine ⟨hnext, fun key n ha => ?_⟩
    rcases (coalesced acts).accounted key n ha with h | h | h
    · exact Or.inl (hkeeps key n (Or.inr h))
    · exact Or.inl (hkeeps key n (Or.inl h))
    · exact Or.inr h
  schedule acts' hf ha key := by
    refine Option.ext fun n => ?_
    rw [drain_target acts' key n (Or.inl rfl), drain_target acts key n (Or.inl rfl)]
    exact Target.congr (hf key) (ha key)

/-- Two records of one partition, acknowledged in reverse order; the drain between finds nothing
to commit, the next one fails. -/
example (c₁ c₂ : ConsumedEvent String) (h₁ : c₁ = ⟨"e", "market-events", 2, 41⟩)
    (h₂ : c₂ = ⟨"e", "market-events", 2, 42⟩) :
    ((calls [.track c₁, .track c₂, .acknowledge c₂, .drain true, .acknowledge c₁, .drain false]
        ).drainAcknowledgements true).1.nextCommitOffsets.get? ("market-events", 2) = some 43 := by
  subst h₁ h₂
  rfl

end MarketData.Engine
