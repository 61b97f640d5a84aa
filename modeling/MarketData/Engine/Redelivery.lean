import MarketData.Engine.Coalescing
import MarketData.Engine.Progress

/-!
# MarketData.Engine.Redelivery

**The bridge under redelivery.** A rebalance sets the broker back to the committed position, while
records past it are still on their way through the engine. Such a record is polled again, so it is
tracked, processed and acknowledged once for each copy.

`_drain_acknowledgements` drops the acknowledgements its cursor passes and no others. A copy
acknowledged in time shares the entry of the first one; a copy acknowledged after its offset was
committed is filed behind the cursor (`Stranded`), and no later drain comes back to it. So the
pending acknowledgements stay bounded exactly as long as no drain meets such a copy
(`pending_bounded_iff`).

Each step is one of five effects on the books (`BooksEffect`); the invariant (`Redelivered`) and the
law of the stranded entries (`stranded_step`) are read off these.
-/

namespace MarketData.Engine

open KafkaConsumerBridge

/-- What happens around a bridge whose partitions are rebalanced. -/
inductive RedeliveryAct (ε ρ : Type)
  | bridge (a : BridgeAct ε ρ)
  /-- The partition is assigned anew while `consumer.poll` runs. The broker delivers it from the
  committed position; a partition without one from `latest` (`auto.offset.reset`). -/
  | rebalance (key : PartitionKey) (latest : Nat)

variable {ε ρ : Type}

/-- One step of the bridge, or a rebalance. -/
def KafkaConsumerBridge.redeliver [DecidableEq ε] (parseEvent : ρ → Option ε)
    (b : KafkaConsumerBridge ε) :
    RedeliveryAct ε ρ → Option (KafkaConsumerBridge ε × List (BridgeObs ε))
  | .bridge a => b.step parseEvent a
  | .rebalance key latest =>
    match b.thread with
    | .polling =>
      some ({ b with position := b.position.set key ((b.committed.get? key).getD latest) }, [])
    | _ => none

/-- `_drain_acknowledgements` starts. -/
def RedeliveryAct.drains : RedeliveryAct ε ρ → Bool
  | .bridge .drain => true
  | _ => false

/-- `consumer.commit` returns without an exception. -/
def RedeliveryAct.commits : RedeliveryAct ε ρ → Bool
  | .bridge (.commit ok) => ok
  | _ => false

/-! ### What a step does to the books -/

/-- The same books: what is pending, the cursors, and the queued acknowledgements. -/
structure SameBooks (b b' : KafkaConsumerBridge ε) : Prop where
  pending : b'.pendingAcknowledgements = b.pendingAcknowledgements
  next : b'.nextCommitOffsets = b.nextCommitOffsets
  queue : b'.acknowledgements = b.acknowledgements

/-- The effect of a step on the books, with its observations. -/
inductive BooksEffect (b : KafkaConsumerBridge ε) (b' : KafkaConsumerBridge ε) :
    RedeliveryAct ε ρ → List (BridgeObs ε) → Prop
  /-- None. -/
  | quiet {a : RedeliveryAct ε ρ} (hb : SameBooks b b') (hheld : b'.held ⊆ b.held)
      (ht : ∀ final adv, b'.thread = .committing final adv → b.thread = .committing final adv)
      (hd : a.drains = false) (hc : a.commits = false) : BooksEffect b b' a []
  | tracked {result : PollResult ρ} (c : ConsumedEvent ε) (hb : SameBooks (b.trackConsumed c) b')
      (hheld : b'.held ⊆ c :: b.held) (ht : ∀ final adv, b'.thread ≠ .committing final adv) :
      BooksEffect b b' (.bridge (.poll result)) [.polled c]
  | acknowledged (c : ConsumedEvent ε) (hc : c ∈ b.held)
      (hb : SameBooks { b with acknowledgements := b.acknowledgements ++ [c] } b')
      (hheld : b'.held ⊆ b.held) (ht : b'.thread = b.thread) :
      BooksEffect b b' (.bridge (.acknowledge c)) [.acknowledged c]
  /-- A drain, up to its commit if it makes one. -/
  | drained {o : List (BridgeObs ε)} (hb : SameBooks b.collect b') (hheld : b'.held ⊆ b.held)
      (ht : (∃ final, b'.thread = .committing final b'.advances) ∨
        ((∀ final adv, b'.thread ≠ .committing final adv) ∧ b'.advances.isEmpty = true))
      (ho : ∀ c, .polled c ∉ o ∧ .acknowledged c ∉ o) : BooksEffect b b' (.bridge .drain) o
  | committed {final : Bool} {adv : Dict PartitionKey (Nat × Nat)}
      (hadv : b.thread = .committing final adv) (hb : SameBooks (b.settle adv) b')
      (hheld : b'.held ⊆ b.held) (ht : ∀ final adv, b'.thread ≠ .committing final adv) :
      BooksEffect b b' (.bridge (.commit true)) []

/-- Every step has one of the effects. -/
theorem booksEffect [DecidableEq ε] {parseEvent : ρ → Option ε} {b b' : KafkaConsumerBridge ε}
    {a : RedeliveryAct ε ρ} {o : List (BridgeObs ε)}
    (hs : b.redeliver parseEvent a = some (b', o)) : BooksEffect b b' a o := by
  -- the record of the pending put may leave, and nothing else does
  have hrest : b.queue.items ++ b.taken ⊆ b.held := by
    simp only [held, List.append_assoc]
    exact List.subset_append_right _ _
  cases a with
  | rebalance key latest =>
      simp only [redeliver] at hs
      split at hs
      · obtain ⟨rfl, rfl⟩ := Prod.mk.inj (Option.some.inj hs)
        exact .quiet ⟨rfl, rfl, rfl⟩ (List.Subset.refl _) (fun _ _ h => h) rfl rfl
      · cases hs
  | bridge a =>
      cases stepped hs with
      | checked ht | malformed ht hpos | empty ht hr | raised ht | handed ht hh
      | abandoned ht hstop =>
          exact .quiet ⟨rfl, rfl, rfl⟩ (List.Subset.refl _) (by simp) rfl rfl
      | idle ht he =>
          exact .drained ⟨rfl, rfl, rfl⟩ (List.Subset.refl _)
            (.inr ⟨PollThread.drained_ne_committing _, he⟩) (by simp)
      | committing ht =>
          exact .drained ⟨rfl, rfl, rfl⟩ (List.Subset.refl _) (.inl ⟨_, rfl⟩) (by simp)
      | committed ht =>
          exact .committed ht ⟨rfl, rfl, rfl⟩ (List.Subset.refl _)
            (PollThread.drained_ne_committing _)
      | commitFailed ht =>
          refine .quiet ⟨rfl, rfl, rfl⟩ (List.Subset.refl _) (fun final' adv h => ?_) rfl rfl
          exact absurd h (PollThread.drained_ne_committing _ final' adv)
      | polled c ht hc hp hpos hnext =>
          refine .tracked c ?_ (List.cons_subset_cons c hrest) (by simp)
          rw [hnext]
          exact ⟨rfl, rfl, rfl⟩
      | handoffFailed ht => exact .quiet ⟨rfl, rfl, rfl⟩ hrest (by simp) rfl rfl
      | put hc hq =>
          obtain ⟨-, hitems, -⟩ := BoundedQueue.putNowait_eq_some.mp hq
          refine .quiet ⟨rfl, rfl, rfl⟩ (fun x hx => ?_) (fun _ _ h => h) rfl rfl
          simp only [held, hc, hitems, Option.toList_some, Option.toList_none, List.mem_append,
            List.mem_singleton, List.not_mem_nil, false_or] at hx ⊢
          rcases hx with (h | h) | h
          · exact .inl (.inr h)
          · exact .inl (.inl h)
          · exact .inr h
      | cancelPut ht => exact .quiet ⟨rfl, rfl, rfl⟩ hrest (fun _ _ h => h) rfl rfl
      | taken hq =>
          obtain ⟨⟨rest, hitems⟩, rfl⟩ := BoundedQueue.getNowait_eq_some.mp hq
          refine .quiet ⟨rfl, rfl, rfl⟩ (fun x hx => ?_) (fun _ _ h => h) rfl rfl
          simp only [held, BoundedQueue.items_pop, hitems, List.tail_cons, List.mem_append,
            List.mem_cons] at hx ⊢
          rcases hx with (h | h) | h | h
          · exact .inl (.inl h)
          · exact .inl (.inr (.inr h))
          · exact .inl (.inr (.inl h))
          · exact .inr h
      | acknowledged hc =>
          exact .acknowledged _ (List.mem_append_right _ hc) ⟨rfl, rfl, rfl⟩
            (List.erase_sublist.append_left _).subset rfl
      | stopped => exact .quiet ⟨rfl, rfl, rfl⟩ (List.Subset.refl _) (fun _ _ h => h) rfl rfl

namespace SameBooks

variable {b b' : KafkaConsumerBridge ε}

theorem pendingAt (hb : SameBooks b b') (key : PartitionKey) (n : Nat) :
    b'.pendingAt key n = b.pendingAt key n := by
  unfold KafkaConsumerBridge.pendingAt
  rw [hb.pending]

theorem advances (hb : SameBooks b b') : b'.advances = b.advances := by
  unfold KafkaConsumerBridge.advances
  rw [hb.pending, hb.next]

theorem coalesced {acts : List (AckAct ε)} (hb : SameBooks b b') (hI : Coalesced b acts) :
    Coalesced b' acts where
  tracked key := by
    rw [hb.next]
    exact hI.tracked key
  passed key n first hn hf := by
    rw [hb.next] at hn
    exact hI.passed key n first hn hf
  queued c hc := by
    rw [hb.queue] at hc
    exact hI.queued c hc
  pending key n hp := by
    rw [hb.pendingAt] at hp
    exact hI.pending key n hp
  accounted key n ha := by
    rw [hb.queue, hb.pendingAt, hb.next]
    exact hI.accounted key n ha

end SameBooks

/-! ### The invariant -/

/-- The calls behind what was observed. -/
def ackActs (h : List (BridgeObs ε)) : List (AckAct ε) :=
  h.filterMap fun
    | .polled c => some (.track c)
    | .acknowledged c => some (.acknowledge c)
    | .commit _ => none

section observed

variable {h : List (BridgeObs ε)} {key : PartitionKey} {n : Nat}

theorem ackActs_append (h o : List (BridgeObs ε)) : ackActs (h ++ o) = ackActs h ++ ackActs o :=
  List.filterMap_append

theorem ackActs_eq_nil (hquiet : ∀ c, .polled c ∉ h ∧ .acknowledged c ∉ h) : ackActs h = [] := by
  refine List.filterMap_eq_nil_iff.mpr fun x hx => ?_
  cases x with
  | polled c => exact absurd hx (hquiet c).1
  | acknowledged c => exact absurd hx (hquiet c).2
  | commit offsets => rfl

theorem acked_ackActs :
    Acked (ackActs h) key n ↔ ∃ c, .acknowledged c ∈ h ∧ c.key = key ∧ c.offset = n := by
  refine exists_congr fun c => and_congr_left' ?_
  refine List.mem_filterMap.trans ⟨fun ⟨x, hx, heq⟩ => ?_, fun hc => ⟨_, hc, rfl⟩⟩
  cases x with
  | acknowledged c' =>
      obtain rfl := AckAct.acknowledge.inj (Option.some.inj heq)
      exact hx
  | polled c' => cases heq
  | commit offsets => cases heq

/-- A partition is first tracked at a polled record. -/
theorem polled_of_firstTracked (hf : firstTracked (ackActs h) key = some n) :
    ∃ c, .polled c ∈ h ∧ c.key = key ∧ c.offset = n := by
  obtain ⟨act, hact, heq⟩ := List.exists_of_findSome?_eq_some hf
  obtain ⟨x, hx, hxa⟩ := List.mem_filterMap.mp hact
  cases x with
  | polled c =>
      obtain rfl := Option.some.inj hxa
      dsimp only at heq
      split at heq
      · rename_i hk
        exact ⟨c, hx, hk, Option.some.inj heq⟩
      · cases heq
  | acknowledged c =>
      obtain rfl := Option.some.inj hxa
      cases heq
  | commit offsets => cases hxa

/-- The partition of a polled record is tracked. -/
theorem firstTracked_of_polled {c : ConsumedEvent ε} (hc : .polled c ∈ h) :
    (firstTracked (ackActs h) c.key).isSome := by
  refine List.findSome?_isSome_iff.mpr ⟨.track c, List.mem_filterMap.mpr ⟨_, hc, rfl⟩, ?_⟩
  simp

end observed

/-- The bridge agrees with what was observed, however often a record was delivered. -/
structure Redelivered (b : KafkaConsumerBridge ε) (h : List (BridgeObs ε)) : Prop where
  books : Coalesced b (ackActs h)
  held : ∀ c ∈ b.held, .polled c ∈ h
  acked : ∀ c, .acknowledged c ∈ h → .polled c ∈ h
  /-- The commit under way is the one the drain computed. -/
  committing : ∀ final adv, b.thread = .committing final adv → adv = b.advances

namespace Redelivered

variable {b b' : KafkaConsumerBridge ε} {h o : List (BridgeObs ε)} {a : RedeliveryAct ε ρ}

theorem initial : Redelivered ({} : KafkaConsumerBridge ε) [] where
  books := .initial
  held c hc := absurd hc List.not_mem_nil
  acked c hc := absurd hc List.not_mem_nil
  committing final adv ht := by cases ht

theorem step (hI : Redelivered b h) (he : BooksEffect b b' a o) : Redelivered b' (h ++ o) := by
  cases he with
  | quiet hb hheld ht hd hc =>
      rw [List.append_nil]
      refine ⟨hb.coalesced hI.books, fun c hc => hI.held c (hheld hc), hI.acked,
        fun final adv hadv => ?_⟩
      rw [hb.advances]
      exact hI.committing final adv (ht final adv hadv)
  | tracked c hb hheld ht =>
      refine ⟨?_, fun x hx => ?_, fun x hx => ?_, fun final adv hadv => absurd hadv (ht final adv)⟩
      · rw [ackActs_append]
        exact hb.coalesced (hI.books.track c)
      · rcases List.mem_cons.mp (hheld hx) with rfl | hx
        · simp
        · exact List.mem_append_left _ (hI.held x hx)
      · exact List.mem_append_left _ (hI.acked x (by simpa using hx))
  | acknowledged c hc hb hheld ht =>
      refine ⟨?_, fun x hx => List.mem_append_left _ (hI.held x (hheld hx)), fun x hx => ?_,
        fun final adv hadv => ?_⟩
      · rw [ackActs_append]
        exact hb.coalesced (hI.books.acknowledge c)
      · rcases List.mem_append.mp hx with hx | hx
        · exact List.mem_append_left _ (hI.acked x hx)
        · obtain rfl : x = c := by simpa using hx
          exact List.mem_append_left _ (hI.held x hc)
      · rw [hb.advances]
        exact hI.committing final adv (ht ▸ hadv)
  | drained hb hheld ht ho =>
      refine ⟨?_, fun x hx => List.mem_append_left _ (hI.held x (hheld hx)), fun x hx => ?_,
        fun final adv hadv => ?_⟩
      · rw [ackActs_append, ackActs_eq_nil ho, List.append_nil]
        exact hb.coalesced hI.books.collect
      · have hx := (List.mem_append.mp hx).resolve_right (ho x).2
        exact List.mem_append_left _ (hI.acked x hx)
      · rcases ht with ⟨final', ht⟩ | ⟨ht, -⟩
        · obtain ⟨-, rfl⟩ := PollThread.committing.inj (hadv.symm.trans ht)
          rfl
        · exact absurd hadv (ht final adv)
  | committed hadv hb hheld ht =>
      obtain rfl := hI.committing _ _ hadv
      rw [List.append_nil]
      exact ⟨hb.coalesced hI.books.settle, fun c hc => hI.held c (hheld hc), hI.acked,
        fun final adv h => absurd h (ht final adv)⟩

end Redelivered

/-! ### Acknowledgements behind the cursor -/

/-- An acknowledgement of the partition is pending behind the cursor. -/
def Stranded (key : PartitionKey) (b : KafkaConsumerBridge ε) : Prop :=
  ∃ n m, (b.pendingAt key n).isSome ∧ b.nextCommitOffsets.get? key = some m ∧ n < m

/-- A drain meets no queued acknowledgement of the partition whose offset is committed. -/
def Timely (key : PartitionKey) (b : KafkaConsumerBridge ε) (a : RedeliveryAct ε ρ) : Prop :=
  a.drains → ∀ c ∈ b.acknowledgements, c.key = key →
    ∀ m ∈ b.nextCommitOffsets.get? key, m ≤ c.offset

instance (key : PartitionKey) (b : KafkaConsumerBridge ε) (a : RedeliveryAct ε ρ) :
    Decidable (Timely key b a) :=
  inferInstanceAs (Decidable (_ → ∀ _ ∈ _, _ → ∀ _ ∈ _, _))

section stranded

variable {key : PartitionKey} {b b' : KafkaConsumerBridge ε} {h o : List (BridgeObs ε)}
  {a : RedeliveryAct ε ρ}

theorem SameBooks.stranded (hb : SameBooks b b') : Stranded key b' ↔ Stranded key b := by
  unfold Stranded
  simp only [hb.pendingAt, hb.next]

theorem timely_of_drains (ha : a.drains = false) : Timely key b a := fun h => by simp [ha] at h

/-- What is pending is of a partition with a cursor. -/
theorem Redelivered.cursor (hI : Redelivered b h) {n : Nat} (hp : (b.pendingAt key n).isSome) :
    (b.nextCommitOffsets.get? key).isSome := by
  obtain ⟨c, hc, rfl, -⟩ := acked_ackActs.mp (hI.books.pending key n hp)
  rw [hI.books.tracked]
  exact firstTracked_of_polled (hI.acked c hc)

theorem Redelivered.stranded_track (hI : Redelivered b h) (c : ConsumedEvent ε) :
    Stranded key (b.trackConsumed c) ↔ Stranded key b := by
  obtain ⟨next, heq, hnext⟩ := b.trackConsumed_eq c
  rw [heq]
  refine exists_congr fun n => exists_congr fun m => and_congr_right fun hp => ?_
  -- what is pending has a cursor already, and tracking leaves it where it is
  obtain ⟨m', hm'⟩ := Option.isSome_iff_exists.mp (hI.cursor (b := b) hp)
  simp only [hnext, hm', Option.some_or]

theorem stranded_collect : Stranded key b.collect ↔
    Stranded key b ∨ ¬ Timely key b (.bridge .drain : RedeliveryAct ε ρ) := by
  constructor
  · rintro ⟨n, m, hp, hm, hlt⟩
    obtain ⟨c, hc⟩ := Option.isSome_iff_exists.mp hp
    rcases pendingAt_collect hc with hold | ⟨hq, hk, rfl⟩
    · exact .inl ⟨n, m, by rw [hold]; rfl, hm, hlt⟩
    · exact .inr fun ht => absurd (ht rfl c hq hk m hm) (not_le.mpr hlt)
  · rintro (⟨n, m, hp, hm, hlt⟩ | hnot)
    · exact ⟨n, m, pendingAt_collect_isSome (.inl hp), hm, hlt⟩
    · simp only [Timely, not_forall, not_le] at hnot
      obtain ⟨-, c, hq, hk, m, hm, hlt⟩ := hnot
      exact ⟨c.offset, m, pendingAt_collect_isSome (.inr ⟨c, hq, hk, rfl⟩), hm, hlt⟩

/-- A commit drops nothing behind the cursor it started from. -/
theorem stranded_settle : Stranded key (b.settle b.advances) ↔ Stranded key b := by
  unfold Stranded
  simp only [pendingAt_settle, nextCommitOffsets_settle]
  cases hadv : b.advances.get? key with
  | none => simp
  | some adv =>
      obtain ⟨start, cursor⟩ := adv
      obtain ⟨hs, hlt, -⟩ := advances_get? hadv
      simp only [Option.any_some, decide_eq_true_eq, Option.map_some, Option.some_or, hs]
      constructor
      · rintro ⟨n, m, hp, hm, hnm⟩
        obtain rfl := Option.some.inj hm
        split at hp
        · cases hp
        · exact ⟨n, start, hp, rfl, by omega⟩
      · rintro ⟨n, m, hp, hm, hnm⟩
        obtain rfl := Option.some.inj hm
        refine ⟨n, cursor, ?_, rfl, hnm.trans hlt⟩
        rwa [if_neg (by omega)]

/-- **A drain strands an acknowledgement exactly if it comes too late**, and no step brings a
stranded one back. -/
theorem stranded_step (hI : Redelivered b h) (he : BooksEffect b b' a o) :
    Stranded key b' ↔ Stranded key b ∨ ¬ Timely key b a := by
  cases he with
  | quiet hb hheld ht hd hc =>
      rw [hb.stranded, or_iff_left (not_not.mpr (timely_of_drains hd))]
  | tracked c hb hheld ht =>
      rw [hb.stranded, hI.stranded_track, or_iff_left (not_not.mpr (timely_of_drains rfl))]
  | acknowledged c hc hb hheld ht =>
      rw [hb.stranded, or_iff_left (not_not.mpr (timely_of_drains rfl))]
      exact Iff.rfl
  | drained hb hheld ht ho => exact hb.stranded.trans stranded_collect
  | committed hadv hb hheld ht =>
      obtain rfl := hI.committing _ _ hadv
      rw [hb.stranded, stranded_settle, or_iff_left (not_not.mpr (timely_of_drains rfl))]

end stranded

/-! ### What a successful drain leaves -/

/-- The step ends a drain: there was nothing to commit, or the commit succeeded. -/
def DrainSucceeds (a : RedeliveryAct ε ρ) (b' : KafkaConsumerBridge ε) : Prop :=
  a.commits ∨ a.drains ∧ ∀ final adv, b'.thread ≠ .committing final adv

/-- The acknowledgements of a partition that are still pending after a drain are few. -/
structure PendingBounded (key : PartitionKey) (b : KafkaConsumerBridge ε) (h : List (BridgeObs ε)) :
    Prop where
  /-- They lie above the cursor. -/
  above : ∀ n, (b.pendingAt key n).isSome → ∃ m ∈ b.nextCommitOffsets.get? key, m < n
  /-- There are none once every delivered record has been acknowledged and drained. -/
  empty : (∀ c, .polled c ∈ h → c.key = key → .acknowledged c ∈ h) →
    (∀ c ∈ b.acknowledgements, c.key ≠ key) → ∀ n, b.pendingAt key n = none

section drained

variable {key : PartitionKey} {b b' : KafkaConsumerBridge ε} {h o : List (BridgeObs ε)}
  {a : RedeliveryAct ε ρ}

/-- A successful drain ends with every cursor in front of a hole. -/
theorem Redelivered.drain_stop (hI : Redelivered b h) (he : BooksEffect b b' a o)
    (hd : DrainSucceeds a b') {n : Nat} (hn : b'.nextCommitOffsets.get? key = some n) :
    b'.pendingAt key n = none := by
  cases he with
  | quiet hb hheld ht hdr hc => simp [DrainSucceeds, hdr, hc] at hd
  | tracked c hb hheld ht => simp [DrainSucceeds, RedeliveryAct.commits, RedeliveryAct.drains] at hd
  | acknowledged c hc hb hheld ht =>
      simp [DrainSucceeds, RedeliveryAct.commits, RedeliveryAct.drains] at hd
  | drained hb hheld ht ho =>
      rcases ht with ⟨final, ht⟩ | ⟨-, hidle⟩
      · rcases hd with hd | ⟨-, hd⟩
        · cases hd
        · exact absurd ht (hd final _)
      · exact idle_stop hidle hn
  | committed hadv hb hheld ht =>
      obtain rfl := hI.committing _ _ hadv
      rw [hb.next] at hn
      rw [hb.pendingAt]
      exact settle_stop hn

/-- After a successful drain the pending acknowledgements are few unless one is stranded. -/
theorem Redelivered.bounded_iff (hI : Redelivered b h) (hholes : NoHoles key h)
    (hstop : ∀ n, b.nextCommitOffsets.get? key = some n → b.pendingAt key n = none) :
    PendingBounded key b h ↔ ¬ Stranded key b := by
  constructor
  · rintro hbound ⟨n, m, hp, hm, hlt⟩
    obtain ⟨m', hm', hlt'⟩ := hbound.above n hp
    obtain rfl := Option.some.inj (hm.symm.trans hm')
    exact absurd hlt (not_lt.mpr hlt'.le)
  · intro hfree
    have habove : ∀ n, (b.pendingAt key n).isSome →
        ∃ m ∈ b.nextCommitOffsets.get? key, m < n := by
      intro n hp
      obtain ⟨m, hm⟩ := Option.isSome_iff_exists.mp (hI.cursor hp)
      have hle : m ≤ n := not_lt.mp fun hlt => hfree ⟨n, m, hp, hm, hlt⟩
      have hne : m ≠ n := by
        rintro rfl
        simp [hstop m hm] at hp
      exact ⟨m, hm, lt_of_le_of_ne hle hne⟩
    refine ⟨habove, fun hacked hqueue n => ?_⟩
    by_contra hne
    have hp := Option.isSome_iff_ne_none.mpr hne
    obtain ⟨m, hm, hlt⟩ := habove n hp
    -- the cursor stands between the first record and one that is acknowledged, so on a record
    have htracked := hI.books.tracked key
    rw [hm] at htracked
    obtain ⟨first, hf⟩ := Option.isSome_iff_exists.mp htracked.symm
    obtain ⟨c₁, hc₁, hk₁, rfl⟩ := polled_of_firstTracked hf
    obtain ⟨c₂, hc₂, hk₂, rfl⟩ := acked_ackActs.mp (hI.books.pending key n hp)
    obtain ⟨hle, -⟩ := hI.books.passed key m _ hm hf
    obtain ⟨c, hc, hk, rfl⟩ := hholes c₁ c₂ hc₁ (hI.acked c₂ hc₂) hk₁ hk₂ m hle hlt.le
    -- that record is acknowledged as well, and the drain has left it nowhere to be
    rcases hI.books.accounted key c.offset (acked_ackActs.mpr ⟨c, hacked c hc hk, hk, rfl⟩) with
      ⟨c', hc', hk', -⟩ | hpend | ⟨m', hm', hlt'⟩
    · exact hqueue c' hc' hk'
    · simp [hstop _ hm] at hpend
    · obtain rfl := Option.some.inj (hm.symm.trans hm')
      exact absurd hlt' (lt_irrefl _)

variable [DecidableEq ε] {parseEvent : ρ → Option ε} {acts : List (RedeliveryAct ε ρ)}

/-- The bridge agrees with what was observed after every run. -/
theorem Redelivered.run (hr : Machine.run (redeliver parseEvent) {} acts = some (b, h)) :
    Redelivered b h :=
  Machine.run_invariant (fun _ _ _ _ _ hI hs => hI.step (booksEffect hs)) .initial hr

/-- An acknowledgement is stranded exactly if a drain of the run met one that came too late. -/
theorem stranded_iff (hr : Machine.run (redeliver parseEvent) {} acts = some (b, h)) :
    Stranded key b ↔ ¬ Machine.Along (redeliver parseEvent) (Timely key) {} acts := by
  have hlaw : Stranded key b ↔ Stranded key {} ∨
      ¬ Machine.Along (redeliver parseEvent) (Timely key) {} acts :=
    Machine.bad_iff_of_run (I := Redelivered)
      (fun _ _ _ _ _ hI hs => ⟨hI.step (booksEffect hs), stranded_step hI (booksEffect hs)⟩)
      .initial hr
  refine hlaw.trans (or_iff_right ?_)
  rintro ⟨n, m, -, hm, -⟩
  rw [Dict.get?_empty] at hm
  cases hm

/-- **Pending acknowledgements stay bounded exactly as long as no copy of a record is acknowledged
too late.** Take any run, with any rebalances and any failed commits, that ends with a successful
drain, and a partition whose delivered records leave no hole. What is pending of the partition is
above its cursor, and nothing once all is acknowledged and drained, if and only if no drain so far
met an acknowledgement behind the cursor. -/
theorem pending_bounded_iff (hr : Machine.run (redeliver parseEvent) {} acts = some (b, h))
    (hs : b.redeliver parseEvent a = some (b', o)) (hd : DrainSucceeds a b')
    (hholes : NoHoles key (h ++ o)) :
    PendingBounded key b' (h ++ o) ↔
      Machine.Along (redeliver parseEvent) (Timely key) {} (acts ++ [a]) := by
  have hI := Redelivered.run hr
  have he := booksEffect hs
  have hrun : Machine.run (redeliver parseEvent) {} (acts ++ [a]) = some (b', h ++ o) :=
    Machine.run_append.mpr ⟨b, h, o, hr, Machine.run_singleton.mpr hs, rfl⟩
  rw [(hI.step he).bounded_iff hholes fun n hn => hI.drain_stop he hd hn, stranded_iff hrun,
    not_not]

end drained

/-- A record is handed over while the loop goes round, up to the next drain. -/
def deliverActs (offset : Nat) : List (RedeliveryAct Unit (Option Unit)) :=
  [.bridge (.poll (.message ⟨"market-events", 0, offset, some ()⟩)), .bridge .put, .bridge .handed,
    .bridge .take, .bridge .check]

/-- Record 7 is committed; record 8 is delivered, and again after a rebalance. -/
def redeliveredActs : List (RedeliveryAct Unit (Option Unit)) :=
  [.bridge .check, .bridge .drain] ++ deliverActs 7 ++
    [.bridge (.acknowledge ⟨(), "market-events", 0, 7⟩), .bridge .drain, .bridge (.commit true)] ++
    deliverActs 8 ++ [.bridge .drain, .rebalance ("market-events", 0) 0] ++ deliverActs 8

/-- Both copies are acknowledged before the next drain. -/
def inTimeActs : List (RedeliveryAct Unit (Option Unit)) :=
  redeliveredActs ++ [.bridge (.acknowledge ⟨(), "market-events", 0, 8⟩),
    .bridge (.acknowledge ⟨(), "market-events", 0, 8⟩), .bridge .drain]

theorem pending_bounded_in_time : ∃ b h b' o,
    Machine.run (redeliver id) {} inTimeActs = some (b, h) ∧
    b.redeliver (id : Option Unit → Option Unit) (.bridge (.commit true)) = some (b', o) ∧
    PendingBounded ("market-events", 0) b' (h ++ o) := by
  obtain ⟨b, b', hr, hs⟩ : ∃ b b', Machine.run (redeliver id) {} inTimeActs = some (b,
      [.polled ⟨(), "market-events", 0, 7⟩, .acknowledged ⟨(), "market-events", 0, 7⟩,
        .commit [(("market-events", 0), 8)], .polled ⟨(), "market-events", 0, 8⟩,
        .polled ⟨(), "market-events", 0, 8⟩, .acknowledged ⟨(), "market-events", 0, 8⟩,
        .acknowledged ⟨(), "market-events", 0, 8⟩, .commit [(("market-events", 0), 9)]]) ∧
      b.redeliver (id : Option Unit → Option Unit) (.bridge (.commit true)) = some (b', []) :=
    ⟨_, _, rfl, rfl⟩
  refine ⟨b, _, b', _, hr, hs, (pending_bounded_iff hr hs (.inl rfl) ?_).mpr (by decide)⟩
  exact noHoles_pair (x := ⟨(), "market-events", 0, 7⟩) (y := ⟨(), "market-events", 0, 8⟩)
    rfl rfl rfl fun c => by simp

/-- The second copy is acknowledged after the commit of the first one. -/
def lateActs : List (RedeliveryAct Unit (Option Unit)) :=
  redeliveredActs ++ [.bridge (.acknowledge ⟨(), "market-events", 0, 8⟩), .bridge .drain,
    .bridge (.commit true), .bridge (.poll .nothing),
    .bridge (.acknowledge ⟨(), "market-events", 0, 8⟩), .bridge .check]

/-- **A late copy stays pending**: after the next drain, which succeeds, offset 8 is pending behind
the cursor, which is at 9. -/
theorem late_copy_strands : ∃ b h b' o,
    Machine.run (redeliver id) {} lateActs = some (b, h) ∧
    b.redeliver (id : Option Unit → Option Unit) (.bridge .drain) = some (b', o) ∧
    DrainSucceeds (.bridge .drain : RedeliveryAct Unit (Option Unit)) b' ∧
    NoHoles ("market-events", 0) (h ++ o) ∧ ¬ PendingBounded ("market-events", 0) b' (h ++ o) := by
  refine ⟨_, _, _, _, rfl, rfl, .inr ⟨rfl, PollThread.drained_ne_committing false⟩,
    ?_, fun hbound => ?_⟩
  · exact noHoles_pair (x := ⟨(), "market-events", 0, 7⟩) (y := ⟨(), "market-events", 0, 8⟩)
      rfl rfl rfl fun c => by simp
  · obtain ⟨m, hm, hlt⟩ := hbound.above 8 rfl
    obtain rfl : 9 = m := Option.some.inj hm
    exact absurd hlt (by decide)

end MarketData.Engine
