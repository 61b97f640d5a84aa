import MarketData.Engine.Bridge

/-!
# MarketData.Engine.Ledger

The bookkeeping invariant of `KafkaConsumerBridge`: where every polled record is between
its poll and its commit, and what the commit cursor of a partition has passed.

`Ledger b polled acked` relates a bridge to the records polled and acknowledged so far.
Each action keeps it (`Ledger.step`), and the safety of a commit is read off it
(`Ledger.commit_acked`): below a committed position every polled record is acknowledged.
-/

namespace MarketData.Engine

namespace KafkaConsumerBridge

variable {ε ρ : Type}

/-- `_pending_acknowledgements[key].get(n)`. -/
def pendingAt (b : KafkaConsumerBridge ε) (key : PartitionKey) (n : Nat) :
    Option (ConsumedEvent ε) :=
  (b.pendingAcknowledgements.get? key).bind fun pending => pending.get? n

/-! ### Collecting acknowledgements -/

theorem addPending_get? (pending : Dict PartitionKey (Dict Nat (ConsumedEvent ε)))
    (c : ConsumedEvent ε) (key : PartitionKey) (n : Nat) :
    ((addPending pending c).get? key).bind (fun p => p.get? n) =
      if c.key = key ∧ c.offset = n then some c else (pending.get? key).bind fun p => p.get? n := by
  unfold addPending
  rw [Dict.get?_set]
  by_cases hk : c.key = key
  · subst hk
    rw [if_pos rfl, Option.bind_some, Dict.get?_set]
    by_cases hn : c.offset = n
    · simp [hn]
    · cases hp : pending.get? c.key <;> simp [hn]
  · simp [hk]

/-- A collected acknowledgement was pending before, or was in the queue. -/
theorem pendingAt_collect {b : KafkaConsumerBridge ε} {key : PartitionKey} {n : Nat}
    {c : ConsumedEvent ε} (h : b.collect.pendingAt key n = some c) :
    b.pendingAt key n = some c ∨ (c ∈ b.acknowledgements ∧ c.key = key ∧ c.offset = n) := by
  have key' : ∀ (cs : List (ConsumedEvent ε)) (p : Dict PartitionKey (Dict Nat (ConsumedEvent ε))),
      ((cs.foldl addPending p).get? key).bind (fun q => q.get? n) = some c →
      (p.get? key).bind (fun q => q.get? n) = some c ∨ (c ∈ cs ∧ c.key = key ∧ c.offset = n) := by
    intro cs
    induction cs with
    | nil => exact fun p hp => Or.inl hp
    | cons x cs ih =>
        intro p hp
        rcases ih _ hp with hp | ⟨hc, hk⟩
        · rw [addPending_get?] at hp
          split at hp
          · rename_i hx
            obtain rfl := Option.some.inj hp
            exact Or.inr ⟨List.mem_cons_self, hx⟩
          · exact Or.inl hp
        · exact Or.inr ⟨List.mem_cons_of_mem x hc, hk⟩
  exact key' _ _ h

/-- Collecting keeps what is pending, and makes every queued acknowledgement pending. -/
theorem pendingAt_collect_isSome {b : KafkaConsumerBridge ε} {key : PartitionKey} {n : Nat}
    (h : (b.pendingAt key n).isSome ∨ ∃ c ∈ b.acknowledgements, c.key = key ∧ c.offset = n) :
    (b.collect.pendingAt key n).isSome := by
  have key' : ∀ (cs : List (ConsumedEvent ε)) (p : Dict PartitionKey (Dict Nat (ConsumedEvent ε))),
      (((p.get? key).bind fun q => q.get? n).isSome ∨ ∃ c ∈ cs, c.key = key ∧ c.offset = n) →
      (((cs.foldl addPending p).get? key).bind fun q => q.get? n).isSome := by
    intro cs
    induction cs with
    | nil => simp
    | cons x cs ih =>
        intro p hp
        refine ih _ ?_
        rw [addPending_get?]
        by_cases hx : x.key = key ∧ x.offset = n
        · exact Or.inl (by simp [hx])
        · rw [if_neg hx]
          rcases hp with hp | ⟨c, hc, hk⟩
          · exact Or.inl hp
          · rcases List.mem_cons.mp hc with rfl | hc
            · exact absurd hk hx
            · exact Or.inr ⟨c, hc, hk⟩
  exact key' _ _ h

/-! ### The cursor and its commit -/

/-- What a drain's cursor found for a partition. -/
theorem advances_get? {b : KafkaConsumerBridge ε} {key : PartitionKey} {start cursor : Nat}
    (h : b.advances.get? key = some (start, cursor)) :
    b.nextCommitOffsets.get? key = some start ∧ start < cursor ∧
    ∀ n, start ≤ n → n < cursor → (b.pendingAt key n).isSome := by
  rw [advances, Dict.get?_filterMapValues] at h
  obtain ⟨pending, hp, h⟩ := Option.bind_eq_some_iff.mp h
  dsimp only at h
  split at h
  · simp at h
  · rename_i start' hs
    split at h
    · rename_i hlt
      obtain ⟨rfl, rfl⟩ := Prod.mk.inj (Option.some.inj h)
      refine ⟨hs, hlt, fun n hn hn' => ?_⟩
      have := Cursor.present_of_lt hn hn'
      rw [pendingAt, hp, Option.bind_some]
      exact of_decide_eq_true this
    · simp at h

/-- **After a drain's cursor the acknowledgements have a hole.** -/
theorem advances_stop {b : KafkaConsumerBridge ε} {key : PartitionKey} {start : Nat}
    (hs : b.nextCommitOffsets.get? key = some start) :
    b.pendingAt key ((b.advances.get? key).elim start Prod.snd) = none := by
  rw [advances, Dict.get?_filterMapValues, pendingAt]
  cases hp : b.pendingAcknowledgements.get? key with
  | none => rfl
  | some pending =>
      simp only [Option.bind_some, hs]
      have hstop := @Cursor.not_present (fun n => decide (n ∈ pending)) pending.keys.length start
        pending.keys.toFinset
        (fun k _ hk => List.mem_toFinset.mpr (Dict.mem_keys.mpr (of_decide_eq_true hk)))
        (List.toFinset_card_le _)
      have hnone : pending.get? (cursor (fun n => decide (n ∈ pending)) pending.keys.length start) =
          none := by
        rw [← Option.not_isSome_iff_eq_none, ← Dict.mem_def]
        exact of_decide_eq_false hstop
      by_cases hlt : start < cursor (fun n => decide (n ∈ pending)) pending.keys.length start
      · simpa [hlt] using hnone
      · have heq := le_antisymm (not_lt.mp hlt) (Cursor.le_cursor _ _)
        rw [heq] at hnone
        simpa [hlt] using hnone

theorem pendingAt_settle (b : KafkaConsumerBridge ε) (adv : Dict PartitionKey (Nat × Nat))
    (key : PartitionKey) (n : Nat) :
    (b.settle adv).pendingAt key n =
      if (adv.get? key).any (fun a => decide (a.1 ≤ n ∧ n < a.2)) then none
      else b.pendingAt key n := by
  simp only [pendingAt, settle, Dict.get?_mapValues]
  cases hp : b.pendingAcknowledgements.get? key with
  | none => simp
  | some pending =>
      cases ha : adv.get? key with
      | none => simp
      | some a =>
          obtain ⟨start, cursor⟩ := a
          simp only [Option.map_some, Option.bind_some, Option.any_some, Dict.get?_filterMapValues,
            decide_eq_true_eq]
          by_cases hn : start ≤ n ∧ n < cursor
          · cases pending.get? n <;> simp [hn]
          · cases pending.get? n <;> simp [hn]

theorem nextCommitOffsets_settle (b : KafkaConsumerBridge ε)
    (adv : Dict PartitionKey (Nat × Nat)) (key : PartitionKey) :
    (b.settle adv).nextCommitOffsets.get? key =
      ((adv.get? key).map Prod.snd).or (b.nextCommitOffsets.get? key) := by
  simp [settle, Dict.get?_update]

/-- After a successful commit every cursor is in front of a hole. -/
theorem settle_stop {b : KafkaConsumerBridge ε} {key : PartitionKey} {n : Nat}
    (hn : (b.settle b.advances).nextCommitOffsets.get? key = some n) :
    (b.settle b.advances).pendingAt key n = none := by
  rw [nextCommitOffsets_settle] at hn
  rw [pendingAt_settle, ite_eq_left_iff]
  intro _
  cases hadv : b.advances.get? key with
  | none =>
      have hnext : b.nextCommitOffsets.get? key = some n := by simpa [hadv] using hn
      have hstop := advances_stop hnext
      rwa [hadv] at hstop
  | some a =>
      obtain rfl : a.2 = n := by simpa [hadv] using hn
      have hstop := advances_stop (advances_get? hadv).1
      rwa [hadv] at hstop

/-- A drain with nothing to commit found every cursor in front of a hole. -/
theorem idle_stop {b : KafkaConsumerBridge ε} (he : b.advances.isEmpty = true) {key : PartitionKey}
    {n : Nat} (hn : b.nextCommitOffsets.get? key = some n) : b.pendingAt key n = none := by
  have hstop := advances_stop hn
  rwa [Dict.isEmpty_iff.mp he key] at hstop

theorem committed_settle (b : KafkaConsumerBridge ε)
    (adv : Dict PartitionKey (Nat × Nat)) (key : PartitionKey) :
    (b.settle adv).committed.get? key =
      ((adv.get? key).map Prod.snd).or (b.committed.get? key) := by
  simp [settle, Dict.get?_update]

/-- The records on their way from the poll to the acknowledgement. -/
def held (b : KafkaConsumerBridge ε) : List (ConsumedEvent ε) :=
  b.handoff.toList ++ b.queue.items ++ b.taken

end KafkaConsumerBridge

open KafkaConsumerBridge

/-- **The bookkeeping of the bridge**, against the records polled and acknowledged so far. -/
structure Ledger {ε : Type} (b : KafkaConsumerBridge ε) (polled acked : ConsumedEvent ε → Prop) :
    Prop where
  /-- A partition's offset is polled once. -/
  unique : ∀ c c', polled c → polled c' → c.key = c'.key → c.offset = c'.offset → c = c'
  acked_polled : ∀ c, acked c → polled c
  /-- The broker has moved past every polled record. -/
  position : ∀ c, polled c → ∃ p, b.position.get? c.key = some p ∧ c.offset < p
  /-- A partition with a valid record has a commit cursor. -/
  tracked : ∀ c, polled c → (b.nextCommitOffsets.get? c.key).isSome
  next_le : ∀ key n, b.nextCommitOffsets.get? key = some n →
    ∃ p, b.position.get? key = some p ∧ n ≤ p
  /-- A cursor starts at a record. -/
  started : ∀ key n, b.nextCommitOffsets.get? key = some n →
    ∃ c, polled c ∧ c.key = key ∧ c.offset ≤ n
  /-- From the first record on, the cursor has passed acknowledged offsets only. -/
  passed : ∀ key n, b.nextCommitOffsets.get? key = some n → ∀ c, polled c → c.key = key →
    ∀ k, c.offset ≤ k → k < n → ∃ c', acked c' ∧ c'.key = key ∧ c'.offset = k
  /-- What is on its way is polled and not acknowledged. -/
  held : ∀ c ∈ b.held, polled c ∧ ¬ acked c
  heldNodup : b.held.Nodup
  /-- A queued acknowledgement is not pending yet and not behind the cursor. -/
  acks : ∀ c ∈ b.acknowledgements, acked c ∧ b.pendingAt c.key c.offset = none ∧
    ∀ n, b.nextCommitOffsets.get? c.key = some n → n ≤ c.offset
  /-- A pending acknowledgement is filed under its own offset, not behind the cursor. -/
  pending : ∀ key n c, b.pendingAt key n = some c → c.key = key ∧ c.offset = n ∧ acked c ∧
    ∀ m, b.nextCommitOffsets.get? key = some m → m ≤ n
  /-- No acknowledgement is lost. -/
  accounted : ∀ c, acked c → c ∈ b.acknowledgements ∨ b.pendingAt c.key c.offset = some c ∨
    ∃ n, b.nextCommitOffsets.get? c.key = some n ∧ c.offset < n
  /-- The broker's position is the cursor. -/
  committed : ∀ key p, b.committed.get? key = some p → b.nextCommitOffsets.get? key = some p
  /-- A cursor that was never committed is still at a polled record. -/
  first : ∀ key n, b.nextCommitOffsets.get? key = some n →
    b.committed.get? key = some n ∨ ∃ c, polled c ∧ c.key = key ∧ c.offset = n
  /-- The commit under way is the one the drain computed. -/
  committing : ∀ final adv, b.thread = .committing final adv → adv = b.advances

namespace Ledger

variable {ε ρ : Type} {b b' : KafkaConsumerBridge ε} {polled acked : ConsumedEvent ε → Prop}

/-- **Everything below a drain's cursor is acknowledged.** -/
theorem commit_acked (hI : Ledger b polled acked) {key : PartitionKey} {start cursor : Nat}
    (ha : b.advances.get? key = some (start, cursor)) {c : ConsumedEvent ε} (hp : polled c)
    (hk : c.key = key) (hlt : c.offset < cursor) : acked c := by
  obtain ⟨hs, -, hpend⟩ := advances_get? ha
  obtain ⟨c', hc', hk', ho'⟩ : ∃ c', acked c' ∧ c'.key = key ∧ c'.offset = c.offset := by
    by_cases hle : start ≤ c.offset
    · obtain ⟨c', hc'⟩ := Option.isSome_iff_exists.mp (hpend _ hle hlt)
      obtain ⟨hk', ho', ha', -⟩ := hI.pending _ _ _ hc'
      exact ⟨c', ha', hk', ho'⟩
    · exact hI.passed _ _ hs c hp hk c.offset le_rfl (not_le.mp hle)
  rwa [hI.unique c c' hp (hI.acked_polled _ hc') (hk.trans hk'.symm) ho'.symm]

/-! ### One lemma per action -/

theorem setThread (hI : Ledger b polled acked) {t : PollThread ε}
    (ht : ∀ final adv, t ≠ .committing final adv) :
    Ledger { b with thread := t } polled acked :=
  { hI with committing := fun final adv h => absurd h (ht final adv) }

theorem setStop (hI : Ledger b polled acked) : Ledger { b with stopEvent := true } polled acked :=
  { hI with }

/-- The thread enters the commit that it has just computed. -/
theorem startCommit (hI : Ledger b polled acked) {final : Bool} :
    Ledger { b with thread := .committing final b.advances } polled acked :=
  { hI with
    committing := by
      intro final' adv h
      obtain ⟨-, rfl⟩ := PollThread.committing.inj h
      rfl }

theorem setHeld (hI : Ledger b polled acked) {handoff : Option (ConsumedEvent ε)}
    {queue : BoundedQueue (ConsumedEvent ε)} {taken : List (ConsumedEvent ε)}
    (hsub : (handoff.toList ++ queue.items ++ taken).Subperm b.held) :
    Ledger { b with handoff := handoff, queue := queue, taken := taken } polled acked :=
  { hI with
    held := fun c hc => hI.held c (hsub.subset hc)
    heldNodup := by
      obtain ⟨l, hperm, hsl⟩ := hsub
      exact hperm.nodup_iff.mp (hI.heldNodup.sublist hsl) }

theorem dropHandoff (hI : Ledger b polled acked) :
    Ledger { b with handoff := none } polled acked := by
  have hsub : ((none : Option (ConsumedEvent ε)).toList ++ b.queue.items ++ b.taken).Subperm
      b.held := by
    simp only [KafkaConsumerBridge.held, Option.toList_none, List.nil_append, List.append_assoc]
    exact (List.sublist_append_right _ _).subperm
  exact hI.setHeld hsub

/-- Moving the acknowledgement queue into the pending maps. -/
theorem collect (hI : Ledger b polled acked) (ht : ∀ final adv, b.thread ≠ .committing final adv) :
    Ledger b.collect polled acked :=
  { hI with
    acks := by simp [KafkaConsumerBridge.collect]
    pending := by
      intro key n c hc
      rcases pendingAt_collect hc with hp | ⟨hq, rfl, rfl⟩
      · exact hI.pending key n c hp
      · obtain ⟨ha, -, hle⟩ := hI.acks c hq
        exact ⟨rfl, rfl, ha, hle⟩
    accounted := by
      intro c hc
      have hpend : (b.pendingAt c.key c.offset).isSome ∨
          (∃ c' ∈ b.acknowledgements, c'.key = c.key ∧ c'.offset = c.offset) →
          b.collect.pendingAt c.key c.offset = some c := by
        intro h
        obtain ⟨c', hc'⟩ := Option.isSome_iff_exists.mp (pendingAt_collect_isSome h)
        -- an offset is polled once, so the entry found is this one
        have hsame : acked c' ∧ c'.key = c.key ∧ c'.offset = c.offset := by
          rcases pendingAt_collect hc' with h' | ⟨h', hk, ho⟩
          · obtain ⟨hk, ho, ha, -⟩ := hI.pending _ _ _ h'
            exact ⟨ha, hk, ho⟩
          · exact ⟨(hI.acks c' h').1, hk, ho⟩
        obtain ⟨ha, hk, ho⟩ := hsame
        rwa [hI.unique c' c (hI.acked_polled _ ha) (hI.acked_polled _ hc) hk ho] at hc'
      rcases hI.accounted c hc with h | h | h
      · exact Or.inr (Or.inl (hpend (Or.inr ⟨c, h, rfl, rfl⟩)))
      · exact Or.inr (Or.inl (hpend (Or.inl (by rw [h]; rfl))))
      · exact Or.inr (Or.inr h)
    committing := fun final adv h => absurd h (ht final adv) }

/-- The partitions whose cursor a commit moves, and the others. -/
theorem next_settle_cases {key : PartitionKey} {n : Nat}
    (h : (b.settle b.advances).nextCommitOffsets.get? key = some n) :
    (∃ start, b.advances.get? key = some (start, n)) ∨
    (b.advances.get? key = none ∧ b.nextCommitOffsets.get? key = some n) := by
  rw [nextCommitOffsets_settle] at h
  cases ha : b.advances.get? key with
  | none => exact Or.inr ⟨rfl, by simpa [ha] using h⟩
  | some a =>
      obtain rfl : a.2 = n := by simpa [ha] using h
      exact Or.inl ⟨a.1, rfl⟩

/-- A successful commit. -/
theorem settle (hI : Ledger b polled acked) {t : PollThread ε}
    (ht : ∀ final adv, t ≠ .committing final adv) :
    Ledger { b.settle b.advances with thread := t } polled acked where
  unique := hI.unique
  acked_polled := hI.acked_polled
  position := hI.position
  tracked c hc := by
    obtain ⟨n, hn⟩ := Option.isSome_iff_exists.mp (hI.tracked c hc)
    change ((b.settle b.advances).nextCommitOffsets.get? c.key).isSome
    rw [nextCommitOffsets_settle, hn]
    cases b.advances.get? c.key <;> rfl
  next_le key n hn := by
    rcases next_settle_cases hn with ⟨start, ha⟩ | ⟨-, hn⟩
    · obtain ⟨-, hlt, hpend⟩ := advances_get? ha
      obtain ⟨c, hc⟩ := Option.isSome_iff_exists.mp (hpend (n - 1) (by omega) (by omega))
      obtain ⟨rfl, ho, hca, -⟩ := hI.pending _ _ _ hc
      obtain ⟨p, hp, hlt'⟩ := hI.position c (hI.acked_polled c hca)
      exact ⟨p, hp, by omega⟩
    · exact hI.next_le key n hn
  started key n hn := by
    rcases next_settle_cases hn with ⟨start, ha⟩ | ⟨-, hn⟩
    · obtain ⟨hs, hlt, -⟩ := advances_get? ha
      obtain ⟨c, hc, hk, hle⟩ := hI.started key start hs
      exact ⟨c, hc, hk, hle.trans hlt.le⟩
    · exact hI.started key n hn
  passed key n hn c hc hk k hle hlt := by
    rcases next_settle_cases hn with ⟨start, ha⟩ | ⟨-, hn⟩
    · obtain ⟨hs, -, hpend⟩ := advances_get? ha
      by_cases hks : start ≤ k
      · obtain ⟨c', hc'⟩ := Option.isSome_iff_exists.mp (hpend k hks hlt)
        obtain ⟨hk', ho', ha', -⟩ := hI.pending _ _ _ hc'
        exact ⟨c', ha', hk', ho'⟩
      · exact hI.passed key start hs c hc hk k hle (not_le.mp hks)
    · exact hI.passed key n hn c hc hk k hle hlt
  held := hI.held
  heldNodup := hI.heldNodup
  acks c hc := by
    obtain ⟨ha, hnone, hge⟩ := hI.acks c hc
    refine ⟨ha, ?_, fun n hn => ?_⟩
    · change (b.settle b.advances).pendingAt c.key c.offset = none
      rw [pendingAt_settle, hnone, ite_self]
    · rcases next_settle_cases hn with ⟨start, hadv⟩ | ⟨-, hn⟩
      · obtain ⟨hs, -, hpend⟩ := advances_get? hadv
        by_contra hlt
        have := hpend c.offset (hge start hs) (not_le.mp hlt)
        simp [hnone] at this
      · exact hge n hn
  pending key n c hc := by
    change (b.settle b.advances).pendingAt key n = some c at hc
    rw [pendingAt_settle, Option.ite_none_left_eq_some] at hc
    obtain ⟨hout, hc⟩ := hc
    obtain ⟨hk, ho, ha, hge⟩ := hI.pending key n c hc
    refine ⟨hk, ho, ha, fun m hm => ?_⟩
    rcases next_settle_cases hm with ⟨start, hadv⟩ | ⟨-, hm⟩
    · obtain ⟨hs, -, -⟩ := advances_get? hadv
      have := hge start hs
      simp only [hadv, Option.any_some, decide_eq_true_eq] at hout
      omega
    · exact hge m hm
  accounted c hc := by
    change c ∈ b.acknowledgements ∨ (b.settle b.advances).pendingAt c.key c.offset = some c ∨
      ∃ n, (b.settle b.advances).nextCommitOffsets.get? c.key = some n ∧ c.offset < n
    rw [pendingAt_settle, nextCommitOffsets_settle]
    rcases hI.accounted c hc with h | h | ⟨n, hn, hlt⟩
    · exact Or.inl h
    · refine Or.inr ?_
      split
      · rename_i hin
        obtain ⟨a, ha, hin⟩ := (Option.any_eq_true _ _).mp hin
        exact Or.inr ⟨a.2, by simp [ha], (of_decide_eq_true hin).2⟩
      · exact Or.inl h
    · refine Or.inr (Or.inr ?_)
      cases hadv : b.advances.get? c.key with
      | none => exact ⟨n, by simpa using hn, hlt⟩
      | some a =>
          obtain ⟨hs, hlt', -⟩ := advances_get? hadv
          obtain rfl : n = a.1 := Option.some.inj (hn.symm.trans hs)
          exact ⟨a.2, rfl, hlt.trans hlt'⟩
  committed key p hp := by
    change (b.settle b.advances).committed.get? key = some p at hp
    change (b.settle b.advances).nextCommitOffsets.get? key = some p
    rw [committed_settle] at hp
    rw [nextCommitOffsets_settle]
    cases hadv : b.advances.get? key with
    | none => simpa [hadv] using hI.committed key p (by simpa [hadv] using hp)
    | some a => simpa [hadv] using hp
  first key n hn := by
    change (b.settle b.advances).committed.get? key = some n ∨ _
    rw [committed_settle]
    rcases next_settle_cases hn with ⟨start, hadv⟩ | ⟨hadv, hn⟩
    · exact Or.inl (by simp [hadv])
    · simpa [hadv] using hI.first key n hn
  committing := fun final adv h => absurd h (ht final adv)

/-- A message that carries no valid record. -/
theorem skip (hI : Ledger b polled acked) {key : PartitionKey} {n : Nat}
    (hpos : ∀ p ∈ b.position.get? key, p ≤ n) :
    Ledger { b with position := b.position.set key (n + 1), thread := .head } polled acked :=
  { hI with
    position := by
      intro c hc
      obtain ⟨p, hp, hlt⟩ := hI.position c hc
      simp only [Dict.get?_set]
      by_cases hk : key = c.key
      · subst hk
        exact ⟨n + 1, if_pos rfl, by have := hpos p hp; omega⟩
      · exact ⟨p, by rw [if_neg hk, hp], hlt⟩
    next_le := by
      intro key' m hm
      obtain ⟨p, hp, hle⟩ := hI.next_le key' m hm
      simp only [Dict.get?_set]
      by_cases hk : key = key'
      · subst hk
        exact ⟨n + 1, if_pos rfl, by have := hpos p hp; omega⟩
      · exact ⟨p, by rw [if_neg hk, hp], hle⟩
    committing := by simp }

/-- A valid record: tracked, and handed to the event loop. -/
theorem poll (hI : Ledger b polled acked) {c : ConsumedEvent ε} {next : Dict PartitionKey Nat}
    (hpos : ∀ p ∈ b.position.get? c.key, p ≤ c.offset)
    (heq : b.trackConsumed c = { b with nextCommitOffsets := next }) :
    Ledger { b with
        nextCommitOffsets := next
        position := b.position.set c.key (c.offset + 1)
        thread := .handing c
        handoff := some c } (fun x => polled x ∨ x = c) acked := by
  have hfresh : ∀ x, polled x → x.key = c.key → x.offset < c.offset := by
    intro x hx hk
    obtain ⟨p, hp, hlt⟩ := hI.position x hx
    exact hlt.trans_le (hpos p (hk ▸ hp))
  have hnew : ¬ polled c := fun h => absurd (hfresh c h rfl) (lt_irrefl _)
  have hnext := trackConsumed_get? heq
  -- the cursor of a partition is the old one, or starts at this record
  have hcases : ∀ key n, next.get? key = some n → b.nextCommitOffsets.get? key = some n ∨
      (b.nextCommitOffsets.get? key = none ∧ c.key = key ∧ c.offset = n) := by
    intro key n hn
    rw [hnext] at hn
    cases hold : b.nextCommitOffsets.get? key with
    | some m => exact Or.inl (by simpa [hold] using hn)
    | none => exact Or.inr ⟨rfl, by simpa [hold] using hn⟩
  have hkeep : ∀ key n, b.nextCommitOffsets.get? key = some n → next.get? key = some n :=
    fun key n hn => by rw [hnext, hn, Option.some_or]
  have huntracked : ∀ x, polled x → b.nextCommitOffsets.get? x.key ≠ none := fun x hx h => by
    have := hI.tracked x hx
    simp [h] at this
  constructor
  case unique =>
    rintro x x' (hx | rfl) (hx' | rfl) hk ho
    · exact hI.unique x x' hx hx' hk ho
    · exact absurd ho (hfresh x hx hk).ne
    · exact absurd ho (hfresh x' hx' hk.symm).ne'
    · rfl
  case acked_polled => exact fun x hx => Or.inl (hI.acked_polled x hx)
  case position =>
    rintro x (hx | rfl)
    · obtain ⟨p, hp, hlt⟩ := hI.position x hx
      simp only [Dict.get?_set]
      by_cases hk : c.key = x.key
      · exact ⟨c.offset + 1, if_pos hk, by have := hfresh x hx hk.symm; omega⟩
      · exact ⟨p, by rw [if_neg hk, hp], hlt⟩
    · exact ⟨x.offset + 1, Dict.get?_set_self _ _ _, Nat.lt_succ_self _⟩
  case tracked =>
    rintro x (hx | rfl)
    · obtain ⟨n, hn⟩ := Option.isSome_iff_exists.mp (hI.tracked x hx)
      exact Option.isSome_iff_exists.mpr ⟨n, hkeep _ n hn⟩
    · change (next.get? x.key).isSome
      rw [hnext]
      cases b.nextCommitOffsets.get? x.key <;> simp
  case next_le =>
    intro key n hn
    simp only [Dict.get?_set]
    rcases hcases key n hn with hn | ⟨-, hk, rfl⟩
    · obtain ⟨p, hp, hle⟩ := hI.next_le key n hn
      by_cases hk : c.key = key
      · subst hk
        exact ⟨c.offset + 1, if_pos rfl, by have := hpos p hp; omega⟩
      · exact ⟨p, by rw [if_neg hk, hp], hle⟩
    · exact ⟨c.offset + 1, if_pos hk, Nat.le_succ _⟩
  case started =>
    intro key n hn
    rcases hcases key n hn with hold | ⟨-, hk, ho⟩
    · obtain ⟨x, hx, hk, hle⟩ := hI.started key n hold
      exact ⟨x, Or.inl hx, hk, hle⟩
    · exact ⟨c, Or.inr rfl, hk, ho.le⟩
  case passed =>
    intro key n hn x hx hk k hle hlt
    rcases hcases key n hn with hold | ⟨hnone, hk', rfl⟩
    · rcases hx with hx | rfl
      · exact hI.passed key n hold x hx hk k hle hlt
      · subst hk
        obtain ⟨p, hp, hle'⟩ := hI.next_le _ n hold
        have := hpos p hp
        omega
    · rcases hx with hx | rfl
      · exact absurd (hk ▸ hnone) (huntracked x hx)
      · omega
  case held =>
    intro x hx
    rcases List.mem_cons.mp hx with rfl | hx
    · exact ⟨Or.inr rfl, fun h => hnew (hI.acked_polled _ h)⟩
    · obtain ⟨hp, ha⟩ := hI.held x (by
        simp only [KafkaConsumerBridge.held, List.append_assoc]
        exact List.mem_append_right _ hx)
      exact ⟨Or.inl hp, ha⟩
  case heldNodup =>
    have hsub : (b.queue.items ++ b.taken).Sublist b.held := by
      simp only [KafkaConsumerBridge.held, List.append_assoc]
      exact List.sublist_append_right _ _
    refine List.nodup_cons.mpr ⟨fun hx => ?_, hI.heldNodup.sublist hsub⟩
    exact hnew (hI.held c (hsub.subset hx)).1
  case acks =>
    intro x hx
    obtain ⟨ha, hnone, hge⟩ := hI.acks x hx
    refine ⟨ha, hnone, fun n hn => ?_⟩
    rcases hcases _ n hn with hn | ⟨hun, -⟩
    · exact hge n hn
    · exact absurd hun (huntracked x (hI.acked_polled x ha))
  case pending =>
    intro key n x hx
    obtain ⟨rfl, ho, ha, hge⟩ := hI.pending key n x hx
    refine ⟨rfl, ho, ha, fun m hm => ?_⟩
    rcases hcases _ m hm with hm | ⟨hun, -⟩
    · exact hge m hm
    · exact absurd hun (huntracked x (hI.acked_polled x ha))
  case accounted =>
    intro x hx
    rcases hI.accounted x hx with h | h | ⟨n, hn, hlt⟩
    · exact Or.inl h
    · exact Or.inr (Or.inl h)
    · exact Or.inr (Or.inr ⟨n, hkeep _ n hn, hlt⟩)
  case committed => exact fun key p hp => hkeep key p (hI.committed key p hp)
  case first =>
    intro key n hn
    rcases hcases key n hn with hn | ⟨-, hk, ho⟩
    · rcases hI.first key n hn with h | ⟨x, hx, hk, ho⟩
      · exact Or.inl h
      · exact Or.inr ⟨x, Or.inl hx, hk, ho⟩
    · exact Or.inr ⟨c, Or.inr rfl, hk, ho⟩
  case committing => simp

/-- An acknowledgement from the consumer of `events()`. -/
theorem acknowledge [DecidableEq ε] (hI : Ledger b polled acked) {c : ConsumedEvent ε}
    (hc : c ∈ b.taken) :
    Ledger { b with taken := b.taken.erase c, acknowledgements := b.acknowledgements ++ [c] }
      polled (fun x => acked x ∨ x = c) := by
  obtain ⟨hpc, hac⟩ := hI.held c (List.mem_append_right _ hc)
  have hother : ∀ x, acked x → x.key = c.key → x.offset ≠ c.offset := fun x hx hk ho =>
    hac (hI.unique x c (hI.acked_polled x hx) hpc hk ho ▸ hx)
  have hsub : (b.handoff.toList ++ b.queue.items ++ b.taken.erase c).Sublist b.held :=
    (List.erase_sublist).append_left _
  constructor
  case unique => exact hI.unique
  case acked_polled =>
    rintro x (hx | rfl)
    · exact hI.acked_polled x hx
    · exact hpc
  case position => exact hI.position
  case tracked => exact hI.tracked
  case next_le => exact hI.next_le
  case started => exact hI.started
  case passed =>
    intro key n hn x hx hk k hle hlt
    obtain ⟨c', hc', h⟩ := hI.passed key n hn x hx hk k hle hlt
    exact ⟨c', Or.inl hc', h⟩
  case held =>
    intro x hx
    obtain ⟨hp, ha⟩ := hI.held x (hsub.subset hx)
    refine ⟨hp, ?_⟩
    rintro (h | rfl)
    · exact ha h
    · -- a record is held in one place, and this one has just left it
      obtain ⟨-, hnd, hdisj⟩ := List.nodup_append.mp hI.heldNodup
      rcases List.mem_append.mp hx with hx | hx
      · exact hdisj x hx x hc rfl
      · exact absurd hx (hnd.not_mem_erase)
  case heldNodup => exact hI.heldNodup.sublist hsub
  case acks =>
    intro x hx
    rcases List.mem_append.mp hx with hx | hx
    · obtain ⟨ha, h⟩ := hI.acks x hx
      exact ⟨Or.inl ha, h⟩
    · obtain rfl := List.mem_singleton.mp hx
      refine ⟨Or.inr rfl, ?_, fun n hn => ?_⟩
      · cases hp : b.pendingAt x.key x.offset with
        | none => exact hp
        | some c' =>
            obtain ⟨hk, ho, ha, -⟩ := hI.pending _ _ _ hp
            exact absurd ho (hother c' ha hk)
      · by_contra hlt
        obtain ⟨c', ha, hk, ho⟩ := hI.passed _ n hn x hpc rfl x.offset le_rfl (not_le.mp hlt)
        exact hother c' ha hk ho
  case pending =>
    intro key n x hx
    obtain ⟨hk, ho, ha, hge⟩ := hI.pending key n x hx
    exact ⟨hk, ho, Or.inl ha, hge⟩
  case accounted =>
    rintro x (hx | rfl)
    · rcases hI.accounted x hx with h | h
      · exact Or.inl (List.mem_append_left _ h)
      · exact Or.inr h
    · exact Or.inl (List.mem_append_right _ (List.mem_singleton_self x))
  case committed => exact hI.committed
  case first => exact hI.first
  case committing => exact hI.committing

/-! ### Every step, every run -/

theorem congr (hI : Ledger b polled acked) {polled' acked' : ConsumedEvent ε → Prop}
    (hp : ∀ c, polled' c ↔ polled c) (ha : ∀ c, acked' c ↔ acked c) : Ledger b polled' acked' := by
  obtain rfl : polled = polled' := funext fun c => propext (hp c).symm
  obtain rfl : acked = acked' := funext fun c => propext (ha c).symm
  exact hI

theorem init : Ledger ({} : KafkaConsumerBridge ε) (fun _ => False) (fun _ => False) := by
  constructor <;> simp [pendingAt, KafkaConsumerBridge.held]

variable [DecidableEq ε] {parseEvent : ρ → Option ε} {a : BridgeAct ε ρ} {o h : List (BridgeObs ε)}

/-- **Every step keeps the bookkeeping.** -/
theorem step (hI : Ledger b (fun c => .polled c ∈ h) (fun c => .acknowledged c ∈ h))
    (hs : b.step parseEvent a = some (b', o)) :
    Ledger b' (fun c => .polled c ∈ h ++ o) (fun c => .acknowledged c ∈ h ++ o) := by
  cases stepped hs with
  | checked ht | empty ht hr | raised ht | handed ht hh | abandoned ht hstop =>
      exact (hI.setThread (by simp)).congr (by simp) (by simp)
  | idle ht he =>
      refine ((hI.collect ?_).setThread (PollThread.drained_ne_committing _)).congr (by simp)
        (by simp)
      simp [ht]
  | committing ht =>
      refine (hI.collect ?_).startCommit.congr (by simp) (by simp)
      simp [ht]
  | committed ht =>
      obtain rfl := hI.committing _ _ ht
      exact (hI.settle (PollThread.drained_ne_committing _)).congr (by simp) (by simp)
  | commitFailed ht =>
      exact (hI.setThread (PollThread.drained_ne_committing _)).congr (by simp) (by simp)
  | malformed ht hpos => exact (hI.skip hpos).congr (by simp) (by simp)
  | polled c ht hc hp hpos hnext => exact (hI.poll hpos hnext).congr (by simp) (by simp)
  | handoffFailed ht => exact (hI.dropHandoff.setThread (by simp)).congr (by simp) (by simp)
  | put hc hq =>
      obtain ⟨-, hitems, -⟩ := BoundedQueue.putNowait_eq_some.mp hq
      refine (hI.setHeld (List.Perm.subperm ?_)).congr (by simp) (by simp)
      simp only [KafkaConsumerBridge.held, hitems, hc, Option.toList_none, Option.toList_some,
        List.nil_append]
      exact List.perm_append_comm.append_right _
  | cancelPut ht => exact hI.dropHandoff.congr (by simp) (by simp)
  | taken hq =>
      obtain ⟨⟨rest, hrest⟩, rfl⟩ := BoundedQueue.getNowait_eq_some.mp hq
      refine (hI.setHeld (List.Perm.subperm ?_)).congr (by simp) (by simp)
      simp only [KafkaConsumerBridge.held, BoundedQueue.items_pop, hrest, List.tail_cons,
        List.append_assoc, List.cons_append]
      exact List.Perm.append_left _ List.perm_middle
  | acknowledged hc => exact (hI.acknowledge hc).congr (by simp) (by simp)
  | stopped => exact hI.setStop.congr (by simp) (by simp)

theorem run {acts : List (BridgeAct ε ρ)}
    (hr : Machine.run (KafkaConsumerBridge.step parseEvent) {} acts = some (b, h)) :
    Ledger b (fun c => .polled c ∈ h) (fun c => .acknowledged c ∈ h) :=
  Machine.run_invariant
    (I := fun b h => Ledger b (fun c => .polled c ∈ h) (fun c => .acknowledged c ∈ h))
    (fun _ _ _ _ _ hI hs => hI.step hs) (Ledger.init.congr (by simp) (by simp)) hr

end Ledger

/-- Each commit the thread issues is the one its drain computed. -/
theorem commit_of_step {ε ρ : Type} [DecidableEq ε] {parseEvent : ρ → Option ε}
    {b b' : KafkaConsumerBridge ε} {a : BridgeAct ε ρ} {o : List (BridgeObs ε)}
    {offsets : List (PartitionKey × Nat)} (hs : b.step parseEvent a = some (b', o))
    (ho : .commit offsets ∈ o) :
    o = [.commit offsets] ∧ b'.acknowledgements = [] ∧
      offsets = commitOffsets b'.advances ∧ ∃ final, b'.thread = .committing final b'.advances := by
  cases stepped hs with
  | committing ht =>
      obtain rfl : offsets = _ := by simpa using ho
      exact ⟨rfl, rfl, rfl, _, rfl⟩
  | polled | acknowledged => simp at ho
  | _ => cases ho

/-- **Commit safety of the bridge.** Whenever `consumer.commit` is called with a position
for a partition, every record of that partition polled so far below the position has been
acknowledged. -/
theorem commit_acknowledged {ε ρ : Type} [DecidableEq ε] {parseEvent : ρ → Option ε}
    {b : KafkaConsumerBridge ε} {acts : List (BridgeAct ε ρ)} {h : List (BridgeObs ε)}
    (hr : Machine.run (KafkaConsumerBridge.step parseEvent) {} acts = some (b, h)) :
    Always (fun h₁ o => ∀ offsets, o = .commit offsets → ∀ key cursor, (key, cursor) ∈ offsets →
      ∀ c, .polled c ∈ h₁ → c.key = key → c.offset < cursor → .acknowledged c ∈ h₁) h := by
  refine (Machine.run_invariant (I := fun b h =>
    Ledger b (fun c => .polled c ∈ h) (fun c => .acknowledged c ∈ h) ∧
    Always (fun h₁ o => ∀ offsets, o = .commit offsets → ∀ key cursor, (key, cursor) ∈ offsets →
      ∀ c, .polled c ∈ h₁ → c.key = key → c.offset < cursor → .acknowledged c ∈ h₁) h)
    ?_ ⟨Ledger.init.congr (by simp) (by simp), Always.nil⟩ hr).2
  rintro b a b' o h ⟨hI, hA⟩ hs
  have hI' := hI.step hs
  refine ⟨hI', hA.append ?_⟩
  rintro os₁ x os₂ rfl offsets rfl key cursor hkc c hpc hk hlt
  obtain ⟨ho, -, rfl, -⟩ := commit_of_step hs (List.mem_append_right os₁ List.mem_cons_self)
  obtain ⟨rfl, rfl⟩ : os₁ = [] ∧ os₂ = [] := by
    cases os₁ with
    | nil => exact ⟨rfl, by simpa using ho⟩
    | cons y ys => simp at ho
  obtain ⟨⟨key', start, cursor'⟩, hadv, heq⟩ := List.mem_map.mp hkc
  obtain ⟨rfl, rfl⟩ := Prod.mk.inj heq
  simpa using hI'.commit_acked (Dict.mem_entries.mp hadv) (by simpa using hpc) hk hlt

end MarketData.Engine
