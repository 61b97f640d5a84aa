import MarketData.Storage.TickWriter

/-!
# MarketData.Storage.ExactlyOnce

**Exactly-once storage.** Over every sequence of lives of the writer, a valid record below
the committed position of its partition has exactly one row, and no commit is issued while
a delivered valid record exists only in memory.

The invariant (`Safe`) follows a record through a life: at every offset the consumer has
been given, a valid record has a row or is in the batch; by the time anything is committed
the whole batch has rows. Losing the batch is harmless, because the next life starts at
positions below which everything has a row.
-/

namespace MarketData.Storage

variable {ρ σ τ : Type}

/-- Offset `n` of the partition carries the valid record `event`. -/
def Valid (log : PartitionKey → Nat → Option ρ) (parseEvent : ρ → Option (MarketEventOf σ))
    (key : PartitionKey) (n : Nat) (event : MarketEventOf σ) : Prop :=
  ∃ v, log key n = some v ∧ parseEvent v = some event

/-- The malformed message a flush is for. -/
def FlushReason.messages : FlushReason ρ → List (KafkaMessage ρ)
  | .idle | .full => []
  | .invalid m => [m]

/-- The messages the writer may still commit in this iteration. -/
def WriterTask.messages : WriterTask ρ → List (KafkaMessage ρ)
  | .flush reason _ | .inserting reason _ | .sleeping reason _ => reason.messages
  | .committing reason rest => rest ++ reason.messages
  | .committingInvalid m => [m]
  | .down | .schema _ | .head | .polling => []

/-- The writer may still poll or flush in this life. -/
def TickWriter.Live (w : TickWriter ρ σ) : Prop :=
  match w.task with
  | .down => False
  | .head => w.stopped = false
  | _ => True

/-- Everything between a poll and the table. -/
structure Safe (log : PartitionKey → Nat → Option ρ) (parseEvent : ρ → Option (MarketEventOf σ))
    (msToDatetime : Int → Option τ) (s : TickStorage ρ σ τ) : Prop where
  /-- Below a committed position every valid record has a row. -/
  committed : ∀ key p, s.committed.get? key = some p → ∀ n < p, ∀ e,
    Valid log parseEvent key n e → HasRow msToDatetime s.table e
  /-- A delivered valid record has a row or is in the batch. -/
  delivered : s.writer.Live → ∀ key, ∀ n < s.positionOf key, ∀ e,
    Valid log parseEvent key n e → HasRow msToDatetime s.table e ∨
      e ∈ s.writer.batch.map ConsumedTick.event
  /-- Whoever is about to commit has stored the batch. -/
  stored : s.writer.pendingCommit.isSome → ∀ c ∈ s.writer.batch, HasRow msToDatetime s.table c.event
  /-- Only delivered messages are committed. -/
  messages : ∀ m ∈ s.writer.task.messages, m.offset < s.positionOf m.key
  batch : ∀ c ∈ s.writer.batch, c.message.offset < s.positionOf c.message.key

namespace Safe

variable {log : PartitionKey → Nat → Option ρ} {parseEvent : ρ → Option (MarketEventOf σ)}
  {msToDatetime : Int → Option τ} {s s' : TickStorage ρ σ τ}

theorem init : Safe log parseEvent msToDatetime ({} : TickStorage ρ σ τ) where
  committed := by simp
  delivered := by simp [TickWriter.Live]
  stored := by simp [TickWriter.pendingCommit]
  messages := by simp [WriterTask.messages]
  batch := by simp

/-- The writer moves on with the same batch. -/
theorem setWriter (hI : Safe log parseEvent msToDatetime s) {w : TickWriter ρ σ}
    (hb : w.batch = s.writer.batch) (hlive : w.Live → s.writer.Live)
    (hstored : w.pendingCommit.isSome → ∀ c ∈ s.writer.batch, HasRow msToDatetime s.table c.event)
    (hm : ∀ m ∈ w.task.messages, m.offset < s.positionOf m.key) :
    Safe log parseEvent msToDatetime { s with writer := w } where
  committed := hI.committed
  delivered hl key n hn e he := by
    rw [hb]
    exact hI.delivered (hlive hl) key n hn e he
  stored h c hc := hstored h c (hb ▸ hc)
  messages := hm
  batch c hc := hI.batch c (hb ▸ hc)

/-- The writer moves on without its batch: it has stored it, or is about to end. -/
theorem dropBatch (hI : Safe log parseEvent msToDatetime s) {w : TickWriter ρ σ} (hb : w.batch = [])
    (hlive : w.Live → s.writer.Live ∧ ∀ c ∈ s.writer.batch, HasRow msToDatetime s.table c.event)
    (hm : w.task.messages = []) : Safe log parseEvent msToDatetime { s with writer := w } where
  committed := hI.committed
  delivered hl key n hn e he := by
    obtain ⟨hlive, hstored⟩ := hlive hl
    rcases hI.delivered hlive key n hn e he with h | h
    · exact Or.inl h
    · obtain ⟨c, hc, rfl⟩ := List.mem_map.mp h
      exact Or.inl (hstored c hc)
  stored _ c hc := by simp [hb] at hc
  messages m h := by simp [hm] at h
  batch c hc := by simp [hb] at hc

/-- The end of a life. -/
theorem finish (hI : Safe log parseEvent msToDatetime s) :
    Safe log parseEvent msToDatetime { s with writer := s.writer.finish } :=
  hI.dropBatch rfl False.elim rfl

/-- Rows are added. -/
theorem setTable (hI : Safe log parseEvent msToDatetime s) {t : MarketTicks σ τ}
    (ht : ∀ key ∈ s.table.rows.map TickRow.key, key ∈ t.rows.map TickRow.key) :
    Safe log parseEvent msToDatetime { s with table := t } where
  committed key p hp n hn e he := (hI.committed key p hp n hn e he).mono ht
  delivered hl key n hn e he := (hI.delivered hl key n hn e he).imp_left (·.mono ht)
  stored h c hc := (hI.stored h c hc).mono ht
  messages := hI.messages
  batch := hI.batch

/-- **A commit is safe**: every valid record up to the committed message has a row. -/
theorem delivered_stored (hI : Safe log parseEvent msToDatetime s)
    (hp : s.writer.pendingCommit.isSome) {key : PartitionKey} {n : Nat} (hn : n < s.positionOf key)
    {e : MarketEventOf σ} (he : Valid log parseEvent key n e) : HasRow msToDatetime s.table e := by
  have hlive : s.writer.Live := by
    unfold TickWriter.pendingCommit at hp
    unfold TickWriter.Live
    split at hp <;> simp_all
  rcases hI.delivered hlive key n hn e he with h | h
  · exact h
  · obtain ⟨c, hc, rfl⟩ := List.mem_map.mp h
    exact hI.stored hp c hc

/-- `_commit_batch` goes on with a stored batch, or ends. -/
theorem commitRest (hI : Safe log parseEvent msToDatetime s) (hlive : s.writer.Live)
    (hstored : ∀ c ∈ s.writer.batch, HasRow msToDatetime s.table c.event) {w : TickWriter ρ σ}
    (hb : w.batch = s.writer.batch) {reason : FlushReason ρ} {rest : List (KafkaMessage ρ)}
    (hm : ∀ m ∈ rest ++ reason.messages, m.offset < s.positionOf m.key) :
    Safe log parseEvent msToDatetime { s with writer := w.commitRest reason rest } := by
  unfold TickWriter.commitRest
  split
  · exact hI.dropBatch rfl (fun _ => ⟨hlive, hstored⟩) rfl
  · exact hI.dropBatch rfl (fun _ => ⟨hlive, hstored⟩) rfl
  · exact hI.setWriter hb (fun _ => hlive) (fun _ => hstored) hm
  · exact hI.setWriter hb (fun _ => hlive) (fun _ => hstored) hm

/-- A new life. -/
theorem start (hI : Safe log parseEvent msToDatetime s) {w : TickWriter ρ σ} (hb : w.batch = [])
    {backoff : ℚ} (ht : w.task = .schema backoff) :
    Safe log parseEvent msToDatetime { s with writer := w, position := s.committed } where
  committed := hI.committed
  delivered _ key n hn e he := by
    refine Or.inl ?_
    cases hp : s.committed.get? key with
    | none => simp [TickStorage.positionOf, hp] at hn
    | some p => exact hI.committed key p hp n (by simpa [TickStorage.positionOf, hp] using hn) e he
  stored _ c hc := by simp [hb] at hc
  messages m h := by simp [ht, WriterTask.messages] at h
  batch c hc := by simp [hb] at hc

/-- The broker takes the position after a message up to which everything has a row. -/
theorem takeCommit (hI : Safe log parseEvent msToDatetime s) {m : KafkaMessage ρ}
    (hm : ∀ n ≤ m.offset, ∀ e, Valid log parseEvent m.key n e → HasRow msToDatetime s.table e) :
    Safe log parseEvent msToDatetime (s.takeCommit m) :=
  { hI with
    committed := by
      intro key p hp n hn e he
      simp only [TickStorage.takeCommit, Dict.get?_set] at hp
      by_cases hk : m.key = key
      · subst hk
        obtain rfl : m.offset + 1 = p := by simpa using hp
        exact hm n (by omega) e he
      · exact hI.committed key p (by simpa [hk] using hp) n hn e he }

theorem positionOf_deliver (s : TickStorage ρ σ τ) (m : KafkaMessage ρ) (key : PartitionKey) :
    ({ s with position := s.position.set m.key (m.offset + 1) } :
      TickStorage ρ σ τ).positionOf key =
      if m.key = key then m.offset + 1 else s.positionOf key := by
  simp only [TickStorage.positionOf, Dict.get?_set]
  split <;> rfl

/-- A delivery only moves the position on. -/
theorem lt_positionOf_deliver {m : KafkaMessage ρ} (hle : s.positionOf m.key ≤ m.offset)
    {key : PartitionKey} {n : Nat} (hn : n < s.positionOf key) :
    n < ({ s with position := s.position.set m.key (m.offset + 1) }
      : TickStorage ρ σ τ).positionOf key := by
  rw [positionOf_deliver]
  split
  · rename_i hk
    subst hk
    omega
  · exact hn

/-- What is delivered now was delivered before, or is the very message that is delivered. -/
theorem delivered_deliver [DecidableEq ρ] (hI : Safe log parseEvent msToDatetime s)
    (hlive : s.writer.Live) {m : KafkaMessage ρ} (hnext : s.IsNext log m) {key : PartitionKey}
    {n : Nat} (hn : n < ({ s with position := s.position.set m.key (m.offset + 1) }
      : TickStorage ρ σ τ).positionOf key) {e : MarketEventOf σ}
    (he : Valid log parseEvent key n e) :
    HasRow msToDatetime s.table e ∨ e ∈ s.writer.batch.map ConsumedTick.event ∨
      parseEvent m.value = some e := by
  obtain ⟨hle, hv, hskip⟩ := hnext
  obtain ⟨v, hlog, hparse⟩ := he
  rw [positionOf_deliver] at hn
  split at hn
  · rename_i hk
    subst hk
    rcases lt_or_ge n (s.positionOf m.key) with hold | hge
    · exact (hI.delivered hlive _ n hold e ⟨v, hlog, hparse⟩).imp_right Or.inl
    · rcases Nat.lt_succ_iff_lt_or_eq.mp hn with hlt | rfl
      · simp [hskip n hlt hge] at hlog
      · obtain rfl : m.value = v := Option.some.inj (hv.symm.trans hlog)
        exact Or.inr (Or.inr hparse)
  · exact (hI.delivered hlive key n hn e ⟨v, hlog, hparse⟩).imp_right Or.inl

/-- A malformed record is about to be committed. -/
theorem takeMalformed [DecidableEq ρ] (hI : Safe log parseEvent msToDatetime s)
    (ht : s.writer.task = .polling) {m : KafkaMessage ρ} (hnext : s.IsNext log m)
    (hp : parseEvent m.value = none) :
    Safe log parseEvent msToDatetime { s with
      writer := { s.writer with
        task := (if s.writer.batch.isEmpty then .committingInvalid m
          else .flush (.invalid m) initialBackoffSeconds) }
      position := s.position.set m.key (m.offset + 1) } where
  committed := hI.committed
  delivered _ key n hn e he := by
    rcases hI.delivered_deliver (by simp [TickWriter.Live, ht]) hnext hn he with h | h | h
    · exact Or.inl h
    · exact Or.inr h
    · simp [hp] at h
  stored hp c hc := by
    cases hb : s.writer.batch with
    | nil => simp [hb] at hc
    | cons x xs => simp [TickWriter.pendingCommit, hb] at hp
  messages m' hm' := by
    obtain rfl : m' = m := by
      cases hb : s.writer.batch.isEmpty <;>
        simpa [hb, WriterTask.messages, FlushReason.messages] using hm'
    rw [TickStorage.positionOf, Dict.get?_set_self]
    exact Nat.lt_succ_self _
  batch c hc := lt_positionOf_deliver hnext.1 (hI.batch c hc)

/-- A valid record joins the batch. -/
theorem takeValid [DecidableEq ρ] (hI : Safe log parseEvent msToDatetime s)
    (ht : s.writer.task = .polling) {m : KafkaMessage ρ} (hnext : s.IsNext log m)
    {event : MarketEventOf σ} (hp : parseEvent m.value = some event) {w : TickWriter ρ σ}
    {started now : ℚ} (hw : w = s.writer.append ⟨event, m⟩ started) :
    Safe log parseEvent msToDatetime { s with
      writer := { w with
        task := (if w.shouldFlush now then .flush .full initialBackoffSeconds else .head) }
      position := s.position.set m.key (m.offset + 1) } where
  committed := hI.committed
  delivered _ key n hn e he := by
    subst hw
    rcases hI.delivered_deliver (by simp [TickWriter.Live, ht]) hnext hn he with h | h | h
    · exact Or.inl h
    · refine Or.inr ?_
      rw [TickWriter.append, List.map_append]
      exact List.mem_append_left _ h
    · obtain rfl : event = e := Option.some.inj (hp.symm.trans h)
      refine Or.inr ?_
      rw [TickWriter.append, List.map_append]
      exact List.mem_append_right _ (List.mem_singleton_self _)
  stored hp := by
    split at hp <;> simp [TickWriter.pendingCommit] at hp
  messages m' hm' := by
    split at hm' <;> simp [WriterTask.messages, FlushReason.messages] at hm'
  batch c hc := by
    subst hw
    rcases List.mem_append.mp hc with hc | hc
    · exact lt_positionOf_deliver hnext.1 (hI.batch c hc)
    · obtain rfl := List.mem_singleton.mp hc
      rw [TickStorage.positionOf, Dict.get?_set_self]
      exact Nat.lt_succ_self _

/-- The messages of a batch's last records per partition are messages of the batch. -/
theorem lastByPartition_mem {batch : List (ConsumedTick ρ σ)} {c : ConsumedTick ρ σ}
    (hc : c ∈ (TickWriter.lastByPartition batch).values) : c ∈ batch := by
  obtain ⟨key, hk⟩ := Dict.mem_values.mp hc
  -- one iteration keeps what is there or puts in the tick it looks at
  refine (Dict.get?_foldl ?_ hk).resolve_left ?_
  · intro last x h
    have hset : (last.set x.message.key x).get? key = some c → last.get? key = some c ∨ c = x := by
      intro h
      rw [Dict.get?_set] at h
      split at h
      · exact Or.inr (Option.some.inj h).symm
      · exact Or.inl h
    split at h
    · exact hset h
    · split at h
      · exact hset h
      · exact Or.inl h
  · rw [Dict.get?_empty]
    exact (Option.some_ne_none c).symm

/-- The broker takes the position the writer is committing. -/
theorem take (hI : Safe log parseEvent msToDatetime s) {m : KafkaMessage ρ} {w : TickWriter ρ σ}
    (h : s.writer.pendingCommit = some (m, w)) :
    Safe log parseEvent msToDatetime (s.takeCommit m) := by
  have hm : m.offset < s.positionOf m.key := by
    refine hI.messages m ?_
    rcases TickWriter.pendingCommit_cases h with ⟨reason, rest, ht, -⟩ | ⟨ht, -⟩ <;>
      simp [ht, WriterTask.messages]
  exact hI.takeCommit fun n hn e he => hI.delivered_stored (by simp [h]) (by omega) he

/-- A commit that goes through. -/
theorem committed_step (hI : Safe log parseEvent msToDatetime s) {m : KafkaMessage ρ}
    {w : TickWriter ρ σ} (h : s.writer.pendingCommit = some (m, w)) :
    Safe log parseEvent msToDatetime { s.takeCommit m with writer := w } := by
  have hstored := hI.stored (by simp [h])
  rcases TickWriter.pendingCommit_cases h with ⟨reason, rest, ht, rfl⟩ | ⟨ht, rfl⟩
  · refine (hI.take h).commitRest
      (by simp [TickWriter.Live, TickStorage.takeCommit, ht]) hstored rfl
      fun m' hm' => hI.messages m' ?_
    rw [ht]
    exact List.mem_cons_of_mem m hm'
  · exact (hI.take h).dropBatch rfl
      (fun _ => ⟨by simp [TickWriter.Live, TickStorage.takeCommit, ht], hstored⟩) rfl

/-- The writer moves to a point where it is not about to commit. -/
theorem setTask (hI : Safe log parseEvent msToDatetime s) {t : WriterTask ρ}
    (hlive : s.writer.Live)
    (hcommit : ({ s.writer with task := t } : TickWriter ρ σ).pendingCommit = none)
    (hm : ∀ m ∈ t.messages, m ∈ s.writer.task.messages) :
    Safe log parseEvent msToDatetime { s with writer := { s.writer with task := t } } :=
  hI.setWriter rfl (fun _ => hlive) (by simp [hcommit]) fun m h => hI.messages m (hm m h)

/-- The stop flag changes nothing that is safe. -/
theorem setStopped (hI : Safe log parseEvent msToDatetime s) :
    Safe log parseEvent msToDatetime { s with writer := { s.writer with stopped := true } } := by
  refine hI.setWriter rfl ?_ ?_ hI.messages
  · unfold TickWriter.Live
    cases s.writer.task <;> simp
  · intro hp
    refine hI.stored ?_
    obtain ⟨⟨m, w⟩, hmw⟩ := Option.isSome_iff_exists.mp hp
    rcases TickWriter.pendingCommit_cases hmw with ⟨reason, rest, ht, -⟩ | ⟨ht, -⟩
    · exact (by simp [TickWriter.pendingCommit, show s.writer.task = _ from ht])
    · exact (by simp [TickWriter.pendingCommit, show s.writer.task = _ from ht])

variable [DecidableEq ρ] [DecidableEq σ] [DecidableEq τ] {a : WriterAct ρ}
  {o : List (WriterObs ρ σ)}

omit [DecidableEq ρ] in
/-- The batch after a successful insert. -/
theorem inserted (hI : Safe log parseEvent msToDatetime s) {reason : FlushReason ρ} {backoff : ℚ}
    (ht : s.writer.task = .inserting reason backoff) {rows : List (TickRow σ τ)}
    (hrows : s.batchRows msToDatetime = some rows) {n : Nat} :
    Safe log parseEvent msToDatetime { s with
      writer := { s.writer with insertedTicks := n }.commitRest reason
        ((TickWriter.lastByPartition s.writer.batch).values.map ConsumedTick.message)
      table := s.table.insertTicks rows } := by
  have hI' := hI.setTable (t := s.table.insertTicks rows) fun key hk =>
    MarketTicks.mem_insertTicks.mpr (Or.inl hk)
  refine hI'.commitRest (w := { s.writer with insertedTicks := n }) (by simp [TickWriter.Live, ht])
    (fun c hc => hasRow_insertTicks hrows (List.mem_map_of_mem hc)) rfl fun m hm => ?_
  rcases List.mem_append.mp hm with hm | hm
  · obtain ⟨c, hc, rfl⟩ := List.mem_map.mp hm
    exact hI.batch c (lastByPartition_mem hc)
  · exact hI.messages m (by rw [ht]; exact hm)

/-- **Every step keeps everything safe.** -/
theorem step (hI : Safe log parseEvent msToDatetime s)
    (hs : s.step log parseEvent msToDatetime a = some (s', o)) :
    Safe log parseEvent msToDatetime s' := by
  cases TickStorage.stepped hs with
  | started ht => exact hI.start rfl rfl
  | schema ht ht' =>
      rcases ht' with rfl | ⟨backoff', rfl⟩ <;>
        exact hI.setTask (by simp [TickWriter.Live, ht]) rfl (by simp [WriterTask.messages])
  | ended | pollRaised | crash => exact hI.finish
  | checked ht hstop =>
      exact hI.setTask (by simpa [TickWriter.Live, ht] using hstop) rfl
        (by simp [WriterTask.messages])
  | idle ht | expired ht | pollError ht =>
      exact hI.setTask (by simp [TickWriter.Live, ht]) rfl
        (by simp [WriterTask.messages, FlushReason.messages])
  | malformed ht hn hp ht' =>
      rw [ht']
      exact hI.takeMalformed ht hn hp
  | delivered ht hn hp hw ht' =>
      rw [ht']
      exact hI.takeValid ht hn hp hw
  | @unflushed reason backoff ht hstop =>
      -- the batch is lost, but the writer can do nothing any more but end
      cases reason with
      | idle | full =>
          exact hI.dropBatch rfl (by simp [TickWriter.Live, TickWriter.unflushed, hstop]) rfl
      | invalid m => exact hI.finish
  | attempted ht hstop =>
      exact hI.setTask (by simp [TickWriter.Live, ht]) rfl (by simp [ht, WriterTask.messages])
  | inserted ht hr => exact hI.inserted ht hr
  | @insertRaised effect reason backoff ht table abandoned hr =>
      have hsleep : Safe log parseEvent msToDatetime
          { s with writer := { s.writer with task := .sleeping reason backoff } } :=
        hI.setTask (by simp [TickWriter.Live, ht]) rfl (by simp [ht, WriterTask.messages])
      have htable : ∀ key ∈ s.table.rows.map TickRow.key, key ∈ table.rows.map TickRow.key := by
        rcases hr with rfl | ⟨rows, -, rfl⟩
        · exact fun key hk => hk
        · exact fun key hk => MarketTicks.mem_insertTicks.mpr (Or.inl hk)
      exact { hsleep.setTable htable with }
  | woken ht =>
      exact hI.setTask (by simp [TickWriter.Live, ht]) rfl (by simp [ht, WriterTask.messages])
  | committed hp => exact hI.committed_step hp
  | @commitRaised taken m w hp =>
      cases taken with
      | true => exact (hI.take hp).finish
      | false => exact hI.finish
  | stop => exact hI.setStopped
  | executed hr => exact hI.setTable fun key hk => MarketTicks.mem_insertTicks.mpr (Or.inl hk)

theorem run {acts : List (WriterAct ρ)} {h : List (WriterObs ρ σ)}
    (hr : Machine.run (TickStorage.step log parseEvent msToDatetime) {} acts = some (s, h)) :
    Safe log parseEvent msToDatetime s :=
  Machine.run_preserves (fun _ _ _ _ hI hs => hI.step hs) Safe.init hr

end Safe

/-- Only a writer that is committing calls `consumer.commit`. -/
theorem commit_of_step [DecidableEq ρ] [DecidableEq σ] [DecidableEq τ]
    {log : PartitionKey → Nat → Option ρ} {parseEvent : ρ → Option (MarketEventOf σ)}
    {msToDatetime : Int → Option τ} {s s' : TickStorage ρ σ τ} {a : WriterAct ρ}
    {o : List (WriterObs ρ σ)} (hs : s.step log parseEvent msToDatetime a = some (s', o))
    {key : PartitionKey} {position : Nat} (ho : .commit key position ∈ o) :
    s.writer.pendingCommit.isSome := by
  cases TickStorage.stepped hs with
  | committed hp | commitRaised hp =>
      rw [hp]
      rfl
  | delivered => simp at ho
  | _ => cases ho

/-- **Exactly-once storage.** After any run over any number of lives of the writer: every
valid record below the committed position of its partition has exactly one row with its
key, and any commit the writer issues next finds a row for every valid record delivered in
this life (every valid record before the consumer's positions), whatever is still in the
batch. -/
theorem exactly_once [DecidableEq ρ] [DecidableEq σ] [DecidableEq τ]
    {log : PartitionKey → Nat → Option ρ} {parseEvent : ρ → Option (MarketEventOf σ)}
    {msToDatetime : Int → Option τ} {acts : List (WriterAct ρ)} {s : TickStorage ρ σ τ}
    {h : List (WriterObs ρ σ)}
    (hr : Machine.run (TickStorage.step log parseEvent msToDatetime) {} acts = some (s, h)) :
    (∀ key p, s.committed.get? key = some p → ∀ n < p, ∀ e, Valid log parseEvent key n e →
      ∃ t, msToDatetime e.eventTs = some t ∧ s.table.countKey (e.symbol, e.seq, t) = 1) ∧
    (∀ a s' o key p, s.step log parseEvent msToDatetime a = some (s', o) → .commit key p ∈ o →
      ∀ key', ∀ n < s.positionOf key', ∀ e, Valid log parseEvent key' n e →
        ∃ t, msToDatetime e.eventTs = some t ∧ s.table.countKey (e.symbol, e.seq, t) = 1) := by
  have hI := Safe.run hr
  have hone : ∀ e, HasRow msToDatetime s.table e →
      ∃ t, msToDatetime e.eventTs = some t ∧ s.table.countKey (e.symbol, e.seq, t) = 1 := by
    rintro e ⟨r, hrow, hk⟩
    obtain ⟨t, ht, hrow⟩ := Option.bind_eq_some_iff.mp hrow
    obtain rfl := Option.some.inj hrow
    exact ⟨t, ht, MarketTicks.countKey_eq_one hk⟩
  constructor
  · exact fun key p hp n hn e he => hone e (hI.committed key p hp n hn e he)
  · intro a s' o key p hs ho key' n hn e he
    exact hone e (hI.delivered_stored (commit_of_step hs ho) hn he)

/-- A topic with a valid record and a malformed one. -/
def shortTopic (key : PartitionKey) (n : Nat) : Option (Option MarketEvent) :=
  if key = ("market-events", 0) then [some (.quote "A" 7), none][n]? else none

/-- The first life inserts the valid record without learning of it and crashes; the second
inserts it again, commits it, and commits past the malformed record. -/
def replayActs : List (WriterAct (Option MarketEvent)) :=
  [.start 500 100, .schema true, .check,
    .poll (.message ⟨"market-events", 0, 0, some (.quote "A" 7)⟩) 0 0, .check,
    .poll (.message ⟨"market-events", 0, 1, none⟩) 0 0, .checkFlush, .insertRaised .applied, .wake,
    .crash,
    .start 500 100, .schema false, .schema true, .check,
    .poll (.message ⟨"market-events", 0, 0, some (.quote "A" 7)⟩) 0 0, .check,
    .poll (.message ⟨"market-events", 0, 1, none⟩) 0 0, .checkFlush, .inserted, .committed,
    .committed]

theorem exactly_once_replayed :
    ∃ s h, Machine.run (TickStorage.step shortTopic id (some : Int → Option Int)) {} replayActs =
        some (s, h) ∧
      s.committed.get? ("market-events", 0) = some 2 ∧ s.table.countKey ("A", 7, 7) = 1 := by
  have hsome : (Machine.run (TickStorage.step shortTopic id (some : Int → Option Int)) {}
    replayActs).isSome := by decide +kernel
  have hcom : (Machine.run (TickStorage.step shortTopic id (some : Int → Option Int)) {}
    replayActs).map (fun r => r.1.committed.get? ("market-events", 0)) = some (some 2) := by
    decide +kernel
  obtain ⟨⟨s, h⟩, hr⟩ := Option.isSome_iff_exists.mp hsome
  rw [hr, Option.map_some, Option.some.injEq] at hcom
  refine ⟨s, h, hr, hcom, ?_⟩
  obtain ⟨t, ht, hone⟩ := (exactly_once hr).1 _ 2 hcom 0 (by decide)
    (MarketEventOf.quote "A" 7) ⟨_, rfl, rfl⟩
  obtain rfl : (7 : Int) = t := Option.some.inj ht
  exact hone

end MarketData.Storage
