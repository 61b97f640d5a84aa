import Mathlib.Data.List.Induction
import MarketData.Storage.TickWriter

/-!
# MarketData.Storage.Flush

**A flush commits exactly what it has stored.** `_flush` tries to insert the whole batch until an
insert succeeds or the stop flag is set between two attempts, and only then commits, once for each
partition of the batch (`flush_exact`).

A flush is a run of the writer from the head of `_flush` in which no commit raises; anything may
come in between, in particular a `stop` and the late execution of abandoned inserts.

* `latest_lastByPartition` — what the fold of `_commit_batch` keeps for each partition;
* `trying_run`, `committing_run` — the flush before and after its insert;
* `flushing_cost` — every failure costs at most three more steps, so that a flush with finitely
  many failures returns.
-/

namespace MarketData.Storage

variable {ρ σ τ : Type}

/-! ### The last record of each partition -/

/-- What `last_by_partition` holds for a partition. -/
inductive Latest (batch : List (ConsumedTick ρ σ)) (key : PartitionKey) :
    Option (ConsumedTick ρ σ) → Prop
  | absent (h : ∀ c ∈ batch, c.message.key ≠ key) : Latest batch key none
  | present {c : ConsumedTick ρ σ} (hc : c ∈ batch) (hk : c.message.key = key)
      (hmax : ∀ c' ∈ batch, c'.message.key = key → c'.message.offset ≤ c.message.offset) :
      Latest batch key (some c)

/-- A record of another partition does not matter. -/
theorem Latest.concat_ne {batch : List (ConsumedTick ρ σ)} {key : PartitionKey}
    {last : Option (ConsumedTick ρ σ)} (h : Latest batch key last) {c : ConsumedTick ρ σ}
    (hne : c.message.key ≠ key) : Latest (batch ++ [c]) key last := by
  cases h with
  | absent h =>
      refine .absent fun c' hc' => ?_
      rcases List.mem_append.mp hc' with hc' | hc'
      · exact h c' hc'
      · obtain rfl := List.mem_singleton.mp hc'
        exact hne
  | @present d hd hk hmax =>
      refine .present (List.mem_append_left [c] hd) hk fun c' hc' hk' => ?_
      rcases List.mem_append.mp hc' with hc' | hc'
      · exact hmax c' hc' hk'
      · obtain rfl := List.mem_singleton.mp hc'
        exact absurd hk' hne

namespace TickWriter

/-- One more iteration of the loop. -/
theorem lastByPartition_concat (batch : List (ConsumedTick ρ σ)) (c : ConsumedTick ρ σ) :
    lastByPartition (batch ++ [c]) =
      match (lastByPartition batch).get? c.message.key with
      | none => (lastByPartition batch).set c.message.key c
      | some previous =>
        if previous.message.offset < c.message.offset then
          (lastByPartition batch).set c.message.key c
        else lastByPartition batch := by
  unfold lastByPartition
  rw [List.foldl_append]
  rfl

/-- **The loop keeps a record with the largest offset of each partition.** -/
theorem latest_lastByPartition (batch : List (ConsumedTick ρ σ)) (key : PartitionKey) :
    Latest batch key ((lastByPartition batch).get? key) := by
  induction batch using List.reverseRecOn with
  | nil => exact .absent (by simp)
  | append_singleton batch c ih =>
      rw [lastByPartition_concat]
      by_cases hk : c.message.key = key
      · subst hk
        generalize hlast : (lastByPartition batch).get? c.message.key = last at ih ⊢
        cases ih with
        | absent h =>
            simp only [Dict.get?_set_self]
            refine .present (List.mem_append_right batch (List.mem_singleton_self c)) rfl ?_
            intro c' hc' hk'
            rcases List.mem_append.mp hc' with hc' | hc'
            · exact absurd hk' (h c' hc')
            · obtain rfl := List.mem_singleton.mp hc'
              exact le_rfl
        | @present d hd hk hmax =>
            by_cases hlt : d.message.offset < c.message.offset
            · simp only [hlt, if_true, Dict.get?_set_self]
              refine .present (List.mem_append_right batch (List.mem_singleton_self c)) rfl ?_
              intro c' hc' hk'
              rcases List.mem_append.mp hc' with hc' | hc'
              · exact (hmax c' hc' hk').trans hlt.le
              · obtain rfl := List.mem_singleton.mp hc'
                exact le_rfl
            · simp only [hlt, if_false, hlast]
              refine .present (List.mem_append_left [c] hd) hk fun c' hc' hk' => ?_
              rcases List.mem_append.mp hc' with hc' | hc'
              · exact hmax c' hc' hk'
              · obtain rfl := List.mem_singleton.mp hc'
                omega
      · have hother : ((lastByPartition batch).set c.message.key c).get? key =
            (lastByPartition batch).get? key := Dict.get?_set_ne _ _ hk
        have hget := ih.concat_ne hk
        split
        · rwa [hother]
        · split
          · rwa [hother]
          · exact hget

end TickWriter

/-- The commit of a message. -/
def commitObs (m : KafkaMessage ρ) : WriterObs ρ σ := .commit m.key (m.offset + 1)

/-- The messages are one for each partition of the batch, with its largest offset. -/
structure LatestMessages (batch : List (ConsumedTick ρ σ)) (messages : List (KafkaMessage ρ)) :
    Prop where
  /-- No partition twice. -/
  once : (messages.map KafkaMessage.key).Nodup
  /-- Every partition of the batch. -/
  every : ∀ c ∈ batch, ∃ m ∈ messages, m.key = c.message.key
  /-- No other partition, and no smaller offset. -/
  latest : ∀ m ∈ messages, (∃ c ∈ batch, c.message = m) ∧
    ∀ c ∈ batch, c.message.key = m.key → c.message.offset ≤ m.offset

/-- The messages `_commit_batch` commits. -/
def commitMessages (batch : List (ConsumedTick ρ σ)) : List (KafkaMessage ρ) :=
  (TickWriter.lastByPartition batch).values.map ConsumedTick.message

theorem latestMessages (batch : List (ConsumedTick ρ σ)) :
    LatestMessages batch (commitMessages batch) where
  once := by
    -- each entry is stored under the partition of its message
    have hkeys : (commitMessages batch).map KafkaMessage.key =
        (TickWriter.lastByPartition batch).keys := by
      rw [commitMessages, Dict.values, Dict.keys, List.map_map, List.map_map]
      refine List.map_congr_left fun p hp => ?_
      have hget := Dict.mem_entries.mp (show (p.1, p.2) ∈ _ from hp)
      have hlatest := TickWriter.latest_lastByPartition batch p.1
      rw [hget] at hlatest
      cases hlatest with
      | present hc hk hmax => exact hk
    rw [hkeys]
    exact (TickWriter.lastByPartition batch).nodup
  every c hc := by
    have hlatest := TickWriter.latest_lastByPartition batch c.message.key
    generalize hget : (TickWriter.lastByPartition batch).get? c.message.key = last at hlatest
    cases hlatest with
    | absent h => exact absurd rfl (h c hc)
    | @present d hd hk hmax =>
        refine ⟨d.message, List.mem_map.mpr ⟨d, ?_, rfl⟩, hk⟩
        exact Dict.mem_values.mpr ⟨_, hget⟩
  latest m hm := by
    obtain ⟨d, hd, rfl⟩ := List.mem_map.mp hm
    obtain ⟨key, hget⟩ := Dict.mem_values.mp hd
    have hlatest := TickWriter.latest_lastByPartition batch key
    rw [hget] at hlatest
    cases hlatest with
    | present hc hk hmax => exact ⟨⟨d, hc, rfl⟩, fun c hc' hk' => hmax c hc' (hk'.trans hk)⟩

/-! ### The steps of a flush -/

/-- `_flush` is under way. -/
def WriterTask.InFlush : WriterTask ρ → Prop
  | .flush .. | .inserting .. | .sleeping .. | .committing _ (_ :: _) => True
  | _ => False

instance (t : WriterTask ρ) : Decidable t.InFlush := by
  unfold WriterTask.InFlush
  split <;> infer_instance

/-- `_flush` has stored nothing yet. -/
def WriterTask.Trying (reason : FlushReason ρ) : WriterTask ρ → Prop
  | .flush r _ | .inserting r _ | .sleeping r _ => r = reason
  | _ => False

/-- No commit raises, and the process lives. -/
def WriterAct.Orderly : WriterAct ρ → Prop
  | .commitRaised _ | .crash => False
  | _ => True

instance (a : WriterAct ρ) : Decidable a.Orderly := by
  unfold WriterAct.Orderly
  split <;> infer_instance

/-- `_flush` has returned to its caller. -/
def TickWriter.Returned (reason : FlushReason ρ) (ok : Bool) (w : TickWriter ρ σ) : Prop :=
  match reason, ok with
  | .idle, _ | .full, _ => w.task = .head ∧ w.batch = []
  | .invalid _, false => w.task = .down ∧ w.batch = []
  | .invalid m, true => w.task = .committingInvalid m

theorem TickWriter.returned_commitRest {w : TickWriter ρ σ} (reason : FlushReason ρ) :
    (w.commitRest reason []).Returned reason true := by
  cases reason with
  | idle | full => exact ⟨rfl, rfl⟩
  | invalid m => rfl

theorem TickWriter.returned_unflushed {w : TickWriter ρ σ} (reason : FlushReason ρ) :
    (w.unflushed reason).Returned reason false := by
  cases reason with
  | idle | full | invalid m => exact ⟨rfl, rfl⟩

/-- A flush that has returned is no longer under way. -/
theorem TickWriter.Returned.not_inFlush {w : TickWriter ρ σ} {reason : FlushReason ρ} {ok : Bool}
    (h : w.Returned reason ok) : ¬ w.task.InFlush := by
  intro hf
  cases reason with
  | idle | full =>
      rw [h.1] at hf
      exact hf
  | invalid m =>
      cases ok with
      | true =>
          rw [show w.task = _ from h] at hf
          exact hf
      | false =>
          rw [h.1] at hf
          exact hf

variable [DecidableEq ρ] [DecidableEq σ] [DecidableEq τ] {log : PartitionKey → Nat → Option ρ}
  {parseEvent : ρ → Option (MarketEventOf σ)} {msToDatetime : Int → Option τ}
  {s s' : TickStorage ρ σ τ}

open TickStorage (Stepped)

/-- **A step before the insert**: another attempt or something beside the flush, the stop flag, or
the insert. -/
theorem trying_step {reason : FlushReason ρ} (ht : s.writer.task.Trying reason) {a : WriterAct ρ}
    (ha : a.Orderly) {o : List (WriterObs ρ σ)}
    (h : Stepped log parseEvent msToDatetime s a s' o) :
    o = [] ∧
    ((a ≠ .inserted ∧ s'.writer.batch = s.writer.batch ∧ s'.writer.task.Trying reason ∧
      (a ≠ .stop → s'.writer.stopped = s.writer.stopped)) ∨
    (a ≠ .inserted ∧ s.writer.stopped = true ∧ s'.writer = s.writer.unflushed reason) ∨
    (a = .inserted ∧ ∃ rows n, s.batchRows msToDatetime = some rows ∧
      s'.table = s.table.insertTicks rows ∧
      s'.writer = { s.writer with insertedTicks := n }.commitRest reason
        (commitMessages s.writer.batch))) := by
  cases h with
  | unflushed ht' hs =>
      rw [ht'] at ht
      obtain rfl := show _ = reason from ht
      exact ⟨rfl, Or.inr (Or.inl ⟨by simp, hs, rfl⟩)⟩
  | attempted ht' hs =>
      rw [ht'] at ht
      exact ⟨rfl, Or.inl ⟨by simp, rfl, ht, fun _ => rfl⟩⟩
  | @inserted _ backoff rows n ht' hr =>
      rw [ht'] at ht
      obtain rfl := show _ = reason from ht
      exact ⟨rfl, Or.inr (Or.inr ⟨rfl, rows, n, hr, rfl, rfl⟩)⟩
  | insertRaised ht' hr =>
      rw [ht'] at ht
      exact ⟨rfl, Or.inl ⟨by simp, rfl, ht, fun _ => rfl⟩⟩
  | woken ht' =>
      rw [ht'] at ht
      exact ⟨rfl, Or.inl ⟨by simp, rfl, ht, fun _ => rfl⟩⟩
  | stop => exact ⟨rfl, Or.inl ⟨by simp, rfl, ht, fun hne => absurd rfl hne⟩⟩
  | executed hr => exact ⟨rfl, Or.inl ⟨by simp, rfl, ht, fun _ => rfl⟩⟩
  | crash | commitRaised hp => exact ha.elim
  | committed hp =>
      rcases TickWriter.pendingCommit_cases hp with ⟨_, _, ht', -⟩ | ⟨ht', -⟩
      · rw [ht'] at ht
        exact ht.elim
      · rw [ht'] at ht
        exact ht.elim
  | started ht' | schema ht' | ended ht' | checked ht' | idle ht' | expired ht' | pollError ht'
  | pollRaised ht' | malformed ht' | delivered ht' =>
      rw [ht'] at ht
      exact ht.elim

/-- **A step after the insert**: the next commit, or something beside the flush. -/
theorem committing_step {reason : FlushReason ρ} {m : KafkaMessage ρ} {rest : List (KafkaMessage ρ)}
    (ht : s.writer.task = .committing reason (m :: rest)) {a : WriterAct ρ} (ha : a.Orderly)
    {o : List (WriterObs ρ σ)} (h : Stepped log parseEvent msToDatetime s a s' o) :
    a ≠ .inserted ∧
    ((o = [] ∧ s'.writer.task = s.writer.task) ∨
    (o = [commitObs m] ∧ s'.writer = s.writer.commitRest reason rest)) := by
  cases h with
  | stop | executed hr => exact ⟨by simp, Or.inl ⟨rfl, rfl⟩⟩
  | committed hp =>
      rcases TickWriter.pendingCommit_cases hp with ⟨_, _, ht', rfl⟩ | ⟨ht', -⟩
      · rw [ht] at ht'
        cases ht'
        exact ⟨by simp, Or.inr ⟨rfl, rfl⟩⟩
      · cases ht.symm.trans ht'
  | crash | commitRaised hp => exact ha.elim
  | started ht' | schema ht' | ended ht' | checked ht' | idle ht' | expired ht' | pollError ht'
  | pollRaised ht' | malformed ht' | delivered ht' | unflushed ht' | attempted ht' | inserted ht'
  | insertRaised ht' | woken ht' => cases ht.symm.trans ht'

/-! ### A whole flush -/

/-- What the steps of a flush are. -/
def Flushes (s : TickStorage ρ σ τ) (a : WriterAct ρ) : Prop := s.writer.task.InFlush ∧ a.Orderly

instance (s : TickStorage ρ σ τ) (a : WriterAct ρ) : Decidable (Flushes s a) :=
  inferInstanceAs (Decidable (_ ∧ _))

/-- A flush that has returned takes no more steps. -/
theorem nil_of_not_inFlush {acts : List (WriterAct ρ)} (hs : ¬ s.writer.task.InFlush)
    (hC : Machine.Along (TickStorage.step log parseEvent msToDatetime) Flushes s acts) :
    acts = [] := by
  cases acts with
  | nil => rfl
  | cons a acts => exact absurd hC.1.1 hs

/-- **After the insert every message is committed, and nothing else.** -/
theorem committing_run {reason : FlushReason ρ} {acts : List (WriterAct ρ)}
    {rest : List (KafkaMessage ρ)} {h : List (WriterObs ρ σ)}
    (ht : s.writer.task = .committing reason rest) (hne : rest ≠ [])
    (hr : Machine.run (TickStorage.step log parseEvent msToDatetime) s acts = some (s', h))
    (hC : Machine.Along (TickStorage.step log parseEvent msToDatetime) Flushes s acts)
    (hdone : ¬ s'.writer.task.InFlush) :
    .inserted ∉ acts ∧ h = rest.map commitObs ∧ s'.writer.Returned reason true := by
  induction acts generalizing s rest h with
  | nil =>
      obtain ⟨rfl, -⟩ : s = s' ∧ [] = h := by simpa using hr
      cases rest with
      | nil => exact absurd rfl hne
      | cons m rest =>
          rw [ht] at hdone
          exact absurd trivial hdone
  | cons a acts ih =>
      obtain ⟨u, o, h', hs, hr', rfl⟩ := Machine.run_cons.mp hr
      obtain ⟨⟨-, ha⟩, hC'⟩ := hC
      simp only [hs] at hC'
      cases rest with
      | nil => exact absurd rfl hne
      | cons m rest =>
          obtain ⟨hna, ⟨rfl, htask⟩ | ⟨rfl, hw⟩⟩ := committing_step ht ha (TickStorage.stepped hs)
          · obtain ⟨hno, rfl, hret⟩ := ih (htask.trans ht) hne hr' hC'
            exact ⟨by simp [hna.symm, hno], rfl, hret⟩
          · cases rest with
            | nil =>
                -- the last commit: `_flush` returns
                have hret : u.writer.Returned reason true :=
                  hw ▸ TickWriter.returned_commitRest reason
                obtain rfl := nil_of_not_inFlush hret.not_inFlush hC'
                obtain ⟨rfl, rfl⟩ : u = s' ∧ [] = h' := by simpa using hr'
                exact ⟨by simp [hna.symm], rfl, hret⟩
            | cons m' rest =>
                have htask : u.writer.task = .committing reason (m' :: rest) := by
                  rw [hw]
                  rfl
                obtain ⟨hno, rfl, hret⟩ := ih htask (List.cons_ne_nil m' rest) hr' hC'
                exact ⟨by simp [hna.symm, hno], rfl, hret⟩

/-- `_flush` has returned `True`: one insert of the batch went through, and after it the messages
were committed. -/
structure Stored (log : PartitionKey → Nat → Option ρ) (parseEvent : ρ → Option (MarketEventOf σ))
    (msToDatetime : Int → Option τ) (reason : FlushReason ρ) (s s' : TickStorage ρ σ τ)
    (acts : List (WriterAct ρ)) (h : List (WriterObs ρ σ)) : Prop where
  /-- One insert, of the whole batch in its order, before any commit. -/
  once : ∃ acts₁ acts₂ t u rows, acts = acts₁ ++ .inserted :: acts₂ ∧ .inserted ∉ acts₁ ∧
    .inserted ∉ acts₂ ∧
    Machine.run (TickStorage.step log parseEvent msToDatetime) s acts₁ = some (t, []) ∧
    t.step log parseEvent msToDatetime .inserted = some (u, []) ∧
    Machine.run (TickStorage.step log parseEvent msToDatetime) u acts₂ = some (s', h) ∧
    (s.writer.batch.map ConsumedTick.event).mapM (eventToRow msToDatetime) = some rows ∧
    u.table = t.table.insertTicks rows
  /-- One commit for each partition of the batch. -/
  commits : ∃ messages, LatestMessages s.writer.batch messages ∧
    h = messages.map commitObs
  returned : s'.writer.Returned reason true

/-- `_flush` has returned `False`: nothing was stored and nothing is committed. -/
structure Abandoned (reason : FlushReason ρ) (s' : TickStorage ρ σ τ) (acts : List (WriterAct ρ))
    (h : List (WriterObs ρ σ)) : Prop where
  unstored : .inserted ∉ acts
  uncommitted : h = []
  returned : s'.writer.Returned reason false

/-- **A flush that has returned has stored its batch and committed it, or done neither.** -/
theorem trying_run {reason : FlushReason ρ} {acts : List (WriterAct ρ)} {h : List (WriterObs ρ σ)}
    (ht : s.writer.task.Trying reason)
    (hr : Machine.run (TickStorage.step log parseEvent msToDatetime) s acts = some (s', h))
    (hC : Machine.Along (TickStorage.step log parseEvent msToDatetime) Flushes s acts)
    (hdone : ¬ s'.writer.task.InFlush) :
    Abandoned reason s' acts h ∨ Stored log parseEvent msToDatetime reason s s' acts h := by
  induction acts generalizing s h with
  | nil =>
      obtain ⟨rfl, -⟩ : s = s' ∧ [] = h := by simpa using hr
      unfold WriterTask.Trying at ht
      unfold WriterTask.InFlush at hdone
      split at ht <;> simp_all
  | cons a acts ih =>
      obtain ⟨u, o, h', hs, hr', rfl⟩ := Machine.run_cons.mp hr
      obtain ⟨⟨-, ha⟩, hC'⟩ := hC
      simp only [hs] at hC'
      obtain ⟨rfl, ⟨hna, hb, htask, -⟩ | ⟨hna, -, hw⟩ | ⟨rfl, rows, n, hrows, htable, hw⟩⟩ :=
        trying_step ht ha (TickStorage.stepped hs)
      · -- nothing is stored yet
        rcases ih htask hr' hC' with hgone | hstored
        · exact Or.inl ⟨by simp [hna.symm, hgone.unstored], hgone.uncommitted, hgone.returned⟩
        · refine Or.inr ⟨?_, hb ▸ hstored.commits, hstored.returned⟩
          obtain ⟨acts₁, acts₂, t, v, rows, rfl, hno₁, hno₂, hrun₁, hins, hrun₂, hrows, htable⟩ :=
            hstored.once
          rw [hb] at hrows
          exact ⟨a :: acts₁, acts₂, t, v, rows, rfl, by simp [hna.symm, hno₁], hno₂,
            Machine.run_cons.mpr ⟨u, [], [], hs, hrun₁, rfl⟩, hins, hrun₂, hrows, htable⟩
      · -- the stop flag: `_flush` returns
        have hret : u.writer.Returned reason false := hw ▸ TickWriter.returned_unflushed reason
        obtain rfl := nil_of_not_inFlush hret.not_inFlush hC'
        obtain ⟨rfl, rfl⟩ : u = s' ∧ [] = h' := by simpa using hr'
        exact Or.inl ⟨by simp [hna.symm], rfl, hret⟩
      · -- the insert: what is left are the commits
        have hcommits : .inserted ∉ acts ∧
            h' = (commitMessages s.writer.batch).map commitObs ∧
              s'.writer.Returned reason true := by
          cases hm : commitMessages s.writer.batch with
          | nil =>
              rw [hm] at hw
              have hret : u.writer.Returned reason true :=
                hw ▸ TickWriter.returned_commitRest reason
              obtain rfl := nil_of_not_inFlush hret.not_inFlush hC'
              obtain ⟨rfl, rfl⟩ : u = s' ∧ [] = h' := by simpa using hr'
              exact ⟨by simp, rfl, hret⟩
          | cons m rest =>
              rw [hm] at hw
              exact committing_run (by rw [hw]; rfl) (List.cons_ne_nil m rest) hr' hC' hdone
        obtain ⟨hno, rfl, hret⟩ := hcommits
        exact Or.inr ⟨⟨[], acts, s, u, rows, rfl, by simp, hno, rfl, hs, hr', hrows, htable⟩,
          ⟨commitMessages s.writer.batch, latestMessages s.writer.batch, rfl⟩, hret⟩

/-! ### A flush returns -/

/-- The step is one of `_flush` itself. -/
def WriterAct.own : WriterAct ρ → Bool
  | .checkFlush | .inserted | .insertRaised _ | .wake | .committed => true
  | _ => false

/-- The step is a failed insert. -/
def WriterAct.failed : WriterAct ρ → Bool
  | .insertRaised _ => true
  | _ => false

/-- How many steps a flush still takes if no insert fails. -/
def TickWriter.remaining (w : TickWriter ρ σ) : Nat :=
  match w.task with
  | .flush .. => (commitMessages w.batch).length + 2
  | .inserting .. => (commitMessages w.batch).length + 1
  | .sleeping .. => (commitMessages w.batch).length + 3
  | .committing _ rest => rest.length
  | _ => 0

omit [DecidableEq ρ] [DecidableEq σ] in
theorem TickWriter.remaining_commitRest (w : TickWriter ρ σ) (reason : FlushReason ρ)
    (rest : List (KafkaMessage ρ)) : (w.commitRest reason rest).remaining = rest.length := by
  rcases w.commitRest_cases reason rest with ⟨-, hw⟩ | ⟨rfl, hw | ⟨m, -, hw⟩⟩ <;> rw [hw] <;> rfl

omit [DecidableEq ρ] [DecidableEq σ] in
theorem TickWriter.remaining_unflushed (w : TickWriter ρ σ) (reason : FlushReason ρ) :
    (w.unflushed reason).remaining = 0 := by
  cases reason with
  | idle | full | invalid m => rfl

/-- **A step of the flush is one step less**; a failed insert costs two more. -/
theorem remaining_step {a : WriterAct ρ} {o : List (WriterObs ρ σ)}
    (hC : Flushes s a) (h : Stepped log parseEvent msToDatetime s a s' o) :
    a.own.toNat + s'.writer.remaining ≤ s.writer.remaining + 3 * a.failed.toNat := by
  obtain ⟨hf, ha⟩ := hC
  cases h with
  | unflushed ht hs =>
      rw [TickWriter.remaining_unflushed, TickWriter.remaining, ht]
      simp only [WriterAct.own, Bool.toNat_true]
      omega
  | attempted ht hs | woken ht =>
      rw [TickWriter.remaining, TickWriter.remaining, ht]
      simp only [WriterAct.own, Bool.toNat_true]
      omega
  | insertRaised ht hr =>
      rw [TickWriter.remaining, TickWriter.remaining, ht]
      simp only [WriterAct.own, WriterAct.failed, Bool.toNat_true]
      omega
  | inserted ht hr =>
      rw [TickWriter.remaining_commitRest, TickWriter.remaining, ht]
      simp only [WriterAct.own, Bool.toNat_true, commitMessages]
      omega
  | committed hp =>
      rcases TickWriter.pendingCommit_cases hp with ⟨reason, rest, ht, rfl⟩ | ⟨ht, -⟩
      · rw [TickWriter.remaining_commitRest, TickWriter.remaining, ht]
        simp only [WriterAct.own, Bool.toNat_true, List.length_cons]
        omega
      · rw [ht] at hf
        exact hf.elim
  | stop | executed hr =>
      simp only [WriterAct.own, Bool.toNat_false, Nat.zero_add]
      exact Nat.le_add_right _ _
  | crash | commitRaised hp => exact ha.elim
  | started ht | schema ht | ended ht | checked ht | idle ht | expired ht | pollError ht
  | pollRaised ht | malformed ht | delivered ht =>
      rw [ht] at hf
      exact hf.elim

/-- **Every failure costs at most three more steps.** -/
theorem flushing_cost {acts : List (WriterAct ρ)} {h : List (WriterObs ρ σ)}
    (hC : Machine.Along (TickStorage.step log parseEvent msToDatetime) Flushes s acts)
    (hr : Machine.run (TickStorage.step log parseEvent msToDatetime) s acts = some (s', h)) :
    (acts.map fun a => a.own.toNat).sum + s'.writer.remaining ≤
      s.writer.remaining + (acts.map fun a => 3 * a.failed.toNat).sum :=
  Machine.cost_le_of_run (fun s => s.writer.remaining)
    (fun _ _ _ _ hCa hs => remaining_step hCa (TickStorage.stepped hs)) hC hr

/-- **A flush under way has a next step**, and one that is no failure if the batch has rows. -/
theorem own_enabled (hf : s.writer.task.InFlush) :
    ∃ a : WriterAct ρ, a.own = true ∧ a.Orderly ∧
      (s.step log parseEvent msToDatetime a).isSome ∧
      (a.failed = true → s.batchRows msToDatetime = none) := by
  unfold WriterTask.InFlush at hf
  split at hf
  · rename_i reason backoff ht
    refine ⟨.checkFlush, rfl, trivial, ?_, by simp [WriterAct.failed]⟩
    simp only [TickStorage.step, ht]
    split <;> rfl
  · rename_i reason backoff ht
    cases hrows : s.batchRows msToDatetime with
    | some rows =>
        exact ⟨.inserted, rfl, trivial, by simp [TickStorage.step, ht, hrows],
          by simp [WriterAct.failed]⟩
    | none =>
        exact ⟨.insertRaised .never, rfl, trivial, by simp [TickStorage.step, ht], fun _ => rfl⟩
  · rename_i reason backoff ht
    exact ⟨.wake, rfl, trivial, by simp [TickStorage.step, ht], by simp [WriterAct.failed]⟩
  · rename_i reason m rest ht
    exact ⟨.committed, rfl, trivial, by simp [TickStorage.step, TickWriter.pendingCommit, ht],
      by simp [WriterAct.failed]⟩
  · exact hf.elim

/-- **A flush commits exactly what it has stored.** For a run of `_flush` in which no commit raises:
while it is under way it has a next step, and it takes no more than three steps for each failed
insert and two more than there are partitions; once it has returned, it has either returned `False`
and committed nothing, or returned `True` after one insert of the whole batch in its order, followed
by one commit for each partition of the batch, on a message with the largest offset. -/
theorem flush_exact {reason : FlushReason ρ} {backoff : ℚ} {acts : List (WriterAct ρ)}
    {h : List (WriterObs ρ σ)} (ht : s.writer.task = .flush reason backoff)
    (hr : Machine.run (TickStorage.step log parseEvent msToDatetime) s acts = some (s', h))
    (hC : Machine.Along (TickStorage.step log parseEvent msToDatetime) Flushes s acts) :
    (s'.writer.task.InFlush → ∃ a : WriterAct ρ, a.own = true ∧ a.Orderly ∧
      (s'.step log parseEvent msToDatetime a).isSome ∧
      (a.failed = true → s'.batchRows msToDatetime = none)) ∧
    (acts.map fun a => a.own.toNat).sum ≤
      (commitMessages s.writer.batch).length + 2 + (acts.map fun a => 3 * a.failed.toNat).sum ∧
    (¬ s'.writer.task.InFlush →
      Abandoned reason s' acts h ∨ Stored log parseEvent msToDatetime reason s s' acts h) := by
  refine ⟨own_enabled, ?_, trying_run (by rw [ht]; exact rfl) hr hC⟩
  have hcost := flushing_cost hC hr
  have hstart : s.writer.remaining = (commitMessages s.writer.batch).length + 2 := by
    rw [TickWriter.remaining, ht]
  omega

/-- Three records of two partitions, one of them redelivered out of order. -/
def mixedBatch : List (ConsumedTick Nat PyStr) :=
  [⟨MarketEventOf.quote "A" 2, ⟨"market-events", 0, 11, 2⟩⟩,
    ⟨MarketEventOf.quote "B" 1, ⟨"market-events", 1, 20, 1⟩⟩,
    ⟨MarketEventOf.quote "A" 1, ⟨"market-events", 0, 10, 1⟩⟩]

/-- A writer about to flush them. -/
def mixedFlush : TickStorage Nat PyStr Int :=
  { writer := { task := .flush .full initialBackoffSeconds, batch := mixedBatch } }

/-- A timeout whose insert was applied all the same, then a success. -/
def mixedActs : List (WriterAct Nat) :=
  [.checkFlush, .insertRaised .applied, .wake, .checkFlush, .inserted, .committed, .committed]

theorem flush_exact_mixed :
    ∃ s' h, Machine.run (TickStorage.step (fun _ _ => none) (fun _ => none) some) mixedFlush
        mixedActs = some (s', h) ∧
      (Abandoned .full s' mixedActs h ∨
        Stored (fun _ _ => none) (fun _ => none) some .full mixedFlush s' mixedActs h) := by
  have hcom : (Machine.run (TickStorage.step (fun _ _ => none) (fun _ => none) some) mixedFlush
      mixedActs).map (fun r => decide (r.1.writer.task.InFlush)) = some false := by decide +kernel
  obtain ⟨⟨s', h⟩, hr, hdone⟩ := Option.map_eq_some_iff.mp hcom
  refine ⟨s', h, hr, (flush_exact rfl hr ?_).2.2 (of_decide_eq_false hdone)⟩
  decide +kernel

end MarketData.Storage
