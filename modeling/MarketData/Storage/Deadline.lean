import Mathlib.Tactic.Linarith
import MarketData.Storage.TickWriter

/-!
# MarketData.Storage.Deadline

**The batch deadline.** An open batch that is overdue when the consumer is polled is flushed by the
same iteration of `run`, whatever the poll returns but one result: a Kafka error sends the loop back
to its head without a look at the clock (`deadline_enforced_iff`). A stream of errors can hold a
batch back for as long as it lasts (`errors_starve`).

Time is part of the schedule: a step begins at some time, and its clock readings come after that.
A run of `clocked` is a run of the writer under a clock that never goes back.
-/

namespace MarketData.Storage

variable {ρ σ τ : Type}

/-- The clock readings of a step, in order. -/
def WriterAct.readings : WriterAct ρ → List ℚ
  | .poll _ started now => [started, now]
  | _ => []

/-- The writer under a monotone clock: a step that begins at a time reads the clock no earlier. -/
def clocked [DecidableEq ρ] [DecidableEq σ] [DecidableEq τ] (log : PartitionKey → Nat → Option ρ)
    (parseEvent : ρ → Option (MarketEventOf σ)) (msToDatetime : Int → Option τ) :
    Machine (TickStorage ρ σ τ × ℚ) (ℚ × WriterAct ρ) (WriterObs ρ σ) := fun p a =>
  if (p.2 :: a.1 :: a.2.readings).Pairwise (· ≤ ·) then
    match p.1.step log parseEvent msToDatetime a.2 with
    | some (s, o) => some ((s, a.2.readings.getLastD a.1), o)
    | none => none
  else none

namespace TickWriter

/-- The open batch is past its deadline. -/
def Overdue (w : TickWriter ρ σ) (t : ℚ) : Prop := w.batch ≠ [] ∧ w.batchExpired t = true

instance (w : TickWriter ρ σ) (t : ℚ) : Decidable (w.Overdue t) := by
  unfold Overdue
  infer_instance

/-- `_flush` has been called, or `run` has ended. -/
def Flushing (w : TickWriter ρ σ) : Prop :=
  w.task = .down ∨ ∃ reason backoff, w.task = .flush reason backoff

/-- There is always room for one more record before a poll. -/
def Sized (w : TickWriter ρ σ) : Prop :=
  match w.task with
  | .down => True
  | .schema _ => w.batch = [] ∧ 0 < w.batchMaxSize
  | .head | .polling => (w.batch.length : Int) < w.batchMaxSize
  | _ => 0 < w.batchMaxSize

/-- A batch that has expired stays so. -/
theorem batchExpired_mono {w : TickWriter ρ σ} {t now : ℚ} (h : w.batchExpired t = true)
    (hle : t ≤ now) : w.batchExpired now = true := by
  have hlatency : w.batchMaxLatencyMs ≤ (t - w.batchStarted) * 1000 := of_decide_eq_true h
  have helapsed : (t - w.batchStarted) * 1000 ≤ (now - w.batchStarted) * 1000 := by linarith
  exact decide_eq_true (hlatency.trans helapsed)

/-- A record that joins an open batch leaves its clock alone. -/
theorem shouldFlush_append {w : TickWriter ρ σ} {t now : ℚ} (h : w.Overdue t) (hle : t ≤ now)
    (tick : ConsumedTick ρ σ) (started : ℚ) : (w.append tick started).shouldFlush now = true := by
  obtain ⟨hb, he⟩ := h
  have hopen : w.batch.isEmpty = false := by simpa using hb
  have hexpired : (w.append tick started).batchExpired now = w.batchExpired now := by
    simp only [batchExpired, append, hopen, Bool.false_eq_true, if_false]
  rw [shouldFlush, hexpired, batchExpired_mono he hle, Bool.or_true]

/-- The end of a flush, or its next commit. -/
theorem sized_commitRest {w : TickWriter ρ σ} (h : 0 < w.batchMaxSize) {reason : FlushReason ρ}
    {rest : List (KafkaMessage ρ)} : (w.commitRest reason rest).Sized := by
  rcases w.commitRest_cases reason rest with ⟨-, hw⟩ | ⟨-, hw | ⟨m, -, hw⟩⟩
  · rw [hw]
    exact h
  · rw [hw]
    exact h
  · rw [hw]
    exact h

end TickWriter

open TickWriter (Overdue Flushing Sized)

variable [DecidableEq ρ] [DecidableEq σ] [DecidableEq τ] {log : PartitionKey → Nat → Option ρ}
  {parseEvent : ρ → Option (MarketEventOf σ)} {msToDatetime : Int → Option τ}

/-- A step of the clocked writer is a step of the writer, with its readings in order. -/
theorem clocked_eq_some {p p' : TickStorage ρ σ τ × ℚ} {a : ℚ × WriterAct ρ}
    {o : List (WriterObs ρ σ)} (h : clocked log parseEvent msToDatetime p a = some (p', o)) :
    (p.2 :: a.1 :: a.2.readings).Pairwise (· ≤ ·) ∧
      TickStorage.Stepped log parseEvent msToDatetime p.1 a.2 p'.1 o := by
  unfold clocked at h
  split at h
  · rename_i hclock
    split at h
    · rename_i s o' hs
      obtain ⟨rfl, rfl⟩ := Machine.outcome h
      exact ⟨hclock, TickStorage.stepped hs⟩
    · cases h
  · cases h

/-! ### The deadline -/

/-- If the step is a poll and the batch is overdue at its beginning, the iteration goes on to flush
the batch. -/
def FlushesOverdue (log : PartitionKey → Nat → Option ρ)
    (parseEvent : ρ → Option (MarketEventOf σ)) (msToDatetime : Int → Option τ)
    (p : TickStorage ρ σ τ × ℚ) (a : ℚ × WriterAct ρ) : Prop :=
  match a.2 with
  | .poll .. => p.1.writer.Overdue a.1 →
      ∀ r ∈ clocked log parseEvent msToDatetime p a, r.1.1.writer.Flushing
  | _ => True

/-- If the step is a poll, the batch holds no more than `batch_max_size` records. -/
def PollsSized (p : TickStorage ρ σ τ × ℚ) (a : ℚ × WriterAct ρ) : Prop :=
  match a.2 with
  | .poll .. => (p.1.writer.batch.length : Int) ≤ p.1.writer.batchMaxSize
  | _ => True

/-- **The condition**: no poll returns a Kafka error while the batch is overdue. -/
def NoErrorOverdue (p : TickStorage ρ σ τ × ℚ) (a : ℚ × WriterAct ρ) : Prop :=
  match a.2 with
  | .poll .error _ _ => ¬ p.1.writer.Overdue a.1
  | _ => True

instance (p : TickStorage ρ σ τ × ℚ) (a : ℚ × WriterAct ρ) : Decidable (NoErrorOverdue p a) := by
  unfold NoErrorOverdue
  split <;> infer_instance

/-- **What a poll does with an overdue batch**: it goes on to flush it, unless Kafka reports an
error. -/
theorem poll_flushes_iff {s s' : TickStorage ρ σ τ} {result : PollResult ρ} {started now t : ℚ}
    {o : List (WriterObs ρ σ)}
    (hs : TickStorage.Stepped log parseEvent msToDatetime s (.poll result started now) s' o)
    (hle : t ≤ now) :
    (s.writer.Overdue t → s'.writer.Flushing) ↔ (result = .error → ¬ s.writer.Overdue t) := by
  cases hs with
  | idle ht hb =>
      refine iff_of_true (fun hover => ?_) (by simp)
      have hlate := TickWriter.batchExpired_mono hover.2 hle
      rcases hb with hb | hb
      · exact absurd hb hover.1
      · exact absurd (hlate.symm.trans hb) (by simp)
  | expired => exact iff_of_true (fun _ => Or.inr ⟨_, _, rfl⟩) (by simp)
  | pollError =>
      -- back to the head of the loop
      have hno : ¬ TickWriter.Flushing { s.writer with task := .head } := by
        intro hf
        rcases hf with hf | ⟨_, _, hf⟩ <;> cases hf
      exact ⟨fun hflush _ hover => hno (hflush hover), fun h hover => absurd hover (h rfl)⟩
  | pollRaised => exact iff_of_true (fun _ => Or.inl rfl) (by simp)
  | @malformed m _ _ ht hn hp task ht' =>
      refine iff_of_true (fun hover => Or.inr ⟨.invalid m, initialBackoffSeconds, ?_⟩) (by simp)
      have hopen : s.writer.batch.isEmpty = false := by simpa using hover.1
      rw [hopen] at ht'
      exact ht'
  | @delivered m event _ _ ht hn hp w hw task ht' =>
      refine iff_of_true (fun hover => Or.inr ⟨.full, initialBackoffSeconds, ?_⟩) (by simp)
      rw [hw, TickWriter.shouldFlush_append hover hle] at ht'
      exact ht'

/-- **One poll**: a batch that is overdue at its beginning is flushed, unless Kafka reports an
error. -/
theorem flushesOverdue_iff {p p' : TickStorage ρ σ τ × ℚ} {a : ℚ × WriterAct ρ}
    {o : List (WriterObs ρ σ)} (h : clocked log parseEvent msToDatetime p a = some (p', o)) :
    FlushesOverdue log parseEvent msToDatetime p a ↔ NoErrorOverdue p a := by
  obtain ⟨hclock, hs⟩ := clocked_eq_some h
  obtain ⟨t, a⟩ := a
  cases a with
  | poll result started now =>
      -- the time of the poll is not after the reading that decides
      have hle : t ≤ now := by
        obtain ⟨-, hrest⟩ := List.pairwise_cons.mp hclock
        exact (List.pairwise_cons.mp hrest).1 now (by simp [WriterAct.readings])
      have hflushes : FlushesOverdue log parseEvent msToDatetime p (t, .poll result started now) ↔
          (p.1.writer.Overdue t → p'.1.writer.Flushing) := by
        refine ⟨fun hf hover => hf hover _ h, fun hf hover r hr => ?_⟩
        obtain rfl := Option.some.inj (h.symm.trans hr)
        exact hf hover
      rw [hflushes, poll_flushes_iff hs hle]
      cases result <;> simp [NoErrorOverdue]
  | _ => exact Iff.rfl

/-! ### The size -/

/-- **A step leaves room before the next poll.** -/
theorem sized_step {s s' : TickStorage ρ σ τ} {a : WriterAct ρ} {o : List (WriterObs ρ σ)}
    (h : TickStorage.Stepped log parseEvent msToDatetime s a s' o) (hI : s.writer.Sized)
    (hstart : ∀ size latency, a = .start size latency → 0 < size) : s'.writer.Sized := by
  have hpos : s.writer.task ≠ .down → 0 < s.writer.batchMaxSize := by
    intro hdown
    unfold TickWriter.Sized at hI
    split at hI
    · exact absurd ‹_› hdown
    · exact hI.2
    · omega
    · omega
    · exact hI
  cases h with
  | started ht => exact ⟨rfl, hstart _ _ rfl⟩
  | @schema ok backoff ht task ht' =>
      have hschema : s.writer.batch = [] ∧ 0 < s.writer.batchMaxSize := by
        simpa [TickWriter.Sized, ht] using hI
      rcases ht' with rfl | ⟨backoff', rfl⟩
      · show (s.writer.batch.length : Int) < s.writer.batchMaxSize
        rw [hschema.1]
        exact hschema.2
      · exact hschema
  | ended ht hs | pollRaised ht | crash | commitRaised hp => trivial
  | checked ht hs | idle ht hb | pollError ht => simpa [TickWriter.Sized, ht] using hI
  | expired ht hb he | attempted ht hs | insertRaised ht hr | woken ht =>
      exact hpos (by simp [ht])
  | @malformed m started now ht hn hp task ht' =>
      have hsize := hpos (by simp [ht])
      subst ht'
      show TickWriter.Sized { s.writer with task := _ }
      unfold TickWriter.Sized
      cases s.writer.batch.isEmpty <;> exact hsize
  | @delivered m event started now ht hn hp w hw task ht' =>
      have hsize := hpos (by simp [ht])
      subst ht'
      show TickWriter.Sized { w with task := _ }
      have hmax : w.batchMaxSize = s.writer.batchMaxSize := by rw [hw]; rfl
      unfold TickWriter.Sized
      cases hflush : w.shouldFlush now with
      | true => exact hmax ▸ hsize
      | false =>
          -- the batch is not flushed, so there is room for another record
          obtain ⟨hroom, -⟩ := Bool.or_eq_false_iff.mp hflush
          have hlt := of_decide_eq_false hroom
          exact not_le.mp hlt
  | unflushed ht hs =>
      have hsize := hpos (by simp [ht])
      rename_i reason backoff
      cases reason with
      | idle | full => exact hsize
      | invalid m => trivial
  | @inserted reason backoff rows inserted ht hr =>
      have hsize := hpos (by simp [ht])
      exact TickWriter.sized_commitRest (w := { s.writer with insertedTicks := inserted }) hsize
  | committed hp =>
      rcases TickWriter.pendingCommit_cases hp with ⟨reason, rest, ht, rfl⟩ | ⟨ht, rfl⟩
      · exact TickWriter.sized_commitRest (hpos (by simp [ht]))
      · exact hpos (by simp [ht])
  | stop | executed hr => exact hI

/-- **Along every run the batch has room at each poll.** -/
theorem pollsSized_along {acts : List (ℚ × WriterAct ρ)} {p : TickStorage ρ σ τ × ℚ}
    {h : List (WriterObs ρ σ)} {clock : ℚ}
    (hr : Machine.run (clocked log parseEvent msToDatetime) ({}, clock) acts = some (p, h))
    (hsize : ∀ t size latency, (t, .start size latency) ∈ acts → 0 < size) :
    Machine.Along (clocked log parseEvent msToDatetime) PollsSized ({}, clock) acts := by
  have hC : Machine.Along (clocked log parseEvent msToDatetime)
      (fun _ a => ∀ size latency, a.2 = .start size latency → 0 < size) ({}, clock) acts := by
    refine Machine.along_of_forall (C := fun a : ℚ × WriterAct ρ =>
      ∀ size latency, a.2 = .start size latency → 0 < size) ?_ _
    intro a ha size latency heq
    exact hsize a.1 size latency (heq ▸ ha)
  refine Machine.Along.imp_of_run (P := fun p => p.1.writer.Sized) ?_ trivial hC hr
  intro p a p' o hI hstart hstep
  obtain ⟨-, hs⟩ := clocked_eq_some hstep
  refine ⟨sized_step hs hI hstart, ?_⟩
  obtain ⟨s, clock⟩ := p
  obtain ⟨s', clock'⟩ := p'
  obtain ⟨t, a⟩ := a
  have hroom : s.writer.task = .polling →
      (s.writer.batch.length : Int) ≤ s.writer.batchMaxSize := by
    intro ht
    have hlt : (s.writer.batch.length : Int) < s.writer.batchMaxSize := by
      simpa [TickWriter.Sized, ht] using hI
    omega
  cases hs with
  | idle ht | expired ht | pollError ht | pollRaised ht | malformed ht | delivered ht =>
      exact hroom ht
  | _ => trivial

/-- **The batch deadline is enforced exactly where Kafka reports no error.** Along a run of the
writer under a monotone clock, with positive batch sizes: every iteration that polls with an overdue
batch goes on to flush it, and no poll finds more than `batch_max_size` records, if and only if no
poll returns a Kafka error while the batch is overdue. -/
theorem deadline_enforced_iff {acts : List (ℚ × WriterAct ρ)} {p : TickStorage ρ σ τ × ℚ}
    {h : List (WriterObs ρ σ)} {clock : ℚ}
    (hr : Machine.run (clocked log parseEvent msToDatetime) ({}, clock) acts = some (p, h))
    (hsize : ∀ t size latency, (t, .start size latency) ∈ acts → 0 < size) :
    (Machine.Along (clocked log parseEvent msToDatetime)
      (FlushesOverdue log parseEvent msToDatetime)
        ({}, clock) acts ∧
      Machine.Along (clocked log parseEvent msToDatetime) PollsSized ({}, clock) acts) ↔
    Machine.Along (clocked log parseEvent msToDatetime) NoErrorOverdue ({}, clock) acts := by
  have hflush := Machine.along_congr_of_run (fun _ _ _ _ hs => flushesOverdue_iff hs) hr
  constructor
  · intro hproperty
    exact hflush.mp hproperty.1
  · intro hno
    exact ⟨hflush.mpr hno, pollsSized_along hr hsize⟩

/-- A topic with one record. -/
def oneTick (key : PartitionKey) (n : Nat) : Option (Option MarketEvent) :=
  if key = ("market-events", 0) ∧ n = 0 then some (some (.quote "A" 7)) else none

/-- A batch of one record is a second old when nothing is polled. -/
def lateActs : List (ℚ × WriterAct (Option MarketEvent)) :=
  [(0, .start 500 100), (0, .schema true), (0, .check),
    (0, .poll (.message ⟨"market-events", 0, 0, some (.quote "A" 7)⟩) 0 0), (1, .check),
    (1, .poll .nothing 1 1)]

theorem deadline_enforced_late :
    Machine.Along (clocked oneTick id (some : Int → Option Int))
        (FlushesOverdue oneTick id (some : Int → Option Int)) ({}, 0) lateActs ∧
      Machine.Along (clocked oneTick id (some : Int → Option Int)) PollsSized ({}, 0) lateActs := by
  have hsome : (Machine.run (clocked oneTick id (some : Int → Option Int)) ({}, 0)
    lateActs).isSome := by decide +kernel
  obtain ⟨⟨p, h⟩, hr⟩ := Option.isSome_iff_exists.mp hsome
  refine (deadline_enforced_iff hr ?_).mpr ?_
  · intro t size latency hmem
    obtain ⟨-, rfl, -⟩ : t = 0 ∧ size = 500 ∧ latency = 100 := by simpa [lateActs] using hmem
    decide
  · decide +kernel

/-! ### A stream of errors -/

/-- **Errors starve the batch**: while polls return errors, nothing happens to it. -/
theorem errors_starve {s : TickStorage ρ σ τ} (ht : s.writer.task = .head)
    (hs : s.writer.stopped = false) (ts : List ℚ) :
    Machine.run (TickStorage.step log parseEvent msToDatetime) s
      (ts.flatMap fun t => [.check, .poll .error t t]) = some (s, []) := by
  induction ts with
  | nil => rfl
  | cons t ts ih =>
      have hhead :
          ({ s with writer := { s.writer with task := .head } } : TickStorage ρ σ τ) = s := by
        rw [← ht]
      rw [List.flatMap_cons, List.cons_append, List.cons_append, List.nil_append]
      refine Machine.run_cons.mpr ⟨{ s with writer := { s.writer with task := .polling } }, [], [],
        by simp [TickStorage.step, ht, hs], ?_, rfl⟩
      refine Machine.run_cons.mpr ⟨s, [], [], ?_, ih, rfl⟩
      simp only [TickStorage.step]
      rw [hhead]

/-- A batch of one record, and Kafka errors when it is one and nine seconds old. -/
def errorActs : List (ℚ × WriterAct (Option MarketEvent)) :=
  [(0, .start 500 100), (0, .schema true), (0, .check),
    (0, .poll (.message ⟨"market-events", 0, 0, some (.quote "A" 7)⟩) 0 0), (1, .check),
    (1, .poll .error 1 1), (9, .check), (9, .poll .error 9 9)]

/-- **The batch stays open past its deadline of 100 ms.** -/
theorem errors_hold_batch :
    ∃ p h, Machine.run (clocked oneTick id (some : Int → Option Int)) ({}, 0) errorActs =
        some (p, h) ∧
      p.1.writer.Overdue 9 ∧
      ¬ (Machine.Along (clocked oneTick id (some : Int → Option Int))
          (FlushesOverdue oneTick id (some : Int → Option Int)) ({}, 0) errorActs ∧
        Machine.Along (clocked oneTick id (some : Int → Option Int)) PollsSized ({}, 0)
          errorActs) := by
  have hover : (Machine.run (clocked oneTick id (some : Int → Option Int)) ({}, 0) errorActs).map
      (fun r => decide (r.1.1.writer.Overdue 9)) = some true := by decide +kernel
  have herror : ¬ Machine.Along (clocked oneTick id (some : Int → Option Int)) NoErrorOverdue
      ({}, 0) errorActs := by decide +kernel
  obtain ⟨⟨p, h⟩, hr, hp⟩ := Option.map_eq_some_iff.mp hover
  refine ⟨p, h, hr, of_decide_eq_true hp, fun hflush => herror ?_⟩
  exact (Machine.along_congr_of_run (fun _ _ _ _ hs => flushesOverdue_iff hs) hr).mp hflush.1

end MarketData.Storage
