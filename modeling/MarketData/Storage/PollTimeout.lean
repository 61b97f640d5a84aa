import MarketData.Storage.Deadline

/-!
# MarketData.Storage.PollTimeout

**How late a flush can be.** `Deadline` says that a poll that begins with an overdue batch is
followed by its flush. `_poll_timeout` sees to it that the poll before comes back in time: it never
waits past the deadline of the open batch. So where the writer is held up for at most `delay` at a
time, every batch is handed to `_flush` within three delays of its deadline and first tried within
four, exactly if no poll that returns after the deadline reports a Kafka error
(`attempted_in_time_iff`).

A run of `paced` keeps the time at which the writer itself was last at work, from which the delays
are counted: `stop()`, a crash and abandoned inserts come in between at any time.
-/

namespace MarketData.Storage

variable {ρ σ τ : Type}

namespace TickWriter

/-- `_poll_timeout`, in seconds, for a poll that begins at `now`. -/
def pollTimeout (w : TickWriter ρ σ) (now : ℚ) : ℚ :=
  if w.batch.isEmpty then 1 / 20
  else min (1 / 20) (max (w.batchMaxLatencyMs / 1000 - (now - w.batchStarted)) 0)

/-- When the open batch expires. -/
def deadline (w : TickWriter ρ σ) : ℚ := w.batchStarted + w.batchMaxLatencyMs / 1000

theorem batchExpired_iff {w : TickWriter ρ σ} {now : ℚ} :
    w.batchExpired now = true ↔ w.deadline ≤ now := by
  unfold batchExpired deadline
  rw [decide_eq_true_iff]
  constructor <;> intro h <;> linarith

theorem lt_deadline {w : TickWriter ρ σ} {now : ℚ} (h : w.batchExpired now = false) :
    now < w.deadline := by
  by_contra hle
  exact absurd (batchExpired_iff.mpr (not_lt.mp hle)) (by simp [h])

/-- **A poll with an open batch waits up to the deadline at most**, and not at all after it. -/
theorem add_pollTimeout_le {w : TickWriter ρ σ} (hopen : w.batch ≠ []) (now : ℚ) :
    now + w.pollTimeout now ≤ max w.deadline now := by
  have hne : w.batch.isEmpty = false := by simpa using hopen
  have hcap : w.pollTimeout now ≤ max (w.batchMaxLatencyMs / 1000 - (now - w.batchStarted)) 0 := by
    rw [pollTimeout, hne]
    exact min_le_right _ _
  refine (add_le_add_right hcap now).trans ?_
  rw [← max_add_add_left, add_zero]
  refine max_le_max (le_of_eq ?_) le_rfl
  unfold deadline
  linarith

theorem latency_commitRest (w : TickWriter ρ σ) (reason : FlushReason ρ)
    (rest : List (KafkaMessage ρ)) :
    (w.commitRest reason rest).batchMaxLatencyMs = w.batchMaxLatencyMs := by
  rcases w.commitRest_cases reason rest with ⟨-, hw⟩ | ⟨-, hw | ⟨m, -, hw⟩⟩ <;> rw [hw]

end TickWriter

/-! ### The loop on time -/

/-- The open batch is not late: it is before its deadline at the head of the loop, less than a
delay past it at the poll, and at most three when `_flush` is called. A later attempt has a longer
backoff. -/
def OnTime (delay : ℚ) (w : TickWriter ρ σ) (last : ℚ) : Prop :=
  match w.task with
  | .schema _ => w.batch = []
  | .head => w.batch ≠ [] → last < w.deadline
  | .polling => w.batch ≠ [] → last < w.deadline + delay
  | .flush _ backoff => initialBackoffSeconds ≤ backoff ∧
      (backoff = initialBackoffSeconds → last ≤ w.deadline + 3 * delay)
  | .inserting _ backoff | .sleeping _ backoff => initialBackoffSeconds ≤ backoff
  | _ => True

/-- The end of a flush, or its next commit. -/
theorem onTime_commitRest {delay last : ℚ} (w : TickWriter ρ σ) (reason : FlushReason ρ)
    (rest : List (KafkaMessage ρ)) : OnTime delay (w.commitRest reason rest) last := by
  rcases w.commitRest_cases reason rest with ⟨-, hw⟩ | ⟨-, hw | ⟨m, -, hw⟩⟩
  · rw [hw]
    trivial
  · rw [hw]
    exact fun hne => absurd rfl hne
  · rw [hw]
    trivial

/-- A prompt poll of a loop that is on time is over within three delays of the deadline. -/
theorem OnTime.returns {delay : ℚ} (hdelay : 0 ≤ delay) {w : TickWriter ρ σ} {last t now : ℚ}
    (hI : OnTime delay w last) (ht : w.task = .polling) (hopen : w.batch ≠ [])
    (hbegins : t ≤ last + delay) (hreturns : now ≤ t + w.pollTimeout t + delay) :
    now ≤ w.deadline + 3 * delay := by
  have hlast : last < w.deadline + delay := by
    unfold OnTime at hI
    rw [ht] at hI
    exact hI hopen
  have hwaits : t + w.pollTimeout t ≤ max w.deadline t := TickWriter.add_pollTimeout_le hopen t
  have hlate : max w.deadline t ≤ w.deadline + 2 * delay := max_le (by linarith) (by linarith)
  calc now ≤ t + w.pollTimeout t + delay := hreturns
    _ ≤ max w.deadline t + delay := add_le_add_left hwaits delay
    _ ≤ w.deadline + 3 * delay := by linarith

/-! ### The pace of a run -/

/-- The step is not one of the writer's own. -/
def WriterAct.outside : WriterAct ρ → Bool
  | .stop | .crash | .execute _ => true
  | _ => false

variable [DecidableEq ρ] [DecidableEq σ] [DecidableEq τ] {log : PartitionKey → Nat → Option ρ}
  {parseEvent : ρ → Option (MarketEventOf σ)} {msToDatetime : Int → Option τ}

/-- The writer under a monotone clock, with the last time it was at work. -/
def paced (log : PartitionKey → Nat → Option ρ) (parseEvent : ρ → Option (MarketEventOf σ))
    (msToDatetime : Int → Option τ) :
    Machine ((TickStorage ρ σ τ × ℚ) × ℚ) (ℚ × WriterAct ρ) (WriterObs ρ σ) := fun p a =>
  match clocked log parseEvent msToDatetime p.1 a with
  | some (q, o) => some ((q, if a.2.outside then p.2 else q.2), o)
  | none => none

theorem paced_eq_some {p p' : (TickStorage ρ σ τ × ℚ) × ℚ} {a : ℚ × WriterAct ρ}
    {o : List (WriterObs ρ σ)} (h : paced log parseEvent msToDatetime p a = some (p', o)) :
    clocked log parseEvent msToDatetime p.1 a = some (p'.1, o) ∧
      p'.2 = if a.2.outside then p.2 else p'.1.2 := by
  unfold paced at h
  split at h
  · rename_i q o' hs
    obtain ⟨rfl, rfl⟩ := Machine.outcome h
    exact ⟨hs, rfl⟩
  · cases h

/-- A step of the clocked writer is one of the writer, after which the clock shows its last
reading. -/
theorem clocked_outcome {p p' : TickStorage ρ σ τ × ℚ} {a : ℚ × WriterAct ρ}
    {o : List (WriterObs ρ σ)} (h : clocked log parseEvent msToDatetime p a = some (p', o)) :
    p.1.step log parseEvent msToDatetime a.2 = some (p'.1, o) ∧
      p'.2 = a.2.readings.getLastD a.1 := by
  unfold clocked at h
  split at h
  · split at h
    · rename_i s o' hs
      obtain ⟨rfl, rfl⟩ := Machine.outcome h
      exact ⟨hs, rfl⟩
    · cases h
  · cases h

/-- The writer is held up for at most `delay` at a time: before each test of the stop flag, before
its poll, between the end of the poll's timeout and the look at the clock, and between an append
and that look. -/
def Prompt (delay : ℚ) (p : (TickStorage ρ σ τ × ℚ) × ℚ) (a : ℚ × WriterAct ρ) : Prop :=
  match a.2 with
  | .check | .checkFlush => a.1 ≤ p.2 + delay
  | .poll _ started now => a.1 ≤ p.2 + delay ∧
      now ≤ a.1 + p.1.1.writer.pollTimeout a.1 + delay ∧ now ≤ started + delay
  | _ => True

instance (delay : ℚ) (p : (TickStorage ρ σ τ × ℚ) × ℚ) (a : ℚ × WriterAct ρ) :
    Decidable (Prompt delay p a) :=
  match a with
  | (t, .check) | (t, .checkFlush) => inferInstanceAs (Decidable (t ≤ p.2 + delay))
  | (t, .poll _ started now) => inferInstanceAs (Decidable (t ≤ p.2 + delay ∧
      now ≤ t + p.1.1.writer.pollTimeout t + delay ∧ now ≤ started + delay))
  | (_, .start _ _) | (_, .schema _) | (_, .inserted) | (_, .insertRaised _) | (_, .wake)
  | (_, .committed) | (_, .commitRaised _) | (_, .stop) | (_, .crash) | (_, .execute _) =>
      isTrue trivial

/-- **The condition**: no poll that returns after the deadline reports a Kafka error. -/
def NoLateError (p : (TickStorage ρ σ τ × ℚ) × ℚ) (a : ℚ × WriterAct ρ) : Prop :=
  match a.2 with
  | .poll .error _ now => ¬ p.1.1.writer.Overdue now
  | _ => True

instance (p : (TickStorage ρ σ τ × ℚ) × ℚ) (a : ℚ × WriterAct ρ) : Decidable (NoLateError p a) :=
  match a with
  | (_, .poll .error _ now) => inferInstanceAs (Decidable (¬ p.1.1.writer.Overdue now))
  | (_, .poll .nothing _ _) | (_, .poll .raised _ _) | (_, .poll (.message _) _ _)
  | (_, .start _ _) | (_, .schema _) | (_, .check) | (_, .checkFlush) | (_, .inserted)
  | (_, .insertRaised _) | (_, .wake) | (_, .committed) | (_, .commitRaised _) | (_, .stop)
  | (_, .crash) | (_, .execute _) => isTrue trivial

/-- If the step is a poll with an open batch, it is over within three delays of the deadline, and
past the deadline the batch goes to `_flush`. -/
def HandsOver (log : PartitionKey → Nat → Option ρ) (parseEvent : ρ → Option (MarketEventOf σ))
    (msToDatetime : Int → Option τ) (delay : ℚ) (p : (TickStorage ρ σ τ × ℚ) × ℚ)
    (a : ℚ × WriterAct ρ) : Prop :=
  match a.2 with
  | .poll _ _ now => p.1.1.writer.batch ≠ [] →
      now ≤ p.1.1.writer.deadline + 3 * delay ∧ (p.1.1.writer.Overdue now →
        ∀ r ∈ paced log parseEvent msToDatetime p a, r.1.1.1.writer.Flushing)
  | _ => True

/-- If the step begins the first attempt of a flush (which has not backed off yet), it does so
within four delays of the deadline. -/
def AttemptsInTime (delay : ℚ) (p : (TickStorage ρ σ τ × ℚ) × ℚ) (a : ℚ × WriterAct ρ) : Prop :=
  match a.2, p.1.1.writer.task with
  | .checkFlush, .flush _ backoff =>
      backoff = initialBackoffSeconds → a.1 ≤ p.1.1.writer.deadline + 4 * delay
  | _, _ => True

/-! ### One step -/

/-- The latency setting of a life stays. -/
theorem latency_step {s s' : TickStorage ρ σ τ} {a : WriterAct ρ} {o : List (WriterObs ρ σ)}
    (hs : TickStorage.Stepped log parseEvent msToDatetime s a s' o)
    (hI : 0 ≤ s.writer.batchMaxLatencyMs)
    (hstart : ∀ size latency, a = .start size latency → 0 ≤ latency) :
    0 ≤ s'.writer.batchMaxLatencyMs := by
  cases hs with
  | started => exact hstart _ _ rfl
  | delivered _ _ _ hw =>
      rw [hw]
      exact hI
  | @unflushed reason => cases reason <;> exact hI
  | inserted =>
      rw [TickWriter.latency_commitRest]
      exact hI
  | committed hp =>
      rcases TickWriter.pendingCommit_cases hp with ⟨reason, rest, -, rfl⟩ | ⟨-, rfl⟩
      · rw [TickWriter.latency_commitRest]
        exact hI
      · exact hI
  | @commitRaised taken => cases taken <;> exact hI
  | _ => exact hI

/-- Each attempt after the first has a longer backoff. -/
theorem backoff_lt {backoff : ℚ} (h : initialBackoffSeconds ≤ backoff) :
    initialBackoffSeconds < min (backoff * 2) maxBackoffSeconds := by
  unfold initialBackoffSeconds maxBackoffSeconds at *
  exact lt_min (by linarith) (by norm_num)

/-- A poll that is prompt and reports no error late leaves the batch on time. -/
theorem onTime_poll {delay : ℚ} (hdelay : 0 ≤ delay) {s s' : TickStorage ρ σ τ} {last t : ℚ}
    (hI : OnTime delay s.writer last) (hlatency : 0 ≤ s.writer.batchMaxLatencyMs)
    {result : PollResult ρ} {started now : ℚ} {o : List (WriterObs ρ σ)}
    (hbegins : t ≤ last + delay) (hreturns : now ≤ t + s.writer.pollTimeout t + delay)
    (hlooks : now ≤ started + delay) (hno : result = .error → ¬ s.writer.Overdue now)
    (hs : TickStorage.Stepped log parseEvent msToDatetime s (.poll result started now) s' o) :
    OnTime delay s'.writer now := by
  cases hs with
  | idle ht hb => exact fun hopen => TickWriter.lt_deadline (hb.resolve_left hopen)
  | expired ht hopen => exact ⟨le_rfl, fun _ => hI.returns hdelay ht hopen hbegins hreturns⟩
  | pollError ht =>
      intro hopen
      exact TickWriter.lt_deadline (Bool.eq_false_iff.mpr fun he => hno rfl ⟨hopen, he⟩)
  | pollRaised => trivial
  | @malformed m _ _ ht hn hp task ht' =>
      subst ht'
      cases hopen : s.writer.batch.isEmpty with
      | true => trivial
      | false =>
          have hne : s.writer.batch ≠ [] := by simpa using hopen
          exact ⟨le_rfl, fun _ => hI.returns hdelay ht hne hbegins hreturns⟩
  | @delivered m event _ _ ht hn hp w hw task ht' =>
      subst ht'
      cases hflush : w.shouldFlush now with
      | false =>
          obtain ⟨-, he⟩ := Bool.or_eq_false_iff.mp hflush
          exact fun _ => TickWriter.lt_deadline he
      | true =>
          refine ⟨le_rfl, fun _ => ?_⟩
          show now ≤ w.deadline + 3 * delay
          rw [hw]
          by_cases hopen : s.writer.batch = []
          · -- the record has opened the batch
            have hdeadline : (s.writer.append ⟨event, m⟩ started).deadline =
                started + s.writer.batchMaxLatencyMs / 1000 := by
              simp [TickWriter.deadline, TickWriter.append, hopen]
            rw [hdeadline]
            linarith
          · have hdeadline : (s.writer.append ⟨event, m⟩ started).deadline = s.writer.deadline := by
              simp [TickWriter.deadline, TickWriter.append, hopen]
            rw [hdeadline]
            exact hI.returns hdelay ht hopen hbegins hreturns

/-- The invariant of a prompt run without late errors. -/
structure Punctual (delay : ℚ) (p : (TickStorage ρ σ τ × ℚ) × ℚ) : Prop where
  latency : 0 ≤ p.1.1.writer.batchMaxLatencyMs
  onTime : OnTime delay p.1.1.writer p.2

/-- **The writer stays on time**, if it is prompt and no error comes late. -/
theorem onTime_step {delay : ℚ} (hdelay : 0 ≤ delay) {p p' : (TickStorage ρ σ τ × ℚ) × ℚ}
    {a : ℚ × WriterAct ρ} {o : List (WriterObs ρ σ)} (hI : Punctual delay p)
    (hprompt : Prompt delay p a) (hno : NoLateError p a)
    (h : paced log parseEvent msToDatetime p a = some (p', o)) :
    OnTime delay p'.1.1.writer p'.2 := by
  obtain ⟨hlatency, hI⟩ := hI
  obtain ⟨hc, hlast⟩ := paced_eq_some h
  obtain ⟨hstep, hclock⟩ := clocked_outcome hc
  rw [hclock] at hlast
  obtain ⟨⟨s, clock⟩, last⟩ := p
  obtain ⟨⟨s', clock'⟩, last'⟩ := p'
  obtain ⟨t, a⟩ := a
  dsimp only at hI hlast hstep hlatency ⊢
  have hs := TickStorage.stepped hstep
  cases a with
  | poll result started now =>
      obtain ⟨hbegins, hreturns, hlooks⟩ := hprompt
      replace hlast : last' = now := hlast
      rw [hlast]
      refine onTime_poll hdelay hI hlatency hbegins hreturns hlooks (fun herror => ?_) hs
      subst herror
      exact hno
  | check =>
      cases hs with
      | ended => trivial
      | checked ht =>
          intro hopen
          have hbefore : last < s.writer.deadline := by
            unfold OnTime at hI
            rw [ht] at hI
            exact hI hopen
          have hsoon : t ≤ last + delay := hprompt
          replace hlast : last' = t := hlast
          show last' < s.writer.deadline + delay
          rw [hlast]
          linarith
  | wake =>
      simp only [TickStorage.step] at hstep
      split at hstep
      · rename_i reason backoff ht
        obtain ⟨rfl, -⟩ := Machine.outcome hstep
        unfold OnTime at hI
        rw [ht] at hI
        exact ⟨(backoff_lt hI).le, fun heq => absurd heq (backoff_lt hI).ne'⟩
      · cases hstep
  | schema ok =>
      cases hs with
      | schema ht ht' =>
          have hempty : s.writer.batch = [] := by simpa [OnTime, ht] using hI
          rcases ht' with rfl | ⟨backoff', rfl⟩
          · exact fun hne => absurd hempty hne
          · exact hempty
  | checkFlush =>
      cases hs with
      | @unflushed reason =>
          cases reason with
          | idle | full => exact fun hne => absurd rfl hne
          | invalid m => trivial
      | attempted ht =>
          unfold OnTime at hI
          rw [ht] at hI
          exact hI.1
  | insertRaised effect =>
      cases hs with
      | insertRaised ht =>
          unfold OnTime at hI
          rw [ht] at hI
          exact hI
  | inserted =>
      cases hs with
      | inserted => exact onTime_commitRest _ _ _
  | committed =>
      cases hs with
      | committed hp =>
          rcases TickWriter.pendingCommit_cases hp with ⟨reason, rest, -, rfl⟩ | ⟨-, rfl⟩
          · exact onTime_commitRest _ _ _
          · exact fun hne => absurd rfl hne
  | stop | execute =>
      replace hlast : last' = last := hlast
      rw [hlast]
      cases hs
      exact hI
  | start =>
      cases hs
      rfl
  | commitRaised | crash =>
      cases hs
      trivial

theorem Punctual.step {delay : ℚ} (hdelay : 0 ≤ delay) {p p' : (TickStorage ρ σ τ × ℚ) × ℚ}
    {a : ℚ × WriterAct ρ} {o : List (WriterObs ρ σ)} (hI : Punctual delay p)
    (hprompt : Prompt delay p a) (hno : NoLateError p a)
    (hstart : ∀ size latency, a.2 = .start size latency → 0 ≤ latency)
    (h : paced log parseEvent msToDatetime p a = some (p', o)) : Punctual delay p' := by
  obtain ⟨-, hs⟩ := clocked_eq_some (paced_eq_some h).1
  exact ⟨latency_step hs hI.latency hstart, onTime_step hdelay hI hprompt hno h⟩

theorem noLateError_of_handsOver {delay : ℚ} {p p' : (TickStorage ρ σ τ × ℚ) × ℚ}
    {a : ℚ × WriterAct ρ} {o : List (WriterObs ρ σ)}
    (hhands : HandsOver log parseEvent msToDatetime delay p a)
    (h : paced log parseEvent msToDatetime p a = some (p', o)) : NoLateError p a := by
  obtain ⟨-, hs⟩ := clocked_eq_some (paced_eq_some h).1
  obtain ⟨t, a⟩ := a
  cases a with
  | poll result started now =>
      cases result with
      | error =>
          intro hover
          have hflush : p'.1.1.writer.Flushing := (hhands hover.1).2 hover _ h
          exact (poll_flushes_iff hs le_rfl).mp (fun _ => hflush) rfl hover
      | nothing | raised | message => trivial
  | _ => trivial

/-- **A step of a loop that is on time hands the batch over**, if no error comes late. -/
theorem handsOver_of_onTime {delay : ℚ} (hdelay : 0 ≤ delay) {p p' : (TickStorage ρ σ τ × ℚ) × ℚ}
    {a : ℚ × WriterAct ρ} {o : List (WriterObs ρ σ)} (hI : OnTime delay p.1.1.writer p.2)
    (hprompt : Prompt delay p a) (hno : NoLateError p a)
    (h : paced log parseEvent msToDatetime p a = some (p', o)) :
    HandsOver log parseEvent msToDatetime delay p a := by
  obtain ⟨-, hs⟩ := clocked_eq_some (paced_eq_some h).1
  obtain ⟨t, a⟩ := a
  cases a with
  | poll result started now =>
      intro hopen
      have hpolling : p.1.1.writer.task = .polling := by
        generalize hq : p'.1.1 = s' at hs
        cases hs with
        | idle ht | expired ht | pollError ht | pollRaised ht | malformed ht | delivered ht =>
            exact ht
      refine ⟨hI.returns hdelay hpolling hopen hprompt.1 hprompt.2.1, fun hover r hr => ?_⟩
      obtain rfl := Option.some.inj (h.symm.trans hr)
      refine (poll_flushes_iff hs le_rfl).mpr ?_ hover
      intro herror
      subst herror
      exact hno
  | _ => trivial

omit [DecidableEq ρ] [DecidableEq σ] [DecidableEq τ] in
/-- **The first attempt of a flush follows its call.** -/
theorem attemptsInTime_of_onTime {delay : ℚ} {p : (TickStorage ρ σ τ × ℚ) × ℚ} {a : ℚ × WriterAct ρ}
    (hI : OnTime delay p.1.1.writer p.2) (hprompt : Prompt delay p a) :
    AttemptsInTime delay p a := by
  obtain ⟨t, a⟩ := a
  cases a with
  | checkFlush =>
      have hsoon : t ≤ p.2 + delay := hprompt
      unfold AttemptsInTime
      unfold OnTime at hI
      cases ht : p.1.1.writer.task with
      | flush reason backoff =>
          rw [ht] at hI
          intro hfirst
          have hcalled := hI.2 hfirst
          show t ≤ p.1.1.writer.deadline + 4 * delay
          linarith
      | _ => trivial
  | _ => trivial

/-! ### A whole run -/

/-- **How late a flush can be, exactly.** Along a run of the writer under a monotone clock that is
held up for at most `delay` at a time, over any number of lives with any latency settings:
every poll with an open batch is over within three delays of the batch's deadline, past the
deadline the batch goes to `_flush`, and its first attempt begins within four delays of the
deadline, if and only if no poll that returns after the deadline reports a Kafka error. -/
theorem attempted_in_time_iff {delay : ℚ} (hdelay : 0 ≤ delay) {acts : List (ℚ × WriterAct ρ)}
    {p : (TickStorage ρ σ τ × ℚ) × ℚ} {h : List (WriterObs ρ σ)} {clock : ℚ}
    (hr : Machine.run (paced log parseEvent msToDatetime) (({}, clock), clock) acts = some (p, h))
    (hprompt : Machine.Along (paced log parseEvent msToDatetime) (Prompt delay) (({}, clock), clock)
      acts)
    (hlatency : ∀ t size latency, (t, .start size latency) ∈ acts → 0 ≤ latency) :
    (Machine.Along (paced log parseEvent msToDatetime) (HandsOver log parseEvent msToDatetime delay)
        (({}, clock), clock) acts ∧
      Machine.Along (paced log parseEvent msToDatetime) (AttemptsInTime delay) (({}, clock), clock)
        acts) ↔
      Machine.Along (paced log parseEvent msToDatetime) NoLateError (({}, clock), clock) acts := by
  constructor
  · intro hover
    refine Machine.Along.imp_of_run (P := fun _ => True) ?_ trivial hover.1 hr
    intro p a p' o _ hhands hstep
    exact ⟨trivial, noLateError_of_handsOver hhands hstep⟩
  · intro hno
    have hsettings : Machine.Along (paced log parseEvent msToDatetime)
        (fun _ a => ∀ size latency, a.2 = .start size latency → 0 ≤ latency) (({}, clock), clock)
        acts := by
      refine Machine.along_of_forall (C := fun a : ℚ × WriterAct ρ =>
        ∀ size latency, a.2 = .start size latency → 0 ≤ latency) ?_ _
      intro a ha size latency heq
      exact hlatency a.1 size latency (heq ▸ ha)
    have hstart : Punctual delay (({}, clock), clock) (ρ := ρ) (σ := σ) (τ := τ) :=
      ⟨by norm_num, trivial⟩
    rw [← Machine.along_and]
    refine Machine.Along.imp_of_run (P := Punctual delay) ?_ hstart
      (Machine.along_and.mpr ⟨hprompt, Machine.along_and.mpr ⟨hno, hsettings⟩⟩) hr
    intro p a p' o hI hC hstep
    obtain ⟨hsoon, hno, hsetting⟩ := hC
    exact ⟨hI.step hdelay hsoon hno hsetting hstep,
      handsOver_of_onTime hdelay hI.onTime hsoon hno hstep,
      attemptsInTime_of_onTime hI.onTime hsoon⟩

/-- A record is held over two polls that find nothing, until its deadline of 100 ms has passed. -/
def heldActs : List (ℚ × WriterAct (Option MarketEvent)) :=
  [(0, .start 500 100), (0, .schema true), (0, .check),
    (0, .poll (.message ⟨"market-events", 0, 0, some (.quote "A" 7)⟩) 0 0), (1 / 100, .check),
    (1 / 100, .poll .nothing (6 / 100) (6 / 100)), (6 / 100, .check),
    (7 / 100, .poll .nothing (11 / 100) (11 / 100)), (12 / 100, .checkFlush)]

theorem attempted_in_time_held :
    Machine.Along (paced oneTick id (some : Int → Option Int))
        (HandsOver oneTick id (some : Int → Option Int) (1 / 100)) (({}, 0), 0) heldActs ∧
      Machine.Along (paced oneTick id (some : Int → Option Int)) (AttemptsInTime (1 / 100))
        (({}, 0), 0) heldActs := by
  have hsome : (Machine.run (paced oneTick id (some : Int → Option Int)) (({}, 0), 0)
    heldActs).isSome := by decide +kernel
  obtain ⟨⟨p, h⟩, hr⟩ := Option.isSome_iff_exists.mp hsome
  refine (attempted_in_time_iff (by norm_num) hr (by decide +kernel) ?_).mpr (by decide +kernel)
  intro t size latency hmem
  obtain ⟨-, -, rfl⟩ : t = 0 ∧ size = 500 ∧ latency = 100 := by simpa [heldActs] using hmem
  norm_num

end MarketData.Storage
