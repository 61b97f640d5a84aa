import Mathlib.Algebra.Order.Archimedean.Basic
import Mathlib.Tactic.Linarith
import MarketData.Lib.Liveness
import MarketData.Storage.FirstRecord
import MarketData.Storage.Flush

/-!
# MarketData.Storage.Liveness

**Every tick gets its row.** `ExactlyOnce` says that nothing is committed before it is stored.
This module says that the writer gets there: in a life that goes on, each valid record of the
topic has a row in the end, and from then on (`stored_eventually`).

The way of a record has three stretches. Its partition is polled until the record joins the
batch; the batch waits until it is full, or has expired, or a malformed record pushes it out; and
`_flush` tries until an insert goes through. Between them the writer has to come back to its poll
again and again, which is where it would hang if a batch could not be inserted for good.
-/

namespace MarketData.Storage

variable {ρ σ τ : Type} {log : PartitionKey → Nat → Option ρ}
    {parseEvent : ρ → Option (MarketEventOf σ)}
  {msToDatetime : Int → Option τ}

/-! ### A life that goes on -/

/-- The step does not end the writer's life. -/
def WriterAct.KeepsLife : WriterAct ρ → Prop
  | .stop | .crash | .commitRaised _ | .poll .raised _ _ => False
  | _ => True

/-- A writer in the middle of its life. -/
structure TickWriter.Up (w : TickWriter ρ σ) : Prop where
  task : w.task ≠ .down
  stopped : w.stopped = false
  /-- `_commit_batch` ends with its last commit. -/
  committing : ∀ reason, w.task ≠ .committing reason []

theorem TickWriter.Up.live {w : TickWriter ρ σ} (h : w.Up) : w.Live := by
  have htask := h.task
  unfold TickWriter.Live
  cases ht : w.task with
  | down => exact absurd ht htask
  | head => exact h.stopped
  | _ => trivial

/-- Where a commit leads. -/
inductive AfterCommit (rest : List (KafkaMessage ρ)) : WriterTask ρ → Prop
  | next {reason} (hne : rest ≠ []) : AfterCommit rest (.committing reason rest)
  | head : AfterCommit rest .head
  | invalid {m} (hnil : rest = []) : AfterCommit rest (.committingInvalid m)

theorem TickWriter.afterCommit (w : TickWriter ρ σ) (reason : FlushReason ρ)
    (rest : List (KafkaMessage ρ)) : AfterCommit rest (w.commitRest reason rest).task := by
  rcases w.commitRest_cases reason rest with ⟨hne, heq⟩ | ⟨hnil, heq | ⟨m, -, heq⟩⟩ <;> rw [heq]
  · exact .next hne
  · exact .head
  · exact .invalid hnil

theorem TickWriter.stopped_commitRest (w : TickWriter ρ σ) (reason : FlushReason ρ)
    (rest : List (KafkaMessage ρ)) : (w.commitRest reason rest).stopped = w.stopped := by
  rcases w.commitRest_cases reason rest with ⟨-, heq⟩ | ⟨-, heq | ⟨m, -, heq⟩⟩ <;> rw [heq]

theorem TickWriter.Up.of_afterCommit {w w' : TickWriter ρ σ} {rest : List (KafkaMessage ρ)}
    (h : w.Up) (ht : AfterCommit rest w'.task) (hs : w'.stopped = w.stopped) : w'.Up := by
  refine ⟨fun hdown => ?_, hs.trans h.stopped, fun reason hnil => ?_⟩
  · rw [hdown] at ht
    cases ht
  · rw [hnil] at ht
    cases ht with
    | next hne => exact hne rfl

/-- The writer goes on with the same batch. -/
structure SameBatch (s s' : TickStorage ρ σ τ) : Prop where
  batch : s'.writer.batch = s.writer.batch
  started : s'.writer.batchStarted = s.writer.batchStarted
  latency : s'.writer.batchMaxLatencyMs = s.writer.batchMaxLatencyMs
  position : s'.position = s.position

/-- What a poll does to the batch and the positions. -/
structure Polled [DecidableEq ρ] (log : PartitionKey → Nat → Option ρ) (s s' : TickStorage ρ σ τ)
    (result : PollResult ρ) (now : ℚ) : Prop where
  /-- Nothing leaves the batch, and its clock runs on. -/
  batch : ∀ c ∈ s.writer.batch, c ∈ s'.writer.batch
  started : s.writer.batch ≠ [] → s'.writer.batchStarted = s.writer.batchStarted
  latency : s'.writer.batchMaxLatencyMs = s.writer.batchMaxLatencyMs
  /-- A batch that has expired is flushed, unless the poll is an error. -/
  expired : s.writer.batch ≠ [] → result ≠ .error → s.writer.batchExpired now = true →
    ∃ reason, s'.writer.task.Trying reason
  position : ∀ key, s.positionOf key ≤ s'.positionOf key
  message : ∀ m, result = .message m → s.IsNext log m ∧ s'.positionOf m.key = m.offset + 1

/-- **What a step of a life that goes on does.** -/
inductive LifeStep [DecidableEq ρ] (log : PartitionKey → Nat → Option ρ)
    (msToDatetime : Int → Option τ) (s s' : TickStorage ρ σ τ) : WriterAct ρ → Prop
  | beside {a} (hw : s'.writer = s.writer) (hp : s'.position = s.position) (i : Nat)
      (ha : a = .execute i) : LifeStep log msToDatetime s s' a
  | schema {ok backoff} (ht : s.writer.task = .schema backoff)
      (ht' : s'.writer.task = .head ∨ ok = false ∧ ∃ backoff', s'.writer.task = .schema backoff')
      (hb : SameBatch s s') : LifeStep log msToDatetime s s' (.schema ok)
  | checked (ht : s.writer.task = .head) (ht' : s'.writer.task = .polling) (hb : SameBatch s s') :
      LifeStep log msToDatetime s s' .check
  | polled {result started now} (ht : s.writer.task = .polling)
      (ht' : s'.writer.task = .head ∨ (∃ reason, s'.writer.task.Trying reason) ∨
        ∃ m, s'.writer.task = .committingInvalid m)
      (hp : Polled log s s' result now) : LifeStep log msToDatetime s s' (.poll result started now)
  | attempted {reason backoff} (ht : s.writer.task = .flush reason backoff)
      (ht' : s'.writer.task = .inserting reason backoff) (hb : SameBatch s s') :
      LifeStep log msToDatetime s s' .checkFlush
  | raised {reason backoff effect} (ht : s.writer.task = .inserting reason backoff)
      (ht' : s'.writer.task = .sleeping reason backoff) (hb : SameBatch s s') :
      LifeStep log msToDatetime s s' (.insertRaised effect)
  | woken {reason backoff backoff'} (ht : s.writer.task = .sleeping reason backoff)
      (ht' : s'.writer.task = .flush reason backoff') (hb : SameBatch s s') :
      LifeStep log msToDatetime s s' .wake
  | inserted {reason backoff} {rest : List (KafkaMessage ρ)}
      (ht : s.writer.task = .inserting reason backoff) (ht' : AfterCommit rest s'.writer.task)
      (hrow : ∀ c ∈ s.writer.batch, HasRow msToDatetime s'.table c.event)
      (hp : s'.position = s.position) : LifeStep log msToDatetime s s' .inserted
  | committed {reason m rest} (ht : s.writer.task = .committing reason (m :: rest))
      (ht' : AfterCommit rest s'.writer.task) (hp : s'.position = s.position) :
      LifeStep log msToDatetime s s' .committed
  | committedInvalid {m} (ht : s.writer.task = .committingInvalid m)
      (ht' : s'.writer.task = .head) (hp : s'.position = s.position) :
      LifeStep log msToDatetime s s' .committed

section Steps

variable [DecidableEq ρ] [DecidableEq σ] [DecidableEq τ]
    {s s' : TickStorage ρ σ τ} {a : WriterAct ρ}
  {o : List (WriterObs ρ σ)}

/-- The life goes on. -/
theorem TickWriter.Up.step (h : s.writer.Up) (ha : a.KeepsLife)
    (hs : s.step log parseEvent msToDatetime a = some (s', o)) : s'.writer.Up := by
  have hgo : ∀ {w : TickWriter ρ σ}, w.stopped = s.writer.stopped → w.task ≠ .down →
      (∀ reason, w.task ≠ .committing reason []) → w.Up :=
    fun hst ht hc => ⟨ht, hst.trans h.stopped, hc⟩
  cases TickStorage.stepped hs with
  | started ht => exact absurd ht h.task
  | schema ht ht' => rcases ht' with rfl | ⟨_, rfl⟩ <;> exact hgo rfl (by simp) (by simp)
  | ended ht hst => cases h.stopped.symm.trans hst
  | unflushed ht hst => cases h.stopped.symm.trans hst
  | checked | idle | expired | pollError | attempted | insertRaised | woken =>
      exact hgo rfl (by simp) (by simp)
  | malformed ht hn hp ht' =>
      subst ht'
      refine hgo rfl ?_ ?_ <;> split <;> simp
  | delivered ht hn hp hw ht' =>
      subst hw ht'
      refine hgo rfl ?_ ?_ <;> split <;> simp
  | inserted ht hr =>
      exact h.of_afterCommit (TickWriter.afterCommit ..) (TickWriter.stopped_commitRest ..)
  | committed hp =>
      rcases TickWriter.pendingCommit_cases hp with ⟨reason, rest, -, rfl⟩ | ⟨-, rfl⟩
      · exact h.of_afterCommit (TickWriter.afterCommit ..) (TickWriter.stopped_commitRest ..)
      · exact hgo rfl (by simp) (by simp)
  | executed hr => exact h
  | pollRaised | crash | stop | commitRaised => exact ha.elim

omit [DecidableEq σ] [DecidableEq τ] in
/-- A delivery moves its partition on. -/
theorem Polled.of_message {m : KafkaMessage ρ} {now : ℚ} (hn : s.IsNext log m)
    (hp : s'.position = s.position.set m.key (m.offset + 1))
    (hb : ∀ c ∈ s.writer.batch, c ∈ s'.writer.batch)
    (hst : s.writer.batch ≠ [] → s'.writer.batchStarted = s.writer.batchStarted)
    (hl : s'.writer.batchMaxLatencyMs = s.writer.batchMaxLatencyMs)
    (he : s.writer.batch ≠ [] → s.writer.batchExpired now = true →
      ∃ reason, s'.writer.task.Trying reason) : Polled log s s' (.message m) now where
  batch := hb
  started := hst
  latency := hl
  expired hne _ := he hne
  position key := by
    simp only [TickStorage.positionOf, hp, Dict.get?_set]
    split
    · rename_i hkey
      subst hkey
      exact hn.1.trans (Nat.le_succ _)
    · exact le_rfl
  message m' heq := by
    obtain rfl := PollResult.message.inj heq
    refine ⟨hn, ?_⟩
    rw [TickStorage.positionOf, hp, Dict.get?_set_self]
    rfl

omit [DecidableEq σ] [DecidableEq τ] in
/-- A poll without a message leaves the batch alone. -/
theorem Polled.of_sameBatch {result : PollResult ρ} {now : ℚ} (hb : SameBatch s s')
    (hno : ∀ m, result ≠ .message m)
    (he : s.writer.batch ≠ [] → result ≠ .error → s.writer.batchExpired now = true →
      ∃ reason, s'.writer.task.Trying reason) : Polled log s s' result now where
  batch c hc := hb.batch.symm ▸ hc
  started _ := hb.started
  latency := hb.latency
  expired := he
  position key := by rw [TickStorage.positionOf, TickStorage.positionOf, hb.position]
  message m heq := absurd heq (hno m)

/-- `ensure_schema` completes, or is tried again. -/
theorem schema_task {ok : Bool} {backoff : ℚ} (ht : s.writer.task = .schema backoff)
    (hs : s.step log parseEvent msToDatetime (.schema ok) = some (s', o)) :
    s'.writer.task = .head ∨ ok = false ∧ ∃ backoff', s'.writer.task = .schema backoff' := by
  simp only [TickStorage.step, ht] at hs
  obtain ⟨rfl, -⟩ := Machine.outcome hs
  cases ok with
  | true => exact Or.inl rfl
  | false =>
      dsimp only
      split
      · exact Or.inl rfl
      · exact Or.inr ⟨rfl, _, rfl⟩

/-- **Every step of a life that goes on is one of these.** -/
theorem lifeStep (h : s.writer.Up) (ha : a.KeepsLife)
    (hs : s.step log parseEvent msToDatetime a = some (s', o)) :
    LifeStep log msToDatetime s s' a := by
  cases TickStorage.stepped hs with
  | started ht => exact absurd ht h.task
  | ended ht hst => cases h.stopped.symm.trans hst
  | unflushed ht hst => cases h.stopped.symm.trans hst
  | pollRaised | crash | stop | commitRaised => exact ha.elim
  | executed hr => exact .beside rfl rfl _ rfl
  | schema ht => exact .schema ht (schema_task ht hs) ⟨rfl, rfl, rfl, rfl⟩
  | checked ht hst => exact .checked ht rfl ⟨rfl, rfl, rfl, rfl⟩
  | idle ht hb =>
      refine .polled ht (Or.inl rfl) (.of_sameBatch ⟨rfl, rfl, rfl, rfl⟩ (fun _ => by simp) ?_)
      intro hne _ hexp
      rcases hb with hb | hb
      · exact absurd hb hne
      · cases hb.symm.trans hexp
  | expired ht hb he =>
      exact .polled ht (Or.inr (Or.inl ⟨.idle, rfl⟩))
        (.of_sameBatch ⟨rfl, rfl, rfl, rfl⟩ (fun _ => by simp) fun _ _ _ => ⟨.idle, rfl⟩)
  | pollError ht =>
      exact .polled ht (Or.inl rfl)
        (.of_sameBatch ⟨rfl, rfl, rfl, rfl⟩ (fun _ => by simp) fun _ hne => absurd rfl hne)
  | @malformed m started now ht hn hp task ht' =>
      have hflush : s.writer.batch ≠ [] → task = .flush (.invalid m) initialBackoffSeconds := by
        intro hne
        rw [ht', if_neg (by simpa using hne)]
      refine .polled ht ?_ (.of_message hn rfl (fun _ => id) (fun _ => rfl) rfl fun hne _ => ?_)
      · by_cases hb : s.writer.batch = []
        · exact Or.inr (Or.inr ⟨m, by simp [ht', hb]⟩)
        · refine Or.inr (Or.inl ⟨.invalid m, ?_⟩)
          rw [hflush hb]
          rfl
      · refine ⟨.invalid m, ?_⟩
        rw [hflush hne]
        rfl
  | @delivered m event started now ht hn hp w hw task ht' =>
      subst hw
      refine .polled ht ?_
        (.of_message hn rfl (fun c hc => List.mem_append_left _ hc) (fun hne => ?_)
        rfl fun hne hexp => ?_)
      · subst ht'
        dsimp only
        split
        · exact Or.inr (Or.inl ⟨.full, rfl⟩)
        · exact Or.inl rfl
      · exact if_neg (by simpa using hne)
      · have hfull : (s.writer.append ⟨event, m⟩ started).shouldFlush now = true := by
          simp only [TickWriter.shouldFlush, TickWriter.batchExpired, TickWriter.append,
            List.isEmpty_iff, if_neg hne, Bool.or_eq_true]
          exact Or.inr hexp
        rw [ht', if_pos hfull]
        exact ⟨.full, rfl⟩
  | attempted ht hst => exact .attempted ht rfl ⟨rfl, rfl, rfl, rfl⟩
  | insertRaised ht hr => exact .raised ht rfl ⟨rfl, rfl, rfl, rfl⟩
  | woken ht => exact .woken ht rfl ⟨rfl, rfl, rfl, rfl⟩
  | inserted ht hr =>
      exact .inserted ht (TickWriter.afterCommit ..)
        (fun c hc => hasRow_insertTicks hr (List.mem_map_of_mem hc)) rfl
  | committed hp =>
      rcases TickWriter.pendingCommit_cases hp with ⟨reason, rest, ht, rfl⟩ | ⟨ht, rfl⟩
      · exact .committed ht (TickWriter.afterCommit ..) rfl
      · exact .committedInvalid ht rfl rfl

/-! ### What a life rests on -/

/-- A writer in the middle of its life, after what it has done so far. -/
structure Serves (log : PartitionKey → Nat → Option ρ) (parseEvent : ρ → Option (MarketEventOf σ))
    (msToDatetime : Int → Option τ) (s : TickStorage ρ σ τ) : Prop where
  up : s.writer.Up
  led : Led log parseEvent msToDatetime s

theorem Serves.step (h : Serves log parseEvent msToDatetime s) (ha : a.KeepsLife)
    (hs : s.step log parseEvent msToDatetime a = some (s', o)) :
    Serves log parseEvent msToDatetime s' :=
  ⟨h.up.step ha hs, h.led.step hs⟩

/-- `_ms_to_datetime` takes the timestamp of every valid record. -/
def Convertible (log : PartitionKey → Nat → Option ρ) (parseEvent : ρ → Option (MarketEventOf σ))
    (msToDatetime : Int → Option τ) : Prop :=
  ∀ key n e, Valid log parseEvent key n e → (msToDatetime e.eventTs).isSome = true

omit [DecidableEq ρ] [DecidableEq σ] [DecidableEq τ] in
/-- Where every valid record can be converted, every batch makes rows. -/
theorem Convertible.batchRows (hstore : Convertible log parseEvent msToDatetime)
    (hA : Arranged log parseEvent msToDatetime s) :
    ∃ rows, s.batchRows msToDatetime = some rows := by
  have key : ∀ batch : List (ConsumedTick ρ σ),
      (∀ c ∈ batch, Valid log parseEvent c.message.key c.message.offset c.event) →
      ∃ rows, (batch.map ConsumedTick.event).mapM (eventToRow msToDatetime) = some rows := by
    intro batch
    induction batch with
    | nil => exact fun _ => ⟨[], rfl⟩
    | cons c batch ih =>
        intro hvalid
        obtain ⟨rows, hrows⟩ := ih fun c' hc' => hvalid c' (List.mem_cons_of_mem c hc')
        obtain ⟨t, ht⟩ := Option.isSome_iff_exists.mp
          (hstore _ _ _ (hvalid c List.mem_cons_self))
        obtain ⟨row, hrow⟩ : ∃ row, eventToRow msToDatetime c.event = some row :=
          ⟨_, by rw [eventToRow, ht]; rfl⟩
        refine ⟨row :: rows, ?_⟩
        rw [List.map_cons, List.mapM_cons, hrow, hrows]
        rfl
  exact key s.writer.batch hA.valid

omit [DecidableEq ρ] [DecidableEq σ] [DecidableEq τ] in
/-- What has been delivered has a row or waits in the batch. -/
theorem Serves.delivered (h : Serves log parseEvent msToDatetime s) {key : PartitionKey} {n : Nat}
    {e : MarketEventOf σ} (he : Valid log parseEvent key n e) (hn : n < s.positionOf key) :
    HasRow msToDatetime s.table e ∨ ∃ c ∈ s.writer.batch, c.event = e := by
  refine (h.led.safe.delivered h.up.live key n hn e he).imp_right fun hmem => ?_
  obtain ⟨c, hc, rfl⟩ := List.mem_map.mp hmem
  exact ⟨c, hc, rfl⟩

/-! ### What is asked of the scheduler, of the database and of Kafka -/

/-- The steps that the writer takes by itself. -/
def WriterAct.Works : WriterAct ρ → Prop
  | .check | .checkFlush | .wake | .committed => True
  | _ => False

/-- A poll that delivers a record of this partition. -/
def WriterAct.Delivers (key : PartitionKey) : WriterAct ρ → Prop
  | .poll (.message m) _ _ => m.key = key
  | _ => False

/-- A poll after this time that is no error. -/
def WriterAct.PollsAfter (t : ℚ) : WriterAct ρ → Prop
  | .poll result _ now => result ≠ .error ∧ t ≤ now
  | _ => False

/-- The life goes on from the moment `N`, with a scheduler that lets the writer run, a database that
is there again and again, a clock that runs, and a broker that does not forget the partition. -/
structure LifeFrom (x : Machine.Path (TickStorage.step (σ := σ) log parseEvent msToDatetime))
    (key : PartitionKey) (N : ℕ) : Prop where
  up : (x.state N).writer.Up
  goesOn : ∀ n ≥ N, ∀ a, x.act n = some a → a.KeepsLife
  works : x.Fair WriterAct.Works
  schema : x.Fair (· = .schema true)
  inserts : x.Fair (· = .inserted)
  delivers : x.Fair (WriterAct.Delivers key)
  clock : ∀ t, x.Fair (WriterAct.PollsAfter t)

end Steps

/-! ### The stretches -/

/-- `_commit_batch` or the commit of a malformed message is under way, or over. -/
def WriterTask.Committing : WriterTask ρ → Prop
  | .head | .committing _ (_ :: _) | .committingInvalid _ => True
  | _ => False

theorem AfterCommit.committing {rest : List (KafkaMessage ρ)} {task : WriterTask ρ}
    (h : AfterCommit rest task) : task.Committing := by
  cases h with
  | next hne =>
      obtain ⟨m, rest, rfl⟩ := List.exists_cons_of_ne_nil hne
      trivial
  | head | invalid => trivial

/-- How many commits there are to go. -/
def WriterTask.commits : WriterTask ρ → ℕ
  | .committing _ rest => rest.length + 1
  | .committingInvalid _ => 1
  | _ => 0

/-- Whether `_flush` is in its backoff. -/
def WriterTask.sleeps : WriterTask ρ → ℕ
  | .sleeping _ _ => 1
  | _ => 0

section Stretches

variable [DecidableEq ρ] [DecidableEq σ] [DecidableEq τ]
  {x : Machine.Path (TickStorage.step (σ := σ) log parseEvent msToDatetime)} {key : PartitionKey}
  {N : ℕ}

omit [DecidableEq σ] [DecidableEq τ] in
/-- A partition with a record ahead has a next one. -/
theorem exists_next {s : TickStorage ρ σ τ} {n : ℕ} {v : ρ} (hle : s.positionOf key ≤ n)
    (hlog : log key n = some v) : ∃ m : KafkaMessage ρ, m.key = key ∧ s.IsNext log m := by
  have hex : ∃ i, s.positionOf key ≤ i ∧ (log key i).isSome = true := ⟨n, hle, by simp [hlog]⟩
  obtain ⟨hfrom, hsome⟩ := Nat.find_spec hex
  obtain ⟨w, hw⟩ := Option.isSome_iff_exists.mp hsome
  refine ⟨⟨key.1, key.2, Nat.find hex, w⟩, rfl, hfrom, hw, fun i hi hpos => ?_⟩
  by_contra hne
  exact Nat.find_min hex hi ⟨hpos, Option.isSome_iff_ne_none.mpr hne⟩

namespace LifeFrom

/-- The rank rule for a stretch of a life. -/
theorem leadsTo (hx : LifeFrom x key N) {p q : TickStorage ρ σ τ → Prop} {A : WriterAct ρ → Prop}
    (rank : TickStorage ρ σ τ → ℕ) (hfair : x.Fair A)
    (hstep : ∀ s a s' o, Serves log parseEvent msToDatetime s → p s → ¬ q s →
      s.step log parseEvent msToDatetime a = some (s', o) → LifeStep log msToDatetime s s' a →
      q s' ∨ (p s' ∧ rank s' ≤ rank s ∧ (A a → rank s' < rank s)))
    (hen : ∀ n ≥ N, (∀ k ≥ n, Serves log parseEvent msToDatetime (x.state k) ∧ p (x.state k) ∧
        ¬ q (x.state k)) →
      ∃ k ≥ n, Machine.Enabled (TickStorage.step log parseEvent msToDatetime) A (x.state k)) :
    x.LeadsTo N (fun s => Serves log parseEvent msToDatetime s ∧ p s)
      (fun s => Serves log parseEvent msToDatetime s ∧ q s) := by
  refine .of_rank (C := fun _ => WriterAct.KeepsLife) rank hx.goesOn ?_ ?_ hfair
    fun n hn hk => hen n hn fun k hkn => ?_
  · rintro s a s' o ha ⟨hS, hp⟩ hno hs
    have hS' := hS.step ha hs
    rcases hstep s a s' o hS hp (fun hq => hno ⟨hS, hq⟩) hs (lifeStep hS.up ha hs) with
      hq | ⟨hp', hle, -⟩
    · exact Or.inl ⟨hS', hq⟩
    · exact Or.inr ⟨⟨hS', hp'⟩, hle⟩
  · rintro s a s' o ha ⟨hS, hp⟩ hno hA hs
    rcases hstep s a s' o hS hp (fun hq => hno ⟨hS, hq⟩) hs (lifeStep hS.up ha hs) with
      hq | ⟨-, -, hlt⟩
    · exact Or.inl ⟨hS.step ha hs, hq⟩
    · exact Or.inr (hlt hA)
  · obtain ⟨⟨hS, hp⟩, hno⟩ := hk k hkn
    exact ⟨hS, hp, fun hq => hno ⟨hS, hq⟩⟩

/-- The schema is created in the end. -/
theorem schema_head (hx : LifeFrom x key N) :
    x.LeadsTo N (fun s => Serves log parseEvent msToDatetime s ∧ ∃ b, s.writer.task = .schema b)
      (fun s => Serves log parseEvent msToDatetime s ∧ s.writer.task = .head) := by
  refine hx.leadsTo (fun _ => 0) hx.schema ?_ ?_
  · rintro s a s' o - ⟨b, ht⟩ - - hl
    cases hl with
    | beside hw _ i ha => exact Or.inr ⟨⟨b, by rw [hw]; exact ht⟩, le_rfl, by simp [ha]⟩
    | schema _ ht' =>
        rcases ht' with ht' | ⟨rfl, hagain⟩
        · exact Or.inl ht'
        · exact Or.inr ⟨hagain, le_rfl, by simp⟩
    | checked ht' | polled ht' | attempted ht' | raised ht' | woken ht' | inserted ht'
    | committed ht' | committedInvalid ht' => cases ht.symm.trans ht'
  · intro n _ hk
    obtain ⟨-, ⟨b, ht⟩, -⟩ := hk n le_rfl
    exact ⟨n, le_rfl, .schema true, rfl, by simp [TickStorage.step, ht]⟩

/-- The loop goes on to its poll. -/
theorem head_polling (hx : LifeFrom x key N) :
    x.LeadsTo N (fun s => Serves log parseEvent msToDatetime s ∧ s.writer.task = .head)
      (fun s => Serves log parseEvent msToDatetime s ∧ s.writer.task = .polling) := by
  refine hx.leadsTo (fun _ => 0) hx.works ?_ ?_
  · rintro s a s' o - ht - - hl
    cases hl with
    | beside hw _ i ha =>
        exact Or.inr ⟨by rw [hw]; exact ht, le_rfl, by simp [ha, WriterAct.Works]⟩
    | checked _ ht' => exact Or.inl ht'
    | schema ht' | polled ht' | attempted ht' | raised ht' | woken ht' | inserted ht'
    | committed ht' | committedInvalid ht' => cases ht.symm.trans ht'
  · intro n _ hk
    obtain ⟨hS, ht, -⟩ := hk n le_rfl
    exact ⟨n, le_rfl, .check, trivial, by simp [TickStorage.step, ht, hS.up.stopped]⟩

/-- `_flush` comes to its next attempt, after a backoff or at once. -/
theorem trying_inserting (hx : LifeFrom x key N) :
    x.LeadsTo N (fun s => Serves log parseEvent msToDatetime s ∧ ∃ r, s.writer.task.Trying r)
      (fun s => Serves log parseEvent msToDatetime s ∧ ∃ r b, s.writer.task = .inserting r b) := by
  refine hx.leadsTo (fun s => s.writer.task.sleeps) hx.works ?_ ?_
  · rintro s a s' o - ⟨r, htry⟩ hno - hl
    cases hl with
    | beside hw _ i ha =>
        exact Or.inr ⟨⟨r, by rw [hw]; exact htry⟩, by rw [hw], by simp [ha, WriterAct.Works]⟩
    | attempted ht ht' => exact Or.inl ⟨_, _, ht'⟩
    | woken ht ht' =>
        refine Or.inr ⟨⟨_, by rw [ht']; rfl⟩, ?_, fun _ => ?_⟩
        · rw [ht, ht']
          exact Nat.zero_le 1
        · rw [ht, ht']
          exact Nat.zero_lt_one
    | raised ht | inserted ht => exact absurd ⟨_, _, ht⟩ hno
    | schema ht | checked ht | polled ht | committed ht | committedInvalid ht =>
        rw [ht] at htry
        exact htry.elim
  · intro n _ hk
    obtain ⟨hS, ⟨r, htry⟩, hno⟩ := hk n le_rfl
    generalize hs : x.state n = s at hS htry hno
    unfold WriterTask.Trying at htry
    split at htry
    · rename_i ht
      exact ⟨n, le_rfl, .checkFlush, trivial, by simp [TickStorage.step, hs, ht, hS.up.stopped]⟩
    · rename_i ht
      exact absurd ⟨_, _, ht⟩ hno
    · rename_i ht
      exact ⟨n, le_rfl, .wake, trivial, by simp [TickStorage.step, hs, ht]⟩
    · exact htry.elim

/-- **`_flush` gets its batch inserted.** -/
theorem trying_committing (hx : LifeFrom x key N)
    (hstore : Convertible log parseEvent msToDatetime) :
    x.LeadsTo N (fun s => Serves log parseEvent msToDatetime s ∧ ∃ r, s.writer.task.Trying r)
      (fun s => Serves log parseEvent msToDatetime s ∧ s.writer.task.Committing) := by
  refine hx.leadsTo (fun _ => 0) hx.inserts ?_ ?_
  · rintro s a s' o - ⟨r, htry⟩ - - hl
    cases hl with
    | beside hw _ i ha => exact Or.inr ⟨⟨r, by rw [hw]; exact htry⟩, le_rfl, by simp [ha]⟩
    | attempted ht ht' | woken ht ht' | raised ht ht' =>
        exact Or.inr ⟨⟨_, by rw [ht']; rfl⟩, le_rfl, by simp⟩
    | inserted ht ht' => exact Or.inl ht'.committing
    | schema ht | checked ht | polled ht | committed ht | committedInvalid ht =>
        rw [ht] at htry
        exact htry.elim
  · intro n hn hk
    obtain ⟨hS, htry, -⟩ := hk n le_rfl
    obtain ⟨k, hkn, hS', r, b, ht⟩ := hx.trying_inserting n hn ⟨hS, htry⟩
    obtain ⟨rows, hrows⟩ := hstore.batchRows hS'.led.arranged
    exact ⟨k, hkn, .inserted, rfl, by simp [TickStorage.step, ht, hrows]⟩

/-- `_commit_batch` comes to its end. -/
theorem committing_head (hx : LifeFrom x key N) :
    x.LeadsTo N (fun s => Serves log parseEvent msToDatetime s ∧ s.writer.task.Committing)
      (fun s => Serves log parseEvent msToDatetime s ∧ s.writer.task = .head) := by
  refine hx.leadsTo (fun s => s.writer.task.commits) hx.works ?_ ?_
  · rintro s a s' o - hcom hno - hl
    cases hl with
    | beside hw _ i ha =>
        exact Or.inr ⟨by rw [hw]; exact hcom, by rw [hw], by simp [ha, WriterAct.Works]⟩
    | @committed reason m rest ht ht' =>
        rw [ht]
        generalize s'.writer.task = task at ht' ⊢
        cases ht' with
        | head => exact Or.inl rfl
        | @next reason hne =>
            obtain ⟨m', rest, rfl⟩ := List.exists_cons_of_ne_nil hne
            exact Or.inr ⟨trivial, by simp [WriterTask.commits],
              fun _ => by simp [WriterTask.commits]⟩
        | invalid hnil =>
            exact Or.inr ⟨trivial, by simp [WriterTask.commits],
              fun _ => by simp [WriterTask.commits]⟩
    | committedInvalid ht ht' => exact Or.inl ht'
    | checked ht => exact absurd ht hno
    | schema ht | polled ht | attempted ht | raised ht | woken ht | inserted ht =>
        rw [ht] at hcom
        exact hcom.elim
  · intro n _ hk
    obtain ⟨hS, hcom, hno⟩ := hk n le_rfl
    generalize hs : x.state n = s at hS hcom hno
    unfold WriterTask.Committing at hcom
    split at hcom
    · rename_i ht
      exact absurd ht hno
    · rename_i ht
      exact ⟨n, le_rfl, .committed, trivial, by
        simp [TickStorage.step, TickWriter.pendingCommit, hs, ht]⟩
    · rename_i ht
      exact ⟨n, le_rfl, .committed, trivial, by
        simp [TickStorage.step, TickWriter.pendingCommit, hs, ht]⟩
    · exact hcom.elim

/-- **The writer polls again and again.** -/
theorem polls_again (hx : LifeFrom x key N) (hstore : Convertible log parseEvent msToDatetime) :
    x.LeadsTo N (Serves log parseEvent msToDatetime)
      (fun s => Serves log parseEvent msToDatetime s ∧ s.writer.task = .polling) := by
  have hcommitting := hx.committing_head.trans hx.head_polling
  have htrying := (hx.trying_committing hstore).trans hcommitting
  intro n hn hS
  cases ht : (x.state n).writer.task with
  | down => exact absurd ht hS.up.task
  | schema b => exact (hx.schema_head.trans hx.head_polling) n hn ⟨hS, b, ht⟩
  | head => exact hx.head_polling n hn ⟨hS, ht⟩
  | polling => exact ⟨n, le_rfl, hS, ht⟩
  | flush r b | inserting r b | sleeping r b => exact htrying n hn ⟨hS, r, by rw [ht]; rfl⟩
  | committing r rest =>
      cases rest with
      | nil => exact absurd ht (hS.up.committing r)
      | cons m rest => exact hcommitting n hn ⟨hS, by rw [ht]; trivial⟩
  | committingInvalid m => exact hcommitting n hn ⟨hS, by rw [ht]; trivial⟩

/-- **A record of the partition is delivered in the end.** -/
theorem delivered (hx : LifeFrom x key N) (hstore : Convertible log parseEvent msToDatetime)
    {n : ℕ} {v : ρ} (hlog : log key n = some v) :
    x.LeadsTo N (fun s => Serves log parseEvent msToDatetime s ∧ s.positionOf key ≤ n)
      (fun s => Serves log parseEvent msToDatetime s ∧ n < s.positionOf key) := by
  refine hx.leadsTo (fun s => n + 1 - s.positionOf key) hx.delivers ?_ ?_
  · rintro s a s' o - hle - - hl
    by_cases hq : n < s'.positionOf key
    · exact Or.inl hq
    have hsame : s'.position = s.position → ¬ a.Delivers key →
        s'.positionOf key ≤ n ∧ n + 1 - s'.positionOf key ≤ n + 1 - s.positionOf key ∧
          (a.Delivers key → n + 1 - s'.positionOf key < n + 1 - s.positionOf key) := by
      intro hp hno
      rw [TickStorage.positionOf, hp]
      exact ⟨hle, le_rfl, fun hd => absurd hd hno⟩
    refine Or.inr ?_
    cases hl with
    | beside _ hp i ha => exact hsame hp (by simp [ha, WriterAct.Delivers])
    | schema _ _ hb | checked _ _ hb | attempted _ _ hb | raised _ _ hb | woken _ _ hb =>
        exact hsame hb.position id
    | inserted _ _ _ hp | committed _ _ hp | committedInvalid _ _ hp => exact hsame hp id
    | @polled result started now _ _ hp =>
        refine ⟨not_lt.mp hq, Nat.sub_le_sub_left (hp.position key) _, fun hd => ?_⟩
        cases result with
        | message m =>
            obtain rfl : m.key = key := hd
            obtain ⟨hnext, hpos⟩ := hp.message m rfl
            have hfrom := hnext.1
            omega
        | nothing | error | raised => exact hd.elim
  · intro k hk hp
    obtain ⟨l, hl, hS, ht⟩ := hx.polls_again hstore k hk (hp k le_rfl).1
    obtain ⟨m, rfl, hnext⟩ := exists_next (hp l hl).2.1 hlog
    exact ⟨l, hl, .poll (.message m) 0 0, rfl, by simp [TickStorage.step, ht, hnext]⟩

/-- **What has been delivered is stored in the end.** Unless it is, it waits in the batch, whose
clock runs out. -/
theorem stored (hx : LifeFrom x key N) (hstore : Convertible log parseEvent msToDatetime) {n : ℕ}
    {e : MarketEventOf σ} (he : Valid log parseEvent key n e) (started latency : ℚ) :
    x.LeadsTo N (fun s => Serves log parseEvent msToDatetime s ∧ n < s.positionOf key ∧
        s.writer.batchStarted = started ∧ s.writer.batchMaxLatencyMs = latency)
      (fun s => Serves log parseEvent msToDatetime s ∧ HasRow msToDatetime s.table e) := by
  have hwaits : ∀ s, Serves log parseEvent msToDatetime s → n < s.positionOf key →
      ¬ HasRow msToDatetime s.table e → ∃ c ∈ s.writer.batch, c.event = e :=
    fun s hS hn hno => (hS.delivered he hn).resolve_left hno
  refine hx.leadsTo (fun _ => 0) hx.inserts ?_ ?_
  · rintro s a s' o hS ⟨hn, hst, hlat⟩ hno hs hl
    obtain ⟨c, hc, rfl⟩ := hwaits s hS hn hno
    have hsame : SameBatch s s' → a ≠ .inserted → (n < s'.positionOf key ∧
        s'.writer.batchStarted = started ∧ s'.writer.batchMaxLatencyMs = latency) ∧
          0 ≤ 0 ∧ (a = .inserted → 0 < 0) := by
      intro hb ha
      refine ⟨⟨?_, hb.started.trans hst, hb.latency.trans hlat⟩, le_rfl, fun h => absurd h ha⟩
      rwa [TickStorage.positionOf, hb.position]
    cases hl with
    | beside hw hp i ha =>
        exact Or.inr (hsame ⟨by rw [hw], by rw [hw], by rw [hw], hp⟩ (by simp [ha]))
    | schema _ _ hb | checked _ _ hb | attempted _ _ hb | raised _ _ hb | woken _ _ hb =>
        exact Or.inr (hsame hb (by simp))
    | polled ht _ hp =>
        have hne := List.ne_nil_of_mem hc
        exact Or.inr ⟨⟨hn.trans_le (hp.position key), (hp.started hne).trans hst,
          hp.latency.trans hlat⟩, le_rfl, by simp⟩
    | inserted _ _ hrow => exact Or.inl (hrow c hc)
    | committed ht =>
        exact absurd (hS.led.safe.stored (by simp [TickWriter.pendingCommit, ht]) c hc) hno
    | committedInvalid ht =>
        exact absurd (hS.led.safe.stored (by simp [TickWriter.pendingCommit, ht]) c hc) hno
  · intro k hk hp
    -- a poll after the batch has expired starts a flush
    have htakes : ∃ l ≥ k, x.Takes (WriterAct.PollsAfter (started + latency / 1000)) l := by
      refine hx.clock _ (fun i => ?_) k
      have hS := (hp (max i k) (le_max_right i k)).1
      obtain ⟨l, hl, -, ht⟩ := hx.polls_again hstore _ (hk.trans (le_max_right i k)) hS
      exact ⟨l, (le_max_left i k).trans hl, .poll .nothing 0 (started + latency / 1000),
        ⟨by simp, le_rfl⟩, by simp [TickStorage.step, ht]⟩
    obtain ⟨l, hl, a, hact, hA⟩ := htakes
    obtain ⟨o, hs⟩ := Machine.Path.stepped hact
    obtain ⟨hS, ⟨hn, hst, hlat⟩, hno⟩ := hp l hl
    obtain ⟨c, hc, rfl⟩ := hwaits _ hS hn hno
    have hlife := lifeStep hS.up (hx.goesOn l (hk.trans hl) a hact) hs
    have hflush : ∃ r, (x.state (l + 1)).writer.task.Trying r := by
      cases hlife with
      | @polled result started' now ht _ hpoll =>
          obtain ⟨herr, hnow⟩ := hA
          refine hpoll.expired (List.ne_nil_of_mem hc) herr ?_
          rw [TickWriter.batchExpired, hst, hlat, decide_eq_true_eq]
          linarith
      | beside _ _ i ha =>
          subst ha
          exact hA.elim
      | schema | checked | attempted | raised | woken | inserted | committed | committedInvalid =>
          exact hA.elim
    obtain ⟨i, hi, hS', r, b, ht⟩ := hx.trying_inserting (l + 1) (by omega)
      ⟨(hp (l + 1) (by omega)).1, hflush⟩
    obtain ⟨rows, hrows⟩ := hstore.batchRows hS'.led.arranged
    exact ⟨i, by omega, .inserted, rfl, by simp [TickStorage.step, ht, hrows]⟩

end LifeFrom

/-- **Every tick gets its row.** In a life of the writer that goes on, after any lives before it: if
the scheduler lets the writer run, the database takes an insert again and again, the clock runs and
the broker delivers the partition, then each valid record of the partition has exactly one row from
some moment on, provided that every valid record of the topic has a timestamp that converts. -/
theorem stored_eventually (h0 : x.state 0 = {}) (hx : LifeFrom x key N)
    (hstore : Convertible log parseEvent msToDatetime) {n : ℕ} {e : MarketEventOf σ}
    (he : Valid log parseEvent key n e) :
    ∃ k, ∀ l ≥ k, ∃ t, msToDatetime e.eventTs = some t ∧
      (x.state l).table.countKey (e.symbol, e.seq, t) = 1 := by
  have hled : ∀ i, Led log parseEvent msToDatetime (x.state i) := by
    refine Machine.Path.always (fun _ _ _ _ hI hs => hI.step hs) ?_
    rw [h0]
    exact .init
  have hS : Serves log parseEvent msToDatetime (x.state N) := ⟨hx.up, hled N⟩
  obtain ⟨v, hlog, -⟩ := id he
  -- the record is delivered
  have hgiven : ∃ i ≥ N, Serves log parseEvent msToDatetime (x.state i) ∧
      n < (x.state i).positionOf key := by
    rcases le_or_gt ((x.state N).positionOf key) n with hle | hlt
    · exact hx.delivered hstore hlog N le_rfl ⟨hS, hle⟩
    · exact ⟨N, le_rfl, hS, hlt⟩
  -- and then stored, and stays
  obtain ⟨i, hi, hSi, hn⟩ := hgiven
  obtain ⟨k, -, -, hrow⟩ := hx.stored hstore he _ _ i hi ⟨hSi, hn, rfl, rfl⟩
  have hstays := Machine.Path.stays (x := x) (C := fun _ _ => True)
    (I := fun s => HasRow msToDatetime s.table e)
    (fun _ _ _ _ => trivial) (fun s a t o _ hI hs => hI.mono (table_mono (TickStorage.stepped hs)))
    hrow
  refine ⟨k, fun l hl => ?_⟩
  obtain ⟨r, hr, hk⟩ := hstays l hl
  obtain ⟨t, ht, hr⟩ := Option.bind_eq_some_iff.mp hr
  obtain rfl := Option.some.inj hr
  exact ⟨t, ht, MarketTicks.countKey_eq_one hk⟩

/-! ### A writer with nothing to do -/

/-- A writer that polls for ever, before the poll and in it. -/
def idleState (s : TickStorage ρ σ τ) (n : ℕ) : TickStorage ρ σ τ :=
  if n % 2 = 0 then s else { s with writer := { s.writer with task := .polling } }

/-- It polls at each moment of the clock. -/
def idleAct (n : ℕ) : WriterAct ρ := if n % 2 = 0 then .check else .poll .nothing 0 n

theorem idle_moved {s : TickStorage ρ σ τ} (ht : s.writer.task = .head)
    (hst : s.writer.stopped = false) (hb : s.writer.batch = []) (n : ℕ) :
    Machine.Moved (TickStorage.step log parseEvent msToDatetime) (idleState s n)
      (some (idleAct n)) (idleState s (n + 1)) := by
  unfold idleState idleAct
  rcases Nat.mod_two_eq_zero_or_one n with hn | hn
  · rw [if_pos hn, if_pos hn, if_neg (by omega)]
    refine .stepped (o := []) ?_
    simp [TickStorage.step, ht, hst]
  · rw [if_neg (by omega), if_neg (by omega), if_pos (by omega)]
    refine .stepped (o := []) ?_
    obtain ⟨w, position, committed, table, abandoned⟩ := s
    obtain ⟨size, latency, inserted, stopped, task, batch, started⟩ := w
    obtain rfl : task = .head := ht
    obtain rfl : batch = [] := hb
    rfl

variable (log parseEvent msToDatetime) in
/-- The path of a writer with nothing to do. -/
def idlePath (s : TickStorage ρ σ τ) (ht : s.writer.task = .head) (hst : s.writer.stopped = false)
    (hb : s.writer.batch = []) :
    Machine.Path (TickStorage.step (σ := σ) log parseEvent msToDatetime) where
  state := idleState s
  act n := some (idleAct n)
  moved := idle_moved ht hst hb

variable (log parseEvent msToDatetime) in
theorem idlePath_zero (s : TickStorage ρ σ τ) (ht : s.writer.task = .head)
    (hst : s.writer.stopped = false) (hb : s.writer.batch = []) :
    (idlePath log parseEvent msToDatetime s ht hst hb).state 0 = s := rfl

/-- **A writer with nothing to do lives on.** -/
theorem lifeFrom_idle {acts : List (WriterAct ρ)} {s : TickStorage ρ σ τ}
    {h : List (WriterObs ρ σ)}
    (hr : Machine.run (TickStorage.step log parseEvent msToDatetime) {} acts = some (s, h))
    (ht : s.writer.task = .head) (hst : s.writer.stopped = false) (hb : s.writer.batch = [])
    (hend : ∀ m, m.key = key → ¬ s.IsNext log m) :
    LifeFrom (Machine.Path.prepend hr (idlePath log parseEvent msToDatetime s ht hst hb)
      (idlePath_zero log parseEvent msToDatetime s ht hst hb)) key acts.length := by
  have hzero := idlePath_zero log parseEvent msToDatetime s ht hst hb
  have hup : s.writer.Up := ⟨by simp [ht], hst, by simp [ht]⟩
  refine ⟨?_, fun n hn a hact => ?_, ?_, ?_, ?_, ?_, fun t => ?_⟩
  · have h0 := Machine.Path.state_prepend hr hzero 0
    rw [Nat.add_zero, hzero] at h0
    rw [h0]
    exact hup
  · obtain ⟨d, rfl⟩ := Nat.exists_eq_add_of_le hn
    rw [Machine.Path.act_prepend hr hzero d] at hact
    simp only [idlePath, idleAct, Option.some.injEq] at hact
    subst hact
    split <;> trivial
  · refine Machine.Path.fair_prepend hr hzero fun _ n => ⟨2 * n, by omega, .check, ?_, trivial⟩
    simp [idlePath, idleAct]
  · refine Machine.Path.fair_prepend hr hzero (Machine.Path.fair_of_disabled fun n => ?_)
    rintro ⟨a, rfl, hsome⟩
    simp only [idlePath, idleState] at hsome
    split at hsome <;> simp [TickStorage.step, ht] at hsome
  · refine Machine.Path.fair_prepend hr hzero (Machine.Path.fair_of_disabled fun n => ?_)
    rintro ⟨a, rfl, hsome⟩
    simp only [idlePath, idleState] at hsome
    split at hsome <;> simp [TickStorage.step, ht] at hsome
  · refine Machine.Path.fair_prepend hr hzero (Machine.Path.fair_of_disabled fun n => ?_)
    rintro ⟨a, hA, hsome⟩
    cases a with
    | poll result started now =>
        cases result with
        | message m =>
            simp only [idlePath, idleState] at hsome
            split at hsome
            · simp [TickStorage.step, ht] at hsome
            · simp only [TickStorage.step] at hsome
              split at hsome
              · rename_i hnext
                exact hend m hA hnext
              · cases hsome
        | nothing | error | raised => exact hA
    | _ => exact hA
  · refine Machine.Path.fair_prepend hr hzero fun _ n => ?_
    obtain ⟨i, hi⟩ := exists_nat_gt t
    refine ⟨2 * (n + i) + 1, by omega,
      .poll .nothing 0 ((2 * (n + i) + 1 : ℕ) : ℚ), ?_, by simp, ?_⟩
    · simp only [idlePath, idleAct]
      rw [if_neg (by omega)]
    · refine hi.le.trans ?_
      exact_mod_cast (by omega : i ≤ 2 * (n + i) + 1)

end Stretches

/-- Whether the loop is at its head. -/
def WriterTask.atHead : WriterTask ρ → Bool
  | .head => true
  | _ => false

theorem WriterTask.atHead_iff {t : WriterTask ρ} : t.atHead = true ↔ t = .head := by
  cases t <;> simp [WriterTask.atHead]

/-- A writer stores a valid record, with a failure on the way, and commits it and a malformed
one. -/
def retriedActs : List (WriterAct (Option MarketEvent)) :=
  [.start 500 100, .schema false, .schema true, .check,
    .poll (.message ⟨"market-events", 0, 0, some (.quote "A" 7)⟩) 0 0, .check,
    .poll (.message ⟨"market-events", 0, 1, none⟩) 0 0, .checkFlush, .insertRaised .never, .wake,
    .checkFlush, .inserted, .committed, .committed]

theorem stored_eventually_retried :
    ∃ (x : Machine.Path (TickStorage.step shortTopic id (some : Int → Option Int))) (N : ℕ),
      LifeFrom x ("market-events", 0) N ∧
      ∃ k, ∀ l ≥ k, (x.state l).table.countKey ("A", 7, 7) = 1 := by
  have hrun : (Machine.run (TickStorage.step shortTopic id (some : Int → Option Int)) {}
      retriedActs).map (fun r => (r.1.writer.stopped, r.1.position.get? ("market-events", 0),
        r.1.writer.task.atHead, r.1.writer.batch.isEmpty)) =
      some (false, some 2, true, true) := by decide +kernel
  obtain ⟨⟨s, h⟩, hr, hs⟩ := Option.map_eq_some_iff.mp hrun
  obtain ⟨hst, hpos, ht, hb⟩ : s.writer.stopped = false ∧
      s.position.get? ("market-events", 0) = some 2 ∧ s.writer.task = .head ∧
      s.writer.batch = [] := by
    simpa only [Prod.mk.injEq, List.isEmpty_iff, WriterTask.atHead_iff] using hs
  have hend : ∀ m : KafkaMessage (Option MarketEvent), m.key = ("market-events", 0) →
      ¬ s.IsNext shortTopic m := by
    rintro m hm ⟨hle, hv, -⟩
    rw [hm] at hle hv
    rw [TickStorage.positionOf, hpos] at hle
    simp only [shortTopic, if_pos, Option.getD_some] at hle hv
    rw [List.getElem?_eq_none (by simpa using hle)] at hv
    cases hv
  have hlife := lifeFrom_idle hr ht hst hb hend
  refine ⟨_, _, hlife, ?_⟩
  obtain ⟨k, hk⟩ := stored_eventually
    (by simp [Machine.Path.prepend, retriedActs, Machine.stateAfter]) hlife
    (fun _ _ _ _ => rfl) (n := 0) (e := MarketEventOf.quote "A" 7) ⟨_, rfl, rfl⟩
  refine ⟨k, fun l hl => ?_⟩
  obtain ⟨t, ht', hone⟩ := hk l hl
  obtain rfl : (7 : Int) = t := Option.some.inj ht'
  exact hone

end MarketData.Storage
