import MarketData.Gateway.Aggregation
import MarketData.Gateway.Convergence
import MarketData.Lib.Liveness

/-!
# MarketData.Gateway.Delivery

**A new event gets through.** `Convergence` looks at a client once everything has gone through.
Here nothing has to come to rest: while the feed goes on, a new event of a symbol, or one that is
as new, comes out of the WebSocket in the end (`delivered_eventually`), in either aggregation mode,
as long as no full queue gives up its last bearer.

Four queues in a row are passed, each with a task of its own that moves its head: the window, the
aggregator's output, the hand of the dispatch loop (a gap recovery), and the outbound queue. The
rank of a stretch is the number of entries ahead, so later traffic does not count, and a put that
gives up an older entry only helps.
-/

namespace MarketData.Gateway

open Boundary (Emission Move)

/-! ### Places in a queue -/

section Places

variable {α : Type*} {p : α → Bool} {l r gone : List α}

/-- Entries behind do not count. -/
theorem findIdx_append_of_exists (h : ∃ x ∈ l, p x = true) :
    (l ++ r).findIdx p = l.findIdx p := by
  rw [List.findIdx_append, if_pos (List.findIdx_lt_length_of_exists h)]

/-- Other entries can be taken out. -/
theorem findIdx_remove_le (hgone : ∀ x ∈ gone, p x = false) :
    (l ++ r).findIdx p ≤ (l ++ (gone ++ r)).findIdx p := by
  have hlen : gone.findIdx p = gone.length := List.findIdx_eq_length_of_false hgone
  rw [List.findIdx_append, List.findIdx_append, List.findIdx_append, hlen, if_neg (lt_irrefl _)]
  split
  · exact le_rfl
  · omega

end Places

/-! ### As new as an event -/

/-- An event of the symbol of `e` that is as new. -/
def AsNew (e x : MarketEvent) : Bool := decide (x.symbol = e.symbol ∧ e.seq ≤ x.seq)

theorem asNew_iff {e x : MarketEvent} : AsNew e x = true ↔ x.symbol = e.symbol ∧ e.seq ≤ x.seq :=
  decide_eq_true_iff

theorem asNew_self (e : MarketEvent) : AsNew e e = true := asNew_iff.mpr ⟨rfl, le_rfl⟩

/-- A market message of the symbol of `e` that is as new. -/
def Message.reaches (e : MarketEvent) (m : Message) : Bool :=
  (m.emission? e.symbol).any fun x => decide (e.seq ≤ x.seq)

theorem Message.reaches_of_emission {e : MarketEvent} {m : Message} {x : Emission Int}
    (hx : m.emission? e.symbol = some x) (hle : e.seq ≤ x.seq) : m.reaches e = true := by
  rw [Message.reaches, hx, Option.any_some, decide_eq_true_iff]
  exact hle

/-- The boundary of the symbol has passed `e`. -/
def ClientSession.Passed (e : MarketEvent) (s : ClientSession) : Prop :=
  ∃ l ∈ s.lastSeq.get? e.symbol, e.seq ≤ l

/-! ### A session that works -/

/-- A connected DROP_OLDEST session without a filter on `symbol`, whose tasks are all running. -/
structure Streaming (symbol : PyStr) (p : Pipeline) : Prop where
  policy : p.session.policy = .dropOldest
  unfiltered : p.session.filters.get? symbol = none
  connected : p.session.disconnected = false
  writer : p.session.writer = .waiting ∨ ∃ m, p.session.writer = .sending m
  flushes : p.session.aggregator.mode = .agg100ms → p.session.aggregator.flushTask = .running
  task : p.task = .waiting ∨ (∃ gapped, p.task = .reading gapped) ∨
    ∃ gapped snapshot h, p.task = .resuming gapped (.value snapshot) h

/-- What the aggregator's output gives up. -/
def AggregationBuffer.givenUp (b : AggregationBuffer) : Pipeline.Act → List MarketEvent
  | .push _ =>
    match b.mode with
    | .raw => b.output.evicted.toList
    | .agg100ms => []
  | .task .flush => (b.output.items ++ b.buffer.values).take
      (b.output.items.length + b.buffer.values.length - b.output.maxsize)
  | _ => []

/-- **The condition**: nothing fails, a gap's snapshot is as fresh as the event behind the gap, no
full queue gives up an entry as new as `e`, and no push sets a window back behind `e`. -/
structure Unhindered (e : MarketEvent) (p : Pipeline) (a : Pipeline.Act) : Prop where
  output : ∀ x ∈ p.session.aggregator.givenUp a, AsNew e x = false
  queue : ∀ r ∈ p.step a, accepts r.2 ≠ [] → ∀ m ∈ p.session.queue.evicted, m.reaches e = false
  inOrder : ∀ y, a = .push y → p.session.aggregator.mode = .agg100ms → y.symbol = e.symbol →
    e.seq ≤ y.seq
  reads : ReadsCover e.symbol p a
  answered : a ≠ .task (.read .raised)
  logged : a = .task .take → ∀ event ∈ p.session.aggregator.output.items.head?,
    ¬ p.session.UnloggedGap event
  sent : a ≠ .task .writerFailed
  recorded : a = .task .writerSent → ∀ m ∈ p.session.writer.inHand, m.unrecordable = false

namespace ClientSession

/-- A DROP_OLDEST session is not disconnected by its queue. -/
theorem disconnected_dispatchEvent {s : ClientSession} (hp : s.policy = .dropOldest)
    (event : MarketEvent) : (s.dispatchEvent event).1.disconnected = s.disconnected := by
  unfold dispatchEvent
  rcases s.classifySequence_cases event.symbol event.seq (decide (s.aggregator.mode = .raw)) with
    ⟨_, -, -, hc⟩ | ⟨_, -, -, -, -, -, hc⟩ | ⟨-, hc⟩ | ⟨_, -, -, -, -, -, hc⟩ <;> rw [hc]
  dsimp only
  split
  · rfl
  · obtain ⟨stats, heq⟩ := enqueue_dropOldest_eq
      (s := { s with lastSeq := s.lastSeq.set event.symbol event.seq }) hp (.incremental event)
    rw [heq]
    rfl

theorem disconnected_recover {s : ClientSession} (hp : s.policy = .dropOldest) (symbol : PyStr)
    (snapshot : Option SnapshotData) :
    (s.recover symbol snapshot).1.disconnected = s.disconnected := by
  unfold recover
  split
  · rfl
  · rename_i snapshot
    dsimp only
    split
    · obtain ⟨stats, heq⟩ := enqueue_dropOldest_eq hp (.snapshot snapshot)
      rw [heq]
    · rfl

end ClientSession

namespace AggregationBuffer

theorem flushTask_push (b : AggregationBuffer) (event : MarketEvent) :
    (b.push event).flushTask = b.flushTask := by
  unfold push
  cases b.mode <;> rfl

theorem flushTask_flush (b : AggregationBuffer) : b.flush.flushTask = b.flushTask := by
  have key : ∀ (es : List MarketEvent) (b : AggregationBuffer),
      (es.foldl putLatest b).flushTask = b.flushTask := by
    intro es
    induction es with
    | nil => exact fun _ => rfl
    | cons event es ih => exact fun b => ih (b.putLatest event)
  exact key b.buffer.values b

end AggregationBuffer

namespace Streaming

variable {symbol : PyStr} {p p' : Pipeline} {a : Pipeline.Act} {o : List ClientObs}

/-- The part of `Streaming` that only the settings and the aggregator decide. -/
theorem of_settings (hS : Streaming symbol p) (h : p.step a = some (p', o))
    (hconnected : p'.session.disconnected = false)
    (hwriter : p'.session.writer = .waiting ∨ ∃ m, p'.session.writer = .sending m)
    (htask : p'.task = .waiting ∨ (∃ gapped, p'.task = .reading gapped) ∨
      ∃ gapped snapshot h, p'.task = .resuming gapped (.value snapshot) h) :
    Streaming symbol p' := by
  have hset := Pipeline.step_settings h
  refine ⟨hset.policy.trans hS.policy, by rw [hset.filters, hS.unfiltered], hconnected, hwriter,
    fun hm => ?_, htask⟩
  have hrunning := hS.flushes (hset.mode.symm.trans hm)
  cases Pipeline.aggregated_step h with
  | pushed event hb => rw [hb, AggregationBuffer.flushTask_push, hrunning]
  | flushed hb => rw [hb, AggregationBuffer.flushTask_flush, hrunning]
  | taken _ _ _ hb => rw [hb, hrunning]
  | still _ hb => rw [hb, hrunning]

theorem step {e : MarketEvent} (hS : Streaming symbol p) (hU : Unhindered e p a)
    (h : p.step a = some (p', o)) : Streaming symbol p' := by
  cases a with
  | push event =>
      refine hS.of_settings h ?_ ?_ ?_ <;> obtain ⟨rfl, -⟩ := Machine.outcome h
      · exact hS.connected
      · exact hS.writer
      · exact hS.task
  | error text =>
      obtain ⟨stats, heq⟩ := ClientSession.enqueue_dropOldest_eq hS.policy (.error text)
      refine hS.of_settings h ?_ ?_ ?_ <;>
        simp only [Pipeline.step, ClientSession.enqueueError_eq, heq] at h <;>
        obtain ⟨rfl, -⟩ := Machine.outcome h
      · exact hS.connected
      · exact hS.writer
      · exact hS.task
  | task t =>
      have hloop : ∀ s : ClientSession, s.disconnected = false →
          s.writerLoop.writer = .waiting := fun s hs => by simp [ClientSession.writerLoop, hs]
      have hst := Pipeline.taskStepped h
      cases hst with
      | @dispatched event output r hw hget hr hd =>
          refine hS.of_settings h ?_ ?_ ?_
          · rw [hr]
            exact (ClientSession.disconnected_dispatchEvent
              (s := p.session.withOutput output) hS.policy event).trans hS.connected
          · cases hd <;> exact hS.writer
          · have hlogged : r.2.1 ≠ .failed :=
              mt hd.failed_iff.mp (hU.logged rfl event (BoundedQueue.getNowait_head? hget))
            cases hd with
            | gap => exact Or.inr (Or.inl ⟨_, rfl⟩)
            | unlogged => exact absurd rfl hlogged
            | stale | withheld | accepted | refused => exact Or.inl rfl
      | @read gapped result ht hs =>
          refine hS.of_settings h hS.connected hS.writer (Or.inr (Or.inr ?_))
          cases result with
          | value snapshot => exact ⟨gapped, snapshot, hs, rfl⟩
          | raised => exact absurd rfl hU.answered
      | @recovered gapped snapshot r hs ht hr hd =>
          refine hS.of_settings h ?_ ?_ (Or.inl rfl)
          · rw [hr]
            exact (ClientSession.disconnected_recover hS.policy _ _).trans hS.connected
          · cases hd <;> exact hS.writer
      | raised hs ht =>
          rcases hS.task with hw | ⟨_, hw⟩ | ⟨_, _, _, hw⟩ <;> rw [ht] at hw <;> cases hw
      | flushed => exact hS.of_settings h hS.connected hS.writer hS.task
      | writerTook => exact hS.of_settings h hS.connected (Or.inr ⟨_, rfl⟩) hS.task
      | writerSent => exact hS.of_settings h hS.connected (Or.inl (hloop _ hS.connected)) hS.task
      | writerUnrecorded hw hm hrecord =>
          have hrecorded := hU.recorded rfl _ (by rw [hw]; exact List.mem_singleton_self _)
          rw [hrecord] at hrecorded
          cases hrecorded
      | writerFailed => exact absurd rfl hU.sent
      | writerLooped => exact hS.of_settings h hS.connected (Or.inl (hloop _ hS.connected)) hS.task

end Streaming

/-! ### The aggregator -/

namespace AggregationBuffer

/-- The open window holds an event as new as `e`. -/
def InWindow (e : MarketEvent) (b : AggregationBuffer) : Prop :=
  b.mode = .agg100ms ∧ ∃ w ∈ b.buffer.get? e.symbol, AsNew e w = true

/-- The output holds an event as new as `e`. -/
def InOutput (e : MarketEvent) (b : AggregationBuffer) : Prop :=
  ∃ w ∈ b.output.items, AsNew e w = true

end AggregationBuffer

section Stretches

variable {e : MarketEvent} {p p' : Pipeline} {a : Pipeline.Act} {o : List ClientObs}

/-- **What a step other than a take does to the output**: entries are put behind, and the full
queue gives up some in front. -/
theorem Aggregated.output {b b' : AggregationBuffer} (h : Aggregated b b' o a)
    (ha : a ≠ .task .take) :
    ∃ put, b.output.items ++ put = b.givenUp a ++ b'.output.items := by
  cases h with
  | pushed event hb =>
      subst hb
      unfold AggregationBuffer.givenUp AggregationBuffer.push
      cases b.mode with
      | raw => exact ⟨[event], (BoundedQueue.evicted_append_putEvict b.output event).symm⟩
      | agg100ms => exact ⟨[], List.append_nil _⟩
  | flushed hb =>
      subst hb
      refine ⟨b.buffer.values, ?_⟩
      rw [AggregationBuffer.items_flush, AggregationBuffer.givenUp, List.take_append_drop]
  | taken => exact absurd rfl ha
  | still hw hb =>
      subst hb
      refine ⟨[], ?_⟩
      unfold AggregationBuffer.givenUp
      split
      · cases hw
      · cases hw
      · rw [List.append_nil, List.nil_append]

/-- **A push brings its event into the window or the output.** -/
theorem pushed_inFlight (h : p.step (.push e) = some (p', o)) :
    p'.session.aggregator.InWindow e ∨ p'.session.aggregator.InOutput e := by
  obtain ⟨rfl, -⟩ := Machine.outcome h
  show (p.session.aggregator.push e).InWindow e ∨ (p.session.aggregator.push e).InOutput e
  unfold AggregationBuffer.push
  cases p.session.aggregator.mode with
  | raw =>
      refine Or.inr ⟨e, ?_, asNew_self e⟩
      show e ∈ (p.session.aggregator.output.putEvict e).items
      rw [BoundedQueue.items_putEvict]
      exact List.mem_append_right _ (List.mem_singleton_self e)
  | agg100ms => exact Or.inl ⟨rfl, e, Dict.get?_set_self .., asNew_self e⟩

/-- **The window holds its entry until the flush**, which puts it on the output. -/
theorem window_step (hU : Unhindered e p a) (h : p.step a = some (p', o))
    (hw : p.session.aggregator.InWindow e) :
    p'.session.aggregator.InOutput e ∨
      (p'.session.aggregator.InWindow e ∧ a ≠ .task .flush) := by
  obtain ⟨hmode, w, hmem, hnew⟩ := hw
  have hmode' := (Pipeline.step_settings h).mode.trans hmode
  cases Pipeline.aggregated_step h with
  | pushed event hb =>
      refine Or.inr ⟨⟨hmode', ?_⟩, by simp⟩
      have hbuffer : p'.session.aggregator.buffer =
          p.session.aggregator.buffer.set event.symbol event := by
        rw [hb]
        simp only [AggregationBuffer.push, hmode]
      rw [hbuffer]
      by_cases hsym : event.symbol = e.symbol
      · exact ⟨event, by rw [hsym]; exact Dict.get?_set_self ..,
          asNew_iff.mpr ⟨hsym, hU.inOrder event rfl hmode hsym⟩⟩
      · exact ⟨w, by rw [Dict.get?_set_ne _ _ hsym]; exact hmem, hnew⟩
  | flushed hb =>
      refine Or.inl ⟨w, ?_, hnew⟩
      have hin : w ∈ p.session.aggregator.output.items ++ p.session.aggregator.buffer.values :=
        List.mem_append_right _ (Dict.mem_values.mpr ⟨_, hmem⟩)
      rw [← List.take_append_drop (p.session.aggregator.output.items.length +
        p.session.aggregator.buffer.values.length - p.session.aggregator.output.maxsize)
        (_ ++ _)] at hin
      rw [hb, AggregationBuffer.items_flush]
      refine (List.mem_append.mp hin).resolve_left fun hgone => ?_
      have hold := hU.output w hgone
      rw [hnew] at hold
      cases hold
  | taken _ _ _ hb => exact Or.inr ⟨⟨hmode', w, by rw [hb]; exact hmem, hnew⟩, by simp⟩
  | still hn hb =>
      refine Or.inr ⟨⟨hmode', w, by rw [hb]; exact hmem, hnew⟩, ?_⟩
      rintro rfl
      cases hn

/-! ### The dispatch loop -/

/-- A step of the dispatch loop. -/
def TaskAct.Dispatches : TaskAct → Prop
  | .take | .read _ | .resume => True
  | _ => False

/-- What the loop still has to do for the event in its hand. -/
def DispatchTask.phase : DispatchTask → ℕ
  | .reading _ => 2
  | .resuming _ _ _ => 1
  | _ => 0

@[simp] theorem DispatchTask.phase_waiting : waiting.phase = 0 := rfl
@[simp] theorem DispatchTask.phase_failed : failed.phase = 0 := rfl
@[simp] theorem DispatchTask.phase_reading (e : MarketEvent) : (reading e).phase = 2 := rfl
@[simp] theorem DispatchTask.phase_resuming (e : MarketEvent) (r : ReadResult)
    (h : r.OfSymbol e.symbol) : (resuming e r h).phase = 1 := rfl

/-- The gap before an event as new as `e` is being recovered, by a snapshot as fresh as the
event. -/
def DispatchTask.Recovering (e : MarketEvent) (t : DispatchTask) : Prop :=
  ∃ gapped, AsNew e gapped = true ∧ (t = .reading gapped ∨
    ∃ r h, t = .resuming gapped r h ∧ r.AtLeast gapped.seq)

/-- **A handled event is behind the boundary, or its gap is being recovered.** -/
theorem ClientSession.Dispatched.passed {s : ClientSession} {event : MarketEvent}
    {r : ClientSession × DispatchTask × List ClientObs} (h : s.Dispatched event r)
    (hlogged : ¬ s.UnloggedGap event) (hnew : AsNew e event = true) :
    r.1.Passed e ∨ r.2.1.Recovering e := by
  obtain ⟨hsym, hle⟩ := asNew_iff.mp hnew
  have hset : ∀ d : Dict PyStr Int, ∃ l ∈ (d.set event.symbol event.seq).get? e.symbol, e.seq ≤ l :=
    fun d => ⟨event.seq, by rw [hsym]; exact Dict.get?_set_self .., hle⟩
  cases h with
  | stale hl hle' => exact Or.inl ⟨_, by rw [← hsym]; exact hl, hle.trans hle'⟩
  | gap => exact Or.inr ⟨event, hnew, Or.inl rfl⟩
  | unlogged _ hl hlt hm hgap hlog => exact absurd ⟨hm, _, hl, hlt, hgap, hlog⟩ hlogged
  | withheld | accepted | refused => exact Or.inl (hset _)

/-- **A snapshot as fresh as the event behind the gap moves the boundary past it.** -/
theorem ClientSession.Recovered.passed {s : ClientSession} {gapped : MarketEvent}
    {snapshot : Option SnapshotData} {r : ClientSession × List ClientObs}
    (h : s.Recovered gapped.symbol snapshot r) (hp : s.policy = .dropOldest)
    (hnew : AsNew e gapped = true) (hfresh : (ReadResult.value snapshot).AtLeast gapped.seq) :
    r.1.Passed e := by
  obtain ⟨hsym, hle⟩ := asNew_iff.mp hnew
  cases h with
  | ignored hi =>
      cases snapshot with
      | none => exact hfresh.elim
      | some snapshot =>
          obtain ⟨l, hl, hle'⟩ := hi snapshot rfl
          exact ⟨l, by rw [← hsym]; exact hl, hle.trans (le_trans hfresh hle')⟩
  | accepted =>
      exact ⟨_, by rw [hsym]; exact Dict.get?_set_self .., hle.trans hfresh⟩
  | refused _ _ _ _ hp' => exact absurd hp hp'

/-- How far the loop has come with what is ahead of the first entry as new as `e`. -/
def Pipeline.dispatchRank (e : MarketEvent) (p : Pipeline) : ℕ :=
  3 * p.session.aggregator.output.items.findIdx (AsNew e) + p.task.phase

/-- **The loop comes closer to the entry**, with every step of its own, and other steps do not
put anything before it. -/
theorem output_step (hU : Unhindered e p a)
    (h : p.step a = some (p', o)) (hin : p.session.aggregator.InOutput e) :
    (p'.session.Passed e ∨ p'.task.Recovering e) ∨ p'.session.aggregator.InOutput e ∧
      (p'.dispatchRank e < p.dispatchRank e ∨
        p'.dispatchRank e ≤ p.dispatchRank e ∧ ∀ t, a = .task t → ¬ t.Dispatches) := by
  by_cases hat : a = .task .take
  · subst hat
    obtain ⟨event, rest, hw, hitems, rfl, -⟩ := Pipeline.take_cases h
    have hd := (p.session.withOutput p.session.aggregator.output.pop).dispatched event
    have hout := ClientSession.aggregator_dispatchEvent
      (p.session.withOutput p.session.aggregator.output.pop) event
    generalize (p.session.withOutput p.session.aggregator.output.pop).dispatchEvent event = r
      at hd hout ⊢
    cases hnew : AsNew e event with
    | true => exact Or.inl (hd.passed (hU.logged rfl event (by rw [hitems]; rfl)) hnew)
    | false =>
        -- one entry less is ahead, and the loop may have a gap to recover
        have hitems' : r.1.aggregator.output.items = rest := by
          rw [hout]
          show p.session.aggregator.output.pop.items = rest
          rw [BoundedQueue.items_pop, hitems]
          rfl
        have hphase : r.2.1.phase ≤ 2 := by cases r.2.1 <;> simp [DispatchTask.phase]
        refine Or.inr ⟨?_, Or.inl ?_⟩
        · obtain ⟨w, hmem, hw'⟩ := hin
          rw [hitems] at hmem
          rcases List.mem_cons.mp hmem with rfl | hmem
          · rw [hnew] at hw'
            cases hw'
          · exact ⟨w, by rw [hitems']; exact hmem, hw'⟩
        · rw [Pipeline.dispatchRank, Pipeline.dispatchRank, hitems, hitems', hw,
            List.findIdx_cons, hnew]
          simp only [cond_false, DispatchTask.phase_waiting]
          omega
  · obtain ⟨put, hput⟩ := (Pipeline.aggregated_step h).output hat
    have hin' : p'.session.aggregator.InOutput e := by
      obtain ⟨w, hmem, hnew⟩ := hin
      refine ⟨w, (List.mem_append.mp (hput ▸ List.mem_append_left put hmem)).resolve_left
        fun hgone => ?_, hnew⟩
      have hold := hU.output w hgone
      rw [hnew] at hold
      cases hold
    have hle : p'.session.aggregator.output.items.findIdx (AsNew e) ≤
        p.session.aggregator.output.items.findIdx (AsNew e) := by
      rw [← findIdx_append_of_exists (r := put) hin, hput]
      exact findIdx_remove_le (l := []) hU.output
    refine Or.inr ⟨hin', ?_⟩
    have hkept : p'.task = p.task → (∀ t, a = .task t → ¬ t.Dispatches) →
        p'.dispatchRank e < p.dispatchRank e ∨
          p'.dispatchRank e ≤ p.dispatchRank e ∧ ∀ t, a = .task t → ¬ t.Dispatches := by
      intro ht hno
      refine Or.inr ⟨?_, hno⟩
      rw [Pipeline.dispatchRank, Pipeline.dispatchRank, ht]
      omega
    have hlower : p'.task.phase < p.task.phase → p'.dispatchRank e < p.dispatchRank e := by
      intro hphase
      rw [Pipeline.dispatchRank, Pipeline.dispatchRank]
      omega
    cases a with
    | push event =>
        obtain ⟨rfl, -⟩ := Machine.outcome h
        exact hkept rfl (by simp)
    | error text =>
        obtain ⟨rfl, -⟩ := Machine.outcome h
        exact hkept rfl (by simp)
    | task t =>
        have hst := Pipeline.taskStepped h
        cases hst with
        | dispatched => exact absurd rfl hat
        | read ht => exact Or.inl (hlower (by simp [ht]))
        | recovered hs ht => exact Or.inl (hlower (by simp [ht]))
        | raised hs ht => exact Or.inl (hlower (by simp [ht]))
        | flushed | writerTook | writerSent | writerUnrecorded | writerFailed | writerLooped =>
            exact hkept rfl (by rintro _ ⟨⟩; exact id)

/-- **A recovery goes on until the boundary is past the event.** -/
theorem recovering_step (hS : Streaming e.symbol p) (hU : Unhindered e p a)
    (h : p.step a = some (p', o)) (hr : p.task.Recovering e) :
    p'.session.Passed e ∨ p'.task.Recovering e ∧ (p'.task.phase < p.task.phase ∨
      p'.task = p.task ∧ ∀ t, a = .task t → ¬ t.Dispatches) := by
  have hkept : p'.task = p.task → (∀ t, a = .task t → ¬ t.Dispatches) →
      p'.task.Recovering e ∧ (p'.task.phase < p.task.phase ∨
        p'.task = p.task ∧ ∀ t, a = .task t → ¬ t.Dispatches) := fun ht hno =>
    ⟨ht ▸ hr, Or.inr ⟨ht, hno⟩⟩
  obtain ⟨gapped, hnew, hr⟩ := hr
  cases a with
  | push event =>
      obtain ⟨rfl, -⟩ := Machine.outcome h
      exact Or.inr (hkept rfl (by simp))
  | error text =>
      obtain ⟨rfl, -⟩ := Machine.outcome h
      exact Or.inr (hkept rfl (by simp))
  | task t =>
      have hst := Pipeline.taskStepped h
      cases hst with
      | dispatched hw =>
          rcases hr with hr | ⟨_, _, hr, -⟩ <;> rw [hw] at hr <;> cases hr
      | @read gapped' result ht hs =>
          rcases hr with hr | ⟨_, _, hr, -⟩
          · obtain rfl : gapped' = gapped := by
              rw [ht] at hr
              cases hr
              rfl
            have hreads := hU.reads
            simp only [ReadsCover, ht] at hreads
            refine Or.inr ⟨⟨gapped', hnew, Or.inr ⟨result, hs, rfl, hreads (asNew_iff.mp hnew).1⟩⟩,
              Or.inl (by simp [ht])⟩
          · rw [ht] at hr
            cases hr
      | @recovered gapped' snapshot r hs ht hr' hd =>
          rcases hr with hr | ⟨result, _, hr, hfresh⟩
          · rw [ht] at hr
            cases hr
          · rw [ht] at hr
            cases hr
            exact Or.inl (hd.passed hS.policy hnew hfresh)
      | raised hs ht =>
          rcases hS.task with hw | ⟨_, hw⟩ | ⟨_, _, _, hw⟩ <;> rw [ht] at hw <;> cases hw
      | flushed | writerTook | writerSent | writerUnrecorded | writerFailed | writerLooped =>
          exact Or.inr (hkept rfl (by rintro _ ⟨⟩; exact id))

/-! ### The outbound queue and the writer -/

/-- **Behind every passed boundary stands a message**, sent or held. -/
theorem reached_step {ms : List Message} (hS : Streaming e.symbol p) (hU : Unhindered e p a)
    (h : p.step a = some (p', o))
    (hI : p.session.Passed e → ∃ m ∈ ms ++ p.session.outbound, m.reaches e = true) :
    p'.session.Passed e → ∃ m ∈ ms ++ sends o ++ p'.session.outbound, m.reaches e = true := by
  rintro ⟨l, hl, hle⟩
  obtain ⟨mv, hmv, -, hvis⟩ := Pipeline.step_move h e.symbol
  have hcases := hmv.visible_cases (hvis hS.policy hS.unfiltered)
  rw [← market_accepts] at hcases
  rw [List.append_assoc]
  rcases Pipeline.step_conserved h hU.sent with ⟨haccepts, hout⟩ | ⟨m, haccepts, hsends, hout⟩
  · -- without a put the boundary stays
    rw [haccepts] at hcases
    rw [hout]
    rcases hcases with ⟨hb, -⟩ | ⟨x, hx, -⟩
    · exact hI ⟨l, hb ▸ hl, hle⟩
    · exact absurd hx (by simp [market])
  · rw [hsends, hout, List.nil_append, ClientSession.outboundWith]
    rw [haccepts] at hcases
    rcases hcases with ⟨hb, -⟩ | ⟨x, hx, hb⟩
    · -- the queue gives up an older message at most
      obtain ⟨m', hm', hreaches⟩ := hI ⟨l, hb ▸ hl, hle⟩
      refine ⟨m', ?_, hreaches⟩
      rcases List.mem_append.mp hm' with hm' | hm'
      · exact List.mem_append_left _ hm'
      refine List.mem_append_right ms ?_
      rcases List.mem_append.mp hm' with hm' | hm'
      · exact List.mem_append_left _ hm'
      refine List.mem_append_right _ (BoundedQueue.mem_putEvict_of_mem hm' fun hgone => ?_)
      have hold := hU.queue (p', o) h (by simp [haccepts]) m' hgone
      rw [hreaches] at hold
      cases hold
    · obtain rfl : x.seq = l := Option.some.inj (hb.symm.trans hl)
      have hx' : m.emission? e.symbol = some x := by
        cases hm : m.emission? e.symbol with
        | none => simp [market, hm] at hx
        | some y =>
            obtain rfl : y = x := by simpa [market, hm] using hx
            rfl
      refine ⟨m, List.mem_append_right _ (List.mem_append_right _ ?_),
        Message.reaches_of_emission hx' hle⟩
      rw [BoundedQueue.items_putEvict]
      exact List.mem_append_right _ (List.mem_singleton_self m)

/-- A step of the writer that takes a message, or comes to the end of its send. -/
def TaskAct.Writes : TaskAct → Prop
  | .writerTake | .writerSent | .writerFailed => True
  | _ => False

/-- The writer has its hands free. -/
def WriterTask.free : WriterTask → ℕ
  | .waiting => 1
  | _ => 0

/-- How far the writer has come with what is ahead of the first message as new as `e`. -/
def ClientSession.writeRank (e : MarketEvent) (s : ClientSession) : ℕ :=
  2 * s.outbound.findIdx (Message.reaches e) + s.writer.free

/-- A step of the writer takes a message or sends one, if its send does not fail. -/
theorem writes_step {t : TaskAct} (ht : t.Writes) (hsent : t ≠ .writerFailed)
    (h : p.step (.task t) = some (p', o)) :
    (p.session.writer = .waiting ∧ ∃ m, p'.session.writer = .sending m) ∨ sends o ≠ [] := by
  have hst := Pipeline.taskStepped h
  cases hst with
  | writerTook hw => exact Or.inl ⟨hw, _, rfl⟩
  | writerSent | writerUnrecorded => exact Or.inr (by simp [sends, ClientObs.sent?])
  | writerFailed => exact absurd rfl hsent
  | dispatched | read | recovered | raised | flushed | writerLooped => exact ht.elim

/-- **The writer comes closer to the message** with every step of its own, and other steps do not
put anything before it. -/
theorem outbound_progress (hS' : Streaming e.symbol p') (hU : Unhindered e p a)
    (h : p.step a = some (p', o)) (hheld : ∃ m ∈ p.session.outbound, m.reaches e = true) :
    (∃ m ∈ sends o, m.reaches e = true) ∨ (∃ m ∈ p'.session.outbound, m.reaches e = true) ∧
      (p'.session.writeRank e < p.session.writeRank e ∨
        p'.session.writeRank e ≤ p.session.writeRank e ∧ ∀ t, a = .task t → ¬ t.Writes) := by
  have hrunning : p'.session.writer ≠ .stopped := by
    rcases hS'.writer with hw | ⟨m, hw⟩ <;> simp [hw]
  have hother : p'.session.writer = p.session.writer → sends o = [] →
      ∀ t, a = .task t → ¬ t.Writes := by
    rintro hw hs t rfl ht
    rcases writes_step ht (fun heq => hU.sent (heq ▸ rfl)) h with ⟨hwait, m, hsend⟩ | hne
    · rw [hw, hwait] at hsend
      cases hsend
    · exact hne hs
  have hrank := @id (∃ m ∈ p.session.outbound, m.reaches e = true) hheld
  unfold ClientSession.writeRank
  cases Pipeline.outbound_step h with
  | still hq hw ha hs =>
      obtain hw := hw.resolve_right hrunning
      have hout : p'.session.outbound = p.session.outbound := by
        rw [ClientSession.outbound, ClientSession.outbound, hq, hw]
      rw [hout, hw]
      exact Or.inr ⟨hheld, Or.inr ⟨le_rfl, hother hw hs⟩⟩
  | put m hq hw ha hs =>
      have hgone : ∀ x ∈ p.session.queue.evicted.toList, x.reaches e = false := fun x hx =>
        hU.queue (p', o) h (by simp [ha]) x (Option.mem_toList.mp hx)
      have hout : p.session.outbound ++ [m] = p.session.writer.inHand ++
          (p.session.queue.evicted.toList ++ p'.session.queue.items) := by
        rw [ClientSession.outbound, hq, BoundedQueue.evicted_append_putEvict, List.append_assoc]
      have hout' : p'.session.outbound = p.session.writer.inHand ++ p'.session.queue.items := by
        rw [ClientSession.outbound, hw]
      refine Or.inr ⟨?_, Or.inr ⟨?_, hother hw hs⟩⟩
      · obtain ⟨m', hm', hreaches⟩ := hheld
        refine ⟨m', ?_, hreaches⟩
        rw [hout']
        rcases List.mem_append.mp (hout ▸ List.mem_append_left [m] hm') with hm' | hm'
        · exact List.mem_append_left _ hm'
        refine List.mem_append_right _ ((List.mem_append.mp hm').resolve_left fun hold => ?_)
        have := hgone m' hold
        rw [hreaches] at this
        cases this
      · have hle : p'.session.outbound.findIdx (Message.reaches e) ≤
            p.session.outbound.findIdx (Message.reaches e) := by
          rw [← findIdx_append_of_exists (r := [m]) hrank, hout, hout']
          exact findIdx_remove_le hgone
        rw [hw]
        omega
  | taken m hw hq hw' ha hs =>
      have hout : p'.session.outbound = p.session.outbound := by
        rw [ClientSession.outbound, ClientSession.outbound, hw, hw', hq]
        rfl
      rw [hout, hw, hw']
      exact Or.inr ⟨hheld, Or.inl (Nat.lt_succ_self _)⟩
  | sent m hw hq hw' ha hs =>
      have hw'' : p'.session.writer = .waiting := hw'.resolve_right hrunning
      have hout : p.session.outbound = m :: p'.session.outbound := by
        rw [ClientSession.outbound, ClientSession.outbound, hw, hw'', hq]
        rfl
      cases hm : m.reaches e with
      | true => exact Or.inl ⟨m, by rw [hs]; exact List.mem_singleton_self m, hm⟩
      | false =>
          rw [hout] at hheld
          rw [hout, hw, hw'', List.findIdx_cons, hm]
          refine Or.inr ⟨?_, Or.inl ?_⟩
          · obtain ⟨m', hm', hreaches⟩ := hheld
            rcases List.mem_cons.mp hm' with rfl | hm'
            · rw [hm] at hreaches
              cases hreaches
            · exact ⟨m', hm', hreaches⟩
          · simp only [cond_false, WriterTask.free]
            omega

end Stretches

/-! ### A path of the client -/

/-- **A client whose tasks are run**, each as often as it can be. -/
structure Scheduling (x : Machine.Path Pipeline.step) : Prop where
  flush : x.Fair (· = .task .flush)
  dispatch : x.Fair (fun a => ∃ t, a = .task t ∧ t.Dispatches)
  writer : x.Fair (fun a => ∃ t, a = .task t ∧ t.Writes)

section Paths

variable {e : MarketEvent} {x : Machine.Path Pipeline.step}

theorem streaming_stays (h0 : Streaming e.symbol (x.state 0))
    (hU : ∀ n a, x.act n = some a → Unhindered e (x.state n) a) (n : ℕ) :
    Streaming e.symbol (x.state n) :=
  Machine.Path.stays (C := Unhindered e) (fun n _ => hU n)
    (fun _ _ _ _ hU hS hs => hS.step hU hs) h0 n (Nat.zero_le n)

/-- The window is flushed in the end. -/
theorem window_leadsTo (hx : Scheduling x) (hS : ∀ n, Streaming e.symbol (x.state n))
    (hU : ∀ n a, x.act n = some a → Unhindered e (x.state n) a) :
    x.LeadsTo 0 (fun p => p.session.aggregator.InWindow e)
      (fun p => p.session.aggregator.InOutput e) := by
  refine .of_rank (C := Unhindered e) (fun _ => 0) (fun n _ => hU n) ?_ ?_ hx.flush ?_
  · intro p a p' o hU hp _ hs
    rcases window_step hU hs hp with h | ⟨h, -⟩
    · exact Or.inl h
    · exact Or.inr ⟨h, le_rfl⟩
  · intro p a p' o hU hp _ ha hs
    rcases window_step hU hs hp with h | ⟨-, h⟩
    · exact Or.inl h
    · exact absurd ha h
  · intro n _ hk
    have hrunning := (hS n).flushes (hk n le_rfl).1.1
    exact ⟨n, le_rfl, .task .flush, rfl, by simp [Pipeline.step, Pipeline.taskStep, hrunning]⟩

/-- The loop has a step to take while there is something to do. -/
theorem dispatch_enabled {p : Pipeline} (hS : Streaming e.symbol p)
    (h : p.session.aggregator.InOutput e ∨ p.task.Recovering e) :
    Machine.Enabled Pipeline.step (fun a => ∃ t, a = .task t ∧ t.Dispatches) p := by
  rcases hS.task with hw | ⟨gapped, hw⟩ | ⟨gapped, snapshot, hs, hw⟩
  · rcases h with ⟨w, hmem, -⟩ | ⟨gapped, -, hr | ⟨r, hs, hr, -⟩⟩
    · obtain ⟨event, rest, hitems⟩ := List.exists_cons_of_ne_nil (List.ne_nil_of_mem hmem)
      have hget : p.session.aggregator.output.getNowait =
          some (event, p.session.aggregator.output.pop) :=
        BoundedQueue.getNowait_eq_some.mpr ⟨⟨rest, hitems⟩, rfl⟩
      exact ⟨.task .take, ⟨_, rfl, trivial⟩, by simp [Pipeline.step, Pipeline.taskStep, hw, hget]⟩
    · rw [hw] at hr
      cases hr
    · rw [hw] at hr
      cases hr
  · exact ⟨.task (.read (.value none)), ⟨_, rfl, trivial⟩, by
      simp [Pipeline.step, Pipeline.taskStep, hw, ReadResult.OfSymbol]⟩
  · exact ⟨.task .resume, ⟨_, rfl, trivial⟩, by simp [Pipeline.step, Pipeline.taskStep, hw]⟩

/-- The dispatch loop handles the entry in the end. -/
theorem output_leadsTo (hx : Scheduling x) (hS : ∀ n, Streaming e.symbol (x.state n))
    (hU : ∀ n a, x.act n = some a → Unhindered e (x.state n) a) :
    x.LeadsTo 0 (fun p => p.session.aggregator.InOutput e)
      (fun p => p.session.Passed e ∨ p.task.Recovering e) := by
  refine .of_rank (C := Unhindered e) (Pipeline.dispatchRank e) (fun n _ => hU n) ?_ ?_
    hx.dispatch ?_
  · intro p a p' o hU hp _ hs
    rcases output_step hU hs hp with h | ⟨h, hlt | ⟨hle, -⟩⟩
    · exact Or.inl h
    · exact Or.inr ⟨h, hlt.le⟩
    · exact Or.inr ⟨h, hle⟩
  · rintro p a p' o hU hp _ ⟨t, rfl, ht⟩ hs
    rcases output_step hU hs hp with h | ⟨-, hlt | ⟨-, hno⟩⟩
    · exact Or.inl h
    · exact Or.inr hlt
    · exact absurd ht (hno t rfl)
  · intro n _ hk
    exact ⟨n, le_rfl, dispatch_enabled (hS n) (Or.inl (hk n le_rfl).1)⟩

/-- A gap recovery ends. -/
theorem recovering_leadsTo (hx : Scheduling x) (hS : ∀ n, Streaming e.symbol (x.state n))
    (hU : ∀ n a, x.act n = some a → Unhindered e (x.state n) a) :
    x.LeadsTo 0 (fun p => p.task.Recovering e) (fun p => p.session.Passed e) := by
  refine .of_rank (C := fun p a => Streaming e.symbol p ∧ Unhindered e p a)
    (fun p => p.task.phase) (fun n _ a ha => ⟨hS n, hU n a ha⟩) ?_ ?_ hx.dispatch ?_
  · rintro p a p' o ⟨hS, hU⟩ hp _ hs
    rcases recovering_step hS hU hs hp with h | ⟨h, hlt | ⟨heq, -⟩⟩
    · exact Or.inl h
    · exact Or.inr ⟨h, hlt.le⟩
    · exact Or.inr ⟨h, by rw [heq]⟩
  · rintro p a p' o ⟨hS, hU⟩ hp _ ⟨t, rfl, ht⟩ hs
    rcases recovering_step hS hU hs hp with h | ⟨-, hlt | ⟨-, hno⟩⟩
    · exact Or.inl h
    · exact Or.inr hlt
    · exact absurd ht (hno t rfl)
  · intro n _ hk
    exact ⟨n, le_rfl, dispatch_enabled (hS n) (Or.inr (hk n le_rfl).1)⟩

/-- The writer has a step to take while a message is held. -/
theorem write_enabled {p : Pipeline} (hS : Streaming e.symbol p) {m : Message}
    (hm : m ∈ p.session.outbound) :
    Machine.Enabled Pipeline.step (fun a => ∃ t, a = .task t ∧ t.Writes) p := by
  rcases hS.writer with hw | ⟨m', hw⟩
  · rw [ClientSession.outbound, hw] at hm
    obtain ⟨m', rest, hitems⟩ := List.exists_cons_of_ne_nil
      (List.ne_nil_of_mem (show m ∈ p.session.queue.items from hm))
    have hget : p.session.queue.getNowait = some (m', p.session.queue.pop) :=
      BoundedQueue.getNowait_eq_some.mpr ⟨⟨rest, hitems⟩, rfl⟩
    exact ⟨.task .writerTake, ⟨_, rfl, trivial⟩, by
      simp [Pipeline.step, Pipeline.taskStep, hw, hget]⟩
  · exact ⟨.task .writerFailed, ⟨_, rfl, trivial⟩, by simp [Pipeline.step, Pipeline.taskStep, hw]⟩

/-- A held message is sent in the end. -/
theorem held_leadsTo (hx : Scheduling x) (hS : ∀ n, Streaming e.symbol (x.state n))
    (hU : ∀ n a, x.act n = some a → Unhindered e (x.state n) a) :
    x.recorded.LeadsTo 0 (fun s => ∃ m ∈ s.1.session.outbound, m.reaches e = true)
      (fun s => ∃ m ∈ sends s.2, m.reaches e = true) := by
  refine .of_rank (C := fun s a => Streaming e.symbol s.1 ∧ Unhindered e s.1 a)
    (fun s => s.1.session.writeRank e) (fun n _ a ha => ⟨hS n, hU n a ha⟩) ?_ ?_
    (Machine.Path.fair_recorded hx.writer) ?_
  · rintro s a s' o ⟨hS, hU⟩ hp _ hs
    obtain ⟨hs, hrec⟩ := Machine.recorded_eq_some.mp hs
    rcases outbound_progress (hS.step hU hs) hU hs hp with ⟨m, hm, hreaches⟩ | ⟨h, hrank⟩
    · rw [hrec, sends_append]
      exact Or.inl ⟨m, List.mem_append_right _ hm, hreaches⟩
    · exact Or.inr ⟨h, hrank.elim le_of_lt And.left⟩
  · rintro s a s' o ⟨hS, hU⟩ hp _ ⟨t, rfl, ht⟩ hs
    obtain ⟨hs, hrec⟩ := Machine.recorded_eq_some.mp hs
    rcases outbound_progress (hS.step hU hs) hU hs hp with
      ⟨m, hm, hreaches⟩ | ⟨-, hlt | ⟨-, hno⟩⟩
    · rw [hrec, sends_append]
      exact Or.inl ⟨m, List.mem_append_right _ hm, hreaches⟩
    · exact Or.inr hlt
    · exact absurd ht (hno t rfl)
  · intro n _ hk
    obtain ⟨⟨m, hm, -⟩, -⟩ := hk n le_rfl
    obtain ⟨a, ha, hsome⟩ := write_enabled (hS n) hm
    obtain ⟨⟨p', o⟩, hs⟩ := Option.isSome_iff_exists.mp hsome
    exact ⟨n, le_rfl, a, ha, by
      rw [Machine.recorded_eq_some (t := (p', x.trace n ++ o)).mpr ⟨hs, rfl⟩]; rfl⟩

end Paths

/-- **A new event gets through.** Push an event beyond the boundary of its symbol to a connected
DROP_OLDEST client that does not filter the symbol, in either aggregation mode, and let its tasks be
run: a message of the symbol that is as new as the event is sent in the end, whatever else is pushed
meanwhile, as long as nothing fails, no full queue gives up what is as new, and in AGG_100MS mode no
older event of the symbol is pushed. -/
theorem delivered_eventually {e : MarketEvent} {x : Machine.Path Pipeline.step}
    (h0 : Streaming e.symbol (x.state 0)) (hpush : x.act 0 = some (.push e))
    (hnew : ∀ l ∈ (x.state 0).session.lastSeq.get? e.symbol, l < e.seq)
    (hU : ∀ n a, x.act n = some a → Unhindered e (x.state n) a) (hx : Scheduling x) :
    ∃ k, ∀ l ≥ k, ∃ m ∈ sends (x.trace l), m.reaches e = true := by
  have hS := streaming_stays h0 hU
  obtain ⟨o, hs⟩ := Machine.Path.stepped hpush
  have hpassed : ∃ k ≥ 1, (x.state k).session.Passed e := by
    have houtput : ∃ k ≥ 1, (x.state k).session.aggregator.InOutput e := by
      rcases pushed_inFlight hs with hw | ho
      · exact window_leadsTo hx hS hU 1 (Nat.zero_le 1) hw
      · exact ⟨1, le_rfl, ho⟩
    obtain ⟨i, hi, ho⟩ := houtput
    obtain ⟨j, hj, hp | hr⟩ := output_leadsTo hx hS hU i (Nat.zero_le i) ho
    · exact ⟨j, hi.trans hj, hp⟩
    · obtain ⟨k, hk, hp⟩ := recovering_leadsTo hx hS hU j (Nat.zero_le j) hr
      exact ⟨k, (hi.trans hj).trans hk, hp⟩
  obtain ⟨k, -, hp⟩ := hpassed
  -- the message behind the boundary has been sent, or is held and will be
  have hreached : ∃ m ∈ sends (x.trace k) ++ (x.state k).session.outbound, m.reaches e = true := by
    refine Machine.Path.stays (x := x.recorded)
      (C := fun s a => Streaming e.symbol s.1 ∧ Unhindered e s.1 a)
      (I := fun s => s.1.session.Passed e →
        ∃ m ∈ sends s.2 ++ s.1.session.outbound, m.reaches e = true)
      (fun n _ a ha => ⟨hS n, hU n a ha⟩) ?_ ?_ k (Nat.zero_le k) hp
    · rintro s a s' o ⟨hS, hU⟩ hI hs
      obtain ⟨hs, hrec⟩ := Machine.recorded_eq_some.mp hs
      rw [hrec, sends_append]
      exact reached_step hS hU hs hI
    · rintro ⟨l, hl, hle⟩
      exact absurd (hnew l hl) (not_lt.mpr hle)
  obtain ⟨j, hj⟩ : ∃ j, ∃ m ∈ sends (x.trace j), m.reaches e = true := by
    obtain ⟨m, hm, hreaches⟩ := hreached
    rcases List.mem_append.mp hm with hm | hm
    · exact ⟨k, m, hm, hreaches⟩
    · obtain ⟨j, -, hj⟩ := held_leadsTo hx hS hU k (Nat.zero_le k) ⟨m, hm, hreaches⟩
      exact ⟨j, hj⟩
  refine ⟨j, fun l hl => ?_⟩
  obtain ⟨m, hm, hreaches⟩ := hj
  exact ⟨m, ((x.trace_prefix hl).sublist.filterMap ClientObs.sent?).subset hm, hreaches⟩

/-- A client with A seeded at 10 loses event 12, recovers the gap before 13 while B goes on, and
sends all it has. -/
def gapThroughActs : List Pipeline.Act :=
  [.push (.quote "A" 13), .push (.quote "B" 1), .task .take, .task .writerTake,
    .task (.read (.value (some (.fromEvent (.quote "A" 14))))), .error "Missing symbol",
    .task .writerSent, .task .resume, .task .take, .task .writerTake, .task .writerSent,
    .task .writerTake, .task .writerSent, .task .writerTake, .task .writerSent]

instance (e : MarketEvent) (p : Pipeline) (a : Pipeline.Act) :
    Decidable (∀ y, a = .push y → p.session.aggregator.mode = .agg100ms → y.symbol = e.symbol →
      e.seq ≤ y.seq) :=
  match a with
  | .push y => decidable_of_iff (p.session.aggregator.mode = .agg100ms → y.symbol = e.symbol →
      e.seq ≤ y.seq)
      ⟨fun h _ hy => by obtain rfl := Pipeline.Act.push.inj hy; exact h, fun h => h y rfl⟩
  | .error _ | .task _ => isTrue (by simp)

instance (e : MarketEvent) (p : Pipeline) (a : Pipeline.Act) : Decidable (Unhindered e p a) :=
  decidable_of_iff ((∀ x ∈ p.session.aggregator.givenUp a, AsNew e x = false) ∧
    (∀ r ∈ p.step a, accepts r.2 ≠ [] → ∀ m ∈ p.session.queue.evicted, m.reaches e = false) ∧
    (∀ y, a = .push y → p.session.aggregator.mode = .agg100ms → y.symbol = e.symbol →
      e.seq ≤ y.seq) ∧ ReadsCover e.symbol p a ∧ a ≠ .task (.read .raised) ∧
    (a = .task .take → ∀ event ∈ p.session.aggregator.output.items.head?,
      ¬ p.session.UnloggedGap event) ∧ a ≠ .task .writerFailed ∧
    (a = .task .writerSent → ∀ m ∈ p.session.writer.inHand, m.unrecordable = false))
    ⟨fun ⟨h₁, h₂, h₃, h₄, h₅, h₆, h₇, h₈⟩ => ⟨h₁, h₂, h₃, h₄, h₅, h₆, h₇, h₈⟩,
      fun ⟨h₁, h₂, h₃, h₄, h₅, h₆, h₇, h₈⟩ => ⟨h₁, h₂, h₃, h₄, h₅, h₆, h₇, h₈⟩⟩

theorem delivered_eventually_gap :
    ∃ x : Machine.Path Pipeline.step, x.state 0 = subscribedClient ∧
      x.act 0 = some (.push (.quote "A" 13)) ∧
      ∃ k, ∀ l ≥ k, ∃ m ∈ sends (x.trace l), m.reaches (.quote "A" 13) = true := by
  have hrun : ∃ p h, Machine.run Pipeline.step subscribedClient gapThroughActs = some (p, h) ∧
      p.session.aggregator.flushTask = .notStarted ∧ Settled p ∧ p.session.writer = .waiting :=
    ⟨_, _, rfl, rfl, ⟨rfl, rfl, rfl⟩, rfl⟩
  obtain ⟨p, h, hr, hflush, hsettled, hw⟩ := hrun
  have halong : Machine.Along Pipeline.step (Unhindered (.quote "A" 13)) subscribedClient
      gapThroughActs := by decide
  have hqueue : p.session.queue.getNowait = none := by
    have hout := hsettled.outbound
    rw [ClientSession.outbound, hw] at hout
    rw [BoundedQueue.getNowait, show p.session.queue.items = [] from hout]
    rfl
  have hstreaming : Streaming "A" subscribedClient :=
    ⟨rfl, rfl, rfl, Or.inl rfl, by decide, Or.inl rfl⟩
  have hnew : ∀ l ∈ subscribedClient.session.lastSeq.get? "A", l < 13 := by decide
  refine ⟨.ofRun hr, rfl, rfl, delivered_eventually (e := .quote "A" 13) hstreaming rfl hnew
    (fun n a ha => Machine.Path.along_ofRun hr halong ha) ⟨?_, ?_, ?_⟩⟩
  · refine Machine.Path.fair_ofRun hr ?_
    rintro ⟨a, rfl, hsome⟩
    simp [Pipeline.step, Pipeline.taskStep, hflush] at hsome
  · refine Machine.Path.fair_ofRun hr ?_
    rintro ⟨_, ⟨t, rfl, ht⟩, hsome⟩
    cases t with
    | take =>
        simp [Pipeline.step, Pipeline.taskStep, BoundedQueue.getNowait, hsettled.output,
          hsettled.waiting] at hsome
    | read | resume => simp [Pipeline.step, Pipeline.taskStep, hsettled.waiting] at hsome
    | _ => exact ht
  · refine Machine.Path.fair_ofRun hr ?_
    rintro ⟨_, ⟨t, rfl, ht⟩, hsome⟩
    cases t with
    | writerTake => simp [Pipeline.step, Pipeline.taskStep, hw, hqueue] at hsome
    | writerSent | writerFailed => simp [Pipeline.step, Pipeline.taskStep, hw] at hsome
    | _ => exact ht

end MarketData.Gateway
