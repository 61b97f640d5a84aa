import Mathlib.Data.Int.ConditionallyCompleteOrder
import MarketData.Gateway.Session
import MarketData.Lib.Machine

/-!
# MarketData.Gateway.Pipeline

One client's own tasks, as a machine: the aggregator's flush task, `client_dispatch_loop`
(aggregator → outbound queue) and the writer loop (outbound queue → WebSocket). The rest
of the gateway reaches a client through `push` (fanout) and error replies only, so a run
of this machine is everything that happens to a session between two of its own
subscribe, unsubscribe or cleanup calls.

The dispatch loop suspends in two places: waiting for an event (`waiting`) and, after a
sequence gap, in `snapshot_store.get`. A read is two steps, so that the world can move
between the instant whose value it returns (`reading → resuming`) and the instant the
loop sees it (`resuming → waiting`).

**What a step does to the boundary of a symbol** is stated once, as a
`Boundary.Move` (`task_move`): every guard the code makes before it writes
`last_seq[symbol]` is the move's guard, and the messages `enqueue` accepts are the move's
emissions.
-/

namespace MarketData.Gateway

open Boundary (Emission Move)

/-- What `snapshot_store.get` produced. -/
inductive ReadResult
  | value (snapshot : Option SnapshotData)
  | raised
  deriving DecidableEq

/-- A snapshot read for `symbol` carries that symbol. -/
def ReadResult.OfSymbol (symbol : PyStr) : ReadResult → Prop
  | .value (some s) => s.symbol = symbol
  | _ => True

instance (symbol : PyStr) : (r : ReadResult) → Decidable (r.OfSymbol symbol)
  | .raised => isTrue trivial
  | .value none => isTrue trivial
  | .value (some s) => inferInstanceAs (Decidable (s.symbol = symbol))

/-- Where `client_dispatch_loop` is. -/
inductive DispatchTask
  | notStarted
  /-- Awaiting the next event of `session.aggregator.events()`. -/
  | waiting
  /-- Awaiting `snapshot_store.get(symbol)` for the gap before `event`. -/
  | reading (event : MarketEvent)
  /-- The read has its result; the loop has not run since. -/
  | resuming (event : MarketEvent) (result : ReadResult) (ofSymbol : result.OfSymbol event.symbol)
  | cancelled
  /-- Ended by an exception. -/
  | failed
  deriving DecidableEq

/-- The event whose gap the loop is recovering. -/
def DispatchTask.event? : DispatchTask → Option MarketEvent
  | .reading event | .resuming event _ _ => some event
  | _ => none

/-- The symbol whose gap the loop is recovering. -/
def DispatchTask.symbol? (t : DispatchTask) : Option PyStr :=
  t.event?.map MarketEventOf.symbol

namespace DispatchTask

@[simp] theorem symbol?_notStarted : notStarted.symbol? = none := rfl
@[simp] theorem symbol?_waiting : waiting.symbol? = none := rfl
@[simp] theorem symbol?_reading (e : MarketEvent) : (reading e).symbol? = some e.symbol := rfl
@[simp] theorem symbol?_resuming (e : MarketEvent) (r : ReadResult) (h : r.OfSymbol e.symbol) :
    (resuming e r h).symbol? = some e.symbol := rfl
@[simp] theorem symbol?_cancelled : cancelled.symbol? = none := rfl
@[simp] theorem symbol?_failed : failed.symbol? = none := rfl

end DispatchTask

/-- A session with its dispatch task. -/
structure Pipeline where
  session : ClientSession
  task : DispatchTask := .notStarted

/-- A step of one of the client's own tasks. -/
inductive TaskAct
  /-- The flush task wakes up. -/
  | flush
  /-- The dispatch loop gets the next event. -/
  | take
  /-- The pending snapshot read gets its result. -/
  | read (result : ReadResult)
  /-- The dispatch loop resumes after the read. -/
  | resume
  /-- The writer gets a message from the queue. -/
  | writerTake
  /-- The pending send succeeds, of a message that can be written out. -/
  | writerSent
  /-- The pending send raises. -/
  | writerFailed
  /-- `wait_for` times out and the writer loops. -/
  | writerTimeout
  deriving DecidableEq

namespace ClientSession

/-- One iteration of `client_dispatch_loop`, up to its end or its snapshot read. -/
def dispatchEvent (s : ClientSession) (event : MarketEvent) :
    ClientSession × DispatchTask × List ClientObs :=
  match s.classifySequence event.symbol event.seq (decide (s.aggregator.mode = .raw)) with
  -- the exception leaves the `async for` and ends the task
  | (none, s) => (s, .failed, [.unlogged event])
  | (some .stale, s) => (s, .waiting, [.handled event])
  | (some .gap, s) => (s, .reading event, [.handled event])
  | (some .next, s) =>
    if !s.shouldDeliver event then (s, .waiting, [.handled event, .withheld event])
    else
      -- normal incremental delivery
      match s.enqueue (.incremental event) with
      | (true, s) =>
        (s.markDelivered event, .waiting, [.handled event, .accepted (.incremental event)])
      | (false, s) => (s, .waiting, [.handled event, .refused (.incremental event)])

/-- The rest of a gap iteration, once `snapshot_store.get(symbol)` has returned. -/
def recover (s : ClientSession) (symbol : PyStr) (snapshot : Option SnapshotData) :
    ClientSession × List ClientObs :=
  match snapshot with
  | none => (s, [])
  | some snapshot =>
    let previousSeq := s.lastSeq.get? symbol
    if previousSeq.all (fun previous => decide (previous < snapshot.seq)) then
      match s.enqueue (.snapshot snapshot) with
      | (true, s) =>
        ({ s with
            lastSeq := s.lastSeq.set symbol snapshot.seq
            lastPrice := s.lastPrice.set symbol snapshot.bid }, [.accepted (.snapshot snapshot)])
      | (false, s) => (s, [.refused (.snapshot snapshot)])
    else (s, [])

/-- The session once the loop has taken an event from the aggregator's output. -/
def withOutput (s : ClientSession) (output : BoundedQueue MarketEvent) : ClientSession :=
  { s with aggregator := { s.aggregator with output := output } }

/-- The head of the writer loop: `while not self._disconnected.is_set()`. -/
def writerLoop (s : ClientSession) : ClientSession :=
  { s with writer := if s.disconnected then .stopped else .waiting }

end ClientSession

namespace Pipeline

/-- Run one step of a client task. -/
def taskStep (p : Pipeline) : TaskAct → Option (Pipeline × List ClientObs)
  | .flush =>
    if p.session.aggregator.flushTask = .running then
      some ({ p with session := { p.session with aggregator := p.session.aggregator.flush } }, [])
    else none
  | .take =>
    match p.task, p.session.aggregator.output.getNowait with
    | .waiting, some (event, output) =>
      let (s, task, obs) := (p.session.withOutput output).dispatchEvent event
      some (⟨s, task⟩, obs)
    | _, _ => none
  | .read result =>
    match p.task with
    | .reading event =>
      if h : result.OfSymbol event.symbol then
        some ({ p with task := .resuming event result h }, [])
      else none
    | _ => none
  | .resume =>
    match p.task with
    | .resuming event (.value snapshot) _ =>
      let (s, obs) := p.session.recover event.symbol snapshot
      some (⟨s, .waiting⟩, obs)
    -- the same goes for the exception of the read
    | .resuming _ .raised _ => some ({ p with task := .failed }, [])
    | _ => none
  | .writerTake =>
    match p.session.writer, p.session.queue.getNowait with
    | .waiting, some (m, queue) =>
      some ({ p with session := { p.session with queue := queue, writer := .sending m } }, [])
    | _, _ => none
  | .writerSent =>
    match p.session.writer with
    | .sending m =>
      if m.encodable p.session.encoding then
        let stats := { p.session.stats with sent := p.session.stats.sent + 1 }
        -- the message is out when `latency.record` raises
        if m.unrecordable then
          some ({ p with session := { p.session with
            stats := stats, disconnected := true, writer := .stopped } }, [.sent m])
        else some ({ p with session := { p.session with stats := stats }.writerLoop }, [.sent m])
      else none
    | _ => none
  | .writerFailed =>
    match p.session.writer with
    | .sending _ =>
      some ({ p with session := { p.session with disconnected := true, writer := .stopped } }, [])
    | _ => none
  | .writerTimeout =>
    match p.session.writer with
    | .waiting => some ({ p with session := p.session.writerLoop }, [])
    | _ => none

/-- What can happen to a client between its own calls. -/
inductive Act
  /-- Fanout pushes an event. -/
  | push (event : MarketEvent)
  /-- The gateway enqueues an error reply. -/
  | error (text : PyStr)
  | task (a : TaskAct)
  deriving DecidableEq

/-- The client machine. -/
def step (p : Pipeline) : Act → Option (Pipeline × List ClientObs)
  | .push event =>
    some ({ p with session := { p.session with aggregator := p.session.aggregator.push event } },
      [.pushed event])
  | .error text =>
    let (s, obs) := p.session.enqueueError text
    some ({ p with session := s }, obs)
  | .task a => p.taskStep a

end Pipeline

/-! ### The boundary of a symbol -/

/-- What an observation gives the boundary of `symbol`. -/
def ClientObs.emission? (symbol : PyStr) : ClientObs → Option (Emission Int)
  | .accepted m => m.emission? symbol
  | _ => none

/-- The market messages of `symbol` that `enqueue` accepted, in order. -/
def emissions (symbol : PyStr) (h : List ClientObs) : List (Emission Int) :=
  h.filterMap (ClientObs.emission? symbol)

@[simp] theorem emissions_nil (symbol : PyStr) : emissions symbol [] = [] := rfl

@[simp] theorem emissions_cons (symbol : PyStr) (o : ClientObs) (h : List ClientObs) :
    emissions symbol (o :: h) = (o.emission? symbol).toList ++ emissions symbol h := by
  simp only [emissions, List.filterMap_cons]
  cases o.emission? symbol <;> rfl

theorem emissions_append (symbol : PyStr) (h h' : List ClientObs) :
    emissions symbol (h ++ h') = emissions symbol h ++ emissions symbol h' := by
  simp [emissions]

theorem emissions_pushed (symbol : PyStr) (es : List MarketEvent) :
    emissions symbol (es.map ClientObs.pushed) = [] := by
  simp [emissions, List.filterMap_map, Function.comp_def, ClientObs.emission?]

/-- How one step moves the boundary of a symbol from `b` to `b'`, with what it emits. -/
structure BoundaryStep (b b' : Option Int) (es : List (Emission Int)) (mv : Move Int) : Prop where
  guard : mv.Guard b
  strict : mv.Strict
  target : b' = mv.target b
  emitted : es = mv.emitted

/-- A step that neither writes the boundary nor emits. -/
theorem BoundaryStep.refl {b b' : Option Int} {es : List (Emission Int)} (hb : b' = b)
    (hes : es = []) : BoundaryStep b b' es .keep :=
  ⟨trivial, trivial, hb, hes⟩

namespace ClientSession

/-- The outcomes of one iteration of the dispatch loop on `event`. -/
inductive Dispatched (s : ClientSession) (event : MarketEvent) :
    ClientSession × DispatchTask × List ClientObs → Prop
  /-- At or behind the boundary: discarded. -/
  | stale {last : Int} (hl : s.lastSeq.get? event.symbol = some last) (hle : event.seq ≤ last) :
      Dispatched s event (s, .waiting, [.handled event])
  /-- Beyond the successor of the boundary, in RAW mode: read a snapshot. -/
  | gap {last : Int} (stats : ClientStats) (hl : s.lastSeq.get? event.symbol = some last)
      (hlt : last < event.seq) (hlog : gapLog last event.seq ≠ none) :
      Dispatched s event ({ s with stats := stats }, .reading event, [.handled event])
  /-- A gap whose log raises. -/
  | unlogged {last : Int} (stats : ClientStats) (hl : s.lastSeq.get? event.symbol = some last)
      (hlt : last < event.seq) (hm : s.aggregator.mode = .raw) (hgap : event.seq ≠ last + 1)
      (hlog : gapLog last event.seq = none) :
      Dispatched s event ({ s with stats := stats }, .failed, [.unlogged event])
  /-- In sequence, but filtered out: the boundary moves, nothing is enqueued. -/
  | withheld (hn : ∀ l ∈ s.lastSeq.get? event.symbol,
        l < event.seq ∧ (s.aggregator.mode = .raw → event.seq = l + 1))
      (hd : s.shouldDeliver event = false) :
      Dispatched s event ({ s with lastSeq := s.lastSeq.set event.symbol event.seq }, .waiting,
        [.handled event, .withheld event])
  /-- In sequence and taken by the outbound queue: boundary and baseline move. -/
  | accepted (q : BoundedQueue Message) (stats : ClientStats) (d : Bool)
      (hn : ∀ l ∈ s.lastSeq.get? event.symbol,
        l < event.seq ∧ (s.aggregator.mode = .raw → event.seq = l + 1))
      (hd : s.shouldDeliver event = true) (hq : q = s.queue.putEvict (.incremental event)) :
      Dispatched s event ({ s with
          lastSeq := s.lastSeq.set event.symbol event.seq
          lastPrice := s.lastPrice.set event.symbol event.bid
          queue := q, stats := stats, disconnected := d }, .waiting,
        [.handled event, .accepted (.incremental event)])
  /-- In sequence but refused by the outbound queue: the boundary has moved all the same. -/
  | refused (q : BoundedQueue Message) (stats : ClientStats) (d : Bool)
      (hn : ∀ l ∈ s.lastSeq.get? event.symbol,
        l < event.seq ∧ (s.aggregator.mode = .raw → event.seq = l + 1))
      (hd : s.shouldDeliver event = true) (hp : s.policy ≠ .dropOldest) (hq : q = s.queue) :
      Dispatched s event ({ s with
          lastSeq := s.lastSeq.set event.symbol event.seq
          queue := q, stats := stats, disconnected := d }, .waiting,
        [.handled event, .refused (.incremental event)])

theorem dispatched (s : ClientSession) (event : MarketEvent) :
    Dispatched s event (s.dispatchEvent event) := by
  unfold dispatchEvent
  rcases s.classifySequence_cases event.symbol event.seq (decide (s.aggregator.mode = .raw)) with
    ⟨last, hl, hle, hc⟩ | ⟨last, hl, hlt, -, -, hlog, hc⟩ | ⟨hn, hc⟩ |
    ⟨last, hl, hlt, hm, hgap, hlog, hc⟩
  · rw [hc]
    exact .stale hl hle
  · rw [hc]
    exact .gap _ hl hlt hlog
  · rw [hc]
    have hn' : ∀ l ∈ s.lastSeq.get? event.symbol,
        l < event.seq ∧ (s.aggregator.mode = .raw → event.seq = l + 1) :=
      fun l hl => ⟨(hn l hl).1, fun hm => (hn l hl).2 (by simpa using hm)⟩
    set s₁ : ClientSession := { s with lastSeq := s.lastSeq.set event.symbol event.seq } with hs₁
    -- the filter looks at the baseline only, which classification has not touched
    have hsd : s₁.shouldDeliver event = s.shouldDeliver event := rfl
    dsimp only
    rw [hsd]
    cases hd : s.shouldDeliver event with
    | false => exact .withheld hn' hd
    | true =>
        obtain ⟨q, stats, d, hf⟩ := s₁.enqueue_fields (.incremental event)
        have hqueue := s₁.enqueue_queue (.incremental event)
        rcases hen : s₁.enqueue (.incremental event) with ⟨ok, s₂⟩
        rw [hen] at hf hqueue
        obtain rfl : s₂ = _ := hf
        cases ok with
        | true => exact .accepted q stats d hn' hd hqueue
        | false =>
            refine .refused q stats d hn' hd (fun hp => ?_) hqueue
            have := enqueue_dropOldest (s := s₁) hp (.incremental event)
            simp [hen] at this
  · rw [hc]
    exact .unlogged _ hl hlt (by simpa using hm) hgap hlog

/-- The event is a gap whose log raises. -/
def UnloggedGap (s : ClientSession) (event : MarketEvent) : Prop :=
  s.aggregator.mode = .raw ∧ ∃ last ∈ s.lastSeq.get? event.symbol, last < event.seq ∧
    event.seq ≠ last + 1 ∧ gapLog last event.seq = none

instance (s : ClientSession) (event : MarketEvent) : Decidable (s.UnloggedGap event) :=
  inferInstanceAs (Decidable (_ ∧ _))

/-- **The loop ends at exactly these events.** -/
theorem Dispatched.failed_iff {s : ClientSession} {event : MarketEvent}
    {r : ClientSession × DispatchTask × List ClientObs} (h : Dispatched s event r) :
    r.2.1 = .failed ↔ s.UnloggedGap event := by
  have hsame : ∀ {l last : Int}, s.lastSeq.get? event.symbol = some l →
      s.lastSeq.get? event.symbol = some last → l = last :=
    fun hl hlast => Option.some.inj (hl.symm.trans hlast)
  cases h with
  | stale hl hle =>
      refine iff_of_false (by simp) ?_
      rintro ⟨-, last, hlast, hlt, -⟩
      obtain rfl := hsame hl hlast
      omega
  | gap stats hl hlt hlog =>
      refine iff_of_false (by simp) ?_
      rintro ⟨-, last, hlast, -, -, hnone⟩
      exact hlog (hsame hl hlast ▸ hnone)
  | unlogged stats hl hlt hm hgap hlog => exact iff_of_true rfl ⟨hm, _, hl, hlt, hgap, hlog⟩
  | withheld hn | accepted q stats d hn | refused q stats d hn =>
      refine iff_of_false (by simp) ?_
      rintro ⟨hm, last, hlast, -, hgap, -⟩
      exact hgap ((hn last hlast).2 hm)

/-- The outcomes of the rest of a gap iteration. -/
inductive Recovered (s : ClientSession) (gap : PyStr) :
    Option SnapshotData → ClientSession × List ClientObs → Prop
  /-- No snapshot, or none beyond the boundary. -/
  | ignored {snapshot : Option SnapshotData}
      (h : ∀ x ∈ snapshot, ∃ l ∈ s.lastSeq.get? gap, x.seq ≤ l) : Recovered s gap snapshot (s, [])
  /-- Taken by the outbound queue: boundary and baseline jump to the snapshot. -/
  | accepted {snapshot : SnapshotData} (q : BoundedQueue Message) (stats : ClientStats) (d : Bool)
      (hn : ∀ l ∈ s.lastSeq.get? gap, l < snapshot.seq)
      (hq : q = s.queue.putEvict (.snapshot snapshot)) :
      Recovered s gap (some snapshot) ({ s with
          lastSeq := s.lastSeq.set gap snapshot.seq
          lastPrice := s.lastPrice.set gap snapshot.bid
          queue := q, stats := stats, disconnected := d }, [.accepted (.snapshot snapshot)])
  /-- Refused by the outbound queue: nothing moves. -/
  | refused {snapshot : SnapshotData} (q : BoundedQueue Message) (stats : ClientStats) (d : Bool)
      (hn : ∀ l ∈ s.lastSeq.get? gap, l < snapshot.seq) (hp : s.policy ≠ .dropOldest)
      (hq : q = s.queue) :
      Recovered s gap (some snapshot)
        ({ s with queue := q, stats := stats, disconnected := d }, [.refused (.snapshot snapshot)])

theorem recovered (s : ClientSession) (gap : PyStr) (snapshot : Option SnapshotData) :
    Recovered s gap snapshot (s.recover gap snapshot) := by
  cases snapshot with
  | none => exact .ignored (by simp)
  | some snapshot =>
      unfold recover
      dsimp only
      split
      · rename_i hprev
        have hn : ∀ l ∈ s.lastSeq.get? gap, l < snapshot.seq := by
          intro l hl
          simpa [Option.mem_def.mp hl] using hprev
        obtain ⟨q, stats, d, hf⟩ := s.enqueue_fields (.snapshot snapshot)
        have hqueue := s.enqueue_queue (.snapshot snapshot)
        rcases hen : s.enqueue (.snapshot snapshot) with ⟨ok, s₂⟩
        rw [hen] at hf hqueue
        obtain rfl : s₂ = _ := hf
        cases ok with
        | true => exact .accepted q stats d hn hqueue
        | false =>
            refine .refused q stats d hn (fun hp => ?_) hqueue
            have := enqueue_dropOldest hp (.snapshot snapshot)
            simp [hen] at this
      · rename_i hprev
        refine .ignored fun x hx => ?_
        obtain rfl : snapshot = x := Option.some.inj hx
        cases hl : s.lastSeq.get? gap with
        | none => simp [hl] at hprev
        | some l => exact ⟨l, rfl, by simpa [hl] using hprev⟩

/-- **Dispatching an event moves only the boundary of its symbol**, forwards; in RAW mode
to the direct successor, and under DROP_OLDEST without a filter never silently. -/
theorem dispatchEvent_move (s : ClientSession) (event : MarketEvent) (symbol : PyStr) :
    ∃ mv, BoundaryStep (s.lastSeq.get? symbol) ((s.dispatchEvent event).1.lastSeq.get? symbol)
        (emissions symbol (s.dispatchEvent event).2.2) mv ∧
      (s.aggregator.mode = .raw → mv.Successor (· + 1) (s.lastSeq.get? symbol)) ∧
      (s.policy = .dropOldest → s.filters.get? symbol = none → mv.Visible) := by
  have hd := s.dispatched event
  generalize s.dispatchEvent event = r at hd
  by_cases hsym : event.symbol = symbol
  · -- the event's own symbol: its boundary stays, or becomes `event.seq`
    subst hsym
    cases hd with
    | stale hl hle => exact ⟨.keep, .refl rfl rfl, fun _ => trivial, fun _ _ => trivial⟩
    | gap | unlogged => exact ⟨.keep, .refl rfl rfl, fun _ => trivial, fun _ _ => trivial⟩
    | withheld hn hd =>
        refine ⟨.skip event.seq, ⟨fun l hl => (hn l hl).1, trivial, by simp [Move.target], rfl⟩,
          fun hm l hl => (hn l hl).2 hm, fun _ hf => ?_⟩
        simp [shouldDeliver, hf] at hd
    | accepted q stats d hn hd =>
        refine ⟨.deliver event.seq, ⟨fun l hl => (hn l hl).1, trivial, by simp [Move.target], ?_⟩,
          fun hm l hl => (hn l hl).2 hm, fun _ _ => trivial⟩
        simp [ClientObs.emission?, Message.emission?, Move.emitted]
    | refused q stats d hn hd hp =>
        exact ⟨.skip event.seq, ⟨fun l hl => (hn l hl).1, trivial, by simp [Move.target], rfl⟩,
          fun hm l hl => (hn l hl).2 hm, fun h => absurd h hp⟩
  · -- another symbol: neither written nor emitted
    refine ⟨.keep, .refl ?_ ?_, fun _ => trivial, fun _ _ => trivial⟩
    · cases hd <;> first | rfl | exact Dict.get?_set_ne _ _ hsym
    · cases hd <;> simp [ClientObs.emission?, Message.emission?, hsym]

/-- **Gap recovery re-reads the boundary and only jumps beyond it.** -/
theorem recover_move (s : ClientSession) {gap : PyStr} {snapshot : Option SnapshotData}
    (hs : (ReadResult.value snapshot).OfSymbol gap) (symbol : PyStr) :
    ∃ mv, BoundaryStep (s.lastSeq.get? symbol) ((s.recover gap snapshot).1.lastSeq.get? symbol)
        (emissions symbol (s.recover gap snapshot).2) mv ∧
      mv.Successor (· + 1) (s.lastSeq.get? symbol) ∧ mv.Visible := by
  have hr := s.recovered gap snapshot
  generalize s.recover gap snapshot = r at hr
  cases hr with
  | ignored h => exact ⟨.keep, .refl rfl rfl, trivial, trivial⟩
  | refused q stats d hn hp => exact ⟨.keep, .refl rfl rfl, trivial, trivial⟩
  | @accepted snapshot q stats d hn =>
      replace hs : snapshot.symbol = gap := hs
      by_cases hsym : gap = symbol
      · subst hsym
        refine ⟨.recover snapshot.seq, ⟨hn, trivial, by simp [Move.target], ?_⟩, trivial, trivial⟩
        simp [ClientObs.emission?, Message.emission?, hs, Move.emitted]
      · refine ⟨.keep, .refl ?_ ?_, trivial, trivial⟩
        · exact Dict.get?_set_ne _ _ hsym
        · simp [ClientObs.emission?, Message.emission?, hs, hsym]

end ClientSession

namespace Pipeline

/-- **Everything a task step can do.** -/
inductive TaskStepped (p : Pipeline) : TaskAct → Pipeline → List ClientObs → Prop
  /-- The loop has handled the next event, up to its end or its snapshot read. -/
  | dispatched {event output r} (hw : p.task = .waiting)
      (hget : p.session.aggregator.output.getNowait = some (event, output))
      (hr : r = (p.session.withOutput output).dispatchEvent event)
      (hd : (p.session.withOutput output).Dispatched event r) :
      TaskStepped p .take ⟨r.1, r.2.1⟩ r.2.2
  | read {gapped result} (ht : p.task = .reading gapped) (hs : result.OfSymbol gapped.symbol) :
      TaskStepped p (.read result) { p with task := .resuming gapped result hs } []
  /-- The loop has finished a gap recovery. -/
  | recovered {gapped snapshot r} (hs : (ReadResult.value snapshot).OfSymbol gapped.symbol)
      (ht : p.task = .resuming gapped (.value snapshot) hs)
      (hr : r = p.session.recover gapped.symbol snapshot)
      (hd : p.session.Recovered gapped.symbol snapshot r) :
      TaskStepped p .resume ⟨r.1, .waiting⟩ r.2
  /-- The exception of the read has left the loop. -/
  | raised {gapped} (hs : ReadResult.raised.OfSymbol gapped.symbol)
      (ht : p.task = .resuming gapped .raised hs) :
      TaskStepped p .resume { p with task := .failed } []
  | flushed (hf : p.session.aggregator.flushTask = .running) :
      TaskStepped p .flush
        { p with session := { p.session with aggregator := p.session.aggregator.flush } } []
  | writerTook {m queue} (hw : p.session.writer = .waiting)
      (hget : p.session.queue.getNowait = some (m, queue)) :
      TaskStepped p .writerTake
        { p with session := { p.session with queue := queue, writer := .sending m } } []
  | writerSent {m} (hw : p.session.writer = .sending m)
      (hm : m.encodable p.session.encoding = true) (hrecord : m.unrecordable = false) :
      TaskStepped p .writerSent { p with session := { p.session with
        stats := { p.session.stats with sent := p.session.stats.sent + 1 } }.writerLoop } [.sent m]
  /-- The message is out, and its latency cannot be recorded. -/
  | writerUnrecorded {m} (hw : p.session.writer = .sending m)
      (hm : m.encodable p.session.encoding = true) (hrecord : m.unrecordable = true) :
      TaskStepped p .writerSent { p with session := { p.session with
        stats := { p.session.stats with sent := p.session.stats.sent + 1 }
        disconnected := true, writer := .stopped } } [.sent m]
  | writerFailed {m} (hw : p.session.writer = .sending m) :
      TaskStepped p .writerFailed
        { p with session := { p.session with disconnected := true, writer := .stopped } } []
  | writerLooped (hw : p.session.writer = .waiting) :
      TaskStepped p .writerTimeout { p with session := p.session.writerLoop } []

/-- **Inversion**: every task step is one of the constructors of `TaskStepped`. -/
theorem taskStepped {p p' : Pipeline} {a : TaskAct} {o : List ClientObs}
    (h : p.taskStep a = some (p', o)) : TaskStepped p a p' o := by
  cases a with
  | take =>
      simp only [taskStep] at h
      split at h
      · rename_i event output hw hget
        obtain ⟨rfl, rfl⟩ := Machine.outcome h
        exact .dispatched hw hget rfl ((p.session.withOutput output).dispatched event)
      · exact absurd h (by simp)
  | read result =>
      simp only [taskStep] at h
      split at h
      · rename_i gapped ht
        split at h
        · rename_i hs
          obtain ⟨rfl, rfl⟩ := Machine.outcome h
          exact .read ht hs
        · exact absurd h (by simp)
      · exact absurd h (by simp)
  | resume =>
      simp only [taskStep] at h
      split at h
      · rename_i gapped snapshot hs ht
        obtain ⟨rfl, rfl⟩ := Machine.outcome h
        exact .recovered hs ht rfl (p.session.recovered gapped.symbol snapshot)
      · rename_i gapped hs ht
        obtain ⟨rfl, rfl⟩ := Machine.outcome h
        exact .raised hs ht
      · exact absurd h (by simp)
  | flush =>
      simp only [taskStep] at h
      split at h
      · rename_i hf
        obtain ⟨rfl, rfl⟩ := Machine.outcome h
        exact .flushed hf
      · exact absurd h (by simp)
  | writerTake =>
      simp only [taskStep] at h
      split at h
      · rename_i m queue hw hget
        obtain ⟨rfl, rfl⟩ := Machine.outcome h
        exact .writerTook hw hget
      · exact absurd h (by simp)
  | writerSent =>
      simp only [taskStep] at h
      split at h
      · rename_i m hw
        split at h
        · rename_i hm
          split at h
          · rename_i hrecord
            obtain ⟨rfl, rfl⟩ := Machine.outcome h
            exact .writerUnrecorded hw hm hrecord
          · rename_i hrecord
            obtain ⟨rfl, rfl⟩ := Machine.outcome h
            exact .writerSent hw hm (Bool.eq_false_iff.mpr hrecord)
        · exact absurd h (by simp)
      · exact absurd h (by simp)
  | writerFailed =>
      simp only [taskStep] at h
      split at h
      · rename_i m hw
        obtain ⟨rfl, rfl⟩ := Machine.outcome h
        exact .writerFailed hw
      · exact absurd h (by simp)
  | writerTimeout =>
      simp only [taskStep] at h
      split at h
      · rename_i hw
        obtain ⟨rfl, rfl⟩ := Machine.outcome h
        exact .writerLooped hw
      · exact absurd h (by simp)

/-- A task step that dispatches nothing: the flush, the writer, or the read itself. -/
structure Background (a : TaskAct) (p p' : Pipeline) (o : List ClientObs) : Prop where
  fields : ∃ q st w d, p'.session = { p.session with
    aggregator := p'.session.aggregator, queue := q, stats := st, writer := w, disconnected := d }
  aggregator : p'.session.aggregator = p.session.aggregator ∨
    p'.session.aggregator = p.session.aggregator.flush
  task : p'.task = p.task ∨
    (∃ event r h, a = .read r ∧ p.task = .reading event ∧ p'.task = .resuming event r h) ∨
    (∃ event h, p.task = .resuming event .raised h ∧ p'.task = .failed)
  obs : ∀ x ∈ o, ∃ m, x = .sent m

/-- **Everything a task step can do**: dispatch the next event, finish a gap recovery, or
run in the background. -/
theorem taskStep_cases {p p' : Pipeline} {a : TaskAct} {o : List ClientObs}
    (h : p.taskStep a = some (p', o)) :
    (∃ event output, a = .take ∧ p.task = .waiting ∧
      p.session.aggregator.output.getNowait = some (event, output) ∧
      p' = ⟨((p.session.withOutput output).dispatchEvent event).1,
        ((p.session.withOutput output).dispatchEvent event).2.1⟩ ∧
      o = ((p.session.withOutput output).dispatchEvent event).2.2) ∨
    (∃ event snapshot hs, a = .resume ∧ p.task = .resuming event (.value snapshot) hs ∧
      p' = ⟨(p.session.recover event.symbol snapshot).1, .waiting⟩ ∧
      o = (p.session.recover event.symbol snapshot).2) ∨
    Background a p p' o := by
  cases taskStepped h with
  | dispatched hw hget hr =>
      subst hr
      exact Or.inl ⟨_, _, rfl, hw, hget, rfl, rfl⟩
  | recovered hs ht hr =>
      subst hr
      exact Or.inr (Or.inl ⟨_, _, hs, rfl, ht, rfl, rfl⟩)
  | read ht hs =>
      exact Or.inr (Or.inr ⟨⟨_, _, _, _, rfl⟩, Or.inl rfl,
        Or.inr (Or.inl ⟨_, _, hs, rfl, ht, rfl⟩), by simp⟩)
  | raised hs ht =>
      exact Or.inr
        (Or.inr ⟨⟨_, _, _, _, rfl⟩, Or.inl rfl, Or.inr (Or.inr ⟨_, hs, ht, rfl⟩), by simp⟩)
  | flushed hf =>
      exact Or.inr (Or.inr ⟨⟨_, _, _, _, rfl⟩, Or.inr rfl, Or.inl rfl, by simp⟩)
  | writerTook | writerSent | writerUnrecorded | writerFailed | writerLooped =>
      exact Or.inr (Or.inr ⟨⟨_, _, _, _, rfl⟩, Or.inl rfl, Or.inl rfl, by simp⟩)

/-- **Inversion of `take`**: the loop dispatches the event at the head of the output. -/
theorem take_cases {p p' : Pipeline} {o : List ClientObs} (h : p.taskStep .take = some (p', o)) :
    ∃ event rest, p.task = .waiting ∧ p.session.aggregator.output.items = event :: rest ∧
      p' = ⟨((p.session.withOutput p.session.aggregator.output.pop).dispatchEvent event).1,
        ((p.session.withOutput p.session.aggregator.output.pop).dispatchEvent event).2.1⟩ ∧
      o = ((p.session.withOutput p.session.aggregator.output.pop).dispatchEvent event).2.2 := by
  cases taskStepped h with
  | dispatched hw hget hr =>
      subst hr
      obtain ⟨⟨rest, hitems⟩, rfl⟩ := BoundedQueue.getNowait_eq_some.mp hget
      exact ⟨_, rest, hw, hitems, rfl, rfl⟩

/-- Background observations are no market messages. -/
theorem Background.emissions_eq {a : TaskAct} {p p' : Pipeline} {o : List ClientObs}
    (h : Background a p p' o) (symbol : PyStr) : emissions symbol o = [] := by
  refine List.filterMap_eq_nil_iff.mpr fun x hx => ?_
  obtain ⟨m, rfl⟩ := h.obs x hx
  rfl

/-- **One task step moves a symbol's boundary by one guarded move.** -/
theorem taskStep_move {p p' : Pipeline} {a : TaskAct} {o : List ClientObs}
    (h : p.taskStep a = some (p', o)) (symbol : PyStr) :
    ∃ mv, BoundaryStep (p.session.lastSeq.get? symbol) (p'.session.lastSeq.get? symbol)
        (emissions symbol o) mv ∧
      (p.session.aggregator.mode = .raw → mv.Successor (· + 1) (p.session.lastSeq.get? symbol)) ∧
      (p.session.policy = .dropOldest → p.session.filters.get? symbol = none → mv.Visible) := by
  rcases taskStep_cases h with
    ⟨event, output, -, -, -, rfl, rfl⟩ | ⟨gapped, snapshot, hs, -, -, rfl, rfl⟩ | hbg
  · exact (p.session.withOutput output).dispatchEvent_move event symbol
  · obtain ⟨mv, hmv, hsucc, hvis⟩ := p.session.recover_move hs symbol
    exact ⟨mv, hmv, fun _ => hsucc, fun _ _ => hvis⟩
  · obtain ⟨q, st, w, d, hf⟩ := hbg.fields
    exact ⟨.keep, .refl (by rw [hf]) (hbg.emissions_eq symbol), fun _ => trivial,
      fun _ _ => trivial⟩

/-- The settings a task step never touches. -/
structure SameSettings (s s' : ClientSession) : Prop where
  clientId : s'.clientId = s.clientId
  encoding : s'.encoding = s.encoding
  policy : s'.policy = s.policy
  subscriptions : s'.subscriptions = s.subscriptions
  filters : s'.filters = s.filters
  mode : s'.aggregator.mode = s.aggregator.mode

theorem taskStep_settings {p p' : Pipeline} {a : TaskAct} {o : List ClientObs}
    (h : p.taskStep a = some (p', o)) : SameSettings p.session p'.session := by
  cases taskStepped h with
  | dispatched hw hget hr hd => cases hd <;> exact ⟨rfl, rfl, rfl, rfl, rfl, rfl⟩
  | recovered hs ht hr hd => cases hd <;> exact ⟨rfl, rfl, rfl, rfl, rfl, rfl⟩
  | flushed hf => exact ⟨rfl, rfl, rfl, rfl, rfl, AggregationBuffer.flush_mode _⟩
  | read | raised | writerTook | writerSent | writerUnrecorded | writerFailed | writerLooped =>
      exact ⟨rfl, rfl, rfl, rfl, rfl, rfl⟩

end Pipeline

end MarketData.Gateway
