import MarketData.Gateway.Ordering
import MarketData.Lib.Windows

/-!
# MarketData.Gateway.Aggregation

**Coalescing in AGG_100MS mode.** The aggregator keeps one mutable map from symbol to event, which
pushes overwrite and each flush empties into the output queue, while the dispatch loop takes from
the output. The reference is a grouping of the whole history: cut it into windows at the flushes and
take the last event of each symbol in each window (`Windows.lasts`). As long as the output has room
(`Room`), what has come out of it, restricted to a symbol, is exactly that (`aggregation_exact`).

`Aggregated` is the inversion: what any step of a client can do to its aggregator, with the events
it takes.
-/

namespace MarketData.Gateway

/-! ### Pushed, taken, flushed -/

/-- The event the dispatch loop takes from the output. -/
def ClientObs.taken? : ClientObs → Option MarketEvent
  | .handled e | .unlogged e => some e
  | _ => none

/-- The events the dispatch loop took, in order. -/
def takes (h : List ClientObs) : List MarketEvent := h.filterMap ClientObs.taken?

theorem takes_append (h h' : List ClientObs) : takes (h ++ h') = takes h ++ takes h' :=
  List.filterMap_append

theorem mem_takes {h : List ClientObs} {e : MarketEvent} :
    e ∈ takes h ↔ .handled e ∈ h ∨ .unlogged e ∈ h := by
  constructor
  · intro he
    obtain ⟨x, hx, hxe⟩ := List.mem_filterMap.mp he
    cases x with
    | handled => exact Or.inl (Option.some.inj hxe ▸ hx)
    | unlogged => exact Or.inr (Option.some.inj hxe ▸ hx)
    | withheld | accepted | refused | pushed | sent => cases hxe
  · rintro (he | he)
    · exact List.mem_filterMap.mpr ⟨_, he, rfl⟩
    · exact List.mem_filterMap.mpr ⟨_, he, rfl⟩

/-- Is the event one of `symbol`? -/
def ofSymbol (symbol : PyStr) (e : MarketEvent) : Bool := decide (e.symbol = symbol)

theorem ofSymbol_iff {symbol : PyStr} {e : MarketEvent} :
    ofSymbol symbol e = true ↔ e.symbol = symbol :=
  decide_eq_true_iff

/-- What an action does to the open window: a push goes into it, a flush closes it. -/
def Pipeline.Act.window? : Pipeline.Act → Option (Option MarketEvent)
  | .push event => some (some event)
  | .task .flush => some none
  | _ => none

/-- The pushes of a run cut into windows by its flushes: the closed windows and the open one. -/
def Pipeline.windowsOf (acts : List Pipeline.Act) : List (List MarketEvent) × List MarketEvent :=
  windows (acts.filterMap Pipeline.Act.window?)

/-! ### One step -/

/-- **What a step does to the aggregator**, with the events it takes from it. -/
inductive Aggregated (b b' : AggregationBuffer) (o : List ClientObs) : Pipeline.Act → Prop
  | pushed (event : MarketEvent) (hb : b' = b.push event) (ho : takes o = []) :
      Aggregated b b' o (.push event)
  | flushed (hb : b' = b.flush) (ho : takes o = []) : Aggregated b b' o (.task .flush)
  | taken (event : MarketEvent) (rest : List MarketEvent) (hitems : b.output.items = event :: rest)
      (hb : b' = { b with output := b.output.pop }) (ho : takes o = [event]) :
      Aggregated b b' o (.task .take)
  | still {a : Pipeline.Act} (ha : a.window? = none) (hb : b' = b) (ho : takes o = []) :
      Aggregated b b' o a

namespace ClientSession

/-- Dispatching an event takes it and nothing else. -/
theorem takes_dispatchEvent (s : ClientSession) (event : MarketEvent) :
    takes (s.dispatchEvent event).2.2 = [event] := by
  have hd := s.dispatched event
  generalize s.dispatchEvent event = r at hd ⊢
  cases hd <;> rfl

theorem aggregator_dispatchEvent (s : ClientSession) (event : MarketEvent) :
    (s.dispatchEvent event).1.aggregator = s.aggregator := by
  have hd := s.dispatched event
  generalize s.dispatchEvent event = r at hd ⊢
  cases hd <;> rfl

end ClientSession

namespace Pipeline

variable {p p' : Pipeline} {a : Act} {o : List ClientObs}

theorem aggregated_taskStep {t : TaskAct} (h : p.taskStep t = some (p', o)) :
    Aggregated p.session.aggregator p'.session.aggregator o (.task t) := by
  cases taskStepped h with
  | flushed => exact .flushed rfl rfl
  | dispatched hw hget hr hd =>
      subst hr
      obtain ⟨⟨rest, hitems⟩, rfl⟩ := BoundedQueue.getNowait_eq_some.mp hget
      refine .taken _ rest hitems ?_ (ClientSession.takes_dispatchEvent ..)
      exact ClientSession.aggregator_dispatchEvent ..
  | recovered hs ht hr hd =>
      refine .still rfl ?_ ?_
      · cases hd <;> rfl
      · cases hd <;> rfl
  | read | raised | writerTook | writerSent | writerUnrecorded | writerFailed | writerLooped =>
      exact .still rfl rfl rfl

theorem aggregated_step (h : p.step a = some (p', o)) :
    Aggregated p.session.aggregator p'.session.aggregator o a := by
  cases a with
  | push event =>
      obtain ⟨rfl, rfl⟩ := Machine.outcome h
      exact .pushed event rfl rfl
  | error text =>
      simp only [step, ClientSession.enqueueError_eq] at h
      obtain ⟨rfl, rfl⟩ := Machine.outcome h
      refine .still rfl (ClientSession.enqueue_aggregator ..) ?_
      cases (p.session.enqueue (.error text)).1 <;> rfl
  | task t => exact aggregated_taskStep h

end Pipeline

/-! ### A flush with room -/

/-- **The condition**: at a flush, the output has room for the window. -/
def Room (p : Pipeline) (a : Pipeline.Act) : Prop :=
  a = .task .flush →
    p.session.aggregator.output.items.length + p.session.aggregator.buffer.values.length ≤
      p.session.aggregator.output.maxsize

instance (p : Pipeline) (a : Pipeline.Act) : Decidable (Room p a) :=
  inferInstanceAs (Decidable (_ → _))

namespace AggregationBuffer

theorem output_foldl_putLatest (es : List MarketEvent) (b : AggregationBuffer) :
    (es.foldl putLatest b).output = es.foldl BoundedQueue.putEvict b.output := by
  induction es generalizing b with
  | nil => rfl
  | cons e es ih => exact ih (b.putLatest e)

/-- **What a flush leaves in the output**: the newest of what was there and the window. -/
theorem items_flush (b : AggregationBuffer) :
    b.flush.output.items = (b.output.items ++ b.buffer.values).drop
      (b.output.items.length + b.buffer.values.length - b.output.maxsize) := by
  show (b.buffer.values.foldl putLatest b).output.items = _
  rw [output_foldl_putLatest, BoundedQueue.items_foldl_putEvict]

theorem items_flush_of_room {b : AggregationBuffer}
    (hroom : b.output.items.length + b.buffer.values.length ≤ b.output.maxsize) :
    b.flush.output.items = b.output.items ++ b.buffer.values := by
  rw [items_flush, Nat.sub_eq_zero_of_le hroom, List.drop_zero]

end AggregationBuffer

/-! ### The map and the windows -/

open Windows

/-- After the actions `acts`, the map holds the last event of each symbol in the open window. -/
structure Windowed (b : AggregationBuffer) (acts : List Pipeline.Act) : Prop where
  mode : b.mode = .agg100ms
  latest : ∀ symbol, b.buffer.get? symbol =
    ((Pipeline.windowsOf acts).2.filter (ofSymbol symbol)).getLast?

/-- After the actions `acts` and the observations `h`, what was put on the output is, of each
symbol, the last event in each closed window. -/
def Exact (b₀ b : AggregationBuffer) (acts : List Pipeline.Act) (h : List ClientObs) : Prop :=
  ∀ symbol, (takes h ++ b.output.items).filter (ofSymbol symbol) =
    b₀.output.items.filter (ofSymbol symbol) ++
      lasts (ofSymbol symbol) (Pipeline.windowsOf acts).1

namespace Pipeline

theorem windowsOf_push (acts : List Act) (event : MarketEvent) :
    windowsOf (acts ++ [.push event]) =
      ((windowsOf acts).1, (windowsOf acts).2 ++ [event]) := by
  rw [windowsOf, List.filterMap_append]
  exact windows_value _ event

theorem windowsOf_flush (acts : List Act) :
    windowsOf (acts ++ [.task .flush]) = ((windowsOf acts).1 ++ [(windowsOf acts).2], []) := by
  rw [windowsOf, List.filterMap_append]
  exact windows_mark _

theorem windowsOf_other (acts : List Act) {a : Act} (ha : a.window? = none) :
    windowsOf (acts ++ [a]) = windowsOf acts := by
  rw [windowsOf, List.filterMap_append, List.filterMap_cons_none ha, List.filterMap_nil,
    List.append_nil]
  rfl

end Pipeline

namespace Windowed

variable {b b' : AggregationBuffer} {acts : List Pipeline.Act} {o : List ClientObs}

/-- The map stores every event under its own symbol. -/
theorem keyed (hw : Windowed b acts) : b.Keyed := by
  intro symbol e he
  rw [hw.latest] at he
  exact ofSymbol_iff.mp (List.mem_filter.mp (List.mem_of_getLast? he)).2

/-- The map holds one event of a symbol at most: the last one of the open window. -/
theorem filter_values (hw : Windowed b acts) (symbol : PyStr) :
    b.buffer.values.filter (ofSymbol symbol) =
      ((Pipeline.windowsOf acts).2.filter (ofSymbol symbol)).getLast?.toList := by
  rw [← hw.latest]
  exact Dict.filter_values_of_keyed hw.keyed symbol

/-- In AGG_100MS mode a push overwrites the map and nothing else. -/
theorem push_eq (hw : Windowed b acts) (event : MarketEvent) :
    b.push event = { b with buffer := b.buffer.set event.symbol event } := by
  rw [AggregationBuffer.push, hw.mode]

/-- **One step keeps the map in step with the open window.** -/
theorem step {a : Pipeline.Act} (hw : Windowed b acts) (ha : Aggregated b b' o a) :
    Windowed b' (acts ++ [a]) := by
  cases ha with
  | pushed event hb ho =>
      refine ⟨hb ▸ (b.push_mode event).trans hw.mode, fun symbol => ?_⟩
      rw [hb, hw.push_eq, Pipeline.windowsOf_push, getLast?_filter_concat, Dict.get?_set, hw.latest]
      exact if_congr ofSymbol_iff.symm rfl rfl
  | flushed hb ho =>
      refine ⟨hb ▸ b.flush_mode.trans hw.mode, fun symbol => ?_⟩
      rw [hb, Pipeline.windowsOf_flush]
      rfl
  | taken event rest hitems hb ho =>
      refine ⟨hb ▸ hw.mode, fun symbol => ?_⟩
      rw [hb, Pipeline.windowsOf_other acts rfl]
      exact hw.latest symbol
  | still ha hb ho =>
      rw [hb]
      refine ⟨hw.mode, fun symbol => ?_⟩
      rw [Pipeline.windowsOf_other acts ha]
      exact hw.latest symbol

theorem nil (hmode : b.mode = .agg100ms) (hempty : b.buffer = .empty) : Windowed b [] := by
  refine ⟨hmode, fun symbol => ?_⟩
  rw [hempty]
  rfl

/-- **One step with room puts the last event of each symbol in the window it closes.** -/
theorem step_exact {b₀ : AggregationBuffer} {a : Pipeline.Act} {h : List ClientObs}
    (hw : Windowed b acts) (hroom : a = .task .flush →
      b.output.items.length + b.buffer.values.length ≤ b.output.maxsize)
    (hex : Exact b₀ b acts h) (ha : Aggregated b b' o a) :
    Exact b₀ b' (acts ++ [a]) (h ++ o) := by
  intro symbol
  cases ha with
  | pushed event hb ho =>
      rw [hb, hw.push_eq, Pipeline.windowsOf_push, takes_append, ho, List.append_nil]
      exact hex symbol
  | flushed hb ho =>
      have hitems := AggregationBuffer.items_flush_of_room (hroom rfl)
      rw [← hb] at hitems
      -- the map goes out behind what was there: one window more
      rw [Pipeline.windowsOf_flush, takes_append, ho, List.append_nil, hitems, ← List.append_assoc,
        List.filter_append, hex, hw.filter_values, lasts_concat, List.append_assoc]
  | taken event rest hitems hb ho =>
      have hpop : b'.output.items = rest := by
        rw [hb]
        show b.output.items.tail = rest
        rw [hitems]
        rfl
      rw [Pipeline.windowsOf_other acts rfl, takes_append, ho, hpop, List.append_assoc,
        List.singleton_append, ← hitems]
      exact hex symbol
  | still ha hb ho =>
      rw [hb, Pipeline.windowsOf_other acts ha, takes_append, ho, List.append_nil]
      exact hex symbol

/-- **Every run with room from an empty window is exact.** -/
theorem run {p p' : Pipeline} {h : List ClientObs}
    (hmode : p.session.aggregator.mode = .agg100ms)
    (hempty : p.session.aggregator.buffer = .empty)
    (hroom : Machine.Along Pipeline.step Room p acts)
    (hr : Machine.run Pipeline.step p acts = some (p', h)) :
    Windowed p'.session.aggregator acts ∧
      Exact p.session.aggregator p'.session.aggregator acts h := by
  refine Machine.run_invariant_traced (C := Room)
    (I := fun q acts h => Windowed q.session.aggregator acts ∧
      Exact p.session.aggregator q.session.aggregator acts h) ?_
    ⟨.nil hmode hempty, fun symbol => (List.append_nil _).symm⟩ hroom hr
  intro q a q' o acts h hC hI hs
  have hstep := Pipeline.aggregated_step hs
  exact ⟨hI.1.step hstep, hI.1.step_exact hC hI.2 hstep⟩

end Windowed

/-! ### The coalescing guarantee -/

/-- A later event of its symbol has superseded `e` in the window `w`. -/
def Superseded (e : MarketEvent) (w : List MarketEvent) : Prop :=
  ∃ w₁ w₂, w = w₁ ++ e :: w₂ ∧ ∃ later ∈ w₂, later.symbol = e.symbol

/-- A flush puts at most one event of a symbol on the output, and empties the map. -/
def FlushesOnce (p : Pipeline) (a : Pipeline.Act) : Prop :=
  a = .task .flush → ∀ p' o, p.step a = some (p', o) →
    p'.session.aggregator.buffer = .empty ∧
    ∃ events, (events.map MarketEventOf.symbol).Nodup ∧
      p'.session.aggregator.output.items = p.session.aggregator.output.items ++ events

theorem FlushesOnce.of_room {p : Pipeline} {a : Pipeline.Act} (hk : p.session.aggregator.Keyed)
    (hroom : Room p a) : FlushesOnce p a := by
  intro ha p' o hs
  have hstep := Pipeline.aggregated_step hs
  subst ha
  cases hstep with
  | flushed hb ho =>
      rw [hb]
      exact ⟨rfl, p.session.aggregator.buffer.values, Dict.nodup_map_values_of_keyed hk,
        AggregationBuffer.items_flush_of_room (hroom rfl)⟩
  | still ha hb ho => cases ha

/-- **AGG_100MS coalescing is exact.** In every run of an AGG_100MS client from an empty window, as
long as the output has room for each flush: what was put on the output, of each symbol, is the last
event pushed for it in each closed window, in window order; no flush puts a symbol twice, and each
one empties the map; and every pushed event is in one window, where it has been put on the output
(or, in the open window, is held for the next flush) or been superseded. -/
theorem aggregation_exact {p p' : Pipeline} {acts : List Pipeline.Act} {h : List ClientObs}
    (hmode : p.session.aggregator.mode = .agg100ms)
    (hempty : p.session.aggregator.buffer = .empty)
    (hroom : Machine.Along Pipeline.step Room p acts)
    (hr : Machine.run Pipeline.step p acts = some (p', h)) :
    (∀ symbol, (takes h ++ p'.session.aggregator.output.items).filter (ofSymbol symbol) =
      p.session.aggregator.output.items.filter (ofSymbol symbol) ++
        lasts (ofSymbol symbol) (Pipeline.windowsOf acts).1) ∧
    Machine.Along Pipeline.step FlushesOnce p acts ∧
    (Pipeline.windowsOf acts).1.flatten ++ (Pipeline.windowsOf acts).2 =
      acts.filterMap (fun a => a.window?.join) ∧
    (∀ w ∈ (Pipeline.windowsOf acts).1, ∀ e ∈ w,
      e ∈ takes h ++ p'.session.aggregator.output.items ∨ Superseded e w) ∧
    ∀ e ∈ (Pipeline.windowsOf acts).2,
      p'.session.aggregator.buffer.get? e.symbol = some e ∨
        Superseded e (Pipeline.windowsOf acts).2 := by
  obtain ⟨hw, hexact⟩ := Windowed.run hmode hempty hroom hr
  have hlast : ∀ (w : List MarketEvent), ∀ e ∈ w,
      (w.filter (ofSymbol e.symbol)).getLast? = some e ∨ Superseded e w := by
    intro w e he
    refine (last_or_superseded he (ofSymbol_iff.mpr rfl)).imp_right ?_
    intro ⟨w₁, w₂, heq, later, hmem, hsym⟩
    exact ⟨w₁, w₂, heq, later, hmem, ofSymbol_iff.mp hsym⟩
  refine ⟨hexact, ?_, ?_, ?_, ?_⟩
  · refine Machine.Along.imp_of_run (P := fun q => q.session.aggregator.Keyed) ?_ ?_ hroom hr
    · intro q a q' o hk hC hs
      refine ⟨?_, .of_room hk hC⟩
      have hstep := Pipeline.aggregated_step hs
      cases hstep with
      | pushed event hb ho => exact hb ▸ AggregationBuffer.keyed_push hk event
      | flushed hb ho => exact hb ▸ AggregationBuffer.keyed_flush _
      | taken event rest hitems hb ho => exact hb ▸ hk
      | still ha hb ho => exact hb ▸ hk
    · intro symbol e he
      rw [hempty] at he
      cases he
  · rw [Pipeline.windowsOf, flatten_windows, List.filterMap_filterMap]
    refine List.filterMap_congr fun a _ => ?_
    cases a.window? <;> rfl
  · intro w hw' e he
    refine (hlast w e he).imp_left fun hlast => ?_
    have hmem : e ∈ (takes h ++ p'.session.aggregator.output.items).filter (ofSymbol e.symbol) := by
      rw [hexact]
      exact List.mem_append_right _ (mem_lasts hw' hlast)
    exact (List.mem_filter.mp hmem).1
  · intro e he
    rw [hw.latest]
    exact hlast _ e he

/-- An AGG_100MS client whose loops are idle. -/
def aggregatedClient : Pipeline :=
  { session := { clientId := "c1", aggregator := { mode := .agg100ms, flushTask := .running } }
    task := .waiting }

/-- Two windows: two pushes of one symbol around one of another, a take, then one more push. -/
def windowActs : List Pipeline.Act :=
  [.push (.quote "A" 1), .push (.quote "B" 1), .push (.quote "A" 2), .task .flush, .task .take,
    .push (.quote "A" 3), .task .flush]

theorem aggregation_exact_windows :
    ∃ p' h, Machine.run Pipeline.step aggregatedClient windowActs = some (p', h) ∧
      takes h = [.quote "A" 2] ∧
      (takes h ++ p'.session.aggregator.output.items).filter (ofSymbol "A") =
        lasts (ofSymbol "A") [[.quote "A" 1, .quote "B" 1, .quote "A" 2], [.quote "A" 3]] :=
  ⟨_, _, rfl, rfl,
    (@aggregation_exact aggregatedClient _ windowActs _ rfl rfl (by decide) rfl).1 "A"⟩

end MarketData.Gateway
