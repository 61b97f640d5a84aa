import MarketData.Gateway.Aggregation

/-!
# MarketData.Gateway.Replay

**Replays in AGG_100MS mode.** A replayed event is meant to be rejected by the per-symbol sequence
state (`classify_sequence`), but coalescing comes first: in the aggregator's map an older event
overwrites a newer one of its window, and the newer one never reaches the sequence check. Whether a
run hides a newer event is decided by its pushes alone (`replay_hidden_iff`): each one that was
flushed has to be as old as the boundary or as the last event of its symbol in some window.

In AGG_100MS mode no gap is ever detected, so the loop never reads a snapshot (`settles_step`) and
the boundary is the newest of what it has taken.
-/

namespace MarketData.Gateway

open Windows

/-! ### Flushed events -/

/-- `event` was pushed before a flush. -/
def Flushed (acts : List Pipeline.Act) (event : MarketEvent) : Prop :=
  ∃ before after, acts = before ++ .task .flush :: after ∧ .push event ∈ before

/-! ### The boundary in AGG_100MS mode -/

namespace ClientSession

/-- **Without gap detection the loop never reads a snapshot.** -/
theorem dispatchEvent_waiting {s : ClientSession} (hm : s.aggregator.mode = .agg100ms)
    (event : MarketEvent) : (s.dispatchEvent event).2.1 = .waiting := by
  unfold dispatchEvent
  rcases s.classifySequence_cases event.symbol event.seq (decide (s.aggregator.mode = .raw)) with
    ⟨last, -, -, hc⟩ | ⟨last, -, -, hg, -⟩ | ⟨-, hc⟩ | ⟨last, -, -, hg, -⟩
  · rw [hc]
  · rw [hm] at hg
    cases hg
  · rw [hc]
    dsimp only
    split
    · rfl
    · split <;> rfl
  · rw [hm] at hg
    cases hg

end ClientSession

/-- How a step that took the events `es` moves the boundary `b` of `symbol`: to the newest of `b`
and `es`. -/
structure Settles (symbol : PyStr) (es : List MarketEvent) (b b' : Option Int) : Prop where
  kept : ∀ l ∈ b, ∃ l' ∈ b', l ≤ l'
  reached : ∀ e ∈ es, e.symbol = symbol → ∃ l' ∈ b', e.seq ≤ l'
  origin : ∀ l' ∈ b', l' ∈ b ∨ ∃ e ∈ es, e.symbol = symbol ∧ e.seq = l'

theorem Settles.refl (symbol : PyStr) (b : Option Int) : Settles symbol [] b b :=
  ⟨fun l hl => ⟨l, hl, le_refl l⟩, by simp, fun l hl => Or.inl hl⟩

namespace ClientSession

theorem settles_dispatchEvent {s : ClientSession} (hm : s.aggregator.mode = .agg100ms)
    (event : MarketEvent) (symbol : PyStr) :
    Settles symbol [event] (s.lastSeq.get? symbol)
      ((s.dispatchEvent event).1.lastSeq.get? symbol) := by
  have hwait := dispatchEvent_waiting hm event
  have hd := s.dispatched event
  generalize s.dispatchEvent event = r at hd hwait ⊢
  have hset : (∀ l ∈ s.lastSeq.get? event.symbol,
      l < event.seq ∧ (s.aggregator.mode = .raw → event.seq = l + 1)) →
      Settles symbol [event] (s.lastSeq.get? symbol)
        ((s.lastSeq.set event.symbol event.seq).get? symbol) := by
    intro hn
    by_cases hs : event.symbol = symbol
    · subst hs
      rw [Dict.get?_set_self]
      refine ⟨fun l hl => ⟨event.seq, rfl, le_of_lt (hn l hl).1⟩, fun e he _ => ?_, fun l hl => ?_⟩
      · obtain rfl := List.mem_singleton.mp he
        exact ⟨e.seq, rfl, le_refl _⟩
      · exact Or.inr ⟨event, List.mem_singleton_self event, rfl, Option.some.inj hl⟩
    · rw [Dict.get?_set_ne _ _ hs]
      refine ⟨(Settles.refl symbol _).kept, fun e he hes => ?_, fun l hl => Or.inl hl⟩
      obtain rfl := List.mem_singleton.mp he
      exact absurd hes hs
  cases hd with
  | stale hl hle =>
      refine ⟨(Settles.refl symbol _).kept, fun e he hes => ?_, fun l hl => Or.inl hl⟩
      obtain rfl := List.mem_singleton.mp he
      exact ⟨_, hes ▸ hl, hle⟩
  | gap | unlogged => cases hwait
  | withheld hn hd => exact hset hn
  | accepted q stats d hn hd hq => exact hset hn
  | refused q stats d hn hd hp hq => exact hset hn

end ClientSession

/-- **In AGG_100MS mode the loop stays out of gap recovery, and every step settles the
boundary.** -/
theorem Pipeline.settles_step {p p' : Pipeline} {a : Pipeline.Act} {o : List ClientObs}
    (hm : p.session.aggregator.mode = .agg100ms) (hidle : p.task.event? = none)
    (h : p.step a = some (p', o)) (symbol : PyStr) :
    p'.task.event? = none ∧
    Settles symbol (takes o) (p.session.lastSeq.get? symbol)
      (p'.session.lastSeq.get? symbol) := by
  have hsame : p'.session.lastSeq = p.session.lastSeq → takes o = [] →
      Settles symbol (takes o) (p.session.lastSeq.get? symbol)
        (p'.session.lastSeq.get? symbol) := by
    intro hl ho
    rw [hl, ho]
    exact .refl symbol _
  rcases step_cases h with ⟨t, rfl, ht⟩ | ⟨-, hl, -, htask, ho⟩
  · rcases taskStep_cases ht with
      ⟨event, output, -, -, -, rfl, rfl⟩ | ⟨gapped, snapshot, hs, -, htask, -, -⟩ | hbg
    · have hm' : (p.session.withOutput output).aggregator.mode = .agg100ms := hm
      refine ⟨?_, ?_⟩
      · show ((p.session.withOutput output).dispatchEvent event).2.1.event? = none
        rw [ClientSession.dispatchEvent_waiting hm' event]
        rfl
      · have hstep := ClientSession.settles_dispatchEvent hm' event symbol
        rw [ClientSession.takes_dispatchEvent]
        exact hstep
    · rw [htask] at hidle
      cases hidle
    · obtain ⟨q, st, w, d, hf⟩ := hbg.fields
      refine ⟨?_, hsame (by rw [hf]) ?_⟩
      · rcases hbg.task with htask | ⟨event, r, hr, -, htask, -⟩ | ⟨event, hr, htask, -⟩
        · rwa [htask]
        · rw [htask] at hidle
          cases hidle
        · rw [htask] at hidle
          cases hidle
      · refine List.filterMap_eq_nil_iff.mpr fun x hx => ?_
        obtain ⟨m, rfl⟩ := hbg.obs x hx
        rfl
  · refine ⟨htask ▸ hidle, hsame hl (List.filterMap_eq_nil_iff.mpr fun x hx => ?_)⟩
    rcases ho x hx with ⟨e, rfl⟩ | ⟨ok, text, rfl⟩
    · rfl
    · cases ok <;> rfl

/-! ### What the output is offered -/

/-- The events of `symbol` that were in the output at first or are the last of their window. -/
def offered (b₀ : AggregationBuffer) (acts : List Pipeline.Act) (symbol : PyStr) :
    List MarketEvent :=
  b₀.output.items.filter (ofSymbol symbol) ++
    lasts (ofSymbol symbol) (Pipeline.windowsOf acts).1

theorem offered_nil (b₀ : AggregationBuffer) (symbol : PyStr) :
    offered b₀ [] symbol = b₀.output.items.filter (ofSymbol symbol) :=
  List.append_nil _

theorem offered_flush (b₀ : AggregationBuffer) {b : AggregationBuffer} {acts : List Pipeline.Act}
    (hw : Windowed b acts) (symbol : PyStr) :
    offered b₀ (acts ++ [.task .flush]) symbol =
      offered b₀ acts symbol ++ b.buffer.values.filter (ofSymbol symbol) := by
  rw [offered, Pipeline.windowsOf_flush, lasts_concat, ← hw.filter_values, offered,
    List.append_assoc]

theorem offered_push (b₀ : AggregationBuffer) (acts : List Pipeline.Act) (event : MarketEvent)
    (symbol : PyStr) : offered b₀ (acts ++ [.push event]) symbol = offered b₀ acts symbol := by
  rw [offered, Pipeline.windowsOf_push, offered]

theorem offered_other (b₀ : AggregationBuffer) (acts : List Pipeline.Act) {a : Pipeline.Act}
    (ha : a.window? = none) (symbol : PyStr) :
    offered b₀ (acts ++ [a]) symbol = offered b₀ acts symbol := by
  rw [offered, Pipeline.windowsOf_other acts ha, offered]

/-- **The condition at a flush**: what a full output gives up of the symbol is no newer than the
boundary or than what it keeps. With room it gives up nothing. -/
def OverflowHarmless (symbol : PyStr) (p : Pipeline) (a : Pipeline.Act) : Prop :=
  a = .task .flush →
    let b := p.session.aggregator
    let n := b.output.items.length + b.buffer.values.length - b.output.maxsize
    ∀ x ∈ (b.output.items ++ b.buffer.values).take n, x.symbol = symbol →
      (∃ l ∈ p.session.lastSeq.get? symbol, x.seq ≤ l) ∨
      ∃ y ∈ (b.output.items ++ b.buffer.values).drop n, y.symbol = symbol ∧ x.seq ≤ y.seq

theorem OverflowHarmless.of_room {p : Pipeline} {a : Pipeline.Act} (h : Room p a)
    (symbol : PyStr) : OverflowHarmless symbol p a := by
  intro ha b n x hx
  have hn : n = 0 := Nat.sub_eq_zero_of_le (h ha)
  rw [hn] at hx
  simp at hx

/-- What holds of `symbol` after the actions `acts` have taken an AGG_100MS client from `p₀` to
`p`. -/
structure Carried (symbol : PyStr) (p₀ p : Pipeline) (acts : List Pipeline.Act) : Prop where
  windowed : Windowed p.session.aggregator acts
  idle : p.task.event? = none
  kept : ∀ l ∈ p₀.session.lastSeq.get? symbol, ∃ l' ∈ p.session.lastSeq.get? symbol, l ≤ l'
  /-- What was offered is behind the boundary or behind something in the output. -/
  reached : ∀ x ∈ offered p₀.session.aggregator acts symbol,
    (∃ l ∈ p.session.lastSeq.get? symbol, x.seq ≤ l) ∨
    ∃ y ∈ p.session.aggregator.output.items, y.symbol = symbol ∧ x.seq ≤ y.seq
  source : ∀ y ∈ p.session.aggregator.output.items, y.symbol = symbol →
    y ∈ offered p₀.session.aggregator acts symbol
  /-- The boundary is the initial one or something that was offered. -/
  origin : ∀ l ∈ p.session.lastSeq.get? symbol, l ∈ p₀.session.lastSeq.get? symbol ∨
    ∃ x ∈ offered p₀.session.aggregator acts symbol, x.seq = l

namespace Carried

variable {symbol : PyStr} {p₀ p p' : Pipeline} {acts : List Pipeline.Act} {o : List ClientObs}

/-- A step that takes nothing leaves the boundary. -/
theorem lastSeq_of_takes (hc : Carried symbol p₀ p acts) {a : Pipeline.Act}
    (h : p.step a = some (p', o)) (ho : takes o = []) :
    (∀ l ∈ p.session.lastSeq.get? symbol, ∃ l' ∈ p'.session.lastSeq.get? symbol, l ≤ l') ∧
    ∀ l' ∈ p'.session.lastSeq.get? symbol, l' ∈ p.session.lastSeq.get? symbol := by
  obtain ⟨-, hset⟩ := Pipeline.settles_step hc.windowed.mode hc.idle h symbol
  refine ⟨hset.kept, fun l hl => (hset.origin l hl).resolve_right ?_⟩
  rw [ho]
  simp

/-- **One step carries the newest of what was offered on.** -/
theorem step {a : Pipeline.Act} (hc : Carried symbol p₀ p acts)
    (hover : OverflowHarmless symbol p a)
    (h : p.step a = some (p', o)) : Carried symbol p₀ p' (acts ++ [a]) := by
  have ha := Pipeline.aggregated_step h
  have hw := hc.windowed.step ha
  obtain ⟨hidle, hset⟩ := Pipeline.settles_step hc.windowed.mode hc.idle h symbol
  have hkept : ∀ l ∈ p₀.session.lastSeq.get? symbol,
      ∃ l' ∈ p'.session.lastSeq.get? symbol, l ≤ l' := by
    intro l hl
    obtain ⟨l₁, hl₁, hle⟩ := hc.kept l hl
    obtain ⟨l₂, hl₂, hle'⟩ := hset.kept l₁ hl₁
    exact ⟨l₂, hl₂, le_trans hle hle'⟩
  have hbehind : ∀ x : MarketEvent, (∃ l ∈ p.session.lastSeq.get? symbol, x.seq ≤ l) →
      ∃ l ∈ p'.session.lastSeq.get? symbol, x.seq ≤ l := by
    intro x hx
    obtain ⟨l, hl, hle⟩ := hx
    obtain ⟨l', hl', hle'⟩ := hset.kept l hl
    exact ⟨l', hl', le_trans hle hle'⟩
  generalize hb' : p'.session.aggregator = b' at ha
  cases ha with
  | pushed event hb ho =>
      rw [hc.windowed.push_eq] at hb
      have hoff := offered_push p₀.session.aggregator acts event symbol
      refine ⟨hw, hidle, hkept, ?_, ?_, ?_⟩
      · rw [hoff, hb', hb]
        exact fun x hx => (hc.reached x hx).imp_left (hbehind x)
      · rw [hoff, hb', hb]
        exact hc.source
      · rw [hoff]
        exact fun l hl => hc.origin l ((hc.lastSeq_of_takes h ho).2 l hl)
  | flushed hb ho =>
      have hoff := offered_flush p₀.session.aggregator hc.windowed symbol
      have hitems := p.session.aggregator.items_flush
      rw [← hb, ← hb'] at hitems
      have hsplit := List.take_append_drop (p.session.aggregator.output.items.length +
        p.session.aggregator.buffer.values.length - p.session.aggregator.output.maxsize)
        (p.session.aggregator.output.items ++ p.session.aggregator.buffer.values)
      have hstays : ∀ x ∈ p.session.aggregator.output.items ++ p.session.aggregator.buffer.values,
          x.symbol = symbol → (∃ l ∈ p'.session.lastSeq.get? symbol, x.seq ≤ l) ∨
            ∃ y ∈ p'.session.aggregator.output.items, y.symbol = symbol ∧ x.seq ≤ y.seq := by
        intro x hx hxs
        rw [← hsplit] at hx
        rw [hitems]
        rcases List.mem_append.mp hx with hx | hx
        · exact (hover rfl x hx hxs).imp_left (hbehind x)
        · exact Or.inr ⟨x, hx, hxs, le_refl _⟩
      refine ⟨hw, hidle, hkept, ?_, ?_, ?_⟩
      · intro x hx
        rw [hoff] at hx
        rcases List.mem_append.mp hx with hx | hx
        · rcases hc.reached x hx with hx | ⟨y, hy, hys, hle⟩
          · exact Or.inl (hbehind x hx)
          · rcases hstays y (List.mem_append_left _ hy) hys with ⟨l, hl, hle'⟩ | ⟨z, hz, hzs, hle'⟩
            · exact Or.inl ⟨l, hl, le_trans hle hle'⟩
            · exact Or.inr ⟨z, hz, hzs, le_trans hle hle'⟩
        · obtain ⟨hx, hxs⟩ := List.mem_filter.mp hx
          exact hstays x (List.mem_append_right _ hx) (ofSymbol_iff.mp hxs)
      · intro y hy hys
        rw [hoff]
        rw [hitems] at hy
        rcases List.mem_append.mp (List.mem_of_mem_drop hy) with hy | hy
        · exact List.mem_append_left _ (hc.source y hy hys)
        · exact List.mem_append_right _ (List.mem_filter.mpr ⟨hy, ofSymbol_iff.mpr hys⟩)
      · intro l hl
        rw [hoff]
        refine (hc.origin l ((hc.lastSeq_of_takes h ho).2 l hl)).imp_right ?_
        intro ⟨x, hx, hxl⟩
        exact ⟨x, List.mem_append_left _ hx, hxl⟩
  | taken event rest hitems hb ho =>
      have hoff := offered_other p₀.session.aggregator acts (a := .task .take) rfl symbol
      have hrest : p'.session.aggregator.output.items = rest := by
        rw [hb', hb]
        show p.session.aggregator.output.items.tail = rest
        rw [hitems]
        rfl
      have hevent : event ∈ takes o := by
        rw [ho]
        exact List.mem_singleton_self event
      refine ⟨hw, hidle, hkept, ?_, ?_, ?_⟩
      · intro x hx
        rw [hoff] at hx
        rcases hc.reached x hx with hx | ⟨y, hy, hys, hle⟩
        · exact Or.inl (hbehind x hx)
        · rw [hitems] at hy
          rcases List.mem_cons.mp hy with rfl | hy
          · -- the event taken settles the boundary
            obtain ⟨l, hl, hle'⟩ := hset.reached y hevent hys
            exact Or.inl ⟨l, hl, le_trans hle hle'⟩
          · exact Or.inr ⟨y, hrest ▸ hy, hys, hle⟩
      · intro y hy hys
        rw [hoff]
        refine hc.source y ?_ hys
        rw [hitems]
        exact List.mem_cons_of_mem event (hrest ▸ hy)
      · intro l hl
        rw [hoff]
        rcases hset.origin l hl with hl | ⟨e, he, hes, hel⟩
        · exact hc.origin l hl
        · rw [ho] at he
          obtain rfl := List.mem_singleton.mp he
          refine Or.inr ⟨e, hc.source e ?_ hes, hel⟩
          rw [hitems]
          exact List.mem_cons_self
  | still ha hb ho =>
      have hoff := offered_other p₀.session.aggregator acts ha symbol
      refine ⟨hw, hidle, hkept, ?_, ?_, ?_⟩
      · rw [hoff, hb', hb]
        exact fun x hx => (hc.reached x hx).imp_left (hbehind x)
      · rw [hoff, hb', hb]
        exact hc.source
      · rw [hoff]
        exact fun l hl => hc.origin l ((hc.lastSeq_of_takes h ho).2 l hl)

theorem run {h : List ClientObs} (hmode : p₀.session.aggregator.mode = .agg100ms)
    (hempty : p₀.session.aggregator.buffer = .empty) (hidle : p₀.task.event? = none)
    (hover : Machine.Along Pipeline.step (OverflowHarmless symbol) p₀ acts)
    (hr : Machine.run Pipeline.step p₀ acts = some (p, h)) : Carried symbol p₀ p acts := by
  refine Machine.run_invariant_traced (I := fun q acts _ => Carried symbol p₀ q acts)
    (fun q a q' o acts h hC hI hs => hI.step hC hs) ?_ hover hr
  refine ⟨.nil hmode hempty, hidle, fun l hl => ⟨l, hl, le_refl l⟩, ?_, ?_, fun l hl => Or.inl hl⟩
  · intro x hx
    rw [offered_nil] at hx
    obtain ⟨hx, hxs⟩ := List.mem_filter.mp hx
    exact Or.inr ⟨x, hx, ofSymbol_iff.mp hxs, le_refl _⟩
  · intro y hy hys
    exact List.mem_append_left _ (List.mem_filter.mpr ⟨hy, ofSymbol_iff.mpr hys⟩)

end Carried

/-! ### When a replay hides a newer quote -/

/-- **The condition** on the pushes of a run: every flushed event of the symbol is as old as the
initial boundary, as an event the output held at first, or as the last one of the symbol in some
closed window. -/
def Unhidden (symbol : PyStr) (p : Pipeline) (acts : List Pipeline.Act) : Prop :=
  ∀ event, Flushed acts event → event.symbol = symbol →
    (∃ l ∈ p.session.lastSeq.get? symbol, event.seq ≤ l) ∨
    ∃ x ∈ offered p.session.aggregator acts symbol, event.seq ≤ x.seq

/-- **Replays and newer quotes in AGG_100MS mode.** In every run of an AGG_100MS client from an
empty window whose output gives up nothing new, and whenever the loop has processed the whole
output: the boundary has reached every event of the symbol pushed before a flush if and only if none
of them was overwritten in its window by an older one for good. -/
theorem replay_hidden_iff {symbol : PyStr} {p p' : Pipeline} {acts : List Pipeline.Act}
    {h : List ClientObs} (hmode : p.session.aggregator.mode = .agg100ms)
    (hempty : p.session.aggregator.buffer = .empty) (hidle : p.task.event? = none)
    (hover : Machine.Along Pipeline.step (OverflowHarmless symbol) p acts)
    (hr : Machine.run Pipeline.step p acts = some (p', h))
    (hdone : p'.session.aggregator.output.items = []) :
    (∀ event, Flushed acts event → event.symbol = symbol →
      ∃ l ∈ p'.session.lastSeq.get? symbol, event.seq ≤ l) ↔
    Unhidden symbol p acts := by
  have hc := Carried.run hmode hempty hidle hover hr
  constructor
  · intro hreached event hf hs
    obtain ⟨l, hl, hle⟩ := hreached event hf hs
    refine (hc.origin l hl).imp (fun hl => ⟨l, hl, hle⟩) ?_
    intro ⟨x, hx, hxl⟩
    exact ⟨x, hx, hxl ▸ hle⟩
  · intro hcond event hf hs
    rcases hcond event hf hs with ⟨l, hl, hle⟩ | ⟨x, hx, hle⟩
    · obtain ⟨l', hl', hle'⟩ := hc.kept l hl
      exact ⟨l', hl', le_trans hle hle'⟩
    · rcases hc.reached x hx with ⟨l, hl, hle'⟩ | ⟨y, hy, -⟩
      · exact ⟨l, hl, le_trans hle hle'⟩
      · -- nothing is left in the output
        rw [hdone] at hy
        cases hy

/-- A replay of 3 that comes before 5 in its window. -/
def replayFirstActs : List Pipeline.Act :=
  [.push (.quote "A" 3), .push (.quote "A" 5), .task .flush, .task .take]

theorem replay_hidden_iff_first :
    ∃ p' h, Machine.run Pipeline.step aggregatedClient replayFirstActs = some (p', h) ∧
      ∀ event, Flushed replayFirstActs event → event.symbol = "A" →
        ∃ l ∈ p'.session.lastSeq.get? "A", event.seq ≤ l := by
  refine ⟨_, _, rfl, (@replay_hidden_iff "A" aggregatedClient _ replayFirstActs _ rfl rfl rfl ?_ rfl
    rfl).mpr ?_⟩
  · have hroom : Machine.Along Pipeline.step Room aggregatedClient replayFirstActs := by decide
    exact hroom.mono fun p a hC => .of_room hC "A"
  · intro event hf _
    refine Or.inr ⟨.quote "A" 5, by decide, ?_⟩
    obtain ⟨before, after, heq, hmem⟩ := hf
    have hpush : .push event ∈ replayFirstActs := by
      rw [heq]
      exact List.mem_append_left _ hmem
    simp only [replayFirstActs, List.mem_cons, Pipeline.Act.push.injEq, reduceCtorEq,
      List.not_mem_nil, or_false] at hpush
    rcases hpush with rfl | rfl <;> decide

/-- A replay of 3 that comes after 5 in its window. -/
def replayLastActs : List Pipeline.Act :=
  [.push (.quote "A" 5), .push (.quote "A" 3), .task .flush, .task .take]

/-- **A replay hides a newer quote**: 5 was pushed before the flush, and the boundary is at 3. -/
theorem replay_hides_newer :
    ¬ ∀ (symbol : PyStr) (p p' : Pipeline) (acts : List Pipeline.Act) (h : List ClientObs),
      p.session.aggregator.mode = .agg100ms → p.session.aggregator.buffer = .empty →
      p.session.filters = .empty → p.task = .waiting →
      Machine.run Pipeline.step p acts = some (p', h) →
      p'.session.aggregator.output.items = [] → p'.task = .waiting →
      ∀ event, Flushed acts event → event.symbol = symbol →
        ∃ l ∈ p'.session.lastSeq.get? symbol, event.seq ≤ l := by
  intro hall
  obtain ⟨l, hl, hle⟩ := hall "A" aggregatedClient _ replayLastActs _ rfl rfl rfl rfl rfl rfl rfl
    (.quote "A" 5) ⟨[.push (.quote "A" 5), .push (.quote "A" 3)], [.task .take], rfl, by simp⟩ rfl
  obtain rfl : (3 : Int) = l := Option.some.inj hl
  exact absurd hle (by decide)

end MarketData.Gateway
