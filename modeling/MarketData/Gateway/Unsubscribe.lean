import MarketData.Gateway.Aggregation
import MarketData.Gateway.ChannelLaw

/-!
# MarketData.Gateway.Unsubscribe

**Unsubscribe is final** if nothing of the symbol is on its way to the session when
`_unsubscribe` clears its state: once the call has returned, the session is given no market
message of the symbol and keeps no state for it, until it subscribes again.

`_unsubscribe` takes the session out of the registry and clears four per-symbol maps, and it
leaves the aggregator and the dispatch task alone. An event in the aggregator's window or
output, or a gap recovery suspended on its snapshot read, is dispatched later: with the
boundary gone it counts as a first event and is delivered (`delivered_after_unsubscribe`).
-/

namespace MarketData.Gateway

/-! ### What is on its way -/

/-- Nothing of `symbol` is on its way to the client. -/
structure Pipeline.Drained (symbol : PyStr) (p : Pipeline) : Prop where
  aggregator : ¬ p.session.aggregator.InFlight symbol
  task : p.task.symbol? ≠ some symbol

instance (symbol : PyStr) (b : AggregationBuffer) : Decidable (b.InFlight symbol) :=
  inferInstanceAs (Decidable (_ ∨ _))

instance (symbol : PyStr) (p : Pipeline) : Decidable (p.Drained symbol) :=
  decidable_of_iff (¬ p.session.aggregator.InFlight symbol ∧ p.task.symbol? ≠ some symbol)
    ⟨fun h => ⟨h.1, h.2⟩, fun h => ⟨h.aggregator, h.task⟩⟩

/-- **The condition**: when `_unsubscribe` clears the session's state of a symbol, nothing of
the symbol is on its way. -/
def UnsubscribesDrained (g : Process) : Act → Prop
  | .call sid .go =>
    match (g.clients sid).call with
    | .unsubscribing symbol => (g.clients sid).Drained symbol
    | _ => True
  | _ => True

instance (g : Process) (a : Act) : Decidable (UnsubscribesDrained g a) := by
  unfold UnsubscribesDrained
  split
  · split <;> infer_instance
  · infer_instance

namespace AggregationBuffer

/-- Taking an event off the output brings nothing in flight. -/
theorem inFlight_withOutput {b : AggregationBuffer} {event : MarketEvent}
    {output : BoundedQueue MarketEvent} (hget : b.output.getNowait = some (event, output))
    {symbol : PyStr} (h : InFlight { b with output := output } symbol) : b.InFlight symbol := by
  obtain ⟨⟨rest, hitems⟩, rfl⟩ := BoundedQueue.getNowait_eq_some.mp hget
  rcases h with h | ⟨e, he, hs⟩
  · exact Or.inl h
  · exact Or.inr ⟨e, List.mem_of_mem_tail he, hs⟩

/-- The event taken off the output was in flight. -/
theorem inFlight_of_getNowait {b : AggregationBuffer} {event : MarketEvent}
    {output : BoundedQueue MarketEvent} (hget : b.output.getNowait = some (event, output)) :
    b.InFlight event.symbol := by
  obtain ⟨⟨rest, hitems⟩, -⟩ := BoundedQueue.getNowait_eq_some.mp hget
  exact Or.inr ⟨event, by rw [hitems]; exact List.mem_cons_self, rfl⟩

theorem keyed_foldl_push {es : List MarketEvent} {b : AggregationBuffer} (hb : b.Keyed) :
    (es.foldl push b).Keyed := by
  induction es generalizing b with
  | nil => exact hb
  | cons e es ih => exact ih (keyed_push hb e)

/-- Pushing a list brings only its own symbols in flight. -/
theorem inFlight_foldl_push {es : List MarketEvent} {b : AggregationBuffer} {symbol : PyStr}
    (hes : ∀ e ∈ es, e.symbol ≠ symbol) (h : (es.foldl push b).InFlight symbol) :
    b.InFlight symbol := by
  induction es generalizing b with
  | nil => exact h
  | cons e es ih =>
      rcases inFlight_push (ih (fun x hx => hes x (List.mem_cons_of_mem e hx)) h) with h | hs
      · exact h
      · exact absurd hs (hes e List.mem_cons_self)

/-- Stopping touches the flush task only. -/
theorem stop_fields (b : AggregationBuffer) : ∃ t, b.stop = { b with flushTask := t } := by
  unfold stop
  split <;> exact ⟨_, rfl⟩

theorem keyed_stop {b : AggregationBuffer} (hb : b.Keyed) : b.stop.Keyed := by
  obtain ⟨t, ht⟩ := b.stop_fields
  rw [ht]
  exact hb

theorem inFlight_stop {b : AggregationBuffer} {symbol : PyStr} (h : b.stop.InFlight symbol) :
    b.InFlight symbol := by
  obtain ⟨t, ht⟩ := b.stop_fields
  rw [ht] at h
  exact h

theorem keyed_start (mode : AggregationMode) :
    (start { mode := mode : AggregationBuffer }).Keyed := by
  intro symbol e he
  cases mode <;> cases he

theorem not_inFlight_start (mode : AggregationMode) (symbol : PyStr) :
    ¬ (start { mode := mode : AggregationBuffer }).InFlight symbol := by
  rintro (h | ⟨e, he, -⟩)
  · cases mode <;> cases h
  · cases mode <;> cases he

end AggregationBuffer

/-- An error reply pushes nothing. -/
theorem ClientSession.not_pushed_of_enqueueError (s : ClientSession) (text : PyStr)
    {e : MarketEvent} : .pushed e ∉ (s.enqueueError text).2 := by
  intro he
  simp only [enqueueError_eq, List.mem_singleton] at he
  generalize (s.enqueue (.error text)).1 = ok at he
  cases ok <;> cases he

namespace Pipeline

variable {p p' : Pipeline} {a : Act} {o : List ClientObs} {symbol : PyStr}

/-- How a client step changes the aggregator: it takes, flushes or pushes. -/
theorem step_aggregator (h : p.step a = some (p', o)) :
    p'.session.aggregator = p.session.aggregator ∨
    (∃ event output, event ∈ takes o ∧
      p.session.aggregator.output.getNowait = some (event, output) ∧
      p'.session.aggregator = { p.session.aggregator with output := output }) ∨
    p'.session.aggregator = p.session.aggregator.flush ∨
    ∃ event, .pushed event ∈ o ∧ p'.session.aggregator = p.session.aggregator.push event := by
  cases aggregated_step h with
  | pushed event hb ho =>
      obtain ⟨-, rfl⟩ := Machine.outcome h
      exact Or.inr (Or.inr (Or.inr ⟨event, List.mem_singleton.mpr rfl, hb⟩))
  | flushed hb ho => exact Or.inr (Or.inr (Or.inl hb))
  | taken event rest hitems hb ho =>
      refine Or.inr (Or.inl ⟨event, _, ?_, ?_, hb⟩)
      · rw [ho]
        exact List.mem_singleton_self event
      · exact BoundedQueue.getNowait_eq_some.mpr ⟨⟨rest, hitems⟩, rfl⟩
  | still ha hb ho => exact Or.inl hb

/-- The dispatch loop handles what was in flight. -/
theorem handled_inFlight (h : p.step a = some (p', o)) {e : MarketEvent} (he : .handled e ∈ o) :
    p.session.aggregator.InFlight e.symbol := by
  rcases step_cases h with ⟨t, -, ht⟩ | ⟨-, -, -, -, ho⟩
  · cases taskStepped ht with
    | @dispatched event output r hw hget hr hd =>
        have hevent : e = event := by
          cases hd <;> simp at he <;> exact he
        exact hevent ▸ AggregationBuffer.inFlight_of_getNowait hget
    | recovered hs ht hr hd => cases hd <;> simp at he
    | read | raised | flushed | writerTook | writerSent | writerUnrecorded | writerFailed
    | writerLooped => simp at he
  · rcases ho _ he with ⟨e', he'⟩ | ⟨ok, text, he'⟩
    · cases he'
    · cases ok <;> cases he'

theorem step_keyed (hk : p.session.aggregator.Keyed) (h : p.step a = some (p', o)) :
    p'.session.aggregator.Keyed := by
  rcases step_aggregator h with ha | ⟨event, output, -, -, ha⟩ | ha | ⟨event, -, ha⟩ <;> rw [ha]
  · exact hk
  · exact hk
  · exact AggregationBuffer.keyed_flush _
  · exact AggregationBuffer.keyed_push hk event

/-- A client's own tasks push nothing. -/
theorem not_pushed_of_taskStep {t : TaskAct} (h : p.taskStep t = some (p', o)) {e : MarketEvent} :
    .pushed e ∉ o := by
  intro he
  cases taskStepped h with
  | dispatched hw hget hr hd => cases hd <;> simp at he
  | recovered hs ht hr hd => cases hd <;> simp at he
  | read | raised | flushed | writerTook | writerSent | writerUnrecorded | writerFailed
  | writerLooped => simp at he

/-- **While nothing of the symbol is pushed, a drained client stays drained**, and gets
neither state nor messages of the symbol. -/
theorem step_drained (hk : p.session.aggregator.Keyed) (hd : p.Drained symbol)
    (h : p.step a = some (p', o)) (hpush : ∀ e, .pushed e ∈ o → e.symbol ≠ symbol) :
    p'.Drained symbol ∧ emissions symbol o = [] ∧
    p'.session.lastSeq.get? symbol = p.session.lastSeq.get? symbol ∧
    p'.session.lastPrice.get? symbol = p.session.lastPrice.get? symbol := by
  have hin : ∀ e, .handled e ∈ o → e.symbol ≠ symbol := by
    rintro e he rfl
    exact hd.aggregator (handled_inFlight h he)
  have hagg : ¬ p'.session.aggregator.InFlight symbol := by
    rcases step_aggregator h with ha | ⟨event, output, -, hget, ha⟩ | ha | ⟨event, hev, ha⟩ <;>
      rw [ha] <;> intro hf
    · exact hd.aggregator hf
    · exact hd.aggregator (AggregationBuffer.inFlight_withOutput hget hf)
    · exact hd.aggregator (AggregationBuffer.inFlight_flush hk hf)
    · exact (AggregationBuffer.inFlight_push hf).elim hd.aggregator (hpush event hev)
  rcases step_cases h with ⟨t, -, ht⟩ | ⟨-, hl, hp, htask, ho⟩
  · obtain ⟨hl, hp, ht, he⟩ := taskStep_frame ht hd.task hin
    exact ⟨⟨hagg, ht⟩, he, hl, hp⟩
  · refine ⟨⟨hagg, htask ▸ hd.task⟩, ?_, by rw [hl], by rw [hp]⟩
    refine List.filterMap_eq_nil_iff.mpr fun x hx => ?_
    rcases ho x hx with ⟨e, rfl⟩ | ⟨ok, text, rfl⟩
    · rfl
    · cases ok <;> rfl

end Pipeline

/-! ### Activating another symbol -/

namespace Seeded

variable {s s' : ClientSession} {symbol symbol' : PyStr} {snapshot : Option SnapshotData}
  {o : List ClientObs}

theorem aggregator (h : Seeded s symbol' snapshot s' o) : s'.aggregator = s.aggregator := by
  cases h <;> rfl

/-- Seeding the boundary of one symbol leaves the others alone. -/
theorem elsewhere (h : Seeded s symbol' snapshot s' o)
    (hsym : (ReadResult.value snapshot).OfSymbol symbol') (hne : symbol' ≠ symbol) :
    s'.lastSeq.get? symbol = s.lastSeq.get? symbol ∧
    s'.lastPrice.get? symbol = s.lastPrice.get? symbol ∧ emissions symbol o = [] := by
  cases h with
  | absent => exact ⟨rfl, rfl, rfl⟩
  | accepted snapshot =>
      replace hsym : snapshot.symbol = symbol' := hsym
      refine ⟨Dict.get?_set_ne _ _ hne, Dict.get?_set_ne _ _ hne, ?_⟩
      simp [ClientObs.emission?, Message.emission?, hsym, hne]

/-- What an activation emits is what seeding emits. -/
theorem emissions_activated (sid : SessionId) (symbol symbol' : PyStr)
    (snapshot : Option SnapshotData) (o : List ClientObs) (events : List MarketEvent) :
    emissions symbol (viewed sid ((o ++ events.map ClientObs.pushed).map (.client sid) ++
      [.activated sid symbol' snapshot])) = emissions symbol o := by
  rw [viewed_activation, emissions_append, emissions_pushed, List.append_nil]

end Seeded

/-- Nothing of another symbol comes in flight by an activation. -/
theorem Handshake.not_inFlight_of_activated {sid : SessionId} {r : Registry} {c : Client}
    (hI : Handshake sid r c) {symbol symbol' : PyStr} {i : SubscriptionInitialization}
    {snapshot : Option SnapshotData} {s : ClientSession}
    (hi : r.initialization? symbol' sid = some i) (hne : symbol' ≠ symbol)
    (hs : s.aggregator = c.session.aggregator) (hd : ¬ c.session.aggregator.InFlight symbol) :
    ¬ (s.pushAll (i.released snapshot)).aggregator.InFlight symbol := by
  intro hf
  refine hd (@AggregationBuffer.inFlight_foldl_push (i.released snapshot) _ _ (fun e he => ?_) ?_)
  · rw [hI.keyed symbol' i hi e (SubscriptionInitialization.mem_released.mp he).1]
    exact hne
  · rw [← hs]
    exact hf

/-! ### A session after it has unsubscribed -/

/-- The symbol of a `_subscribe` that has not activated yet. -/
def Call.subscribes? : Call → Option PyStr
  | .ensuring symbol _ _ | .confirming symbol _ _ | .sleeping symbol _ _ | .registering symbol _
  | .reading symbol _ | .activating symbol _ _ _ => some symbol
  | _ => none

/-- Session `sid` has no state of the symbol and gets none. -/
structure Quiet (symbol : PyStr) (sid : SessionId) (r : Registry) (c : Client) : Prop where
  drained : c.Drained symbol
  unregistered : sid ∉ r.subscribers symbol
  notSubscribing : c.call.subscribes? ≠ some symbol
  lastSeq : c.session.lastSeq.get? symbol = none
  lastPrice : c.session.lastPrice.get? symbol = none
  filters : c.session.filters.get? symbol = none
  subscriptions : symbol ∉ c.session.subscriptions

/-- Every session's window is keyed by symbol. -/
def Keyed (g : Process) : Prop := ∀ sid, (g.clients sid).session.aggregator.Keyed

theorem Replied.quiet {sid : SessionId} {s s' : ClientSession} {obs : List Obs} {symbol : PyStr}
    {text : PyStr} (h : Replied sid s text s' obs) : emissions symbol (viewed sid obs) = [] := by
  refine List.filterMap_eq_nil_iff.mpr fun x hx => ?_
  obtain ⟨y, hy, hv⟩ := List.mem_filterMap.mp hx
  rcases h.obs y hy with ⟨m, rfl⟩ | ⟨text, rfl⟩
  · obtain rfl : ClientObs.refused m = x := by simpa [Obs.view] using hv
    rfl
  · obtain rfl : ClientObs.accepted (.error text) = x := by simpa [Obs.view] using hv
    rfl

theorem Keyed.called {sid : SessionId} {σ σ' : Scope} {a : CallAct} {obs : List Obs}
    (hk : σ.client.session.aggregator.Keyed) (h : Called sid σ a σ' obs) :
    σ'.client.session.aggregator.Keyed := by
  cases h with
  | rejected hc hn hs | unavailable hc hs | failed hc hs =>
      obtain ⟨_, _, _, rfl⟩ := hs.session
      exact hk
  | @activated _ _ _ _ _ s _ hc hi ho hs =>
      have hagg : s.aggregator = σ.client.session.aggregator := by cases hs <;> rfl
      show (List.foldl AggregationBuffer.push s.aggregator _).Keyed
      rw [hagg]
      exact AggregationBuffer.keyed_foldl_push hk
  | _ => exact hk

theorem Keyed.step {g g' : Process} {a : Act} {obs : List Obs} (hk : Keyed g)
    (h : Stepped g a g' obs) : Keyed g' := by
  intro sid
  rcases h.client sid with ⟨ca, σ, rfl, rfl, hc⟩ | hc
  · rw [Process.clients_withScope_self]
    exact Keyed.called (hk sid) hc
  · have hks := hk sid
    generalize g.clients sid = c at hc hks
    generalize g'.clients sid = c' at hc
    generalize viewed sid obs = o at hc
    cases hc with
    | idle | cancelled => exact hks
    | pipeline h => exact Pipeline.step_keyed hks h
    | connected hc => exact AggregationBuffer.keyed_start _
    | stopped => exact AggregationBuffer.keyed_stop hks

/-- An event that reaches a session was received for a symbol it is subscribed to. -/
theorem Stepped.subscriber_of_pushed {g g' : Process} {a : Act} {obs : List Obs}
    (h : Stepped g a g' obs) {sid : SessionId} (hno : ∀ ca, a ≠ .call sid ca)
    {e : MarketEvent} (he : .pushed e ∈ viewed sid obs) :
    sid ∈ g.registry.subscribers e.symbol := by
  cases h with
  | @call sid' ca σ _ hc =>
      have hs : sid ≠ sid' := by
        rintro rfl
        exact hno ca rfl
      rw [hc.viewed_other hs] at he
      exact absurd he List.not_mem_nil
  | task hp =>
      exact absurd he (not_mem_viewed (Pipeline.not_pushed_of_taskStep hp))
  | replied hc => exact absurd he (not_mem_viewed (ClientSession.not_pushed_of_enqueueError _ _))
  | message hl =>
      obtain ⟨o, ho, hv⟩ := List.mem_filterMap.mp he
      obtain rfl := List.mem_singleton.mp ho
      simp only [Obs.view, Option.ite_none_right_eq_some, Option.some.injEq,
        ClientObs.pushed.injEq] at hv
      obtain ⟨hmem, rfl⟩ := hv
      exact hmem
  | connect | cancelled | stopped | fanout => exact absurd he List.not_mem_nil

namespace Quiet

variable {symbol : PyStr} {sid : SessionId}

/-- A change of the queue and of the call's place, in any registry where the session is
subscribed to no more. -/
theorem of_same {r r' : Registry} {c c' : Client} (hQ : Quiet symbol sid r c)
    (hs : sid ∈ r'.subscribers symbol → sid ∈ r.subscribers symbol)
    (hcall : c'.call.subscribes? ≠ some symbol) (htask : c'.task = c.task)
    (hf : ∃ q stats w d, c'.session = { c.session with
      queue := q, stats := stats, writer := w, disconnected := d }) : Quiet symbol sid r' c' := by
  obtain ⟨q, stats, w, d, hf⟩ := hf
  refine ⟨⟨?_, htask ▸ hQ.drained.task⟩, fun hmem => hQ.unregistered (hs hmem),
    hcall, ?_, ?_, ?_, ?_⟩
    <;> rw [hf]
  · exact hQ.drained.aggregator
  · exact hQ.lastSeq
  · exact hQ.lastPrice
  · exact hQ.filters
  · exact hQ.subscriptions

/-- Clearing a drained symbol makes a session quiet, clearing another one keeps it so. -/
theorem forget {r : Registry} {c : Client} {symbol' : PyStr} {call : Call}
    (hd : c.Drained symbol) (hQ : symbol' = symbol ∨ Quiet symbol sid r c)
    (hcall : call.subscribes? ≠ some symbol) :
    Quiet symbol sid (r.discardSubscriber symbol' sid).1
      { c with session := c.session.forget symbol', call := call } := by
  have herase : ∀ {ν : Type} (d : Dict PyStr ν),
      (Quiet symbol sid r c → d.get? symbol = none) → (d.erase symbol').get? symbol = none := by
    intro ν d hnone
    rw [Dict.get?_erase]
    rcases hQ with hs | hQ
    · rw [if_pos hs]
    · rw [hnone hQ]
      exact ite_self none
  refine ⟨⟨hd.aggregator, hd.task⟩, fun hmem => ?_, hcall, herase _ lastSeq, herase _ lastPrice,
    herase _ filters, fun hmem => ?_⟩
  · rw [Registry.subscribers_discardSubscriber] at hmem
    split at hmem
    · exact absurd rfl (Finset.ne_of_mem_erase hmem)
    · rename_i hs
      exact (hQ.resolve_left hs).unregistered hmem
  · obtain ⟨hs, hmem⟩ := Finset.mem_erase.mp hmem
    exact (hQ.resolve_left (Ne.symm hs)).subscriptions hmem

/-- **A session's own calls keep it quiet**, until it subscribes to the symbol. -/
theorem called {σ σ' : Scope} {a : CallAct} {obs : List Obs}
    (hQ : Quiet symbol sid σ.registry σ.client) (hI : Handshake sid σ.registry σ.client)
    (h : Called sid σ a σ' obs) (hno : ∀ payload, a ≠ .request (.subscribe symbol payload)) :
    Quiet symbol sid σ'.registry σ'.client ∧ emissions symbol (viewed sid obs) = [] := by
  have hcall := hQ.notSubscribing
  cases h with
  | parsed hc hn hp =>
      refine ⟨hQ.of_same id (fun heq => ?_) rfl ⟨_, _, _, _, rfl⟩, rfl⟩
      obtain rfl := Option.some.inj heq
      exact hno _ rfl
  | rejected hc hn hs =>
      obtain ⟨q, stats, d, hf⟩ := hs.session
      refine ⟨hQ.of_same id hcall rfl ⟨q, stats, _, d, hf⟩, ?_⟩
      rw [viewed_returned]
      exact hs.quiet
  | unavailable hc hs | failed hc hs =>
      obtain ⟨q, stats, d, hf⟩ := hs.session
      exact ⟨hQ.of_same id (Option.some_ne_none symbol).symm rfl ⟨q, stats, _, d, hf⟩, hs.quiet⟩
  | attempted hc hl =>
      refine ⟨hQ.of_same id ?_ rfl ⟨_, _, _, _, rfl⟩, rfl⟩
      rw [hc] at hcall
      rw [Scope.call_goto]
      rcases (σ.channels.subscribePubsubSymbol sid _).2 with - | - | - <;> exact hcall
  | answered ok hc =>
      refine ⟨hQ.of_same id ?_ rfl ⟨_, _, _, _, rfl⟩, rfl⟩
      rw [hc] at hcall
      cases ok <;> exact hcall
  | slept hc | registered hc | read hc =>
      rw [hc] at hcall
      exact ⟨hQ.of_same id hcall rfl ⟨_, _, _, _, rfl⟩, rfl⟩
  | @activated symbol' filter snapshot hsym i s o hc hi ho hs =>
      have hne : symbol' ≠ symbol := by
        rintro rfl
        rw [hc] at hcall
        exact hcall rfl
      obtain ⟨hseq, hprice, hquiet⟩ := hs.elsewhere hsym hne
      refine ⟨⟨⟨hI.not_inFlight_of_activated hi hne hs.aggregator hQ.drained.aggregator,
        hQ.drained.task⟩, ?_, (Option.some_ne_none symbol).symm, hseq.trans hQ.lastSeq,
        hprice.trans hQ.lastPrice, ?_, ?_⟩, ?_⟩
      · rw [Registry.subscribers_addSubscriber, if_neg hne]
        exact hQ.unregistered
      · have hfil : s.filters = σ.client.session.filters := by cases hs <;> rfl
        cases filter with
        | none => exact (Dict.get?_erase_ne _ hne).trans (hfil ▸ hQ.filters)
        | some f => exact (Dict.get?_set_ne _ _ hne).trans (hfil ▸ hQ.filters)
      · have hsub : s.subscriptions = σ.client.session.subscriptions := by cases hs <;> rfl
        show symbol ∉ insert symbol' s.subscriptions
        rw [hsub, Finset.mem_insert, not_or]
        exact ⟨hne.symm, hQ.subscriptions⟩
      · exact (Seeded.emissions_activated ..).trans hquiet
  | lastUnsubscribed hc hl | unsubscribed hc hl =>
      exact ⟨forget hQ.drained (Or.inr hQ) (Option.some_ne_none symbol).symm, rfl⟩
  | cleaned hc ho =>
      refine ⟨hQ.of_same (fun hmem => ?_) (Option.some_ne_none symbol).symm rfl
        ⟨_, _, _, _, rfl⟩, rfl⟩
      rw [Scope.registry_goto, Registry.subscribers_cleanup] at hmem
      split at hmem
      · exact Finset.mem_of_mem_erase hmem
      · exact hmem
  | released hc hl =>
      refine ⟨hQ.of_same id ?_ rfl ⟨_, _, _, _, rfl⟩, rfl⟩
      rw [Scope.call_goto]
      split <;> exact (Option.some_ne_none symbol).symm
  | overflowed hc hn => exact ⟨hQ, rfl⟩
  | closing hc =>
      exact ⟨hQ.of_same id (Option.some_ne_none symbol).symm rfl ⟨_, _, _, _, rfl⟩, rfl⟩
  | unsubscribeBegun | cleanupBegun | rolledBack | inUse | unused | dropped | finished | closed =>
      exact ⟨hQ.of_same id (Option.some_ne_none symbol).symm rfl ⟨_, _, _, _, rfl⟩, rfl⟩

/-- **A quiet client stays quiet beside its calls** while nothing of the symbol is pushed. -/
theorem clientStepped {r : Registry} {c c' : Client} {o : List ClientObs}
    (hQ : Quiet symbol sid r c) (hk : c.session.aggregator.Keyed) (h : ClientStepped c c' o)
    (hpush : ∀ e, .pushed e ∈ o → e.symbol ≠ symbol) :
    Quiet symbol sid r c' ∧ emissions symbol o = [] := by
  cases h with
  | idle => exact ⟨hQ, rfl⟩
  | pipeline h =>
      obtain ⟨hd, he, hl, hp⟩ := Pipeline.step_drained hk hQ.drained h hpush
      have hset := Pipeline.step_settings h
      exact ⟨⟨hd, hQ.unregistered, hQ.notSubscribing, hl.trans hQ.lastSeq, hp.trans hQ.lastPrice,
        hset.filters ▸ hQ.filters, hset.subscriptions ▸ hQ.subscriptions⟩, he⟩
  | connected hc =>
      exact ⟨⟨⟨AggregationBuffer.not_inFlight_start _ symbol, nofun⟩, hQ.unregistered,
        hQ.notSubscribing, rfl, rfl, rfl, Finset.notMem_empty symbol⟩, rfl⟩
  | cancelled =>
      refine ⟨⟨⟨hQ.drained.aggregator, fun ht => ?_⟩, hQ.unregistered, hQ.notSubscribing,
        hQ.lastSeq, hQ.lastPrice, hQ.filters, hQ.subscriptions⟩, rfl⟩
      cases htask : c.task <;> rw [htask] at ht <;> cases ht
  | stopped =>
      exact ⟨⟨⟨fun hf => hQ.drained.aggregator (AggregationBuffer.inFlight_stop hf),
        hQ.drained.task⟩, hQ.unregistered, hQ.notSubscribing, hQ.lastSeq, hQ.lastPrice,
        hQ.filters, hQ.subscriptions⟩, rfl⟩

/-- **A quiet session stays quiet under every step** but its subscribing to the symbol. -/
theorem step {g g' : Process} {a : Act} {obs : List Obs}
    (hQ : Quiet symbol sid g.registry (g.clients sid)) (hI : Handshakes g) (hk : Keyed g)
    (h : Stepped g a g' obs)
    (hno : ∀ payload, a ≠ .call sid (.request (.subscribe symbol payload))) :
    Quiet symbol sid g'.registry (g'.clients sid) ∧ emissions symbol (viewed sid obs) = [] := by
  rcases h.call_or_outside with ⟨sid', ca, σ, rfl, rfl, hc⟩ | ⟨hother, ho⟩
  · by_cases hs : sid = sid'
    · subst hs
      rw [Process.registry_withScope, Process.clients_withScope_self]
      refine hQ.called (hI sid) hc fun payload heq => hno payload (congrArg _ heq)
    · rw [Process.registry_withScope, Process.clients_withScope_ne g sid' σ hs,
        hc.viewed_other hs]
      exact ⟨hQ.of_same (hc.frame hs symbol).2.mp hQ.notSubscribing rfl ⟨_, _, _, _, rfl⟩, rfl⟩
  · have hstep := (h.client sid).resolve_left fun ⟨ca, _, hca, _⟩ => hother sid ca hca
    obtain ⟨hQ', he⟩ := hQ.clientStepped (hk sid) hstep fun e hpush heq =>
      hQ.unregistered (heq ▸ h.subscriber_of_pushed (hother sid) hpush)
    refine ⟨hQ'.of_same (fun hmem => ?_) hQ'.notSubscribing rfl ⟨_, _, _, _, rfl⟩, he⟩
    rwa [ho.subscribers] at hmem

end Quiet

/-! ### Who returns -/

/-- A call's return is its own session's. -/
theorem Called.returned_own {sid sid' : SessionId} {σ σ' : Scope} {a : CallAct} {obs : List Obs}
    {result : Returning} (h : Called sid' σ a σ' obs) (hmem : .returned sid result ∈ obs) :
    sid = sid' := by
  cases h.observed hmem
  rfl

/-- Only calls return. -/
theorem Stepped.not_returned {g g' : Process} {a : Act} {obs : List Obs} (h : Stepped g a g' obs)
    (hno : ∀ sid ca, a ≠ .call sid ca) {sid : SessionId} {result : Returning} :
    .returned sid result ∉ obs := by
  intro hmem
  cases h with
  | call hc => exact hno _ _ rfl
  | task hp =>
      obtain ⟨o, -, ho⟩ := List.mem_map.mp hmem
      cases ho
  | replied hc =>
      obtain ⟨o, -, ho⟩ := List.mem_map.mp hmem
      cases ho
  | message hl => cases List.mem_singleton.mp hmem
  | connect | cancelled | stopped | fanout => cases hmem

/-! ### From the critical section to the return, and beyond -/

/-- The symbol an `_unsubscribe` returns from. -/
def Returning.unsubscribed? : Returning → Option PyStr
  | .unsubscribe symbol => some symbol
  | _ => none

/-- The symbol of an `_unsubscribe` that has cleared the session's state. -/
def Call.unsubscribed? : Call → Option PyStr
  | .releasing _ result | .dropping _ result => result.unsubscribed?
  | _ => none

/-- What holds in every state of a run whose unsubscribes find their symbol drained. -/
structure Final (g : Process) : Prop where
  handshakes : Handshakes g
  keyed : Keyed g
  /-- A call on its way to its return leaves the session quiet. -/
  unsubscribed : ∀ sid symbol, (g.clients sid).call.unsubscribed? = some symbol →
    Quiet symbol sid g.registry (g.clients sid)

namespace Final

variable {g g' : Process} {a : Act} {obs : List Obs} {sid : SessionId} {symbol : PyStr}

theorem initial (keyPrefix : String) : Final (.initial keyPrefix) where
  handshakes := .initial keyPrefix
  keyed _ _ _ h := nomatch h
  unsubscribed _ _ h := nomatch h

/-- A call reaches its return from the critical section, or was on its way before. -/
theorem unsubscribed_of_called {σ σ' : Scope} {ca : CallAct} (h : Called sid σ ca σ' obs)
    (hu : σ'.client.call.unsubscribed? = some symbol ∨
      .returned sid (.unsubscribe symbol) ∈ obs) :
    (σ.client.call.unsubscribed? = some symbol ∧
      ∀ payload, ca ≠ .request (.subscribe symbol payload)) ∨
    (ca = .go ∧ σ.client.call = .unsubscribing symbol ∧
      (σ.client.Drained symbol → Quiet symbol sid σ'.registry σ'.client)) := by
  cases h with
  | lastUnsubscribed hc hl =>
      obtain rfl : _ = symbol := Option.some.inj (hu.resolve_right List.not_mem_nil)
      exact Or.inr ⟨rfl, hc, fun hd => Quiet.forget hd (Or.inl rfl) nofun⟩
  | unsubscribed hc hl =>
      obtain heq := List.mem_singleton.mp (hu.resolve_left nofun)
      cases heq
      exact Or.inr ⟨rfl, hc, fun hd => Quiet.forget hd (Or.inl rfl) nofun⟩
  | released hc hl =>
      refine Or.inl ⟨?_, nofun⟩
      have hu := hu.resolve_right List.not_mem_nil
      rw [Scope.call_goto] at hu
      rw [hc]
      split at hu <;> exact hu
  | dropped ok hc =>
      refine Or.inl ⟨?_, nofun⟩
      rw [hc]
      exact hu.resolve_right List.not_mem_nil
  | finished hc hr =>
      refine Or.inl ⟨?_, nofun⟩
      have heq := List.mem_singleton.mp (hu.resolve_left nofun)
      rw [hc]
      cases heq
      rfl
  | rejected hc hn hs =>
      rcases hu with hu | hu
      · rw [Scope.call_withSession, hc] at hu
        cases hu
      · rcases List.mem_append.mp hu with hu | hu
        · rcases hs.obs _ hu with ⟨m, hm⟩ | ⟨text, hm⟩ <;> cases hm
        · cases List.mem_singleton.mp hu
  | overflowed hc hn =>
      rcases hu with hu | hu
      · rw [hc] at hu
        cases hu
      · cases List.mem_singleton.mp hu
  | unavailable hc hs | failed hc hs =>
      rcases hs.obs _ (hu.resolve_left nofun) with ⟨m, hm⟩ | ⟨text, hm⟩ <;> cases hm
  | activated hc hi ho hs =>
      rcases List.mem_append.mp (hu.resolve_left nofun) with hu | hu
      · obtain ⟨o, -, ho⟩ := List.mem_map.mp hu
        cases ho
      · cases List.mem_singleton.mp hu
  | attempted hc hl =>
      have hu := hu.resolve_right List.not_mem_nil
      rw [Scope.call_goto] at hu
      generalize (σ.channels.subscribePubsubSymbol sid _).2 = ok at hu
      rcases ok with - | - | - <;> cases hu
  | answered ok hc =>
      have hu := hu.resolve_right List.not_mem_nil
      cases ok <;> cases hu
  | inUse hc hu' | closed hc => cases List.mem_singleton.mp (hu.resolve_left nofun)
  | closing hc => cases List.mem_singleton.mp (hu.resolve_left nofun)
  | parsed | unsubscribeBegun | cleanupBegun | slept | registered | read | rolledBack | unused
  | cleaned => exact absurd (hu.resolve_left nofun) List.not_mem_nil

/-- **A step that reaches the return of `_unsubscribe` leaves the session quiet.** -/
theorem quiet_of_returned (hI : Final g) (hC : UnsubscribesDrained g a) (h : Stepped g a g' obs)
    (hu : (g'.clients sid).call.unsubscribed? = some symbol ∨
      .returned sid (.unsubscribe symbol) ∈ obs) :
    Quiet symbol sid g'.registry (g'.clients sid) := by
  have hstep := fun hu hno =>
    ((hI.unsubscribed sid symbol hu).step hI.handshakes hI.keyed h hno).1
  rcases h.call_or_outside with ⟨sid', ca, σ, rfl, rfl, hc⟩ | ⟨hno, ho⟩
  · by_cases hs : sid = sid'
    · subst hs
      rw [Process.clients_withScope_self] at hu
      rcases unsubscribed_of_called hc hu with ⟨hu, hno⟩ | ⟨rfl, hcall, hq⟩
      · exact hstep hu fun payload heq => hno payload (Act.call.inj heq).2
      · rw [Process.registry_withScope, Process.clients_withScope_self]
        refine hq ?_
        rw [Process.client_scope] at hcall ⊢
        simpa [UnsubscribesDrained, hcall] using hC
    · rw [Process.clients_withScope_ne g sid' σ hs] at hu
      refine hstep (hu.resolve_right fun hmem => ?_) fun payload heq => hs (Act.call.inj heq).1.symm
      exact hs (hc.returned_own hmem)
  · rw [ho.call] at hu
    refine hstep (hu.resolve_right fun hmem => ?_) fun payload => hno sid _
    exact h.not_returned hno hmem

/-- **Every step that finds its symbol drained keeps the invariant.** -/
theorem step (hI : Final g) (hC : UnsubscribesDrained g a) (h : Stepped g a g' obs) : Final g' where
  handshakes := hI.handshakes.step h
  keyed := hI.keyed.step h
  unsubscribed _ _ hu := hI.quiet_of_returned hC h (Or.inl hu)

end Final

/-- **Unsubscribe is final.** In every run whose unsubscribes find nothing of their symbol on
its way to the session: once `_unsubscribe(session, symbol)` has returned, and until the
session subscribes to the symbol again, no market message of the symbol is accepted and the
session holds no state of it. -/
theorem unsubscribe_final {keyPrefix : String} {g g₁ g' : Process} {acts acts' : List Act}
    {a : Act} {h o h' : List Obs} {sid : SessionId} {symbol : PyStr}
    (hC : Machine.Along Process.step UnsubscribesDrained (.initial keyPrefix) (acts ++ [a]))
    (hr : Machine.run Process.step (.initial keyPrefix) acts = some (g, h))
    (hs : g.step a = some (g₁, o)) (hret : .returned sid (.unsubscribe symbol) ∈ o)
    (hr' : Machine.run Process.step g₁ acts' = some (g', h'))
    (hno : ∀ payload, .call sid (.request (.subscribe symbol payload)) ∉ acts') :
    emissions symbol (viewed sid h') = [] ∧
    (g'.clients sid).session.lastSeq.get? symbol = none ∧
    (g'.clients sid).session.lastPrice.get? symbol = none ∧
    (g'.clients sid).session.filters.get? symbol = none ∧
    symbol ∉ (g'.clients sid).session.subscriptions := by
  obtain ⟨hC, hCa, -⟩ := (Machine.along_append hr).mp hC
  have hI : Final g := by
    refine Machine.run_invariant_along (I := fun g _ => Final g) ?_ (.initial keyPrefix) hC hr
    exact fun g a g' o _ hC hI hs => hI.step hC (Process.stepped hs)
  have hstep := Process.stepped hs
  have hrest : (Handshakes g' ∧ Keyed g') ∧ Quiet symbol sid g'.registry (g'.clients sid) ∧
      emissions symbol (viewed sid h') = [] := by
    have hC' : ∀ b ∈ acts', ∀ payload, b ≠ .call sid (.request (.subscribe symbol payload)) :=
      fun b hb payload heq => hno payload (heq ▸ hb)
    refine Machine.run_invariant_along
      (C := fun _ b => ∀ payload, b ≠ .call sid (.request (.subscribe symbol payload)))
      (I := fun g h => (Handshakes g ∧ Keyed g) ∧ Quiet symbol sid g.registry (g.clients sid) ∧
        emissions symbol (viewed sid h) = []) ?_
      ⟨⟨hI.handshakes.step hstep, hI.keyed.step hstep⟩,
        hI.quiet_of_returned hCa hstep (Or.inr hret),
        rfl⟩ (Machine.along_of_forall hC' g₁) hr'
    rintro g₂ b g₃ o₂ h₂ hb ⟨⟨hI, hk⟩, hQ, he⟩ hs₂
    obtain ⟨hQ', he'⟩ := hQ.step hI hk (Process.stepped hs₂) hb
    refine ⟨⟨hI.step (Process.stepped hs₂), hk.step (Process.stepped hs₂)⟩, hQ', ?_⟩
    rw [viewed_append, emissions_append, he, he', List.append_nil]
  obtain ⟨-, hQ, he⟩ := hrest
  exact ⟨he, hQ.lastSeq, hQ.lastPrice, hQ.filters, hQ.subscriptions⟩

/-- The only subscriber gets an event, and unsubscribes once the dispatch loop has handled it;
the next step returns. -/
def drainedActs : List Act :=
  openingActs ++
    [.message (.quote "A" 5), .task 0 .take, .call 0 (.request (.unsubscribe "A")), .call 0 .go,
      .call 0 .go, .call 0 (.redis true)]

theorem unsubscribe_final_drained :
    ∃ g h g₁ g' h', Machine.run Process.step (.initial "") drainedActs = some (g, h) ∧
      emissions "A" (viewed 0 h) = [.incremental 5] ∧
      g.step (.call 0 .go) = some (g₁, [.returned 0 (.unsubscribe "A")]) ∧
      Machine.run Process.step g₁ [.message (.quote "A" 6)] = some (g', h') ∧
      emissions "A" (viewed 0 h') = [] ∧ (g'.clients 0).session.lastSeq.get? "A" = none := by
  have hrun : ∃ g h g₁ g' h', Machine.run Process.step (.initial "") drainedActs = some (g, h) ∧
      emissions "A" (viewed 0 h) = [.incremental 5] ∧
      g.step (.call 0 .go) = some (g₁, [.returned 0 (.unsubscribe "A")]) ∧
      Machine.run Process.step g₁ [.message (.quote "A" 6)] = some (g', h') :=
    ⟨_, _, _, _, _, rfl, rfl, rfl, rfl⟩
  obtain ⟨g, h, g₁, g', h', hr, he, hs, hr'⟩ := hrun
  have hfinal := unsubscribe_final (by decide +kernel) hr hs List.mem_cons_self hr' (by simp)
  exact ⟨g, h, g₁, g', h', hr, he, hs, hr', hfinal.1, hfinal.2.1⟩

/-- The same with the event still in the aggregator's output. -/
def undrainedActs : List Act :=
  openingActs ++
    [.message (.quote "A" 5), .call 0 (.request (.unsubscribe "A")), .call 0 .go,
      .call 0 .go, .call 0 (.redis true)]

/-- **A client can be given an event of a symbol after it has unsubscribed from it.** -/
theorem delivered_after_unsubscribe :
    ∃ g h g₁ g', Machine.run Process.step (.initial "") undrainedActs = some (g, h) ∧
      g.step (.call 0 .go) = some (g₁, [.returned 0 (.unsubscribe "A")]) ∧
      Machine.run Process.step g₁ [.task 0 .take] = some (g',
        [.client 0 (.handled (.quote "A" 5)),
          .client 0 (.accepted (.incremental (.quote "A" 5)))]) ∧
      (g'.clients 0).session.lastSeq.get? "A" = some 5 ∧
      (g'.clients 0).session.lastPrice.get? "A" ≠ none :=
  ⟨_, _, _, _, rfl, rfl, rfl, rfl, nofun⟩

end MarketData.Gateway
