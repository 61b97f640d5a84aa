import MarketData.Gateway.FailedSubscribe
import MarketData.Gateway.SnapshotFirst

/-!
# MarketData.Gateway.Handoff

**The subscribe handoff has no unobserved window.** An event of the symbol reaches a subscribing
session in one of three ways. Received before the initialization is registered, it is behind the
snapshot that is read later, since the engine updates before it publishes; received while the
initialization is registered, it is buffered, and the activation releases it unless the snapshot
covers it; received after the activation, it is pushed at once (`subscribe_handoff`).

The last way has no filter: an event that the snapshot already covers is pushed all the same if it
is received late (`covered_event_pushed`). The dispatch loop then finds it behind the boundary.
-/

namespace MarketData.Gateway

open Boundary (Emission)

/-! ### What is pushed -/

/-- The events of `symbol` pushed to the aggregator, in order. -/
def pushed (symbol : PyStr) (h : List ClientObs) : List MarketEvent :=
  (pushes h).filter (·.symbol = symbol)

theorem pushed_append (symbol : PyStr) (h h' : List ClientObs) :
    pushed symbol (h ++ h') = pushed symbol h ++ pushed symbol h' := by
  rw [pushed, pushes_append, List.filter_append]
  rfl

/-- No push, nothing pushed. -/
theorem pushed_eq_nil {symbol : PyStr} {h : List ClientObs}
    (hno : ∀ e, e.symbol = symbol → .pushed e ∉ h) : pushed symbol h = [] := by
  refine List.filter_eq_nil_iff.mpr fun e he heq => ?_
  obtain ⟨x, hx, hxe⟩ := List.mem_filterMap.mp he
  cases x with
  | pushed e' =>
      obtain rfl := Option.some.inj hxe
      exact hno e' (of_decide_eq_true heq) hx
  | handled | unlogged | withheld | accepted | refused | sent => cases hxe

/-- A call pushes nothing of a symbol that it does not activate. -/
theorem Called.not_pushed {sid : SessionId} {σ σ' : Scope} {a : CallAct} {obs : List Obs}
    (h : Called sid σ a σ' obs) (hI : Handshake sid σ.registry σ.client) {symbol : PyStr}
    (hno : ∀ x, .activated sid symbol x ∉ obs) {e : MarketEvent} (he : e.symbol = symbol) :
    .client sid (.pushed e) ∉ obs := by
  intro hmem
  cases h with
  | rejected hc hn hs =>
      rcases List.mem_append.mp hmem with hmem | hmem
      · rcases hs.obs _ hmem with ⟨m, hm⟩ | ⟨text, hm⟩ <;> cases hm
      · cases List.mem_singleton.mp hmem
  | unavailable hc hs | failed hc hs =>
      rcases hs.obs _ hmem with ⟨m, hm⟩ | ⟨text, hm⟩ <;> cases hm
  | @activated symbol' filter snapshot hsym i s o hc hi ho hs =>
      have hne : symbol' ≠ symbol := by
        intro heq
        exact hno snapshot (heq ▸ List.mem_append_right _ List.mem_cons_self)
      rcases List.mem_append.mp hmem with hmem | hmem
      · obtain ⟨x, hx, hxe⟩ := List.mem_map.mp hmem
        obtain rfl := (Obs.client.inj hxe).2
        rcases List.mem_append.mp hx with hseed | hrel
        · cases hs with
          | absent => cases hseed
          | accepted => cases List.mem_singleton.mp hseed
        · obtain ⟨e', he', hee'⟩ := List.mem_map.mp hrel
          obtain rfl := ClientObs.pushed.inj hee'
          have hown := hI.keyed symbol' i hi e' (SubscriptionInitialization.mem_released.mp he').1
          exact hne (hown.symm.trans he)
      · cases List.mem_singleton.mp hmem
  | overflowed | inUse | unsubscribed | finished | closing | closed =>
      cases List.mem_singleton.mp hmem
  | _ => cases hmem

/-- **What one step pushes**: what is received, as long as the session is subscribed and the step is
no activation. -/
theorem Stepped.pushed_eq {g g' : Process} {a : Act} {o : List Obs} (h : Stepped g a g' o)
    (hI : Handshakes g) {sid : SessionId} {symbol : PyStr}
    (hno : ∀ x, .activated sid symbol x ∉ o) :
    pushed symbol (viewed sid o) =
      if sid ∈ g.registry.subscribers symbol then received symbol o else [] := by
  have hnone : (∀ event, a ≠ .message event) →
      (∀ e, e.symbol = symbol → .pushed e ∉ viewed sid o) →
      pushed symbol (viewed sid o) =
        if sid ∈ g.registry.subscribers symbol then received symbol o else [] := by
    intro hm hpush
    rw [pushed_eq_nil hpush, h.not_received hm, ite_self]
  cases h with
  | @call sid' ca σ _ hc =>
      refine hnone (by simp) fun e he hmem => ?_
      by_cases hs : sid = sid'
      · subst hs
        obtain ⟨x, hx, hv⟩ := List.mem_filterMap.mp hmem
        cases x with
        | client s y =>
            simp only [Obs.view, Option.ite_none_right_eq_some, Option.some.injEq] at hv
            obtain ⟨rfl, rfl⟩ := hv
            exact hc.not_pushed (hI s) hno he hx
        | received e' sessions => exact hc.not_received hx
        | activated | returned | raised | closed => cases hv
      · rw [hc.viewed_other hs] at hmem
        cases hmem
  | task hp =>
      exact hnone (by simp) fun e he => not_mem_viewed (Pipeline.not_pushed_of_taskStep hp)
  | replied hc =>
      exact hnone (by simp) fun e he =>
        not_mem_viewed (ClientSession.not_pushed_of_enqueueError _ _)
  | connect | cancelled | stopped | fanout =>
      exact hnone (by simp) fun e he => List.not_mem_nil
  | @message event hl =>
      by_cases hs : event.symbol = symbol
      · subst hs
        by_cases hmem : sid ∈ g.registry.subscribers event.symbol <;>
          simp [viewed, Obs.view, pushed, pushes, ClientObs.pushed?, received, Obs.received?, hmem]
      · by_cases hmem : sid ∈ g.registry.subscribers event.symbol <;>
          simp [viewed, Obs.view, pushed, pushes, ClientObs.pushed?, received,
            Obs.received?, hmem, hs]

/-! ### Before the activation, and after it -/

/-- A run in which the session starts no call. -/
theorem along_of_no_request {sid : SessionId} {acts : List Act}
    (hone : ∀ r, .call sid (.request r) ∉ acts) (g : Process) :
    Machine.Along Process.step (fun _ a => ∀ r, a ≠ .call sid (.request r)) g acts :=
  Machine.along_of_forall (C := fun a : Act => ∀ r, a ≠ .call sid (.request r))
    (fun _ ha r heq => hone r (heq ▸ ha)) g

/-- The session's call has not activated the symbol, and has not succeeded. -/
structure Awaiting (sid : SessionId) (symbol : PyStr) (g : Process) : Prop where
  handshakes : Handshakes g
  call : (g.clients sid).call.FailingOrOver symbol
  unregistered : sid ∉ g.registry.subscribers symbol

namespace Awaiting

variable {sid : SessionId} {symbol : PyStr} {g g' : Process} {a : Act} {o : List Obs}

/-- **Before the activation nothing is pushed**, and the call does not return `True`. -/
theorem step (hI : Awaiting sid symbol g) (hC : StaysFailing sid symbol g a)
    (hs : g.step a = some (g', o)) :
    Awaiting sid symbol g' ∧ pushed symbol (viewed sid o) = [] ∧
      .returned sid (.subscribe symbol true) ∉ o := by
  have hstep := Process.stepped hs
  have hpush := hstep.pushed_eq hI.handshakes (hC.2 g' o hs)
  rw [if_neg hI.unregistered] at hpush
  have hcall := (hC.step hs hI.call).1
  refine ⟨⟨hI.handshakes.step hstep, hcall, fun hmem => hI.unregistered ?_⟩, hpush, fun hret => ?_⟩
  · rcases hstep.call_or_outside with ⟨sid', ca, σ, ha, rfl, hc⟩ | ⟨-, ho⟩
    · by_cases hsid : sid = sid'
      · subst hsid
        obtain ⟨-, htrace, -, -⟩ := hC.own ha hs hI.call hc
        have hsub : σ.registry.subscribers symbol = g.registry.subscribers symbol :=
          congrArg (fun d => (Dict.get? d symbol).getD ∅) htrace.registry
        exact hsub ▸ hmem
      · exact (hc.frame hsid symbol).2.mp hmem
    · exact ho.subscribers symbol ▸ hmem
  · rcases hstep.call_or_outside with ⟨sid', ca, σ, ha, rfl, hc⟩ | ⟨hnone, -⟩
    · obtain rfl := hc.returned_own hret
      obtain ⟨hf, -, -, -⟩ := hC.own ha hs hI.call hc
      rcases hc.failing hf with ⟨-, snapshot, hmem⟩ | ⟨-, hfailed⟩
      · exact hC.2 _ o hs snapshot hmem
      · cases hfailed with
        | runs _ _ hobs =>
            obtain ⟨x, hx⟩ := hobs _ hret
            cases hx
        | returns _ _ hobs =>
            rw [hobs] at hret
            cases List.mem_singleton.mp hret
    · exact hstep.not_returned hnone hret

theorem run {acts : List Act} {h : List Obs} (hI : Awaiting sid symbol g)
    (hone : ∀ r, .call sid (.request r) ∉ acts) (hno : ∀ x, .activated sid symbol x ∉ h)
    (hr : Machine.run Process.step g acts = some (g', h)) :
    Awaiting sid symbol g' ∧ pushed symbol (viewed sid h) = [] ∧
      .returned sid (.subscribe symbol true) ∉ h := by
  have hC : Machine.Along Process.step (StaysFailing sid symbol) g acts := by
    refine Machine.along_and.mpr ⟨along_of_no_request hone g, ?_⟩
    refine (Machine.along_of_observed (p := fun x => ∀ y, x ≠ .activated sid symbol y) hr
      fun x hx y heq => hno y (heq ▸ hx)).mono fun g a hobs g' o hs y hmem => ?_
    exact hobs g' o hs _ hmem y rfl
  refine Machine.run_invariant_along (I := fun g h => Awaiting sid symbol g ∧
    pushed symbol (viewed sid h) = [] ∧ .returned sid (.subscribe symbol true) ∉ h) ?_
    ⟨hI, rfl, List.not_mem_nil⟩ hC hr
  intro g a g' o h hC hI hs
  obtain ⟨hI, hpush, hret⟩ := hI
  obtain ⟨hI', hpush', hret'⟩ := hI.step hC hs
  refine ⟨hI', ?_, fun hmem => (List.mem_append.mp hmem).elim hret hret'⟩
  rw [viewed_append, pushed_append, hpush, hpush']
  rfl

end Awaiting

/-- The session is subscribed, and its call has nothing left to do but to return. -/
structure Live (sid : SessionId) (symbol : PyStr) (g : Process) : Prop where
  handshakes : Handshakes g
  call : (g.clients sid).call.result? = some (.subscribe symbol true) ∨ (g.clients sid).call = .idle
  registered : sid ∈ g.registry.subscribers symbol

/-- A call that has succeeded keeps its subscription and activates nothing any more. -/
theorem Called.live {sid : SessionId} {σ σ' : Scope} {a : CallAct} {obs : List Obs}
    {symbol : PyStr} (h : Called sid σ a σ' obs)
    (hr : σ.client.call.result? = some (.subscribe symbol true)) :
    σ'.registry.subscribers symbol = σ.registry.subscribers symbol ∧
    ∀ x, .activated sid symbol x ∉ obs := by
  cases h with
  | rolledBack hc => exact ⟨Registry.subscribers_endInitialization .., fun x => List.not_mem_nil⟩
  | inUse hc | finished hc => exact ⟨rfl, fun x hmem => by cases List.mem_singleton.mp hmem⟩
  | unused hc | released hc hl | dropped ok hc => exact ⟨rfl, fun x => List.not_mem_nil⟩
  | parsed hc | rejected hc | overflowed hc | unsubscribeBegun hc | cleanupBegun hc
  | attempted hc | answered ok hc | slept hc | unavailable hc | registered hc | read hc
  | failed hc | activated hc | lastUnsubscribed hc | unsubscribed hc | cleaned hc | closing hc
  | closed hc =>
      rw [hc] at hr
      cases hr

namespace Live

variable {sid : SessionId} {symbol : PyStr} {g g' : Process} {a : Act} {o : List Obs}

/-- **After the activation everything received is pushed.** -/
theorem step (hI : Live sid symbol g) (hno : ∀ r, a ≠ .call sid (.request r))
    (hs : Stepped g a g' o) :
    Live sid symbol g' ∧ pushed symbol (viewed sid o) = received symbol o ∧
      ∀ x, .activated sid symbol x ∉ o := by
  have hkept : Live sid symbol g' ∧ ∀ x, .activated sid symbol x ∉ o := by
    have hquiet : (∀ ca, a ≠ .call sid ca) → ∀ x, .activated sid symbol x ∉ o :=
      fun hca x hmem => hs.not_inNameOf hca _ hmem (Or.inr ⟨x, rfl⟩)
    rcases hs.call_or_outside with ⟨sid', ca, σ, rfl, rfl, hc⟩ | ⟨hnone, ho⟩
    · by_cases hsid : sid = sid'
      · subst hsid
        have hres := hI.call.resolve_right (hc.not_idle fun r heq => hno r (congrArg _ heq))
        obtain ⟨hsub, hact⟩ := hc.live hres
        refine ⟨⟨hI.handshakes.step hs, ?_, ?_⟩, hact⟩
        · rw [Process.clients_withScope_self]
          exact (hc.result_kept hres).1
        · show sid ∈ σ.registry.subscribers symbol
          rw [hsub]
          exact hI.registered
      · have hne : ∀ ca', Act.call sid' ca ≠ .call sid ca' :=
          fun ca' heq => hsid (Act.call.inj heq).1.symm
        refine ⟨⟨hI.handshakes.step hs, ?_, (hc.frame hsid symbol).2.mpr hI.registered⟩, hquiet hne⟩
        rw [Process.clients_withScope_ne g sid' σ hsid]
        exact hI.call
    · refine ⟨⟨hI.handshakes.step hs, ?_, ?_⟩, hquiet (hnone sid)⟩
      · rw [ho.call]
        exact hI.call
      · rw [ho.subscribers]
        exact hI.registered
  refine ⟨hkept.1, ?_, hkept.2⟩
  rw [hs.pushed_eq hI.handshakes hkept.2, if_pos hI.registered]

theorem run {acts : List Act} {h : List Obs} (hI : Live sid symbol g)
    (hone : ∀ r, .call sid (.request r) ∉ acts)
    (hr : Machine.run Process.step g acts = some (g', h)) :
    pushed symbol (viewed sid h) = received symbol h ∧ ∀ x, .activated sid symbol x ∉ h := by
  have key : Live sid symbol g' ∧ pushed symbol (viewed sid h) = received symbol h ∧
      ∀ x, .activated sid symbol x ∉ h := by
    refine Machine.run_invariant_along (C := fun _ a => ∀ r, a ≠ .call sid (.request r))
      (I := fun g h => Live sid symbol g ∧ pushed symbol (viewed sid h) = received symbol h ∧
        ∀ x, .activated sid symbol x ∉ h) ?_ ⟨hI, rfl, fun x => List.not_mem_nil⟩
      (along_of_no_request hone g) hr
    intro g a g' o h hC hI hs
    obtain ⟨hI, hpush, hact⟩ := hI
    obtain ⟨hI', hpush', hact'⟩ := hI.step hC (Process.stepped hs)
    refine ⟨hI', ?_, fun x hmem => (List.mem_append.mp hmem).elim (hact x) (hact' x)⟩
    rw [viewed_append, pushed_append, received_append, hpush, hpush']
  exact key.2

end Live

/-! ### While the initialization is registered -/

/-- The events a handshake has buffered are the last ones received, of all that were (`es`); the
ones before them are behind the snapshot it has read. -/
def Buffered (sid : SessionId) (symbol : PyStr) (g : Process) (es : List MarketEvent) : Prop :=
  ∀ i, g.registry.initialization? symbol sid = some i → i.overflowed = false →
    ∃ early, es = early ++ i.events ∧
      ∀ filter snapshot hs, (g.clients sid).call = .activating symbol filter (.value snapshot) hs →
        ∀ e ∈ early, ∃ x ∈ snapshot, e.seq ≤ x.seq

/-- A handshake is on the point of activating once it has read. -/
theorem Called.activating {sid : SessionId} {σ σ' : Scope} {a : CallAct} {obs : List Obs}
    (h : Called sid σ a σ' obs) {symbol : PyStr} {filter : Option SubscriptionFilter}
    {result : ReadResult} {hs : result.OfSymbol symbol}
    (hf : σ'.client.call = .activating symbol filter result hs) :
    a = .read result ∧ σ.client.call = .reading symbol filter ∧ σ'.registry = σ.registry := by
  cases h with
  | read hc h =>
      rw [Scope.call_goto] at hf
      obtain ⟨rfl, rfl, rfl⟩ := Call.activating.inj hf
      exact ⟨rfl, hc, rfl⟩
  | rejected hc | overflowed hc => cases hc.symm.trans hf
  | attempted hc hl =>
      rw [Scope.call_goto] at hf
      generalize (σ.channels.subscribePubsubSymbol sid _).2 = ok at hf
      rcases ok with - | - | - <;> cases hf
  | answered ok hc => cases ok <;> cases hf
  | released hc hl =>
      rw [Scope.call_goto] at hf
      split at hf <;> cases hf
  | _ => cases hf

namespace Buffered

variable {sid : SessionId} {symbol : PyStr} {g g' : Process} {a : Act} {o : List Obs}
  {es : List MarketEvent}

/-- **Every step keeps the window closed**, if a snapshot read returns what is not behind anything
received. -/
theorem step (hI : Buffered sid symbol g es) (hH : Handshakes g) (hs : Stepped g a g' o)
    (hread : ∀ filter snapshot, a = .call sid (.read (.value snapshot)) →
      (g.clients sid).call = .reading symbol filter → ∀ e ∈ es, ∃ x ∈ snapshot, e.seq ≤ x.seq) :
    Buffered sid symbol g' (es ++ received symbol o) := by
  have hout := hs.call_or_outside
  -- a step that leaves the initialization and the call alone
  have hsame : received symbol o = [] →
      g'.registry.initialization? symbol sid = g.registry.initialization? symbol sid →
      (g'.clients sid).call = (g.clients sid).call →
      Buffered sid symbol g' (es ++ received symbol o) := by
    intro hnone hinit hcall i hi hover
    obtain ⟨early, hes, hbehind⟩ := hI i (hinit ▸ hi) hover
    rw [hnone, List.append_nil]
    exact ⟨early, hes, fun filter snapshot hsym hact => hbehind filter snapshot hsym (hcall ▸ hact)⟩
  cases hs with
  | @call sid' ca σ _ hc =>
      have hnone := (Stepped.call hc).not_received (by simp) symbol
      by_cases hsid : sid = sid'
      · subst hsid
        rw [hnone, List.append_nil]
        intro i hi hover
        rw [Process.registry_withScope] at hi
        rw [Process.clients_withScope_self]
        by_cases hact : ∃ filter snapshot hsym,
            σ.client.call = .activating symbol filter (.value snapshot) hsym
        · obtain ⟨filter, snapshot, hsym, hact⟩ := hact
          obtain ⟨rfl, hreading, hreg⟩ := hc.activating hact
          rw [hreg] at hi
          obtain ⟨early, rfl, -⟩ := hI i hi hover
          refine ⟨early, rfl, fun filter' snapshot' hsym' hact' e he => ?_⟩
          obtain ⟨-, -, hres⟩ := Call.activating.inj (hact.symm.trans hact')
          obtain rfl := ReadResult.value.inj hres
          exact hread filter snapshot rfl hreading e (List.mem_append_left _ he)
        · have hnever : ∀ {early : List MarketEvent} filter snapshot hsym,
              σ.client.call = .activating symbol filter (.value snapshot) hsym →
                ∀ e ∈ early, ∃ x ∈ snapshot, e.seq ≤ x.seq :=
            fun filter snapshot hsym h => absurd ⟨filter, snapshot, hsym, h⟩ hact
          rcases (hH sid).initialization_of_called hc symbol with ⟨hinit, -⟩ | hinit | ⟨hinit, -⟩
          · obtain ⟨early, hes, -⟩ := hI i (hinit.symm.trans hi) hover
            exact ⟨early, hes, hnever⟩
          · exact absurd (hinit.symm.trans hi) (by simp)
          · obtain rfl := Option.some.inj (hinit.symm.trans hi)
            exact ⟨es, (List.append_nil es).symm, hnever⟩
      · exact hsame hnone (hc.frame hsid symbol).1
          (congrArg Client.call (Process.clients_withScope_ne g sid' σ hsid))
  | @message event hl =>
      by_cases hsym : event.symbol = symbol
      · intro i hi hover
        rw [Process.registry_fanoutEvent, Registry.initialization?_bufferEvent, if_pos hsym] at hi
        obtain ⟨i', hi', rfl⟩ := Option.map_eq_some_iff.mp hi
        rcases i'.buffer_cases event with ⟨-, hfull⟩ | ⟨hevents, hflag⟩
        · exact absurd (hfull.symm.trans hover) (by simp)
        · obtain ⟨early, rfl, hbehind⟩ := hI i' hi' (hflag.symm.trans hover)
          refine ⟨early, ?_, fun filter snapshot hsym hact => ?_⟩
          · rw [hevents, List.append_assoc]
            simp [received, Obs.received?, hsym]
          · rw [g.call_fanoutEvent sid event] at hact
            exact hbehind filter snapshot hsym hact
      · refine hsame (by simp [received, Obs.received?, hsym]) ?_ (g.call_fanoutEvent sid event)
        rw [Process.registry_fanoutEvent, Registry.initialization?_bufferEvent, if_neg hsym]
  | task hp =>
      exact hsame ((Stepped.task hp).not_received (by simp) symbol) rfl
        ((hout.resolve_left (by simp)).2.call sid)
  | replied hc =>
      exact hsame ((Stepped.replied hc).not_received (by simp) symbol) rfl
        ((hout.resolve_left (by simp)).2.call sid)
  | connect | cancelled | stopped | fanout =>
      exact hsame rfl rfl ((hout.resolve_left (by simp)).2.call sid)

end Buffered

/-- **In every run of the world the window is closed**, whoever subscribes to what. -/
theorem run_buffered {ρ : Type} {parseEvent : ρ → Option MarketEvent} {keyPrefix : String}
    {redisRetryInitial redisRetryMax : ℚ} {w : World} {acts : List (WorldAct ρ)}
    {h : List WorldObs} {symbol : PyStr}
    (hr : Machine.run (World.step parseEvent)
      (.initial keyPrefix redisRetryInitial redisRetryMax) acts = some (w, h))
    (ha : Ascending symbol h) (sid : SessionId) :
    Handshakes w.gateway ∧ Buffered sid symbol w.gateway (received symbol (gatewayObs h)) := by
  suffices key : Ascending symbol h → Ordered symbol w h ∧ Handshakes w.gateway ∧
      Buffered sid symbol w.gateway (received symbol (gatewayObs h)) from (key ha).2
  refine Machine.run_invariant (I := fun w h => Ascending symbol h → Ordered symbol w h ∧
    Handshakes w.gateway ∧ Buffered sid symbol w.gateway (received symbol (gatewayObs h))) ?_ ?_ hr
  · intro w a w' o h hI hs ha
    obtain ⟨hord, hH, hB⟩ := hI ha.of_append
    have hs := World.stepped hs
    refine ⟨hord.step ha hs, ?_⟩
    -- what the engine and Redis do is not seen by the gateway
    have hstore : gatewayObs o = [] → Handshakes w.gateway ∧
        Buffered sid symbol w.gateway (received symbol (gatewayObs (h ++ o))) := by
      intro hnone
      rw [gatewayObs_append, hnone, List.append_nil]
      exact ⟨hH, hB⟩
    cases hs with
    | engine obs hs hu =>
        refine hstore ?_
        simp [gatewayObs, List.filterMap_map, Function.comp_def, WorldObs.gateway?]
    | updated hs hu => exact hstore rfl
    | published hs hu hu' => exact hstore rfl
    | received hi hg =>
        have hg := Process.stepped hg
        rw [gatewayObs_append, received_append, gatewayObs_map]
        exact ⟨hH.step hg, hB.step hH hg fun _ _ heq => by cases heq⟩
    | gateway hm hc hg =>
        have hg := Process.stepped hg
        rw [gatewayObs_append, received_append, gatewayObs_map]
        refine ⟨hH.step hg, hB.step hH hg fun filter snapshot heq hreading e he => ?_⟩
        subst heq
        -- the value read is the current one, and no event received so far is beyond it
        have hread : w.store.snapshots.get? symbol = snapshot := by
          simpa [World.current, Process.reads?, hreading] using hc
        rw [← hread]
        exact hord.snapshot e (hord.updated e (List.mem_append_left _ he))
  · intro _
    refine ⟨.initial keyPrefix redisRetryInitial redisRetryMax symbol, .initial keyPrefix, ?_⟩
    intro i hi
    cases hi

/-! ### The handoff -/

/-- The events that the snapshot does not cover. -/
def beyond (snapshot : Option SnapshotData) (es : List MarketEvent) : List MarketEvent :=
  es.filter fun e => snapshot.all fun x => decide (x.seq < e.seq)

/-- **What an activation releases is what was received and the snapshot does not cover.** -/
theorem Buffered.released {sid : SessionId} {symbol : PyStr} {g : Process} {es : List MarketEvent}
    (hB : Buffered sid symbol g es) (hasc : es.Pairwise fun e e' => e.seq < e'.seq)
    {i : SubscriptionInitialization} {filter : Option SubscriptionFilter}
    {snapshot : Option SnapshotData} {hsym : (ReadResult.value snapshot).OfSymbol symbol}
    (hi : g.registry.initialization? symbol sid = some i) (ho : i.overflowed = false)
    (hc : (g.clients sid).call = .activating symbol filter (.value snapshot) hsym) :
    i.released snapshot = beyond snapshot es := by
  obtain ⟨early, rfl, hbehind⟩ := hB i hi ho
  have hsorted : i.events.insertionSort (fun e e' => e.seq ≤ e'.seq) = i.events := by
    refine List.Pairwise.insertionSort_eq ?_
    exact ((List.pairwise_append.mp hasc).2.1).imp fun hlt => hlt.le
  have hearly : beyond snapshot early = [] := by
    refine List.filter_eq_nil_iff.mpr fun e he => ?_
    obtain ⟨x, hx, hle⟩ := hbehind filter snapshot hsym hc e he
    obtain rfl : snapshot = some x := hx
    simpa using hle
  rw [SubscriptionInitialization.released, hsorted, beyond, List.filter_append]
  rw [beyond] at hearly
  rw [hearly, List.nil_append]

/-- What a `_subscribe` hands over to the session: `early` is what the gateway has received of the
symbol before the activation `o`, which leaves the session in state `s`; `h₁` is what the gateway
did since the request, and `h₂` what it does afterwards. -/
structure Handoff (sid : SessionId) (symbol : PyStr) (snapshot : Option SnapshotData)
    (early : List MarketEvent) (h₁ o : List Obs) (s : ClientSession) (h₂ : List Obs) : Prop where
  /-- Nothing of the symbol is pushed before the snapshot is enqueued. -/
  quiet : pushed symbol (viewed sid h₁) = []
  /-- The activation enqueues the snapshot, then pushes what the snapshot does not cover. -/
  activation : o = (snapshot.toList.map (fun x => ClientObs.accepted (.snapshot x)) ++
    (beyond snapshot early).map ClientObs.pushed).map (.client sid) ++
      [.activated sid symbol snapshot]
  /-- The boundary is the snapshot's. -/
  boundary : ∀ x ∈ snapshot, s.lastSeq.get? symbol = some x.seq
  /-- What is received afterwards is pushed. -/
  live : pushed symbol (viewed sid h₂) = received symbol h₂
  /-- All of it comes in ascending order, each event once. -/
  ascending : (early ++ received symbol h₂).Pairwise fun e e' => e.seq < e'.seq
  /-- What the snapshot covers is not enqueued after it. -/
  discarded : ∀ x ∈ snapshot, ∀ e ∈ emissions symbol (viewed sid h₂), x.seq < e.seq

/-- **The step that activates.** -/
theorem Stepped.handsOver {g g' : Process} {a : Act} {o : List Obs} {sid : SessionId}
    {symbol : PyStr} {snapshot : Option SnapshotData} {es : List MarketEvent}
    (h : Stepped g a g' o) (hH : Handshakes g) (hB : Buffered sid symbol g es)
    (hasc : es.Pairwise fun e e' => e.seq < e'.seq) (hmem : .activated sid symbol snapshot ∈ o) :
    o = (snapshot.toList.map (fun x => ClientObs.accepted (.snapshot x)) ++
      (beyond snapshot es).map ClientObs.pushed).map (.client sid) ++
        [.activated sid symbol snapshot] ∧
    (∀ x ∈ snapshot, (g'.clients sid).session.lastSeq.get? symbol = some x.seq) ∧
    Staying g' sid symbol ∧ Live sid symbol g' := by
  have hown : ∃ ca, a = .call sid ca := by
    by_contra hno
    exact h.not_inNameOf (fun ca heq => hno ⟨ca, heq⟩) _ hmem (Or.inr ⟨snapshot, rfl⟩)
  obtain ⟨ca, rfl⟩ := hown
  have hH' := hH.step h
  cases h with
  | @call _ _ σ _ hc =>
      obtain ⟨-, filter, hsym, i, s, os, hcall, hi, ho, hs, rfl, hreg, hclient⟩ :=
        hc.activation hmem
      have hreleased := hB.released hasc hi ho hcall
      rw [hreleased] at hclient ⊢
      refine ⟨?_, ?_, ⟨?_, ?_⟩, ⟨hH', ?_, ?_⟩⟩
      · cases hs <;> rfl
      · intro x hx
        rw [Process.clients_withScope_self, hclient]
        cases hs with
        | absent => cases hx
        | accepted y =>
            obtain rfl : y = x := Option.some.inj hx
            exact Dict.get?_set_self ..
      · rw [Process.clients_withScope_self, hclient]
        exact (hH sid).connected fun hidle => by cases hidle.symm.trans hcall
      · rw [Process.clients_withScope_self, hclient]
        simp
      · rw [Process.clients_withScope_self, hclient]
        exact Or.inl rfl
      · rw [Process.registry_withScope, hreg, Registry.subscribers_addSubscriber, if_pos rfl]
        exact Finset.mem_insert_self ..

/-- A request begins a call that has not activated anything. -/
theorem Awaiting.requested {sid : SessionId} {symbol : PyStr} {payload : Json} {g g' : Process}
    {o : List Obs} (hH : Handshakes g) (hsub : sid ∉ g.registry.subscribers symbol)
    (h : Stepped g (.call sid (.request (.subscribe symbol payload))) g' o) :
    Awaiting sid symbol g' ∧ pushed symbol (viewed sid o) = [] ∧
      .returned sid (.subscribe symbol true) ∉ o ∧ ∀ x, .activated sid symbol x ∉ o := by
  have hH' := hH.step h
  have hact : ∀ x, .activated sid symbol x ∉ o := by
    intro x hmem
    cases h with
    | call hc =>
        obtain ⟨-, filter, hsym, i, s, os, hcall, -⟩ := hc.activation hmem
        cases hc with
        | parsed hidle | rejected hidle | overflowed hidle => cases hidle.symm.trans hcall
  have hpush := h.pushed_eq hH hact
  rw [if_neg hsub] at hpush
  cases h with
  | @call _ _ σ _ hc =>
      cases hc with
      | parsed hidle hn hp =>
          refine ⟨⟨hH', ?_, hsub⟩, hpush, List.not_mem_nil, hact⟩
          rw [Process.clients_withScope_self]
          exact Or.inl rfl
      | rejected hidle hn hs =>
          refine ⟨⟨hH', ?_, hsub⟩, hpush, fun hmem => ?_, hact⟩
          · rw [Process.clients_withScope_self]
            exact Or.inr hidle
          · rcases List.mem_append.mp hmem with hmem | hmem
            · rcases hs.obs _ hmem with ⟨m, hm⟩ | ⟨text, hm⟩ <;> cases hm
            · cases List.mem_singleton.mp hmem
      | overflowed hidle hn =>
          refine ⟨⟨hH', ?_, hsub⟩, hpush, fun hmem => ?_, hact⟩
          · rw [Process.clients_withScope_self]
            exact Or.inr hidle
          · cases List.mem_singleton.mp hmem

theorem mem_gatewayObs {o : Obs} {h : List WorldObs} : o ∈ gatewayObs h ↔ .gateway o ∈ h := by
  rw [gatewayObs, List.mem_filterMap]
  constructor
  · intro hmem
    obtain ⟨x, hx, hxo⟩ := hmem
    cases x with
    | store o' => cases hxo
    | gateway o' => exact Option.some.inj hxo ▸ hx
  · exact fun hmem => ⟨_, hmem, rfl⟩

/-- What the gateway does, it does in a step of its own. -/
theorem step_of_mem_gateway {ρ : Type} {w w' : World} {a : WorldAct ρ} {o : List WorldObs} {x : Obs}
    (hs : World.Stepped w a w' o) (hmem : .gateway x ∈ o) :
    ∃ b, w.gateway.step b = some (w'.gateway, gatewayObs o) := by
  cases hs with
  | engine obs hs hu =>
      obtain ⟨y, -, hy⟩ := List.mem_map.mp hmem
      cases hy
  | updated | published => cases List.mem_singleton.mp hmem
  | received hi hg | gateway hm hc hg =>
      rw [gatewayObs_map]
      exact ⟨_, hg⟩

/-- **The subscribe handoff has no unobserved window.** Let a session that is not subscribed to a
symbol call `_subscribe` once, next to anything the engine, the network and the other sessions do,
and let the engine's events of the symbol ascend. If the call returns `True`, it has activated in
one of its steps, with the snapshot it has read: before it nothing of the symbol is pushed; in it
the snapshot is enqueued, then every event received so far is pushed that the snapshot does not
cover; after it every event is pushed when it is received; all in ascending order, and what the
snapshot covers is not enqueued any more. -/
theorem subscribe_handoff {ρ : Type} {parseEvent : ρ → Option MarketEvent} {keyPrefix : String}
    {redisRetryInitial redisRetryMax : ℚ} {w₀ w : World} {acts₀ acts : List (WorldAct ρ)}
    {h₀ h : List WorldObs} {sid : SessionId} {symbol : PyStr} {payload : Json}
    (hr₀ : Machine.run (World.step parseEvent)
      (.initial keyPrefix redisRetryInitial redisRetryMax) acts₀ = some (w₀, h₀))
    (hsub : sid ∉ w₀.gateway.registry.subscribers symbol)
    (hr : Machine.run (World.step parseEvent) w₀
      (.gateway (.call sid (.request (.subscribe symbol payload))) :: acts) = some (w, h))
    (hone : ∀ r, .gateway (.call sid (.request r)) ∉ acts)
    (hasc : Ascending symbol (h₀ ++ h))
    (hret : .gateway (.returned sid (.subscribe symbol true)) ∈ h) :
    ∃ acts₁ a acts₂ w₁ w₂ h₁ o h₂ snapshot,
      .gateway (.call sid (.request (.subscribe symbol payload))) :: acts = acts₁ ++ a :: acts₂ ∧
      h = h₁ ++ (o ++ h₂) ∧
      Machine.run (World.step parseEvent) w₀ acts₁ = some (w₁, h₁) ∧
      w₁.step parseEvent a = some (w₂, o) ∧
      Machine.run (World.step parseEvent) w₂ acts₂ = some (w, h₂) ∧
      Handoff sid symbol snapshot (received symbol (gatewayObs (h₀ ++ h₁))) (gatewayObs h₁)
        (gatewayObs o) (w₂.gateway.clients sid).session (gatewayObs h₂) := by
  have hH := (run_buffered hr₀ hasc.of_append sid).1
  obtain ⟨w', o₀, h', hs₀, hr', rfl⟩ := Machine.run_cons.mp hr
  have hproject : ∀ {w w' : World} {as : List (WorldAct ρ)} {h : List WorldObs},
      (∀ r, .gateway (.call sid (.request r)) ∉ as) →
      Machine.run (World.step parseEvent) w as = some (w', h) →
      ∃ bs, Machine.run Process.step w.gateway bs = some (w'.gateway, gatewayObs h) ∧
        ∀ r, .call sid (.request r) ∉ bs := by
    intro w w' as h hno hrun
    obtain ⟨bs, hbs, hQ⟩ := World.run_gateway (Q := fun b => ∀ r, b ≠ .call sid (.request r))
      (by simp) (fun a ha r heq => hno r (heq ▸ ha)) hrun
    exact ⟨bs, hbs, fun r hmem => hQ _ hmem r rfl⟩
  -- the request
  obtain ⟨hA, hpush₀, hret₀, hact₀⟩ : Awaiting sid symbol w'.gateway ∧
      pushed symbol (viewed sid (gatewayObs o₀)) = [] ∧
      .returned sid (.subscribe symbol true) ∉ gatewayObs o₀ ∧
      ∀ x, .activated sid symbol x ∉ gatewayObs o₀ := by
    cases World.stepped hs₀ with
    | gateway hm hc hg =>
        rw [gatewayObs_map]
        exact Awaiting.requested hH hsub (Process.stepped hg)
  replace hret : .gateway (.returned sid (.subscribe symbol true)) ∈ h' :=
    (List.mem_append.mp hret).resolve_left fun hmem => hret₀ (mem_gatewayObs.mpr hmem)
  -- without an activation the call could not have returned `True`
  have hact : ∃ x ∈ h', ∃ y, x = .gateway (.activated sid symbol y) := by
    by_contra hno
    obtain ⟨bs, hbs, hnone⟩ := hproject hone hr'
    have hquiet : ∀ y, .activated sid symbol y ∉ gatewayObs h' :=
      fun y hmem => hno ⟨_, mem_gatewayObs.mp hmem, y, rfl⟩
    exact (hA.run hnone hquiet hbs).2.2 (mem_gatewayObs.mpr hret)
  obtain ⟨acts₁, a, acts₂, w₁, w₂, h₁, o, h₂, rfl, rfl, hr₁, hs, hr₂, hfirst, x, hx, snapshot,
      rfl⟩ :=
    Machine.run_split hr' hact
  have hrun₁ : Machine.run (World.step parseEvent) w₀
      (.gateway (.call sid (.request (.subscribe symbol payload))) :: acts₁) =
        some (w₁, o₀ ++ h₁) := Machine.run_cons.mpr ⟨w', o₀, h₁, hs₀, hr₁, rfl⟩
  refine ⟨_, a, acts₂, w₁, w₂, o₀ ++ h₁, o, h₂, snapshot, (List.cons_append ..).symm,
    (List.append_assoc ..).symm, hrun₁, hs, hr₂, ?_⟩
  -- before the activation
  obtain ⟨bs₁, hbs₁, hno₁⟩ := hproject (fun r hmem => hone r (List.mem_append_left _ hmem)) hr₁
  have hbefore := (hA.run hno₁ (fun y hmem => hfirst _ (mem_gatewayObs.mp hmem) ⟨y, rfl⟩) hbs₁).2.1
  have hrall := Machine.run_append.mpr ⟨w₀, h₀, o₀ ++ h₁, hr₀, hrun₁, rfl⟩
  have hasc₁ : Ascending symbol (h₀ ++ (o₀ ++ h₁)) := by
    have hasc' : Ascending symbol ((h₀ ++ (o₀ ++ h₁)) ++ (o ++ h₂)) := by
      simpa only [List.append_assoc] using hasc
    exact hasc'.of_append
  obtain ⟨hH₁, hB₁⟩ := run_buffered hrall hasc₁ sid
  have hord₁ := (List.pairwise_append.mp (World.run_ordered hrall hasc₁).ascending).1
  -- the activation
  obtain ⟨b, hb⟩ := step_of_mem_gateway (World.stepped hs) hx
  obtain ⟨hactivation, hboundary, hstaying, hlive⟩ :=
    (Process.stepped hb).handsOver hH₁ hB₁ hord₁ (mem_gatewayObs.mpr hx)
  -- after the activation
  obtain ⟨bs₂, hbs₂, hno₂⟩ :=
    hproject (fun r hmem => hone r (List.mem_append_right _ (List.mem_cons_of_mem _ hmem))) hr₂
  obtain ⟨hafter, hagain⟩ := hlive.run hno₂ hbs₂
  refine ⟨?_, hactivation, hboundary, hafter, ?_, fun y hy e he => ?_⟩
  · rw [gatewayObs_append, viewed_append, pushed_append, hpush₀, hbefore]
    rfl
  · have hordered :=
      (World.run_ordered (Machine.run_append.mpr ⟨w₀, h₀, _, hr₀, hr, rfl⟩) hasc).ascending
    refine (List.pairwise_append.mp hordered).1.sublist ?_
    simp only [gatewayObs_append, received_append, List.append_assoc]
    refine List.Sublist.append_left (List.Sublist.append_left (List.Sublist.append_left ?_ _) _) _
    exact List.sublist_append_right ..
  · exact (hstaying.run_strict (hno₂ _) hagain hbs₂).2 e he y.seq (hboundary y hy)

/-- The engine updates the snapshot to its next event, and publishes it. -/
def updateActs : List (WorldAct MarketEvent) :=
  [.store (.engine .take) true, .store .redis true, .store (.engine (.updated true)) true]

def publishActs : List (WorldAct MarketEvent) :=
  [.store .redis true, .store (.engine (.published true)) true]

/-- A session connects; the engine has polled events of A. -/
def pollingActs (events : List MarketEvent) : List (WorldAct MarketEvent) :=
  .gateway (.connect 0 "c0" .dropOldest .raw) ::
    (events.zipIdx.flatMap fun p => Engine.pollActs p.2 p.1).map (fun a => .store (.engine a) true)

/-- The channel is confirmed. -/
def confirmActs : List (WorldAct MarketEvent) :=
  [.gateway (.call 0 .go), .gateway (.fanout .demanded), .gateway (.fanout .connect),
    .gateway (.fanout (.subscribed true)), .gateway (.call 0 .go), .gateway (.call 0 .go)]

/-- The initialization is registered, and the snapshot of event 5 is read. -/
def readActs : List (WorldAct MarketEvent) :=
  [.gateway (.call 0 .go), .gateway (.call 0 (.read (.value (some (.fromEvent (.quote "A" 5))))))]

/-- Event 5 is received before the initialization is registered, 6 while it is, 7 after the
activation. -/
def threeWaysActs : List (WorldAct MarketEvent) :=
  confirmActs ++ updateActs ++ publishActs ++ [.receive] ++ readActs ++ updateActs ++ publishActs ++
    [.receive, .gateway (.call 0 .go)] ++ updateActs ++ publishActs ++
    [.receive, .gateway (.call 0 .go), .gateway (.call 0 .go)]

theorem subscribe_handoff_three_ways :
    ∃ w₀ h₀ w h, Machine.run (World.step some) (.initial "" (1 / 10) 5)
        (pollingActs [.quote "A" 5, .quote "A" 6, .quote "A" 7]) = some (w₀, h₀) ∧
      Machine.run (World.step some) w₀
        (.gateway (.call 0 (.request (.subscribe "A" .null))) :: threeWaysActs) = some (w, h) ∧
      pushed "A" (viewed 0 (gatewayObs h)) = [.quote "A" 6, .quote "A" 7] ∧
      ∃ h₁ o h₂ snapshot s, h = h₁ ++ (o ++ h₂) ∧
        Handoff 0 "A" snapshot (received "A" (gatewayObs (h₀ ++ h₁))) (gatewayObs h₁) (gatewayObs o)
          s (gatewayObs h₂) := by
  have hrun : ∃ w₀ h₀ w h, Machine.run (World.step some) (.initial "" (1 / 10) 5)
        (pollingActs [.quote "A" 5, .quote "A" 6, .quote "A" 7]) = some (w₀, h₀) ∧
      0 ∉ w₀.gateway.registry.subscribers "A" ∧
      Machine.run (World.step some) w₀
        (.gateway (.call 0 (.request (.subscribe "A" .null))) :: threeWaysActs) = some (w, h) ∧
      updated "A" (h₀ ++ h) = [.quote "A" 5, .quote "A" 6, .quote "A" 7] ∧
      .returned 0 (.subscribe "A" true) ∈ gatewayObs h ∧
      pushed "A" (viewed 0 (gatewayObs h)) = [.quote "A" 6, .quote "A" 7] :=
    ⟨_, _, _, _, rfl, by decide, rfl, rfl, by decide, rfl⟩
  obtain ⟨w₀, h₀, w, h, hr₀, hsub, hr, hup, hret, hpush⟩ := hrun
  have hasc : Ascending "A" (h₀ ++ h) := by
    rw [Ascending, hup]
    decide
  obtain ⟨acts₁, a, acts₂, w₁, w₂, h₁, o, h₂, snapshot, -, heq, -, -, -, hhandoff⟩ :=
    subscribe_handoff hr₀ hsub hr
      (by simp [threeWaysActs, confirmActs, updateActs, publishActs, readActs]) hasc
      (mem_gatewayObs.mp hret)
  exact ⟨w₀, h₀, w, h, hr₀, hr, hpush, h₁, o, h₂, snapshot, _, heq, hhandoff⟩

/-- The engine's publish is late: event 5 is received only after the activation. -/
def lateActs : List (WorldAct MarketEvent) :=
  confirmActs ++ updateActs ++ readActs ++ [.gateway (.call 0 .go)] ++ publishActs ++
    [.receive, .gateway (.call 0 .go), .gateway (.call 0 .go)]

/-- **An event that the snapshot covers is pushed if it is received after the activation.** -/
theorem covered_event_pushed :
    ∃ w₀ h₀ w h, Machine.run (World.step some) (.initial "" (1 / 10) 5)
        (pollingActs [.quote "A" 5]) = some (w₀, h₀) ∧
      0 ∉ w₀.gateway.registry.subscribers "A" ∧ (w₀.gateway.clients 0).Drained "A" ∧
      Machine.run (World.step some) w₀
        (.gateway (.call 0 (.request (.subscribe "A" .null))) :: lateActs) = some (w, h) ∧
      Ascending "A" (h₀ ++ h) ∧
      .activated 0 "A" (some (.fromEvent (.quote "A" 5))) ∈ gatewayObs h ∧
      .returned 0 (.subscribe "A" true) ∈ gatewayObs h ∧
      pushed "A" (viewed 0 (gatewayObs h)) = [.quote "A" 5] := by
  have hrun : ∃ w₀ h₀ w h, Machine.run (World.step some) (.initial "" (1 / 10) 5)
        (pollingActs [.quote "A" 5]) = some (w₀, h₀) ∧
      0 ∉ w₀.gateway.registry.subscribers "A" ∧ (w₀.gateway.clients 0).Drained "A" ∧
      Machine.run (World.step some) w₀
        (.gateway (.call 0 (.request (.subscribe "A" .null))) :: lateActs) = some (w, h) ∧
      updated "A" (h₀ ++ h) = [.quote "A" 5] ∧
      .activated 0 "A" (some (.fromEvent (.quote "A" 5))) ∈ gatewayObs h ∧
      .returned 0 (.subscribe "A" true) ∈ gatewayObs h ∧
      pushed "A" (viewed 0 (gatewayObs h)) = [.quote "A" 5] :=
    ⟨_, _, _, _, rfl, by decide, by decide, rfl, rfl, by decide, by decide, rfl⟩
  obtain ⟨w₀, h₀, w, h, hr₀, hsub, hdrained, hr, hup, hact, hret, hpush⟩ := hrun
  refine ⟨w₀, h₀, w, h, hr₀, hsub, hdrained, hr, ?_, hact, hret, hpush⟩
  rw [Ascending, hup]
  exact List.pairwise_singleton ..

end MarketData.Gateway
