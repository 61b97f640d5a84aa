import MarketData.Gateway.Coroutines
import MarketData.Gateway.Ordering

/-!
# MarketData.Gateway.Interleaving

What holds of the gateway **under every interleaving** of its coroutines: the inversion of
a gateway step (`Process.stepped`), the frame rule for the sessions that did not run
(`Called.frame`), and the two invariants the later modules share. `Locking` says who holds
`pubsub_lock`; `Handshakes` ties the two registries to where each session's call is.
-/

namespace MarketData.Gateway

/-- **Everything one step of the gateway can do.** -/
inductive Stepped (g : Process) : Act → Process → List Obs → Prop
  | connect {sid clientId policy mode encoding} (hc : (g.clients sid).connected = false) :
      Stepped g (.connect sid clientId policy mode encoding)
        { g.withClient sid ((g.clients sid).connect clientId policy mode encoding) with
          registry := { g.registry with
            allSessions := g.registry.allSessions.set clientId sid } } []
  | call {sid a σ obs} (h : Called sid (g.scope sid) a σ obs) :
      Stepped g (.call sid a) (g.withScope sid σ) obs
  | task {sid a p obs} (h : (g.clients sid).taskStep a = some (p, obs)) :
      Stepped g (.task sid a) (g.withClient sid { g.clients sid with toPipeline := p })
        (obs.map (.client sid))
  | replied {sid text} (hc : (g.clients sid).call = .idle) :
      Stepped g (.error sid text)
        (g.withClient sid
          ((g.clients sid).withSession ((g.clients sid).session.enqueueError text).1))
        (((g.clients sid).session.enqueueError text).2.map (.client sid))
  | cancelled {sid} :
      Stepped g (.cancelDispatch sid)
        (g.withClient sid { g.clients sid with task := (g.clients sid).task.cancel }) []
  | stopped {sid} :
      Stepped g (.stopAggregator sid)
        (g.withClient sid ((g.clients sid).withSession { (g.clients sid).session with
          aggregator := (g.clients sid).session.aggregator.stop })) []
  | fanout {a channels task} (h : g.channels.fanoutStep g.fanout a = some (channels, task)) :
      Stepped g (.fanout a) { g with channels := channels, fanout := task } []
  | message {e} (h : g.fanout = .listening) :
      Stepped g (.message e) (g.fanoutEvent e) [.received e (g.registry.subscribers e.symbol)]

/-- **Inversion**: every step of the gateway is one of the constructors of `Stepped`. -/
theorem Process.stepped {g g' : Process} {a : Act} {obs : List Obs}
    (h : g.step a = some (g', obs)) : Stepped g a g' obs := by
  cases a with
  | connect sid clientId policy mode encoding =>
      simp only [step] at h
      split at h
      · exact absurd h (by simp)
      · rename_i hc
        obtain ⟨rfl, rfl⟩ := Machine.outcome h
        exact .connect (Bool.eq_false_iff.mpr hc)
  | call sid a =>
      simp only [step] at h
      split at h
      · rename_i σ o hσ
        obtain ⟨rfl, rfl⟩ := Machine.outcome h
        exact .call (Scope.called hσ)
      · exact absurd h (by simp)
  | task sid a =>
      simp only [step] at h
      split at h
      · rename_i p o hp
        obtain ⟨rfl, rfl⟩ := Machine.outcome h
        exact .task hp
      · exact absurd h (by simp)
  | error sid text =>
      simp only [step] at h
      split at h
      · rename_i hc
        obtain ⟨rfl, rfl⟩ := Machine.outcome h
        exact .replied hc.2
      · exact absurd h (by simp)
  | cancelDispatch sid =>
      obtain ⟨rfl, rfl⟩ := Machine.outcome h
      exact .cancelled
  | stopAggregator sid =>
      obtain ⟨rfl, rfl⟩ := Machine.outcome h
      exact .stopped
  | fanout a =>
      simp only [step] at h
      split at h
      · rename_i channels task hf
        obtain ⟨rfl, rfl⟩ := Machine.outcome h
        exact .fanout hf
      · exact absurd h (by simp)
  | message e =>
      simp only [step] at h
      split at h
      · rename_i hl
        obtain ⟨rfl, rfl⟩ := Machine.outcome h
        exact .message hl
      · exact absurd h (by simp)

/-! ### The state after a step, field by field -/

section fields

variable (g : Process) (sid : SessionId) (σ : Scope) (c : Client)

@[simp] theorem Scope.registry_goto (call : Call) : (σ.goto call).registry = σ.registry := rfl
@[simp] theorem Scope.channels_goto (call : Call) : (σ.goto call).channels = σ.channels := rfl
@[simp] theorem Scope.call_goto (call : Call) : (σ.goto call).client.call = call := rfl
@[simp] theorem Scope.session_goto (call : Call) :
    (σ.goto call).client.session = σ.client.session := rfl
@[simp] theorem Scope.task_goto (call : Call) : (σ.goto call).client.task = σ.client.task := rfl
@[simp] theorem Scope.registry_withSession (s : ClientSession) :
    (σ.withSession s).registry = σ.registry := rfl
@[simp] theorem Scope.channels_withSession (s : ClientSession) :
    (σ.withSession s).channels = σ.channels := rfl
@[simp] theorem Scope.call_withSession (s : ClientSession) :
    (σ.withSession s).client.call = σ.client.call := rfl
@[simp] theorem Scope.session_withSession (s : ClientSession) :
    (σ.withSession s).client.session = s := rfl
@[simp] theorem Scope.task_withSession (s : ClientSession) :
    (σ.withSession s).client.task = σ.client.task := rfl

namespace Process

@[simp] theorem registry_scope : (g.scope sid).registry = g.registry := rfl
@[simp] theorem channels_scope : (g.scope sid).channels = g.channels := rfl
@[simp] theorem client_scope : (g.scope sid).client = g.clients sid := rfl
@[simp] theorem registry_withScope : (g.withScope sid σ).registry = σ.registry := rfl
@[simp] theorem channels_withScope : (g.withScope sid σ).channels = σ.channels := rfl
@[simp] theorem fanout_withScope : (g.withScope sid σ).fanout = g.fanout := rfl
@[simp] theorem registry_withClient : (g.withClient sid c).registry = g.registry := rfl
@[simp] theorem channels_withClient : (g.withClient sid c).channels = g.channels := rfl
@[simp] theorem fanout_withClient : (g.withClient sid c).fanout = g.fanout := rfl

@[simp] theorem clients_withScope_self : (g.withScope sid σ).clients sid = σ.client :=
  Function.update_self ..

theorem clients_withScope_ne {sid' : SessionId} (h : sid' ≠ sid) :
    (g.withScope sid σ).clients sid' = g.clients sid' :=
  Function.update_of_ne h ..

@[simp] theorem clients_withClient_self : (g.withClient sid c).clients sid = c :=
  Function.update_self ..

theorem clients_withClient_ne {sid' : SessionId} (h : sid' ≠ sid) :
    (g.withClient sid c).clients sid' = g.clients sid' :=
  Function.update_of_ne h ..

@[simp] theorem channels_fanoutEvent (e : MarketEvent) : (g.fanoutEvent e).channels = g.channels :=
  rfl

@[simp] theorem fanout_fanoutEvent (e : MarketEvent) : (g.fanoutEvent e).fanout = g.fanout := rfl

@[simp] theorem registry_fanoutEvent (e : MarketEvent) :
    (g.fanoutEvent e).registry = g.registry.bufferEvent e := rfl

theorem clients_fanoutEvent (e : MarketEvent) :
    (g.fanoutEvent e).clients sid =
      if sid ∈ g.registry.subscribers e.symbol then (g.clients sid).push e else g.clients sid :=
  rfl

/-- An event reaches the aggregators and nothing else of the sessions. -/
theorem call_fanoutEvent (e : MarketEvent) :
    ((g.fanoutEvent e).clients sid).call = (g.clients sid).call := by
  rw [clients_fanoutEvent]
  split <;> rfl

end Process

end fields

/-! ### The frame rule -/

/-- **Frame**: a call of one session leaves the registrations of every other session alone. -/
theorem Called.frame {sid sid' : SessionId} {σ σ' : Scope} {a : CallAct} {obs : List Obs}
    (h : Called sid σ a σ' obs) (hne : sid' ≠ sid) (symbol : PyStr) :
    σ'.registry.initialization? symbol sid' = σ.registry.initialization? symbol sid' ∧
    (sid' ∈ σ'.registry.subscribers symbol ↔ sid' ∈ σ.registry.subscribers symbol) := by
  cases h with
  | registered hc =>
      simp [Registry.initialization?_beginInitialization, hne.symm]
  | activated hc hi ho hs =>
      simp only [Registry.initialization?_addSubscriber, Registry.initialization?_endInitialization,
        Registry.subscribers_addSubscriber, Registry.subscribers_endInitialization, hne.symm,
        and_false, if_false, true_and]
      split <;> simp [hne]
  | rolledBack hc =>
      simp [Registry.initialization?_endInitialization, hne.symm]
  | lastUnsubscribed hc hl =>
      simp only [Scope.registry_goto, Scope.registry_withSession,
        Registry.initialization?_discardSubscriber, Registry.subscribers_discardSubscriber,
        true_and]
      split <;> simp [hne]
  | unsubscribed hc hl =>
      simp only [Scope.registry_goto, Scope.registry_withSession,
        Registry.initialization?_discardSubscriber, Registry.subscribers_discardSubscriber,
        true_and]
      split <;> simp [hne]
  | cleaned hc ho =>
      simp only [Scope.registry_goto, Registry.initialization?_cleanup,
        Registry.subscribers_cleanup, hne.symm, if_false, true_and]
      split <;> simp [hne]
  | _ => exact ⟨rfl, Iff.rfl⟩

/-! ### What a call makes visible -/

/-- The result of a call that is past its last branching. -/
def Call.result? : Call → Option Returning
  | .rollingBack symbol ok | .checkingUnused symbol ok => some (.subscribe symbol ok)
  | .unsubscribing symbol => some (.unsubscribe symbol)
  | .cleaning | .closing => some .cleanup
  | .releasing _ result | .dropping _ result => some result
  | _ => none

/-- An observation a step from `σ` to `σ'` makes, and where the call has to be for it. -/
inductive Observed (sid : SessionId) (σ σ' : Scope) : Obs → Prop
  | client (o : ClientObs) : Observed sid σ σ' (.client sid o)
  | activated {symbol snapshot} : Observed sid σ σ' (.activated sid symbol snapshot)
  /-- A call returns its result; only a rejected filter ends `_subscribe` at once. -/
  | returned {result} (hidle : σ'.client.call = .idle)
      (hr : σ.client.call.result? = some result ∨
        σ.client.call = .idle ∧ ∃ symbol, result = .subscribe symbol false) :
      Observed sid σ σ' (.returned sid result)
  | raised (hidle : σ'.client.call = .idle) : Observed sid σ σ' (.raised sid)
  | closed (hc : σ.client.call = .releasing [] .cleanup) : Observed sid σ σ' (.closed sid)

theorem Replied.observed {sid : SessionId} {s s' : ClientSession} {obs : List Obs} {text : PyStr}
    (h : Replied sid s text s' obs) {σ σ' : Scope} {o : Obs} (ho : o ∈ obs) :
    Observed sid σ σ' o := by
  rcases h.obs o ho with ⟨m, rfl⟩ | ⟨text, rfl⟩
  · exact .client _
  · exact .client _

/-- **What a step of a call makes visible.** -/
theorem Called.observed {sid : SessionId} {σ σ' : Scope} {a : CallAct} {obs : List Obs}
    (h : Called sid σ a σ' obs) {o : Obs} (ho : o ∈ obs) : Observed sid σ σ' o := by
  cases h with
  | @rejected symbol _ _ _ _ hc hn hs =>
      rcases List.mem_append.mp ho with ho | ho
      · exact hs.observed ho
      · obtain rfl := List.mem_singleton.mp ho
        exact .returned hc (Or.inr ⟨hc, symbol, rfl⟩)
  | unavailable hc hs | failed hc hs => exact hs.observed ho
  | activated hc hi ho' hs =>
      rcases List.mem_append.mp ho with ho | ho
      · obtain ⟨o, -, rfl⟩ := List.mem_map.mp ho
        exact .client o
      · obtain rfl := List.mem_singleton.mp ho
        exact .activated
  | overflowed hc =>
      obtain rfl := List.mem_singleton.mp ho
      exact .raised hc
  | inUse hc | unsubscribed hc | finished hc | closed hc =>
      obtain rfl := List.mem_singleton.mp ho
      exact .returned rfl (Or.inl (by rw [hc]; rfl))
  | closing hc =>
      obtain rfl := List.mem_singleton.mp ho
      exact .closed hc
  | _ => cases ho

/-! ### What a step is to one session -/

/-- What a step outside a session's own call does to it. -/
inductive ClientStepped (c : Client) : Client → List ClientObs → Prop
  | idle : ClientStepped c c []
  /-- A step of its own tasks, a push of the fanout loop, or an error reply. -/
  | pipeline {a p o} (h : c.toPipeline.step a = some (p, o)) :
      ClientStepped c { c with toPipeline := p } o
  | connected {clientId policy mode encoding} (hc : c.connected = false) :
      ClientStepped c (c.connect clientId policy mode encoding) []
  | cancelled : ClientStepped c { c with task := c.task.cancel } []
  | stopped : ClientStepped c
      (c.withSession { c.session with aggregator := c.session.aggregator.stop }) []

/-- What one session sees of a list of observations. -/
def viewed (sid : SessionId) (h : List Obs) : List ClientObs := h.filterMap (Obs.view sid)

@[simp] theorem viewed_nil (sid : SessionId) : viewed sid [] = [] := rfl

theorem viewed_append (sid : SessionId) (h h' : List Obs) :
    viewed sid (h ++ h') = viewed sid h ++ viewed sid h' :=
  List.filterMap_append

theorem viewed_own (sid : SessionId) (o : List ClientObs) :
    viewed sid (o.map (.client sid)) = o := by
  simp [viewed, List.filterMap_map, Function.comp_def, Obs.view]

theorem viewed_other {sid sid' : SessionId} (h : sid' ≠ sid) (o : List ClientObs) :
    viewed sid' (o.map (.client sid)) = [] := by
  refine List.filterMap_eq_nil_iff.mpr fun x hx => ?_
  obtain ⟨y, -, rfl⟩ := List.mem_map.mp hx
  exact if_neg (Ne.symm h)

/-- A session sees nothing in another one's observations that it would not see in its own. -/
theorem not_mem_viewed {sid sid' : SessionId} {x : ClientObs} {o : List ClientObs} (h : x ∉ o) :
    x ∉ viewed sid (o.map (.client sid')) := by
  by_cases hs : sid = sid'
  · rw [hs, viewed_own]
    exact h
  · rw [viewed_other hs]
    exact List.not_mem_nil

/-- A return is nothing to the session's tasks. -/
theorem viewed_returned (sid : SessionId) (h : List Obs) (result : Returning) :
    viewed sid (h ++ [.returned sid result]) = viewed sid h :=
  (viewed_append sid h _).trans (List.append_nil _)

/-- What a session sees of its activation. -/
theorem viewed_activation (sid : SessionId) (symbol : PyStr) (snapshot : Option SnapshotData)
    (o : List ClientObs) :
    viewed sid (o.map (.client sid) ++ [.activated sid symbol snapshot]) = o :=
  ((viewed_append sid _ _).trans (List.append_nil _)).trans (viewed_own sid o)

theorem Replied.viewed_other {sid sid' : SessionId} {s s' : ClientSession} {obs : List Obs}
    {text : PyStr} (h : Replied sid s text s' obs) (hne : sid' ≠ sid) : viewed sid' obs = [] := by
  refine List.filterMap_eq_nil_iff.mpr fun x hx => ?_
  rcases h.obs x hx with ⟨m, rfl⟩ | ⟨text, rfl⟩ <;> exact if_neg (Ne.symm hne)

/-- What a call of one session does is not seen by the others. -/
theorem Called.viewed_other {sid sid' : SessionId} {σ σ' : Scope} {a : CallAct} {obs : List Obs}
    (h : Called sid σ a σ' obs) (hne : sid' ≠ sid) : viewed sid' obs = [] := by
  cases h with
  | rejected hc hn hs =>
      rw [viewed_append, hs.viewed_other hne]
      rfl
  | unavailable hc hs | failed hc hs => exact hs.viewed_other hne
  | activated hc hi ho hs =>
      rw [viewed_append, Gateway.viewed_other hne]
      rfl
  | _ => rfl

/-- **A gateway step, seen by one session**: a step of its call, or a step beside it. -/
theorem Stepped.client {g g' : Process} {a : Act} {obs : List Obs} (h : Stepped g a g' obs)
    (sid : SessionId) :
    (∃ ca σ, a = .call sid ca ∧ g' = g.withScope sid σ ∧ Called sid (g.scope sid) ca σ obs) ∨
    ClientStepped (g.clients sid) (g'.clients sid) (viewed sid obs) := by
  have hother : ∀ {sid' c} {o : List ClientObs}, sid ≠ sid' →
      ClientStepped (g.clients sid) ((g.withClient sid' c).clients sid)
        (viewed sid (o.map (.client sid'))) := by
    intro sid' c o hne
    rw [Process.clients_withClient_ne g sid' c hne, Gateway.viewed_other hne]
    exact .idle
  cases h with
  | @call sid' ca σ _ hc =>
      by_cases hs : sid = sid'
      · subst hs
        exact Or.inl ⟨ca, σ, rfl, rfl, hc⟩
      · rw [Process.clients_withScope_ne g sid' σ hs, hc.viewed_other hs]
        exact Or.inr .idle
  | @connect sid' clientId policy mode encoding hc =>
      refine Or.inr ?_
      by_cases hs : sid = sid'
      · subst hs
        have hself :=
          g.clients_withClient_self sid ((g.clients sid).connect clientId policy mode encoding)
        have hstep := @ClientStepped.connected _ clientId policy mode encoding hc
        exact hself.symm ▸ hstep
      · exact hother (o := []) hs
  | @task sid' a p o hp =>
      refine Or.inr ?_
      by_cases hs : sid = sid'
      · subst hs
        rw [Process.clients_withClient_self, viewed_own]
        exact .pipeline (a := .task a) hp
      · exact hother hs
  | @replied sid' text hc =>
      refine Or.inr ?_
      by_cases hs : sid = sid'
      · subst hs
        rw [Process.clients_withClient_self, viewed_own]
        exact .pipeline (a := .error text) rfl
      · exact hother hs
  | @cancelled sid' =>
      refine Or.inr ?_
      by_cases hs : sid = sid'
      · subst hs
        rw [Process.clients_withClient_self]
        exact .cancelled
      · exact hother (o := []) hs
  | @stopped sid' =>
      refine Or.inr ?_
      by_cases hs : sid = sid'
      · subst hs
        rw [Process.clients_withClient_self]
        exact .stopped
      · exact hother (o := []) hs
  | fanout h => exact Or.inr .idle
  | @message e h =>
      refine Or.inr ?_
      rw [Process.clients_fanoutEvent]
      by_cases hs : sid ∈ g.registry.subscribers e.symbol
      · simp only [viewed, List.filterMap_cons, Obs.view, if_pos hs, List.filterMap_nil]
        exact .pipeline (a := .push e) rfl
      · simp only [viewed, List.filterMap_cons, Obs.view, if_neg hs, List.filterMap_nil]
        exact .idle

/-- Beside its calls a connected session's settings stay. -/
theorem ClientStepped.settings {c c' : Client} {o : List ClientObs} (h : ClientStepped c c' o)
    (hon : c.connected = true) :
    Pipeline.SameSettings c.session c'.session ∧ c'.call = c.call ∧ c'.connected = c.connected := by
  cases h with
  | idle => exact ⟨.refl _, rfl, rfl⟩
  | pipeline h => exact ⟨Pipeline.step_settings h, rfl, rfl⟩
  | connected hc => exact absurd (hc.symm.trans hon) Bool.false_ne_true
  | cancelled => exact ⟨.refl _, rfl, rfl⟩
  | stopped => exact ⟨⟨rfl, rfl, rfl, rfl, rfl, AggregationBuffer.stop_mode _⟩, rfl, rfl⟩

/-! ### Steps outside the calls -/

/-- What no step outside the calls changes: where each call is, who is subscribed, and
which channels are wanted. -/
structure OutsideCalls (g g' : Process) : Prop where
  connected : ∀ sid, (g.clients sid).connected = true → (g'.clients sid).connected = true
  call : ∀ sid, (g'.clients sid).call = (g.clients sid).call
  subscribers : ∀ symbol, g'.registry.subscribers symbol = g.registry.subscribers symbol
  active : ∀ symbol, g'.channels.Active symbol ↔ g.channels.Active symbol
  /-- An initialization can only buffer an event of its symbol. -/
  initialization : ∀ symbol sid,
    g'.registry.initialization? symbol sid = g.registry.initialization? symbol sid ∨
    ∃ e : MarketEvent, e.symbol = symbol ∧ g'.registry.initialization? symbol sid =
      (g.registry.initialization? symbol sid).map (·.buffer e)

/-- A change of one client that leaves its call alone is outside the calls. -/
theorem Process.withClient_outsideCalls (g : Process) {sid : SessionId} {c : Client}
    (hc : c.call = (g.clients sid).call)
    (hn : (g.clients sid).connected = true → c.connected = true) :
    OutsideCalls g (g.withClient sid c) where
  connected sid' h := by
    by_cases hs : sid' = sid
    · subst hs
      rw [clients_withClient_self]
      exact hn h
    · rw [clients_withClient_ne g sid c hs]
      exact h
  call sid' := by
    by_cases hs : sid' = sid
    · subst hs
      rw [clients_withClient_self, hc]
    · rw [clients_withClient_ne g sid c hs]
  subscribers _ := rfl
  active _ := Iff.rfl
  initialization _ _ := Or.inl rfl

/-- **A step is a step of one call, or outside the calls.** -/
theorem Stepped.call_or_outside {g g' : Process} {a : Act} {obs : List Obs}
    (h : Stepped g a g' obs) :
    (∃ sid ca σ, a = .call sid ca ∧ g' = g.withScope sid σ ∧
      Called sid (g.scope sid) ca σ obs) ∨
    (∀ sid ca, a ≠ .call sid ca) ∧ OutsideCalls g g' := by
  cases h with
  | call h => exact Or.inl ⟨_, _, _, rfl, rfl, h⟩
  | connect hc =>
      obtain ⟨hon, hcall, -, -, -⟩ := g.withClient_outsideCalls
        (c := (g.clients _).connect _ _ _ _) rfl (fun _ => rfl)
      exact Or.inr ⟨by simp, hon, hcall, fun _ => rfl, fun _ => Iff.rfl, fun _ _ => Or.inl rfl⟩
  | task h => exact Or.inr ⟨by simp, g.withClient_outsideCalls rfl id⟩
  | replied hc => exact Or.inr ⟨by simp, g.withClient_outsideCalls rfl id⟩
  | cancelled => exact Or.inr ⟨by simp, g.withClient_outsideCalls rfl id⟩
  | stopped => exact Or.inr ⟨by simp, g.withClient_outsideCalls rfl id⟩
  | fanout h =>
      obtain ⟨hp, ha, -, -⟩ := Channels.fanoutStep_frame h
      refine Or.inr ⟨by simp, fun _ => id, fun _ => rfl, fun _ => rfl, fun symbol => ?_,
        fun _ _ => Or.inl rfl⟩
      simp only [Channels.Active, Channels.eventChannel, hp, ha]
  | @message e h =>
      refine Or.inr ⟨by simp, fun sid h => ?_, fun sid => g.call_fanoutEvent sid e,
        fun symbol => ?_, fun _ => Iff.rfl, fun symbol sid => ?_⟩
      · rw [Process.clients_fanoutEvent]
        split <;> exact h
      · exact Registry.subscribers_bufferEvent g.registry symbol e
      · rw [Process.registry_fanoutEvent, Registry.initialization?_bufferEvent]
        by_cases hs : e.symbol = symbol
        · rw [if_pos hs]
          exact Or.inr ⟨e, hs, rfl⟩
        · rw [if_neg hs]
          exact Or.inl rfl

/-- The session whose call an action steps. -/
def Act.caller? : Act → Option SessionId
  | .call sid _ => some sid
  | _ => none

/-- **A call stays where it is while its session takes no step of it.** -/
theorem Process.run_call_frame {g g' : Process} {acts : List Act} {h : List Obs}
    (hr : Machine.run step g acts = some (g', h)) {sid : SessionId}
    (hs : sid ∉ acts.filterMap Act.caller?) : (g'.clients sid).call = (g.clients sid).call := by
  have hC : ∀ a ∈ acts, a.caller? ≠ some sid :=
    fun a ha heq => hs (List.mem_filterMap.mpr ⟨a, ha, heq⟩)
  refine Machine.run_invariant_along (C := fun _ a => Act.caller? a ≠ some sid)
    (I := fun g' _ => (g'.clients sid).call = (g.clients sid).call) ?_ rfl
    (Machine.along_of_forall hC g) hr
  intro g₁ a g₂ o _ hne hcall hstep
  rcases (stepped hstep).call_or_outside with ⟨sid', ca, σ, rfl, rfl, -⟩ | ⟨-, ho⟩
  · have hs : sid ≠ sid' := fun h => hne (congrArg some h.symm)
    rw [clients_withScope_ne g₁ sid' σ hs, hcall]
  · rw [ho.call, hcall]

/-- No call is in progress if none of the callers of the run has one. -/
theorem Process.idle_of_run {keyPrefix : String} {g : Process} {acts : List Act} {h : List Obs}
    (hr : Machine.run step (.initial keyPrefix) acts = some (g, h))
    (hs : ∀ sid ∈ acts.filterMap Act.caller?, (g.clients sid).call = .idle) (sid : SessionId) :
    (g.clients sid).call = .idle := by
  by_cases hmem : sid ∈ acts.filterMap Act.caller?
  · exact hs sid hmem
  · exact run_call_frame hr hmem

/-! ### Who holds `pubsub_lock` -/

/-- The call awaits Redis under `pubsub_lock`. -/
def Call.AwaitsRedis : Call → Prop
  | .confirming .. | .dropping .. => True
  | _ => False

/-- `pubsub_lock` is held by whoever awaits Redis. -/
structure Locking (g : Process) : Prop where
  sessions : ∀ sid, (g.clients sid).call.AwaitsRedis →
    g.channels.pubsubLock = some (.session sid)
  fanout : ∀ channels, g.fanout = .subscribing channels → g.channels.pubsubLock = some .fanout

namespace Locking

/-- A step of a call takes a free lock, releases its own, or leaves the lock alone. -/
theorem called {sid : SessionId} {σ σ' : Scope} {a : CallAct} {obs : List Obs}
    (h : Called sid σ a σ' obs)
    (hI : σ.client.call.AwaitsRedis → σ.channels.pubsubLock = some (.session sid)) :
    (σ'.client.call.AwaitsRedis → σ'.channels.pubsubLock = some (.session sid)) ∧
    (σ'.channels.pubsubLock = σ.channels.pubsubLock ∨ σ.channels.pubsubLock = none ∨
      σ.channels.pubsubLock = some (.session sid)) := by
  cases h with
  | attempted hc hl =>
      refine ⟨?_, Or.inr (Or.inl hl)⟩
      obtain ⟨lock, ok, heq, ⟨rfl, rfl⟩ | ⟨hok, -⟩⟩ :=
        σ.channels.subscribePubsubSymbol_cases sid _
      · rw [heq]
        exact fun _ => rfl
      · rw [heq]
        cases ok with
        | none => exact absurd rfl hok
        | some ok => cases ok <;> exact False.elim
  | answered ok hc =>
      refine ⟨?_, Or.inr (Or.inr (hI (by rw [hc]; trivial)))⟩
      cases ok <;> exact False.elim
  | released hc hl =>
      refine ⟨?_, Or.inr (Or.inl hl)⟩
      rcases σ.channels.unsubscribePubsubSymbol_cases sid _ with
        ⟨-, heq⟩ | ⟨_, _, _, lock, awaiting, -, heq, ⟨rfl, rfl⟩ | ⟨rfl, rfl⟩⟩
      · rw [heq]
        exact False.elim
      · rw [heq]
        exact fun _ => rfl
      · rw [heq]
        exact False.elim
  | dropped ok hc => exact ⟨False.elim, Or.inr (Or.inr (hI (by rw [hc]; trivial)))⟩
  | rejected hc hn hs => exact ⟨fun h => hI h, Or.inl rfl⟩
  | overflowed hc hn => exact ⟨fun h => hI h, Or.inl rfl⟩
  | _ => exact ⟨False.elim, Or.inl rfl⟩

theorem step {g g' : Process} {a : Act} {obs : List Obs} (hI : Locking g)
    (h : Stepped g a g' obs) : Locking g' := by
  have houtside : ∀ {g'}, OutsideCalls g g' → g'.channels.pubsubLock = g.channels.pubsubLock →
      g'.fanout = g.fanout → Locking g' := by
    intro g' ho hl hf
    refine ⟨fun sid hsid => ?_, fun channels hch => ?_⟩
    · rw [ho.call] at hsid
      rw [hl]
      exact hI.sessions sid hsid
    · rw [hl]
      exact hI.fanout channels (hf ▸ hch)
  have hout := h.call_or_outside
  cases h with
  | @call sid _ σ _ h =>
      obtain ⟨hown, hlock⟩ := called h (hI.sessions sid)
      refine ⟨fun sid' hsid' => ?_, fun channels hch => ?_⟩
      · by_cases hs : sid' = sid
        · subst hs
          exact hown (by simpa using hsid')
        · rw [Process.clients_withScope_ne g sid σ hs] at hsid'
          have := hI.sessions sid' hsid'
          rcases hlock with hl | hl | hl
          · exact hl.trans this
          · rw [Process.channels_scope, this] at hl
            cases hl
          · rw [Process.channels_scope, this] at hl
            exact absurd (Option.some.inj hl) (by simpa using hs)
      · have := hI.fanout channels hch
        rcases hlock with hl | hl | hl
        · exact hl.trans this
        · rw [Process.channels_scope, this] at hl
          cases hl
        · rw [Process.channels_scope, this] at hl
          cases hl
  | @fanout _ channels task h =>
      obtain ⟨-, -, -, hlock⟩ := Channels.fanoutStep_frame h
      refine ⟨fun sid hsid => ?_, fun channels' hch => ?_⟩
      · have hs := hI.sessions sid hsid
        rcases hlock with hl | ⟨hl, -⟩ | ⟨⟨chs, hch⟩, -⟩
        · exact hl.trans hs
        · rw [hs] at hl
          cases hl
        · rw [hI.fanout chs hch] at hs
          cases hs
      · obtain rfl : task = .subscribing channels' := hch
        exact Channels.fanoutStep_subscribing h
  | connect hc => exact houtside (hout.resolve_left (by simp)).2 rfl rfl
  | message h => exact houtside (hout.resolve_left (by simp)).2 rfl rfl
  | task h => exact houtside (hout.resolve_left (by simp)).2 rfl rfl
  | replied hc => exact houtside (hout.resolve_left (by simp)).2 rfl rfl
  | cancelled => exact houtside (hout.resolve_left (by simp)).2 rfl rfl
  | stopped => exact houtside (hout.resolve_left (by simp)).2 rfl rfl

theorem initial (keyPrefix : String) : Locking (.initial keyPrefix) :=
  ⟨fun _ h => h.elim, fun _ h => by cases h⟩

end Locking

/-! ### What the registries say about the calls -/

/-- The symbol whose initialization the call has registered and not removed yet. -/
def Call.initializes? : Call → Option PyStr
  | .reading symbol _ | .activating symbol _ _ _ | .rollingBack symbol _ => some symbol
  | _ => none

@[simp] theorem Call.initializes?_afterAttempt (symbol : PyStr)
    (filter : Option SubscriptionFilter) (attempt : Nat) (ok : Option Bool) :
    (Scope.afterAttempt symbol filter attempt ok).initializes? = none := by
  rcases ok with - | - | - <;> rfl

/-- The registries agree with session `sid` about where it is. -/
structure Handshake (sid : SessionId) (r : Registry) (c : Client) : Prop where
  /-- A registered initialization belongs to a handshake under way. -/
  underWay : ∀ symbol, r.initialization? symbol sid ≠ none → c.call.initializes? = some symbol
  /-- It buffers events of its symbol. -/
  keyed : ∀ symbol i, r.initialization? symbol sid = some i → ∀ e ∈ i.events, e.symbol = symbol
  /-- The session knows what it is subscribed to. -/
  owned : ∀ symbol, sid ∈ r.subscribers symbol → symbol ∈ c.session.subscriptions
  /-- Before it is connected there is nothing. -/
  absent : c.connected = false → c.call = .idle ∧ ∀ symbol, sid ∉ r.subscribers symbol

namespace Handshake

variable {sid : SessionId}

/-- Without a handshake under way there is no initialization. -/
theorem initialization?_eq_none {r : Registry} {c : Client} (h : Handshake sid r c)
    (hc : c.call.initializes? = none) (symbol : PyStr) : r.initialization? symbol sid = none := by
  by_contra hne
  have := h.underWay symbol hne
  rw [hc] at this
  cases this

/-- A call under way belongs to a connected session. -/
theorem connected {r : Registry} {c : Client} (h : Handshake sid r c) (hc : c.call ≠ .idle) :
    c.connected = true :=
  Bool.of_not_eq_false fun hn => hc (h.absent hn).1

variable {σ σ' : Scope} {a : CallAct} {obs : List Obs}

/-- Only a connected session has calls. -/
theorem connected_of_called (hI : Handshake sid σ.registry σ.client)
    (h : Called sid σ a σ' obs) : σ'.client.connected = true := by
  have hsame : σ'.client.connected = σ.client.connected := by cases h <;> rfl
  rw [hsame]
  cases h with
  | parsed hc hn | rejected hc hn | overflowed hc hn | unsubscribeBegun hc hn
  | cleanupBegun hc hn => assumption
  | _ => exact hI.connected (by simp [*])

/-- An initialization of its own session is kept, freshly registered, or gone. -/
theorem initialization_of_called (hI : Handshake sid σ.registry σ.client)
    (h : Called sid σ a σ' obs) (symbol : PyStr) :
    (σ'.registry.initialization? symbol sid = σ.registry.initialization? symbol sid ∧
      σ'.client.call.initializes? = σ.client.call.initializes?) ∨
    σ'.registry.initialization? symbol sid = none ∨
    (σ'.registry.initialization? symbol sid = some {} ∧
      σ'.client.call.initializes? = some symbol) := by
  have hnone : σ.client.call.initializes? ≠ some symbol →
      σ.registry.initialization? symbol sid = none :=
    fun hne => by_contra fun h => hne (hI.underWay symbol h)
  cases h with
  | @registered symbol' filter hc =>
      rw [Scope.registry_goto, Registry.initialization?_beginInitialization]
      by_cases hs : symbol' = symbol
      · subst hs
        exact Or.inr (Or.inr ⟨if_pos ⟨rfl, rfl⟩, rfl⟩)
      · rw [if_neg (fun h => hs h.1)]
        exact Or.inr (Or.inl (hnone (by simp [hc, Call.initializes?])))
  | @activated symbol' _ _ _ _ _ _ hc | @rolledBack symbol' _ hc =>
      refine Or.inr (Or.inl ?_)
      show (σ.registry.endInitialization symbol' sid).initialization? symbol sid = none
      rw [Registry.initialization?_endInitialization]
      by_cases hs : symbol' = symbol
      · exact if_pos ⟨hs, rfl⟩
      · rw [if_neg (fun h => hs h.1)]
        exact hnone (by simpa [hc, Call.initializes?] using hs)
  | lastUnsubscribed hc hl | unsubscribed hc hl =>
      refine Or.inr (Or.inl ((Registry.initialization?_discardSubscriber ..).trans (hnone ?_)))
      simp [hc, Call.initializes?]
  | cleaned hc ho =>
      refine Or.inr (Or.inl ?_)
      rw [Scope.registry_goto, Registry.initialization?_cleanup, if_pos rfl]
  | released hc hl =>
      refine Or.inl ⟨rfl, ?_⟩
      rw [Scope.call_goto, hc]
      split <;> rfl
  | attempted hc hl | answered ok hc =>
      refine Or.inl ⟨rfl, ?_⟩
      rw [Scope.call_goto, hc, Call.initializes?_afterAttempt]
      rfl
  | overflowed hc hn | rejected hc hn hs => exact Or.inl ⟨rfl, rfl⟩
  | _ => exact Or.inl ⟨rfl, by simp [*, Call.initializes?]⟩

/-- A session's own call registers and unregisters it on both sides. -/
theorem owned_of_called (hI : Handshake sid σ.registry σ.client)
    (h : Called sid σ a σ' obs) {symbol : PyStr} (hmem : sid ∈ σ'.registry.subscribers symbol) :
    symbol ∈ σ'.client.session.subscriptions := by
  cases h with
  | @activated symbol' _ _ _ _ s _ hc hi ho hs =>
      have hsub : s.subscriptions = σ.client.session.subscriptions := by cases hs <;> rfl
      show symbol ∈ insert symbol' s.subscriptions
      rw [Registry.subscribers_addSubscriber, Registry.subscribers_endInitialization] at hmem
      rw [hsub]
      by_cases hs : symbol' = symbol
      · exact hs ▸ Finset.mem_insert_self ..
      · rw [if_neg hs] at hmem
        exact Finset.mem_insert_of_mem (hI.owned symbol hmem)
  | @lastUnsubscribed symbol' hc hl | @unsubscribed symbol' hc hl =>
      rw [Scope.registry_goto, Scope.registry_withSession,
        Registry.subscribers_discardSubscriber] at hmem
      split at hmem
      · exact absurd rfl (Finset.ne_of_mem_erase hmem)
      · rename_i hs
        exact Finset.mem_erase_of_ne_of_mem (Ne.symm hs) (hI.owned symbol hmem)
  | cleaned hc ho =>
      rw [Scope.registry_goto, Registry.subscribers_cleanup] at hmem
      split at hmem
      · exact absurd rfl (Finset.ne_of_mem_erase hmem)
      · exact hI.owned symbol hmem
  | rejected hc hn hs | unavailable hc hs | failed hc hs =>
      obtain ⟨_, _, _, rfl⟩ := hs.session
      exact hI.owned symbol hmem
  | _ => exact hI.owned symbol hmem

/-- **A step of its own call keeps a session in agreement with the registries.** -/
theorem called (hI : Handshake sid σ.registry σ.client) (h : Called sid σ a σ' obs) :
    Handshake sid σ'.registry σ'.client where
  underWay symbol hne := by
    rcases hI.initialization_of_called h symbol with ⟨hi, hc⟩ | hi | ⟨-, hc⟩
    · rw [hc]
      exact hI.underWay symbol (hi ▸ hne)
    · exact absurd hi hne
    · exact hc
  keyed symbol i hi' := by
    rcases hI.initialization_of_called h symbol with ⟨hi, -⟩ | hi | ⟨hi, -⟩
    · exact hI.keyed symbol i (hi.symm.trans hi')
    · rw [hi] at hi'
      cases hi'
    · obtain rfl := Option.some.inj (hi.symm.trans hi')
      simp
  owned symbol hmem := hI.owned_of_called h hmem
  absent hf := nomatch hf.symm.trans (hI.connected_of_called h)

end Handshake

/-- The registries agree with every session about where it is. -/
def Handshakes (g : Process) : Prop := ∀ sid, Handshake sid g.registry (g.clients sid)

namespace Handshakes

theorem initial (keyPrefix : String) : Handshakes (.initial keyPrefix) := fun _ =>
  { underWay := fun _ h => absurd rfl h
    keyed := fun _ _ h => nomatch h
    owned := fun _ h => absurd h (Finset.notMem_empty _)
    absent := fun _ => ⟨rfl, fun _ => Finset.notMem_empty _⟩ }

/-- A step outside the calls keeps a session in agreement with the registries. -/
theorem of_outsideCalls {g g' : Process} (hI : Handshakes g) (ho : OutsideCalls g g')
    {sid : SessionId}
    (hsub : (g.clients sid).connected = true →
      (g'.clients sid).session.subscriptions = (g.clients sid).session.subscriptions) :
    Handshake sid g'.registry (g'.clients sid) where
  underWay symbol hne := by
    rw [ho.call]
    refine (hI sid).underWay symbol fun hnone => hne ?_
    rcases ho.initialization symbol sid with hi | ⟨e, -, hi⟩
    · exact hi.trans hnone
    · rw [hi, hnone]
      rfl
  keyed symbol i hi' x hx := by
    rcases ho.initialization symbol sid with hi | ⟨e, hs, hi⟩
    · exact (hI sid).keyed symbol i (hi.symm.trans hi') x hx
    · obtain ⟨i', hi'', rfl⟩ := Option.map_eq_some_iff.mp (hi.symm.trans hi')
      rcases i'.buffer_cases e with ⟨hb, -⟩ | ⟨hb, -⟩
      · exact (hI sid).keyed symbol i' hi'' x (hb ▸ hx)
      · rcases List.mem_append.mp (hb ▸ hx) with hx | hx
        · exact (hI sid).keyed symbol i' hi'' x hx
        · rw [List.mem_singleton.mp hx, hs]
  owned symbol hmem := by
    rw [ho.subscribers] at hmem
    have hc : (g.clients sid).connected = true :=
      Bool.of_not_eq_false fun hf => ((hI sid).absent hf).2 symbol hmem
    rw [hsub hc]
    exact (hI sid).owned symbol hmem
  absent hf := by
    obtain ⟨hc, hs⟩ := (hI sid).absent
      (Bool.eq_false_iff.mpr fun hon => nomatch hf.symm.trans (ho.connected sid hon))
    exact ⟨(ho.call sid).trans hc, fun symbol hmem => hs symbol (ho.subscribers symbol ▸ hmem)⟩

/-- **Every step keeps all sessions in agreement with the registries.** -/
theorem step {g g' : Process} {a : Act} {obs : List Obs} (hI : Handshakes g)
    (h : Stepped g a g' obs) : Handshakes g' := by
  intro sid
  rcases h.call_or_outside with ⟨sid', ca, σ, -, rfl, hc⟩ | ⟨hno, ho⟩
  · by_cases hs : sid = sid'
    · subst hs
      rw [Process.registry_withScope, Process.clients_withScope_self]
      exact (hI sid).called hc
    · have hframe := hc.frame hs
      rw [Process.registry_withScope, Process.clients_withScope_ne g sid' σ hs]
      exact ⟨fun symbol hne => (hI sid).underWay symbol ((hframe symbol).1 ▸ hne),
        fun symbol i hi => (hI sid).keyed symbol i ((hframe symbol).1.symm.trans hi),
        fun symbol hm => (hI sid).owned symbol ((hframe symbol).2.mp hm),
        fun hf => ⟨((hI sid).absent hf).1,
          fun symbol hm => ((hI sid).absent hf).2 symbol ((hframe symbol).2.mp hm)⟩⟩
  · refine hI.of_outsideCalls ho fun hon => ?_
    rcases h.client sid with ⟨ca, σ, hcall, -, -⟩ | hc
    · exact absurd hcall (hno sid ca)
    · exact (hc.settings hon).1.subscriptions

end Handshakes

end MarketData.Gateway
