import MarketData.Gateway.Interleaving

/-!
# MarketData.Gateway.Isolation

**Clients are isolated.** `Solo` is one session on its own: the session with its tasks and its
call, the symbols it is registered for and the handshakes it has registered. It knows of no
other session, no registry and no channel: what it is told of them are the answers of
`_subscribe_pubsub_symbol` and the results of its reads (`SoloAct`).

Every gateway run, seen by one session, is a run of that machine (`Process.run_solo`), over
the list of what the session did and was told. So two gateway runs that agree on this list
agree on the session, whatever the other sessions do in them or whether they exist
(`clients_isolated`).
-/

namespace MarketData.Gateway

/-! ### One session on its own -/

/-- What a session does and is told. -/
inductive SoloAct
  | connect (clientId : String) (policy : SlowConsumerPolicy) (mode : AggregationMode)
      (encoding : Encoding)
  | request (r : Request)
  /-- `_subscribe_pubsub_symbol` has returned. -/
  | confirmation (ok : Bool)
  /-- The call runs on from a sleep or from `subscriptions_lock`. -/
  | go
  | read (result : ReadResult)
  /-- `_cleanup` has given its channels up and calls `session.close()`. -/
  | close
  | task (a : TaskAct)
  | error (text : PyStr)
  | cancelDispatch
  | stopAggregator
  /-- `_fanout_event(event)`. -/
  | event (e : MarketEvent)

/-- One session on its own. -/
@[ext]
structure Solo where
  client : Client
  /-- The symbols it is registered for in `subscriptions`. -/
  subscribed : PyStr → Bool
  /-- Its entries of `initializing_subscriptions`. -/
  initialization? : PyStr → Option SubscriptionInitialization

/-- Where a call is, as far as its session can tell: how the channel is confirmed or given up
is beyond it. -/
def Call.solo : Call → Call
  | .confirming symbol filter attempt => .ensuring symbol filter attempt
  | .releasing _ .cleanup | .dropping _ .cleanup => .releasing [] .cleanup
  | .checkingUnused _ _ | .releasing _ _ | .dropping _ _ | .closing => .idle
  | call => call

namespace Solo

/-- The call suspended at `call`. -/
def goto (s : Solo) (call : Call) : Solo := { s with client := { s.client with call := call } }

/-- Another state of the session. -/
def withSession (s : Solo) (session : ClientSession) : Solo :=
  { s with client := s.client.withSession session }

/-- Enqueue an error reply. -/
def reply (s : Solo) (text : PyStr) : Solo × List ClientObs :=
  let (session, obs) := s.client.session.enqueueError text
  (s.withSession session, obs)

/-- The start of a call. -/
def begin (s : Solo) : Request → Solo × List ClientObs
  | .subscribe symbol payload =>
    match parseSubscriptionFilter payload with
    | .ok filter => (s.goto (.ensuring symbol filter 0), [])
    | .error (.valueError text) => s.reply text
    | .error .overflowError => (s, [])
  | .unsubscribe symbol => (s.goto (.unsubscribing symbol), [])
  | .cleanup => (s.goto .cleaning, [])

/-- After the backoff. -/
def retry (s : Solo) (symbol : PyStr) (filter : Option SubscriptionFilter) (attempt : Nat) :
    Solo × List ClientObs :=
  if attempt + 1 < Scope.ensureAttempts then (s.goto (.ensuring symbol filter (attempt + 1)), [])
  else
    let (s, obs) := s.reply ("subscription unavailable for " ++ symbol)
    (s.goto .idle, obs)

/-- The `except` branch of `_subscribe`. -/
def fail (s : Solo) (symbol : PyStr) : Solo × List ClientObs :=
  let (s, obs) := s.reply ("subscription failed for " ++ symbol)
  (s.goto (.rollingBack symbol false), obs)

/-- The end of the handshake. -/
def activate (s : Solo) (symbol : PyStr) (filter : Option SubscriptionFilter)
    (result : ReadResult) : Solo × List ClientObs :=
  match result, s.initialization? symbol with
  | .value snapshot, some initialization =>
    if initialization.overflowed then s.fail symbol
    else
      match s.client.session.seed symbol snapshot with
      | (false, session, obs) =>
        let (s, obs') := (s.withSession session).fail symbol
        (s, obs ++ obs')
      | (true, session, obs) =>
        let events := initialization.released snapshot
        ({ client := { s.client with
             session := (session.pushAll events).subscribed symbol filter
             call := .rollingBack symbol true }
           subscribed := Function.update s.subscribed symbol true
           initialization? := Function.update s.initialization? symbol none },
          obs ++ events.map .pushed)
  | _, _ => s.fail symbol

/-- The call runs on. -/
def go (s : Solo) : Option (Solo × List ClientObs) :=
  match s.client.call with
  | .sleeping symbol filter attempt => some (s.retry symbol filter attempt)
  | .registering symbol filter =>
    some ({ s with initialization? := Function.update s.initialization? symbol (some {}) }.goto
      (.reading symbol filter), [])
  | .activating symbol filter result _ => some (s.activate symbol filter result)
  | .rollingBack symbol _ =>
    some ({ s with initialization? := Function.update s.initialization? symbol none }.goto .idle,
      [])
  | .unsubscribing symbol =>
    some ({ s with subscribed := Function.update s.subscribed symbol false }.withSession
      (s.client.session.forget symbol) |>.goto .idle, [])
  | .cleaning =>
    some ({ s with
      subscribed := fun symbol =>
        s.subscribed symbol && decide (symbol ∉ s.client.session.subscriptions)
      initialization? := fun _ => none }.goto (.releasing [] .cleanup), [])
  | _ => none

/-- `_fanout_event(event)`, for this session. -/
def event (s : Solo) (e : MarketEvent) : Solo × List ClientObs :=
  ({ client := if s.subscribed e.symbol then s.client.push e else s.client
     subscribed := s.subscribed
     initialization? := fun symbol =>
       if e.symbol = symbol then (s.initialization? symbol).map (·.buffer e)
       else s.initialization? symbol },
    if s.subscribed e.symbol then [.pushed e] else [])

/-- Run one step. -/
def step (s : Solo) : SoloAct → Option (Solo × List ClientObs)
  | .connect clientId policy mode encoding =>
    some ({ s with client := s.client.connect clientId policy mode encoding }, [])
  | .request r => some (s.begin r)
  | .confirmation ok =>
    match s.client.call with
    | .ensuring symbol filter attempt =>
      some (s.goto (Scope.afterAttempt symbol filter attempt (some ok)), [])
    | _ => none
  | .go => s.go
  | .read result =>
    match s.client.call with
    | .reading symbol filter =>
      if h : result.OfSymbol symbol then some (s.goto (.activating symbol filter result h), [])
      else none
    | _ => none
  | .close => some ((s.withSession s.client.session.close).goto .idle, [])
  | .task a =>
    match s.client.taskStep a with
    | some (p, obs) => some ({ s with client := { s.client with toPipeline := p } }, obs)
    | none => none
  | .error text => some (s.reply text)
  | .cancelDispatch =>
      some ({ s with client := { s.client with task := s.client.task.cancel } }, [])
  | .stopAggregator =>
    some (s.withSession { s.client.session with aggregator := s.client.session.aggregator.stop },
      [])
  | .event e => some (s.event e)

end Solo

/-! ### What a session is told in a gateway run -/

/-- What a step of its call is to a session. -/
def Scope.soloAct? (σ : Scope) (sid : SessionId) : CallAct → Option SoloAct
  | .request r => some (.request r)
  | .read result => some (.read result)
  | .clean _ => some .go
  | .redis ok =>
    match σ.client.call with
    | .confirming .. => some (.confirmation ok)
    | _ => none
  | .go =>
    match σ.client.call with
    | .ensuring symbol _ _ => (σ.channels.subscribePubsubSymbol sid symbol).2.map .confirmation
    | .sleeping .. | .registering .. | .activating .. | .rollingBack .. | .unsubscribing .. =>
      some .go
    | .releasing [] .cleanup => some .close
    | _ => none

/-- What a gateway step is to session `sid`: its own step, an event, or nothing. -/
def Process.soloAct? (sid : SessionId) (g : Process) : Act → Option SoloAct
  | .message e => some (.event e)
  | .fanout _ => none
  | .connect sid' clientId policy mode encoding =>
    if sid' = sid then some (.connect clientId policy mode encoding) else none
  | .call sid' ca => if sid' = sid then (g.scope sid).soloAct? sid ca else none
  | .task sid' a => if sid' = sid then some (.task a) else none
  | .error sid' text => if sid' = sid then some (.error text) else none
  | .cancelDispatch sid' => if sid' = sid then some .cancelDispatch else none
  | .stopAggregator sid' => if sid' = sid then some .stopAggregator else none

/-- What session `sid` sees of a scope. -/
def Scope.solo (σ : Scope) (sid : SessionId) : Solo where
  client := { σ.client with call := σ.client.call.solo }
  subscribed symbol := decide (sid ∈ σ.registry.subscribers symbol)
  initialization? symbol := σ.registry.initialization? symbol sid

/-- What session `sid` sees of the gateway. -/
def Process.solo (g : Process) (sid : SessionId) : Solo := (g.scope sid).solo sid

/-- What session `sid` does and is told in a run. -/
def Process.soloActs (sid : SessionId) (g : Process) (acts : List Act) : List SoloAct :=
  Machine.labels step (fun g a => (g.soloAct? sid a).toList) g acts

/-! ### The registries, seen by one session -/

namespace Scope

variable {σ σ' : Scope} {sid : SessionId} {symbol : PyStr}

theorem solo_beginInitialization :
    ({ σ with registry := σ.registry.beginInitialization symbol sid }).solo sid =
      { σ.solo sid with initialization? :=
          Function.update (σ.solo sid).initialization? symbol (some {}) } := by
  refine congrArg (Solo.mk _ _) (funext fun symbol' => ?_)
  rw [Registry.initialization?_beginInitialization, Function.update_apply]
  simp only [and_true, eq_comm]
  rfl

theorem initialization?_endInitialization_own (r : Registry) (sid : SessionId) (symbol : PyStr) :
    (fun symbol' => (r.endInitialization symbol sid).initialization? symbol' sid) =
      Function.update (fun symbol' => r.initialization? symbol' sid) symbol none := by
  funext symbol'
  rw [Registry.initialization?_endInitialization, Function.update_apply]
  simp only [and_true, eq_comm]

theorem solo_endInitialization :
    ({ σ with registry := σ.registry.endInitialization symbol sid }).solo sid =
      { σ.solo sid with initialization? :=
          Function.update (σ.solo sid).initialization? symbol none } :=
  congrArg (Solo.mk _ _) (initialization?_endInitialization_own σ.registry sid symbol)

theorem solo_discardSubscriber :
    ({ σ with registry := (σ.registry.discardSubscriber symbol sid).1 }).solo sid =
      { σ.solo sid with subscribed := Function.update (σ.solo sid).subscribed symbol false } := by
  refine congrArg₂ (Solo.mk _) (funext fun symbol' => ?_) (funext fun symbol' => ?_)
  · rw [Registry.subscribers_discardSubscriber, Function.update_apply]
    by_cases hs : symbol = symbol'
    · subst hs
      simp
    · rw [if_neg hs, if_neg (Ne.symm hs)]
      rfl
  · exact Registry.initialization?_discardSubscriber ..

theorem solo_cleanup {order : List PyStr} {clientId : String}
    (ho : order.toFinset = σ.client.session.subscriptions) :
    ({ σ with registry := (σ.registry.cleanup sid clientId order).1 }).solo sid =
      { σ.solo sid with
        subscribed := fun symbol => (σ.solo sid).subscribed symbol &&
          decide (symbol ∉ (σ.solo sid).client.session.subscriptions)
        initialization? := fun _ => none } := by
  refine congrArg₂ (Solo.mk _) (funext fun symbol => ?_) (funext fun symbol => ?_)
  · have hmem : symbol ∈ order ↔ symbol ∈ σ.client.session.subscriptions := by
      rw [← ho, List.mem_toFinset]
    rw [Registry.subscribers_cleanup]
    by_cases hs : symbol ∈ order
    · simp [solo, hs, hmem.mp hs]
    · simp [solo, hs, mt hmem.mpr hs]
  · rw [Registry.initialization?_cleanup, if_pos rfl]

/-! ### A step of the call -/

theorem solo_fail : (σ.fail sid symbol).1.solo sid = ((σ.solo sid).fail symbol).1 ∧
    viewed sid (σ.fail sid symbol).2 = ((σ.solo sid).fail symbol).2 :=
  ⟨rfl, viewed_own sid _⟩

theorem solo_begin (r : Request) :
    (σ.begin sid r).1.solo sid = ((σ.solo sid).begin r).1 ∧
    viewed sid (σ.begin sid r).2 = ((σ.solo sid).begin r).2 := by
  cases r with
  | unsubscribe symbol | cleanup => exact ⟨rfl, rfl⟩
  | subscribe symbol payload =>
      simp only [begin, Solo.begin]
      cases hp : parseSubscriptionFilter payload with
      | ok filter => exact ⟨rfl, rfl⟩
      | error e =>
          cases e with
          | overflowError => exact ⟨rfl, rfl⟩
          | valueError text =>
              refine ⟨rfl, ?_⟩
              exact (viewed_returned ..).trans (viewed_own sid _)

theorem solo_retry {filter : Option SubscriptionFilter} {attempt : Nat} :
    (σ.retry sid symbol filter attempt).1.solo sid =
      ((σ.solo sid).retry symbol filter attempt).1 ∧
    viewed sid (σ.retry sid symbol filter attempt).2 =
      ((σ.solo sid).retry symbol filter attempt).2 := by
  unfold retry Solo.retry
  split
  · exact ⟨rfl, rfl⟩
  · exact ⟨rfl, viewed_own sid _⟩

/-- The handshake ends the same whoever else is registered. -/
theorem solo_activate {filter : Option SubscriptionFilter} {result : ReadResult} :
    (σ.activate sid symbol filter result).1.solo sid =
      ((σ.solo sid).activate symbol filter result).1 ∧
    viewed sid (σ.activate sid symbol filter result).2 =
      ((σ.solo sid).activate symbol filter result).2 := by
  unfold activate Solo.activate
  rw [show (σ.solo sid).initialization? symbol = σ.registry.initialization? symbol sid from rfl]
  cases result with
  | raised => exact σ.solo_fail
  | value snapshot =>
      cases σ.registry.initialization? symbol sid with
      | none => exact σ.solo_fail
      | some initialization =>
          dsimp only
          split
          · exact σ.solo_fail
          · rw [show (σ.solo sid).client.session = σ.client.session from rfl]
            cases hseed : σ.client.session.seed symbol snapshot with
            | mk ok rest =>
                obtain ⟨session, obs⟩ := rest
                cases ok with
                | false =>
                    refine ⟨rfl, ?_⟩
                    rw [viewed_append, viewed_own]
                    exact congrArg (obs ++ ·) (viewed_own sid _)
                | true =>
                    refine ⟨congrArg₂ (Solo.mk _) (funext fun symbol' => ?_)
                      (initialization?_endInitialization_own σ.registry sid symbol), ?_⟩
                    · rw [Registry.subscribers_addSubscriber, Function.update_apply]
                      by_cases hs : symbol = symbol'
                      · simp [hs]
                      · rw [if_neg hs, if_neg (Ne.symm hs)]
                        rfl
                    · exact viewed_activation ..

/-- Whether it was the last subscriber is nothing to the session. -/
theorem solo_unsubscribe :
    (σ.unsubscribe sid symbol).1.solo sid =
      (({ σ.solo sid with
          subscribed := Function.update (σ.solo sid).subscribed symbol false } : Solo).withSession
        ((σ.solo sid).client.session.forget symbol)).goto .idle ∧
    viewed sid (σ.unsubscribe sid symbol).2 = [] := by
  have hdiscard := @solo_discardSubscriber σ sid symbol
  unfold unsubscribe
  dsimp only
  split
  · exact ⟨congrArg (fun s : Solo =>
      (s.withSession (σ.client.session.forget symbol)).goto .idle) hdiscard, rfl⟩
  · exact ⟨congrArg (fun s : Solo =>
      (s.withSession (σ.client.session.forget symbol)).goto .idle) hdiscard, rfl⟩

/-- What a session sees of a step that goes on at `call`. -/
theorem solo_goto (call : Call) : (σ.goto call).solo sid = (σ.solo sid).goto call.solo := rfl

theorem solo_afterAttempt {filter : Option SubscriptionFilter} {attempt : Nat} (ok : Bool) :
    (afterAttempt symbol filter attempt (some ok)).solo =
      afterAttempt symbol filter attempt (some ok) := by
  cases ok <;> rfl

/-- **A step of its call is at most one step of the session on its own.** -/
theorem step_solo {ca : CallAct} {obs : List Obs} (h : σ.step sid ca = some (σ', obs)) :
    Machine.run Solo.step (σ.solo sid) (σ.soloAct? sid ca).toList =
      some (σ'.solo sid, viewed sid obs) := by
  have hcall : (σ.solo sid).client.call = σ.client.call.solo := rfl
  -- a step in the session's own name, and a step that is nothing to it
  have hown : ∀ l, σ.soloAct? sid ca = some l →
      (σ.solo sid).step l = some (σ'.solo sid, viewed sid obs) →
      Machine.run Solo.step (σ.solo sid) (σ.soloAct? sid ca).toList =
        some (σ'.solo sid, viewed sid obs) := by
    intro l hl hstep
    rw [hl]
    exact Machine.run_singleton.mpr hstep
  have hnone : σ.soloAct? sid ca = none → σ'.solo sid = σ.solo sid → viewed sid obs = [] →
      Machine.run Solo.step (σ.solo sid) (σ.soloAct? sid ca).toList =
        some (σ'.solo sid, viewed sid obs) := by
    intro hl hs hv
    rw [hl, hs, hv]
    rfl
  have hstay : ∀ {call : Call} {channels : Channels}, σ.client.call.solo = call.solo →
      (({ σ with channels := channels }).goto call).solo sid = σ.solo sid := by
    intro call channels heq
    show { σ.solo sid with client := { σ.client with call := call.solo } } = σ.solo sid
    rw [← heq]
    rfl
  unfold step at h
  split at h
  case h_1 r hc =>
    split at h
    · obtain ⟨rfl, rfl⟩ := Machine.outcome h
      refine hown (.request r) rfl ?_
      rw [(σ.solo_begin r).1, (σ.solo_begin r).2]
      rfl
    · cases h
  case h_2 symbol filter attempt hc =>
    split at h
    · obtain ⟨rfl, rfl⟩ := Machine.outcome h
      have hl : σ.soloAct? sid .go =
          (σ.channels.subscribePubsubSymbol sid symbol).2.map .confirmation := by
        simp only [soloAct?, hc]
      clear hown hnone
      show Machine.run Solo.step (σ.solo sid) _ = some (Scope.solo (goto
        { σ with channels := (σ.channels.subscribePubsubSymbol sid symbol).1 }
        (afterAttempt symbol filter attempt (σ.channels.subscribePubsubSymbol sid symbol).2)) sid,
        [])
      rw [hl]
      -- an attempt that awaits Redis is nothing to the session yet
      rcases (σ.channels.subscribePubsubSymbol sid symbol).2 with - | ok
      · exact congrArg (fun s => some (s, [])) (hstay (by rw [hc]; rfl)).symm
      · refine Machine.run_singleton.mpr ?_
        simp only [Solo.step, hcall, hc, Call.solo]
        rw [solo_goto, solo_afterAttempt]
        rfl
    · cases h
  case h_3 symbol filter attempt ok hc =>
    obtain ⟨rfl, rfl⟩ := Machine.outcome h
    refine hown (.confirmation ok) (by simp only [soloAct?, hc]) ?_
    simp only [Solo.step, hcall, hc, Call.solo]
    rw [solo_goto, solo_afterAttempt]
    rfl
  case h_4 symbol filter attempt hc =>
    obtain ⟨rfl, rfl⟩ := Machine.outcome h
    refine hown .go (by simp only [soloAct?, hc]) ?_
    simp only [Solo.step, Solo.go, hcall, hc, Call.solo]
    rw [σ.solo_retry.1, σ.solo_retry.2]
  case h_5 symbol filter hc =>
    obtain ⟨rfl, rfl⟩ := Machine.outcome h
    refine hown .go (by simp only [soloAct?, hc]) ?_
    simp only [Solo.step, Solo.go, hcall, hc, Call.solo]
    rw [solo_goto, solo_beginInitialization]
    rfl
  case h_6 symbol filter result hc =>
    split at h
    · rename_i hr
      obtain ⟨rfl, rfl⟩ := Machine.outcome h
      refine hown (.read result) rfl ?_
      simp only [Solo.step, hcall, hc, Call.solo, dif_pos hr]
      rfl
    · cases h
  case h_7 symbol filter result hr hc =>
    obtain ⟨rfl, rfl⟩ := Machine.outcome h
    refine hown .go (by simp only [soloAct?, hc]) ?_
    simp only [Solo.step, Solo.go, hcall, hc, Call.solo]
    rw [σ.solo_activate.1, σ.solo_activate.2]
  case h_8 symbol ok hc =>
    obtain ⟨rfl, rfl⟩ := Machine.outcome h
    refine hown .go (by simp only [soloAct?, hc]) ?_
    simp only [Solo.step, Solo.go, hcall, hc, Call.solo]
    rw [solo_goto, solo_endInitialization]
    rfl
  case h_9 symbol ok hc =>
    obtain ⟨rfl, rfl⟩ := Machine.outcome h
    refine hnone (by simp only [soloAct?, hc]) ?_ ?_
    · unfold removeDesiredChannelIfUnused
      split
      · exact hstay (by rw [hc]; rfl)
      · exact hstay (by rw [hc]; rfl)
    · unfold removeDesiredChannelIfUnused
      split <;> rfl
  case h_10 symbol hc =>
    obtain ⟨rfl, rfl⟩ := Machine.outcome h
    refine hown .go (by simp only [soloAct?, hc]) ?_
    simp only [Solo.step, Solo.go, hcall, hc, Call.solo]
    rw [σ.solo_unsubscribe.1, σ.solo_unsubscribe.2]
  case h_11 order hc =>
    split at h
    · rename_i ho
      obtain ⟨rfl, rfl⟩ := Machine.outcome h
      refine hown .go rfl ?_
      simp only [Solo.step, Solo.go, hcall, hc, Call.solo]
      have hcleanup := @solo_cleanup σ sid order σ.client.session.clientId ho.2
      exact congrArg (fun s : Solo => some (s.goto (.releasing [] .cleanup), [])) hcleanup.symm
    · cases h
  case h_12 result hc =>
    obtain ⟨rfl, rfl⟩ := Machine.outcome h
    cases result with
    | subscribe symbol ok => exact hnone (by simp only [soloAct?, hc]) (hstay (by rw [hc]; rfl)) rfl
    | unsubscribe symbol => exact hnone (by simp only [soloAct?, hc]) (hstay (by rw [hc]; rfl)) rfl
    | cleanup =>
        refine hown .close (by simp only [soloAct?, hc]) ?_
        rfl
  case h_13 symbol rest result hc =>
    split at h
    · obtain ⟨rfl, rfl⟩ := Machine.outcome h
      refine hnone (by simp only [soloAct?, hc]) ?_ rfl
      unfold release
      dsimp only
      split
      · exact hstay (by rw [hc]; cases result <;> rfl)
      · exact hstay (by rw [hc]; cases result <;> rfl)
    · cases h
  case h_14 rest result ok hc =>
    obtain ⟨rfl, rfl⟩ := Machine.outcome h
    exact hnone (by simp only [soloAct?, hc]) (hstay (by rw [hc]; cases result <;> rfl)) rfl
  case h_15 hc =>
    obtain ⟨rfl, rfl⟩ := Machine.outcome h
    exact hnone (by simp only [soloAct?, hc]) (hstay (by rw [hc]; rfl)) rfl
  case h_16 => cases h

end Scope

/-! ### A step of the gateway -/

namespace Process

variable {g g' : Process} {sid : SessionId}

/-- What a session sees is its client, and its entries in the registries. -/
theorem solo_eq {c : Client} (hc : g'.clients sid = c)
    (hs : ∀ symbol, sid ∈ g'.registry.subscribers symbol ↔ sid ∈ g.registry.subscribers symbol)
    (hi : ∀ symbol,
      g'.registry.initialization? symbol sid = g.registry.initialization? symbol sid) :
    g'.solo sid = { g.solo sid with client := { c with call := c.call.solo } } := by
  subst hc
  exact congrArg₂ (Solo.mk _) (funext fun symbol => decide_eq_decide.mpr (hs symbol)) (funext hi)

/-- A step of one session's own tasks or handler: the session sees it, the others do not. -/
theorem run_withClient {sid' : SessionId} {c : Client} {l : SoloAct} {o : List ClientObs}
    (d : Dict String SessionId)
    (hl : (g.solo sid').step l =
      some ({ g.solo sid' with client := { c with call := c.call.solo } }, o)) :
    Machine.run Solo.step (g.solo sid) (if sid' = sid then some l else none).toList =
      some
        (({ g.withClient sid' c with registry := { g.registry with allSessions := d } }).solo sid,
        viewed sid (o.map (.client sid'))) := by
  have hsolo := @solo_eq g { g.withClient sid' c with
    registry := { g.registry with allSessions := d } } sid
  by_cases hs : sid' = sid
  · subst hs
    have hclient := hsolo (g.clients_withClient_self sid' c) (fun _ => Iff.rfl) (fun _ => rfl)
    rw [if_pos rfl, viewed_own, hclient]
    exact Machine.run_singleton.mpr hl
  · have hclient := hsolo (g.clients_withClient_ne sid' c (Ne.symm hs)) (fun _ => Iff.rfl)
      (fun _ => rfl)
    rw [if_neg hs, viewed_other (Ne.symm hs), hclient]
    rfl

/-- What `_fanout_event` is to one session. -/
theorem solo_fanoutEvent (e : MarketEvent) :
    ((g.fanoutEvent e).solo sid, viewed sid [.received e (g.registry.subscribers e.symbol)]) =
      (g.solo sid).event e := by
  have hinit : (fun symbol => (g.registry.bufferEvent e).initialization? symbol sid) =
      ((g.solo sid).event e).1.initialization? :=
    funext fun symbol => Registry.initialization?_bufferEvent g.registry symbol sid e
  have hsub : (fun symbol => decide (sid ∈ (g.registry.bufferEvent e).subscribers symbol)) =
      (g.solo sid).subscribed := by
    funext symbol
    rw [Registry.subscribers_bufferEvent]
    rfl
  have hclient : ({ (g.fanoutEvent e).clients sid with
      call := ((g.fanoutEvent e).clients sid).call.solo } : Client) =
      ((g.solo sid).event e).1.client := by
    rw [clients_fanoutEvent]
    by_cases hs : sid ∈ g.registry.subscribers e.symbol
    · rw [if_pos hs]
      exact (if_pos (decide_eq_true hs)).symm
    · rw [if_neg hs]
      exact (if_neg (fun h => hs (of_decide_eq_true h))).symm
  have hobs : viewed sid [.received e (g.registry.subscribers e.symbol)] =
      ((g.solo sid).event e).2 := by
    by_cases hs : sid ∈ g.registry.subscribers e.symbol
    · simp [viewed, Obs.view, hs, Solo.event, solo, Scope.solo]
    · simp [viewed, Obs.view, hs, Solo.event, solo, Scope.solo]
  exact Prod.ext (Solo.ext hclient hsub hinit) hobs

/-- **A step of the gateway is at most one step of a session on its own.** -/
theorem step_solo {a : Act} {obs : List Obs} (h : g.step a = some (g', obs)) :
    Machine.run Solo.step (g.solo sid) (g.soloAct? sid a).toList =
      some (g'.solo sid, viewed sid obs) := by
  by_cases hcall : ∃ sid' ca, a = .call sid' ca
  · obtain ⟨sid', ca, rfl⟩ := hcall
    simp only [step] at h
    split at h
    case h_2 => cases h
    rename_i σ o hσ
    obtain ⟨rfl, rfl⟩ := Machine.outcome h
    by_cases hs : sid' = sid
    · subst hs
      have hscope : (g.withScope sid' σ).solo sid' = σ.solo sid' :=
        congrArg (fun c : Client => Scope.solo ⟨σ.registry, σ.channels, c⟩ sid')
          (g.clients_withScope_self sid' σ)
      rw [soloAct?, if_pos rfl, hscope]
      exact Scope.step_solo hσ
    · -- another session's call leaves this one and its entries in the registries alone
      have hc := Scope.called hσ
      rw [soloAct?, if_neg hs, hc.viewed_other (Ne.symm hs),
        solo_eq (g.clients_withScope_ne sid' σ (Ne.symm hs))
          (fun symbol => (hc.frame (Ne.symm hs) symbol).2)
          (fun symbol => (hc.frame (Ne.symm hs) symbol).1)]
      rfl
  · cases stepped h with
    | call hc => exact absurd ⟨_, _, rfl⟩ hcall
    | fanout hf => rfl
    | @connect sid' clientId policy mode encoding hc =>
        refine run_withClient (o := []) (g.registry.allSessions.set clientId sid') ?_
        rfl
    | @task sid' a p o hp =>
        refine run_withClient g.registry.allSessions ?_
        have htask : (g.solo sid').client.taskStep a = some (p, o) := hp
        simp only [Solo.step, htask]
        rfl
    | replied hc =>
        refine run_withClient g.registry.allSessions ?_
        rfl
    | cancelled =>
        refine run_withClient (o := []) g.registry.allSessions ?_
        rfl
    | stopped =>
        refine run_withClient (o := []) g.registry.allSessions ?_
        rfl
    | message hl => exact Machine.run_singleton.mpr (congrArg some (solo_fanoutEvent _).symm)

/-- **A gateway run, seen by one session, is a run of the session on its own.** -/
theorem run_solo {acts : List Act} {h : List Obs} (hr : Machine.run step g acts = some (g', h)) :
    Machine.run Solo.step (g.solo sid) (soloActs sid g acts) = some (g'.solo sid, viewed sid h) :=
  Machine.run_labels (fun g => g.solo sid) (Obs.view sid) (fun g a => (g.soloAct? sid a).toList)
    (fun _ _ _ _ hs => step_solo hs) hr

end Process

/-- **Clients are isolated.** Take two runs of the gateway in which session `sid` does and is
told the same: the same events are passed to `_fanout_event`, it makes the same calls, its
channels are confirmed or not and its reads answered in the same way, and its tasks take the
same steps. Then, whatever the other sessions do in either run, the session and its tasks are
in the same state in both, and it has been sent the same messages. -/
theorem clients_isolated {keyPrefix keyPrefix' : String} {g g' : Process} {acts acts' : List Act}
    {h h' : List Obs} {sid : SessionId}
    (hr : Machine.run Process.step (.initial keyPrefix) acts = some (g, h))
    (hr' : Machine.run Process.step (.initial keyPrefix') acts' = some (g', h'))
    (hsame : Process.soloActs sid (.initial keyPrefix) acts =
      Process.soloActs sid (.initial keyPrefix') acts') :
    (g.clients sid).toPipeline = (g'.clients sid).toPipeline ∧ viewed sid h = viewed sid h' := by
  have hrun := @Process.run_solo _ _ sid _ _ hr
  have hrun' := @Process.run_solo _ _ sid _ _ hr'
  have hstart : (Process.initial keyPrefix').solo sid = (Process.initial keyPrefix).solo sid := rfl
  rw [hstart, ← hsame, hrun] at hrun'
  obtain ⟨hsolo, hview⟩ := Prod.mk.inj (Option.some.inj hrun')
  exact ⟨congrArg (fun s : Solo => s.client.toPipeline) hsolo, hview⟩

/-- A session alone: its first attempt fails, the loop connects, and it is given an event. -/
def aloneActs : List Act :=
  [.connect 1 "c1" .dropOldest .raw, .call 1 (.request (.subscribe "A" .null)), .call 1 .go,
    .fanout .demanded, .fanout .connect, .fanout (.subscribed true),
    .call 1 .go, .call 1 .go, .call 1 .go, .call 1 (.read (.value none)),
    .call 1 .go, .call 1 .go, .call 1 .go, .message (.quote "A" 5),
    .task 1 .take, .task 1 .writerTake, .task 1 .writerSent]

/-- The same beside a slow client that has an invalid filter rejected, takes part in the fanout
and leaves. -/
def accompaniedActs : List Act :=
  [.connect 0 "c0" .disconnect .agg100ms, .call 0 (.request (.subscribe "A" (.int 1))),
    .connect 1 "c1" .dropOldest .raw, .call 1 (.request (.subscribe "A" .null)), .call 1 .go,
    .call 0 (.request (.subscribe "A" .null)), .fanout .demanded, .fanout .connect,
    .fanout (.subscribed true), .call 0 .go, .call 0 .go, .call 0 (.read (.value none)),
    .call 1 .go, .call 1 .go, .call 0 .go, .call 1 .go, .call 1 (.read (.value none)),
    .call 1 .go, .call 1 .go, .call 1 .go, .message (.quote "A" 5), .task 0 .flush,
    .task 1 .take, .call 0 .go, .call 0 .go, .call 0 (.request (.unsubscribe "A")),
    .task 1 .writerTake, .call 0 .go, .task 1 .writerSent]

theorem clients_isolated_accompanied :
    ∃ g h g' h', Machine.run Process.step (.initial "") aloneActs = some (g, h) ∧
      Machine.run Process.step (.initial "") accompaniedActs = some (g', h') ∧
      .sent (.incremental (.quote "A" 5)) ∈ viewed 1 h ∧
      (g.clients 1).toPipeline = (g'.clients 1).toPipeline ∧ viewed 1 h = viewed 1 h' := by
  have hrun : ∃ g h g' h', Machine.run Process.step (.initial "") aloneActs = some (g, h) ∧
      Machine.run Process.step (.initial "") accompaniedActs = some (g', h') ∧
      .sent (.incremental (.quote "A" 5)) ∈ viewed 1 h :=
    ⟨_, _, _, _, rfl, rfl, by decide⟩
  obtain ⟨g, h, g', h', hr, hr', hsent⟩ := hrun
  exact ⟨g, h, g', h', hr, hr', hsent, clients_isolated hr hr' rfl⟩

end MarketData.Gateway
