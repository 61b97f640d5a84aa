import MarketData.Gateway.Unsubscribe

/-!
# MarketData.Gateway.Connection

**The life of a connection**: `websocket_stream` on top of the gateway's coroutines. The
handler creates the session, runs the receive loop, and tears down in a `finally` block:
cancel the dispatch task and await it, stop the aggregator, `_cleanup`.

The teardown awaits another task, and only `CancelledError` is caught there. A dispatch task
that a failed snapshot read has already ended raises that exception again out of the
`finally` block, so the aggregator keeps running and `_cleanup` is never called: the session
stays registered and keeps receiving events (`session_outlives_connection`). If the dispatch
task has not failed, nothing of the session is left (`no_session_outlives`).
-/

namespace MarketData.Gateway

/-! ### The handler -/

/-- Where `websocket_stream` is. -/
inductive Handler
  | absent
  /-- In the receive loop: awaiting a frame, or the call a frame has led to. -/
  | serving
  /-- About to enter the `finally` block. -/
  | leaving
  /-- The dispatch task is cancelled; awaiting it. -/
  | cancelling
  /-- Awaiting `_cleanup`. -/
  | cleaning
  /-- Ended, by return or by exception. -/
  | finished
  deriving DecidableEq

/-- The gateway with the handlers of its connections. -/
structure Server where
  gateway : Process
  handlers : SessionId → Handler

/-- A step of the server. -/
inductive ServerAct
  | connect (sid : SessionId) (clientId : String) (mode : AggregationMode)
      (encoding : Encoding := .json)
  /-- A frame is answered with an error. -/
  | reply (sid : SessionId) (text : PyStr)
  | subscribe (sid : SessionId) (symbol : PyStr) (filterPayload : Json)
  | unsubscribe (sid : SessionId) (symbol : PyStr)
  /-- The current call runs on. -/
  | call (sid : SessionId) (a : CallAct)
  /-- The client disconnects, the writer forces a disconnect, or the loop raises. -/
  | leave (sid : SessionId)
  /-- `dispatch_task.cancel()`. -/
  | cancel (sid : SessionId)
  /-- `await dispatch_task` is over. -/
  | awaited (sid : SessionId)
  | task (sid : SessionId) (a : TaskAct)
  | fanout (a : Channels.FanoutAct)
  | message (event : MarketEvent)

/-- Not the start of a call. -/
def CallAct.Continues : CallAct → Bool
  | .request _ => false
  | _ => true

namespace Server

/-- The server at startup. -/
def initial (keyPrefix : String) : Server where
  gateway := .initial keyPrefix
  handlers := fun _ => .absent

/-- Run gateway steps and move the handler of `sid`. -/
def exec (s : Server) (sid : SessionId) (acts : List Act) (next : Process → List Obs → Handler) :
    Option (Server × List Obs) :=
  match Machine.run Process.step s.gateway acts with
  | some (g, obs) => some (⟨g, Function.update s.handlers sid (next g obs)⟩, obs)
  | none => none

/-- Run one gateway step that moves no handler. -/
def background (s : Server) (a : Act) : Option (Server × List Obs) :=
  match s.gateway.step a with
  | some (g, obs) => some ({ s with gateway := g }, obs)
  | none => none

/-- Where the receive loop goes from a step of its call. -/
def afterCall (sid : SessionId) (_ : Process) (obs : List Obs) : Handler :=
  if .raised sid ∈ obs then .leaving else .serving

/-- Where the teardown goes from a step of `_cleanup`. -/
def afterCleanup (sid : SessionId) (g : Process) (_ : List Obs) : Handler :=
  if (g.clients sid).call = .idle then .finished else .cleaning

/-- Run one step of the server. -/
def step (s : Server) : ServerAct → Option (Server × List Obs)
  | .connect sid clientId mode encoding =>
    if s.handlers sid = .absent then
      s.exec sid [.connect sid clientId .dropOldest mode encoding] fun _ _ => .serving
    else none
  | .reply sid text =>
    if s.handlers sid = .serving then s.exec sid [.error sid text] fun _ _ => .serving else none
  | .subscribe sid symbol payload =>
    if s.handlers sid = .serving then
      s.exec sid [.call sid (.request (.subscribe symbol payload))] (afterCall sid)
    else none
  | .unsubscribe sid symbol =>
    if s.handlers sid = .serving then
      s.exec sid [.call sid (.request (.unsubscribe symbol))] (afterCall sid)
    else none
  | .call sid a =>
    if a.Continues then
      match s.handlers sid with
      | .serving => s.exec sid [.call sid a] (afterCall sid)
      | .cleaning => s.exec sid [.call sid a] (afterCleanup sid)
      | _ => none
    else none
  | .leave sid =>
    if s.handlers sid = .serving ∧ (s.gateway.clients sid).call = .idle then
      s.exec sid [] fun _ _ => .leaving
    else none
  | .cancel sid =>
    if s.handlers sid = .leaving then s.exec sid [.cancelDispatch sid] fun _ _ => .cancelling
    else none
  | .awaited sid =>
    if s.handlers sid = .cancelling then
      match (s.gateway.clients sid).task with
      -- the exception of the dispatch task leaves the `finally` block
      | .failed => s.exec sid [] fun _ _ => .finished
      | _ =>
        s.exec sid [.stopAggregator sid, .call sid (.request .cleanup)] fun _ _ => .cleaning
    else none
  | .task sid a => s.background (.task sid a)
  | .fanout a => s.background (.fanout a)
  | .message event => s.background (.message event)

end Server

/-- What `exec` has done. -/
theorem Server.of_exec {s s' : Server} {sid : SessionId} {acts : List Act}
    {next : Process → List Obs → Handler} {o : List Obs}
    (h : s.exec sid acts next = some (s', o)) :
    Machine.run Process.step s.gateway acts = some (s'.gateway, o) ∧
      s'.handlers sid = next s'.gateway o ∧
      ∀ sid', sid' ≠ sid → s'.handlers sid' = s.handlers sid' := by
  unfold exec at h
  split at h
  · rename_i g obs hg
    obtain ⟨rfl, rfl⟩ := Machine.outcome h
    exact ⟨hg, Function.update_self .., fun sid' hne => Function.update_of_ne hne ..⟩
  · cases h

/-- What `background` has done. -/
theorem Server.of_background {s s' : Server} {a : Act} {o : List Obs}
    (h : s.background a = some (s', o)) :
    s.gateway.step a = some (s'.gateway, o) ∧ s'.handlers = s.handlers := by
  unfold background at h
  split at h
  · rename_i g obs hg
    obtain ⟨rfl, rfl⟩ := Machine.outcome h
    exact ⟨hg, rfl⟩
  · cases h

/-- The steps of the server: what each asks of the handler and what it lets run. -/
inductive Server.Stepped (s : Server) : ServerAct → Server → List Obs → Prop
  | connected {sid clientId mode encoding s' obs} (hh : s.handlers sid = .absent)
      (hs : s.exec sid [.connect sid clientId .dropOldest mode encoding] (fun _ _ => .serving) =
        some (s', obs)) : Stepped s (.connect sid clientId mode encoding) s' obs
  | replied {sid text s' obs} (hh : s.handlers sid = .serving)
      (hs : s.exec sid [.error sid text] (fun _ _ => .serving) = some (s', obs)) :
      Stepped s (.reply sid text) s' obs
  | subscribed {sid symbol payload s' obs} (hh : s.handlers sid = .serving)
      (hs : s.exec sid [.call sid (.request (.subscribe symbol payload))] (afterCall sid) =
        some (s', obs)) : Stepped s (.subscribe sid symbol payload) s' obs
  | unsubscribed {sid symbol s' obs} (hh : s.handlers sid = .serving)
      (hs : s.exec sid [.call sid (.request (.unsubscribe symbol))] (afterCall sid) =
        some (s', obs)) : Stepped s (.unsubscribe sid symbol) s' obs
  | called {sid ca s' obs} (hcont : ca.Continues = true) (hh : s.handlers sid = .serving)
      (hs : s.exec sid [.call sid ca] (afterCall sid) = some (s', obs)) :
      Stepped s (.call sid ca) s' obs
  | cleaned {sid ca s' obs} (hcont : ca.Continues = true) (hh : s.handlers sid = .cleaning)
      (hs : s.exec sid [.call sid ca] (afterCleanup sid) = some (s', obs)) :
      Stepped s (.call sid ca) s' obs
  | left {sid s' obs} (hh : s.handlers sid = .serving)
      (hc : (s.gateway.clients sid).call = .idle)
      (hs : s.exec sid [] (fun _ _ => .leaving) = some (s', obs)) : Stepped s (.leave sid) s' obs
  | cancelled {sid s' obs} (hh : s.handlers sid = .leaving)
      (hs : s.exec sid [.cancelDispatch sid] (fun _ _ => .cancelling) = some (s', obs)) :
      Stepped s (.cancel sid) s' obs
  | leaked {sid s' obs} (hh : s.handlers sid = .cancelling)
      (ht : (s.gateway.clients sid).task = .failed)
      (hs : s.exec sid [] (fun _ _ => .finished) = some (s', obs)) : Stepped s (.awaited sid) s' obs
  | tornDown {sid s' obs} (hh : s.handlers sid = .cancelling)
      (ht : (s.gateway.clients sid).task ≠ .failed)
      (hs : s.exec sid [.stopAggregator sid, .call sid (.request .cleanup)] (fun _ _ => .cleaning) =
        some (s', obs)) : Stepped s (.awaited sid) s' obs
  | task {sid a s' obs} (hs : s.background (.task sid a) = some (s', obs)) :
      Stepped s (.task sid a) s' obs
  | fanout {a s' obs} (hs : s.background (.fanout a) = some (s', obs)) :
      Stepped s (.fanout a) s' obs
  | message {event s' obs} (hs : s.background (.message event) = some (s', obs)) :
      Stepped s (.message event) s' obs

/-- Every step is one of these. -/
theorem Server.stepped {s s' : Server} {a : ServerAct} {obs : List Obs}
    (hs : s.step a = some (s', obs)) : s.Stepped a s' obs := by
  cases a with
  | connect sid clientId mode encoding =>
      simp only [step] at hs
      split at hs
      · exact .connected ‹_› hs
      · cases hs
  | reply sid text =>
      simp only [step] at hs
      split at hs
      · exact .replied ‹_› hs
      · cases hs
  | subscribe sid symbol payload =>
      simp only [step] at hs
      split at hs
      · exact .subscribed ‹_› hs
      · cases hs
  | unsubscribe sid symbol =>
      simp only [step] at hs
      split at hs
      · exact .unsubscribed ‹_› hs
      · cases hs
  | call sid ca =>
      simp only [step] at hs
      split at hs
      · split at hs
        · exact .called ‹_› ‹_› hs
        · exact .cleaned ‹_› ‹_› hs
        · cases hs
      · cases hs
  | leave sid =>
      simp only [step] at hs
      split at hs
      · rename_i hidle
        exact .left hidle.1 hidle.2 hs
      · cases hs
  | cancel sid =>
      simp only [step] at hs
      split at hs
      · exact .cancelled ‹_› hs
      · cases hs
  | awaited sid =>
      simp only [step] at hs
      split at hs
      · split at hs
        · exact .leaked ‹_› ‹_› hs
        · exact .tornDown ‹_› ‹_› hs
      · cases hs
  | task sid a => exact .task hs
  | fanout a => exact .fanout hs
  | message event => exact .message hs

/-! ### What a session keeps while it does not act itself -/

/-- The session in whose name an action is taken. -/
def Act.owner? : Act → Option SessionId
  | .connect sid .. | .call sid _ | .cancelDispatch sid | .stopAggregator sid => some sid
  | _ => none

/-- Session `sid` is in none of the registries. -/
structure Gone (sid : SessionId) (r : Registry) : Prop where
  allSessions : ∀ clientId, r.allSessions.get? clientId ≠ some sid
  subscriptions : ∀ symbol, sid ∉ r.subscribers symbol
  initializing : ∀ symbol, r.initialization? symbol sid = none

/-- What a step that `sid` does not take itself leaves of it. -/
structure Bystander (sid : SessionId) (g g' : Process) (obs : List Obs) : Prop where
  call : (g'.clients sid).call = (g.clients sid).call
  connected : (g'.clients sid).connected = (g.clients sid).connected
  clientId : (g'.clients sid).session.clientId = (g.clients sid).session.clientId
  cancelled : (g.clients sid).task = .cancelled → (g'.clients sid).task = .cancelled
  failed : (g.clients sid).task = .failed → (g'.clients sid).task = .failed
  flushTask : (g'.clients sid).session.aggregator.flushTask =
    (g.clients sid).session.aggregator.flushTask
  allSessions : ∀ clientId, g'.registry.allSessions.get? clientId = some sid →
    g.registry.allSessions.get? clientId = some sid
  gone : Gone sid g.registry → Gone sid g'.registry
  closed : .closed sid ∉ obs

theorem AggregationBuffer.flush_flushTask (b : AggregationBuffer) :
    b.flush.flushTask = b.flushTask := by
  have key : ∀ (es : List MarketEvent) (b : AggregationBuffer),
      (es.foldl putLatest b).flushTask = b.flushTask := by
    intro es
    induction es with
    | nil => exact fun _ => rfl
    | cons e es ih => exact fun b => ih (b.putLatest e)
  exact key b.buffer.values b

theorem AggregationBuffer.push_flushTask (b : AggregationBuffer) (e : MarketEvent) :
    (b.push e).flushTask = b.flushTask := by
  unfold push
  split <;> rfl

/-- The client's own steps leave the flush task and an ended dispatch task alone. -/
theorem Pipeline.step_ended {p p' : Pipeline} {a : Pipeline.Act} {o : List ClientObs}
    (h : p.step a = some (p', o)) :
    p'.session.aggregator.flushTask = p.session.aggregator.flushTask ∧
    (p.task = .cancelled → p'.task = .cancelled) ∧ (p.task = .failed → p'.task = .failed) := by
  constructor
  · rcases step_aggregator h with ha | ⟨event, output, -, -, ha⟩ | ha | ⟨event, -, ha⟩ <;> rw [ha]
    · exact AggregationBuffer.flush_flushTask _
    · exact AggregationBuffer.push_flushTask _ event
  · rcases step_cases h with ⟨t, -, ht⟩ | ⟨-, -, -, htask, -⟩
    · cases taskStepped ht with
      | dispatched hw | read hw => constructor <;> intro hend <;> rw [hend] at hw <;> cases hw
      | recovered hs hw | raised hs hw =>
          constructor <;> intro hend <;> rw [hend] at hw <;> cases hw
      | flushed | writerTook | writerSent | writerUnrecorded | writerFailed | writerLooped =>
          exact ⟨id, id⟩
    · exact ⟨htask.trans, htask.trans⟩

/-- Calls change `all_sessions` only by removing their own session. -/
theorem Called.allSessions {sid : SessionId} {σ σ' : Scope} {a : CallAct} {obs : List Obs}
    (h : Called sid σ a σ' obs) : σ'.registry.allSessions = σ.registry.allSessions ∨
      σ'.registry.allSessions = σ.registry.allSessions.erase σ.client.session.clientId := by
  cases h with
  | lastUnsubscribed | unsubscribed => exact Or.inl (Registry.allSessions_discardSubscriber ..)
  | cleaned => exact Or.inr (Registry.allSessions_cleanup ..)
  | _ => exact Or.inl rfl

theorem Called.mem_allSessions {sid sid' : SessionId} {σ σ' : Scope} {a : CallAct}
    {obs : List Obs} (h : Called sid' σ a σ' obs) {clientId : String}
    (hmem : σ'.registry.allSessions.get? clientId = some sid) :
    σ.registry.allSessions.get? clientId = some sid := by
  rcases h.allSessions with heq | heq <;> rw [heq] at hmem
  · exact hmem
  · rw [Dict.get?_erase] at hmem
    split at hmem
    · cases hmem
    · exact hmem

/-- Only a session's own `_cleanup` closes it. -/
theorem Called.closed_own {sid sid' : SessionId} {σ σ' : Scope} {a : CallAct} {obs : List Obs}
    (h : Called sid' σ a σ' obs) (hmem : .closed sid ∈ obs) :
    sid = sid' ∧ σ.client.call = .releasing [] .cleanup := by
  cases h.observed hmem with
  | closed hc => exact ⟨rfl, hc⟩

/-- In a step that a session does not take itself, at most its own tasks move. -/
theorem Stepped.client_of_bystander {g g' : Process} {a : Act} {obs : List Obs}
    (h : Stepped g a g' obs) {sid : SessionId} (hne : a.owner? ≠ some sid) :
    g'.clients sid = g.clients sid ∨
    ∃ pa p o, (g.clients sid).toPipeline.step pa = some (p, o) ∧
      g'.clients sid = { g.clients sid with toPipeline := p } := by
  have hother : ∀ {sid'}, some sid' ≠ some sid → sid ≠ sid' :=
    fun hn heq => hn (congrArg some heq.symm)
  cases h with
  | call hc => exact Or.inl (g.clients_withScope_ne _ _ (hother hne))
  | connect hc => exact Or.inl (g.clients_withClient_ne _ _ (hother hne))
  | cancelled => exact Or.inl (g.clients_withClient_ne _ _ (hother hne))
  | stopped => exact Or.inl (g.clients_withClient_ne _ _ (hother hne))
  | fanout hf => exact Or.inl rfl
  | @task sid' a p o hp =>
      by_cases hs : sid = sid'
      · subst hs
        exact Or.inr ⟨.task a, p, o, hp, Process.clients_withClient_self ..⟩
      · exact Or.inl (g.clients_withClient_ne _ _ hs)
  | @replied sid' text hc =>
      by_cases hs : sid = sid'
      · subst hs
        exact Or.inr ⟨.error text, _, _, rfl, Process.clients_withClient_self ..⟩
      · exact Or.inl (g.clients_withClient_ne _ _ hs)
  | @message e hl =>
      rw [Process.clients_fanoutEvent]
      split
      · exact Or.inr ⟨.push e, _, _, rfl, rfl⟩
      · exact Or.inl rfl

/-- A session enters `all_sessions` only by connecting. -/
theorem Stepped.mem_allSessions {g g' : Process} {a : Act} {obs : List Obs}
    (h : Stepped g a g' obs) {sid : SessionId} (hne : a.owner? ≠ some sid) {clientId : String}
    (hmem : g'.registry.allSessions.get? clientId = some sid) :
    g.registry.allSessions.get? clientId = some sid := by
  cases h with
  | call hc => exact hc.mem_allSessions hmem
  | @connect sid' clientId' _ _ _ hc =>
      rw [Dict.get?_set] at hmem
      split at hmem
      · exact absurd hmem hne
      · exact hmem
  | message hl =>
      rw [Process.registry_fanoutEvent, Registry.allSessions_bufferEvent] at hmem
      exact hmem
  | task | replied | cancelled | stopped | fanout => exact hmem

/-- Only calls close sessions. -/
theorem Stepped.closed_own {g g' : Process} {a : Act} {obs : List Obs} (h : Stepped g a g' obs)
    {sid : SessionId} (hmem : .closed sid ∈ obs) :
    (∃ ca, a = .call sid ca) ∧ (g.clients sid).call = .releasing [] .cleanup := by
  cases h with
  | @call sid' ca σ _ hc =>
      obtain ⟨rfl, hcall⟩ := hc.closed_own hmem
      exact ⟨⟨ca, rfl⟩, hcall⟩
  | task hp =>
      obtain ⟨o, -, ho⟩ := List.mem_map.mp hmem
      cases ho
  | replied hc =>
      obtain ⟨o, -, ho⟩ := List.mem_map.mp hmem
      cases ho
  | message hl => cases List.mem_singleton.mp hmem
  | connect | cancelled | stopped | fanout => cases hmem

/-- **A step that a session does not take itself leaves it where it is.** -/
theorem Stepped.bystander {g g' : Process} {a : Act} {obs : List Obs} (h : Stepped g a g' obs)
    {sid : SessionId} (hne : a.owner? ≠ some sid) : Bystander sid g g' obs := by
  have hreg : ∀ symbol,
      (sid ∈ g'.registry.subscribers symbol → sid ∈ g.registry.subscribers symbol) ∧
      (g.registry.initialization? symbol sid = none →
        g'.registry.initialization? symbol sid = none) := by
    intro symbol
    rcases h.call_or_outside with ⟨sid', ca, σ, rfl, rfl, hc⟩ | ⟨-, ho⟩
    · have hs : sid ≠ sid' := fun heq => hne (congrArg some heq.symm)
      exact ⟨(hc.frame hs symbol).2.mp, fun hnone => (hc.frame hs symbol).1.trans hnone⟩
    · refine ⟨fun hmem => ho.subscribers symbol ▸ hmem, fun hnone => ?_⟩
      rcases ho.initialization symbol sid with hi | ⟨e, -, hi⟩
      · exact hi.trans hnone
      · rw [hi, hnone]
        rfl
  have hgone : Gone sid g.registry → Gone sid g'.registry := fun hg =>
    ⟨fun cid hmem => hg.allSessions cid (h.mem_allSessions hne hmem),
      fun symbol hmem => hg.subscriptions symbol ((hreg symbol).1 hmem),
      fun symbol => (hreg symbol).2 (hg.initializing symbol)⟩
  have hclosed : .closed sid ∉ obs := by
    intro hmem
    obtain ⟨⟨ca, rfl⟩, -⟩ := h.closed_own hmem
    exact hne rfl
  rcases h.client_of_bystander hne with hsame | ⟨pa, p, o, hp, hsame⟩
  · exact ⟨by rw [hsame], by rw [hsame], by rw [hsame], by rw [hsame]; exact id,
      by rw [hsame]; exact id, by rw [hsame], fun _ => h.mem_allSessions hne, hgone, hclosed⟩
  · obtain ⟨hflush, hcan, hfail⟩ := Pipeline.step_ended hp
    have hset := Pipeline.step_settings hp
    exact ⟨by rw [hsame], by rw [hsame], by rw [hsame]; exact hset.clientId,
      by rw [hsame]; exact hcan, by rw [hsame]; exact hfail, by rw [hsame]; exact hflush,
      fun _ => h.mem_allSessions hne, hgone, hclosed⟩

/-! ### Connected sessions -/

/-- A session is listed under its own id, once it is connected. -/
def Named (g : Process) : Prop := ∀ sid clientId, g.registry.allSessions.get? clientId = some sid →
  clientId = (g.clients sid).session.clientId ∧ (g.clients sid).connected = true

/-- A call leaves the identity of its session and its tasks alone. -/
theorem Called.identity {sid : SessionId} {σ σ' : Scope} {a : CallAct} {obs : List Obs}
    (h : Called sid σ a σ' obs) :
    σ'.client.session.clientId = σ.client.session.clientId ∧
    σ'.client.connected = σ.client.connected ∧ σ'.client.task = σ.client.task ∧
    σ'.client.session.aggregator.flushTask = σ.client.session.aggregator.flushTask := by
  cases h with
  | rejected hc hn hs | unavailable hc hs | failed hc hs =>
      obtain ⟨_, _, _, rfl⟩ := hs.session
      exact ⟨rfl, rfl, rfl, rfl⟩
  | activated hc hi ho hs =>
      have hpush : ∀ (es : List MarketEvent) (b : AggregationBuffer),
          (es.foldl AggregationBuffer.push b).flushTask = b.flushTask := by
        intro es
        induction es with
        | nil => exact fun _ => rfl
        | cons e es ih => exact fun b => (ih (b.push e)).trans (b.push_flushTask e)
      cases hs <;> exact ⟨rfl, rfl, rfl, hpush _ _⟩
  | _ => exact ⟨rfl, rfl, rfl, rfl⟩

theorem Named.step {g g' : Process} {a : Act} {obs : List Obs} (hN : Named g)
    (h : Stepped g a g' obs) : Named g' := by
  intro sid clientId hmem
  by_cases hown : a.owner? = some sid
  · cases h with
    | call hc =>
        obtain rfl := Option.some.inj hown
        obtain ⟨hid, hon, -, -⟩ := hc.identity
        rw [Process.clients_withScope_self, hid, hon]
        exact hN _ clientId (hc.mem_allSessions hmem)
    | @connect sid' clientId' policy mode encoding hc =>
        obtain rfl := Option.some.inj hown
        have hself :=
          g.clients_withClient_self sid' ((g.clients sid').connect clientId' policy mode encoding)
        rw [Dict.get?_set] at hmem
        split at hmem
        · rename_i heq
          rw [show ∀ r,
            ({ g.withClient sid' ((g.clients sid').connect clientId' policy mode encoding) with
            registry := r } : Process).clients sid' = _ from fun _ => hself]
          exact ⟨heq.symm, rfl⟩
        · exact absurd (hc.symm.trans (hN sid' clientId hmem).2) Bool.false_ne_true
    | cancelled =>
        obtain rfl := Option.some.inj hown
        rw [Process.clients_withClient_self]
        exact hN _ clientId hmem
    | stopped =>
        obtain rfl := Option.some.inj hown
        rw [Process.clients_withClient_self]
        exact hN _ clientId hmem
    | task | replied | fanout | message => cases hown
  · have hb := h.bystander hown
    rw [hb.clientId, hb.connected]
    exact hN sid clientId (hb.allSessions clientId hmem)

/-! ### The phases of a connection -/

/-- The call is `_cleanup`. -/
def Call.inCleanup : Call → Bool
  | .cleaning | .closing => true
  | .releasing _ result | .dropping _ result => decide (result = .cleanup)
  | _ => false

/-- The session's dispatch task is cancelled and its flush task does not run. -/
structure Torn (c : Client) : Prop where
  task : c.task = .cancelled
  flushTask : c.session.aggregator.flushTask ≠ .running

/-- Where a session is, given where its handler is. -/
inductive Lifecycle (sid : SessionId) (g : Process) (h : List Obs) : Handler → Prop
  | absent (hon : (g.clients sid).connected = false) (hcl : .closed sid ∉ h) :
      Lifecycle sid g h .absent
  | serving (hcall : (g.clients sid).call.inCleanup = false) (hcl : .closed sid ∉ h) :
      Lifecycle sid g h .serving
  | leaving (hcall : (g.clients sid).call = .idle) (hcl : .closed sid ∉ h) :
      Lifecycle sid g h .leaving
  | cancelling (hcall : (g.clients sid).call = .idle)
      (htask : (g.clients sid).task = .cancelled ∨ (g.clients sid).task = .failed)
      (hcl : .closed sid ∉ h) : Lifecycle sid g h .cancelling
  | cleaning (hcall : (g.clients sid).call.inCleanup = true) (htorn : Torn (g.clients sid))
      (hgone : (g.clients sid).call ≠ .cleaning → Gone sid g.registry)
      (hcl : (g.clients sid).call = .closing → .closed sid ∈ h) : Lifecycle sid g h .cleaning
  /-- The exception of the dispatch task has skipped the rest of the teardown. -/
  | leaked (htask : (g.clients sid).task = .failed) (hcl : .closed sid ∉ h) :
      Lifecycle sid g h .finished
  | finished (htorn : Torn (g.clients sid)) (hgone : Gone sid g.registry)
      (hcl : .closed sid ∈ h) : Lifecycle sid g h .finished

theorem Torn.of_bystander {sid : SessionId} {g g' : Process} {obs : List Obs}
    (hT : Torn (g.clients sid)) (hb : Bystander sid g g' obs) : Torn (g'.clients sid) :=
  ⟨hb.cancelled hT.task, hb.flushTask ▸ hT.flushTask⟩

/-- **A step the session does not take itself keeps its phase.** -/
theorem Lifecycle.of_bystander {sid : SessionId} {g g' : Process} {h o : List Obs}
    {handler : Handler} (hL : Lifecycle sid g h handler) (hb : Bystander sid g g' o) :
    Lifecycle sid g' (h ++ o) handler := by
  have hnot : .closed sid ∉ h → .closed sid ∉ h ++ o := fun hcl hmem =>
    (List.mem_append.mp hmem).elim hcl hb.closed
  cases hL with
  | absent hon hcl => exact .absent (hb.connected.trans hon) (hnot hcl)
  | serving hcall hcl => exact .serving (hb.call ▸ hcall) (hnot hcl)
  | leaving hcall hcl => exact .leaving (hb.call.trans hcall) (hnot hcl)
  | cancelling hcall htask hcl =>
      exact .cancelling (hb.call.trans hcall) (htask.imp hb.cancelled hb.failed) (hnot hcl)
  | cleaning hcall htorn hgone hcl =>
      exact .cleaning (hb.call ▸ hcall) (htorn.of_bystander hb)
        (fun hne => hb.gone (hgone (hb.call ▸ hne)))
        (fun hc => List.mem_append_left o (hcl (hb.call ▸ hc)))
  | leaked htask hcl => exact .leaked (hb.failed htask) (hnot hcl)
  | finished htorn hgone hcl =>
      exact .finished (htorn.of_bystander hb) (hb.gone hgone) (List.mem_append_left o hcl)

namespace Called

variable {sid : SessionId} {σ σ' : Scope} {a : CallAct} {obs : List Obs}

/-- A call that is not `_cleanup` does not become `_cleanup`, and closes nothing. -/
theorem not_inCleanup (h : Called sid σ a σ' obs) (ha : a ≠ .request .cleanup)
    (hn : σ.client.call.inCleanup = false) :
    σ'.client.call.inCleanup = false ∧ .closed sid ∉ obs := by
  refine ⟨?_, fun hmem => ?_⟩
  · cases h with
    | cleanupBegun => exact absurd rfl ha
    | attempted hc hl =>
        rw [Scope.call_goto]
        rcases (σ.channels.subscribePubsubSymbol sid _).2 with - | - | - <;> rfl
    | answered ok hc => cases ok <;> rfl
    | released hc hl =>
        rw [hc] at hn
        rw [Scope.call_goto]
        split <;> exact hn
    | dropped ok hc =>
        rw [hc] at hn
        exact hn
    | rejected hc | overflowed hc => exact hn
    | cleaned hc | closing hc | closed hc =>
        rw [hc] at hn
        cases hn
    | _ => rfl
  · rw [(h.closed_own hmem).2] at hn
    cases hn

/-- A call that raises is over. -/
theorem idle_of_raised (h : Called sid σ a σ' obs) (hmem : .raised sid ∈ obs) :
    σ'.client.call = .idle := by
  cases h.observed hmem with
  | raised hidle => exact hidle

/-- **`_cleanup` runs on to `session.close()`**, with the session out of the registries. -/
theorem cleanup_continues (h : Called sid σ a σ' obs) (hI : Handshake sid σ.registry σ.client)
    (hnamed : ∀ clientId, σ.registry.allSessions.get? clientId = some sid →
      clientId = σ.client.session.clientId)
    (hgone : σ.client.call ≠ .cleaning → Gone sid σ.registry)
    (hn : σ.client.call.inCleanup = true) :
    Gone sid σ'.registry ∧
    ((σ.client.call = .closing ∧ σ'.client.call = .idle) ∨
      (σ'.client.call.inCleanup = true ∧ σ'.client.call ≠ .cleaning ∧
        (σ'.client.call = .closing → .closed sid ∈ obs))) := by
  cases h with
  | cleaned hc ho =>
      refine ⟨⟨fun clientId hmem => ?_, fun symbol hmem => ?_, fun symbol => ?_⟩, Or.inr
        ⟨rfl, (fun h => by cases h), (fun h => by cases h)⟩⟩
      · rw [Scope.registry_goto, Registry.allSessions_cleanup, Dict.get?_erase] at hmem
        split at hmem
        · cases hmem
        · rename_i hne
          exact hne (hnamed clientId hmem).symm
      · rw [Scope.registry_goto, Registry.subscribers_cleanup] at hmem
        split at hmem
        · exact absurd rfl (Finset.ne_of_mem_erase hmem)
        · rename_i hnot
          refine hnot (List.mem_toFinset.mp ?_)
          rw [ho]
          exact hI.owned symbol hmem
      · rw [Scope.registry_goto, Registry.initialization?_cleanup, if_pos rfl]
  | @released symbol rest result hc hl =>
      rw [hc] at hgone hn
      refine ⟨hgone (fun h => by cases h), Or.inr ?_⟩
      rw [Scope.call_goto]
      split
      · exact ⟨hn, (fun h => by cases h), (fun h => by cases h)⟩
      · exact ⟨hn, (fun h => by cases h), (fun h => by cases h)⟩
  | dropped ok hc =>
      rw [hc] at hgone hn
      exact ⟨hgone (fun h => by cases h), Or.inr ⟨hn, (fun h => by cases h), (fun h => by cases h)⟩⟩
  | finished hc hr =>
      rw [hc] at hn
      exact absurd (of_decide_eq_true hn) hr
  | closing hc =>
      rw [hc] at hgone
      refine ⟨hgone (fun h => by cases h), Or.inr ⟨rfl, (fun h => by cases h), fun _ => ?_⟩⟩
      exact List.mem_singleton.mpr rfl
  | closed hc =>
      refine ⟨hgone ?_, Or.inl ⟨hc, rfl⟩⟩
      rw [hc]
      exact fun h => by cases h
  | parsed hc | rejected hc | overflowed hc | unsubscribeBegun hc | cleanupBegun hc
  | attempted hc | answered ok hc | slept hc | unavailable hc | registered hc | read hc
  | failed hc | activated hc | rolledBack hc | inUse hc | unused hc | lastUnsubscribed hc
  | unsubscribed hc =>
      rw [hc] at hn
      cases hn

end Called

namespace Stepped

variable {g g' : Process} {obs : List Obs} {sid : SessionId}

theorem call_connected {clientId : String} {policy : SlowConsumerPolicy} {mode : AggregationMode}
    {encoding : Encoding} (h : Stepped g (.connect sid clientId policy mode encoding) g' obs) :
    (g'.clients sid).call = (g.clients sid).call := by
  rcases h.call_or_outside with ⟨_, _, _, heq, -⟩ | ⟨-, ho⟩
  · cases heq
  · exact ho.call sid

theorem client_cancelled (h : Stepped g (.cancelDispatch sid) g' obs) :
    g'.clients sid = { g.clients sid with task := (g.clients sid).task.cancel } ∧ obs = [] := by
  cases h
  exact ⟨Process.clients_withClient_self .., rfl⟩

theorem client_stopped (h : Stepped g (.stopAggregator sid) g' obs) :
    g'.clients sid = (g.clients sid).withSession { (g.clients sid).session with
      aggregator := (g.clients sid).session.aggregator.stop } := by
  cases h
  exact Process.clients_withClient_self ..

theorem cleanup_begun (h : Stepped g (.call sid (.request .cleanup)) g' obs) :
    g'.clients sid = { g.clients sid with call := .cleaning } := by
  cases h with
  | call hc =>
      cases hc
      exact Process.clients_withScope_self ..

end Stepped

theorem AggregationBuffer.stop_flushTask (b : AggregationBuffer) :
    b.stop.flushTask ≠ .running := by
  unfold stop
  split
  · rename_i h
    rw [h]
    exact nofun
  · exact nofun

/-! ### The server's invariant -/

/-- What holds in every state of every run of the server. -/
structure Lives (s : Server) (h : List Obs) : Prop where
  handshakes : Handshakes s.gateway
  named : Named s.gateway
  lifecycle : ∀ sid, Lifecycle sid s.gateway h (s.handlers sid)

namespace Lives

variable {s s' : Server} {h o : List Obs} {sid : SessionId}

theorem initial (keyPrefix : String) : Lives (.initial keyPrefix) [] where
  handshakes := .initial keyPrefix
  named _ _ hmem := nomatch hmem
  lifecycle _ := .absent rfl List.not_mem_nil

/-- The phase of a session whose handler is known. -/
theorem phase (hI : Lives s h) {handler : Handler} (hh : s.handlers sid = handler) :
    Lifecycle sid s.gateway h handler := hh ▸ hI.lifecycle sid

/-- A step that no session takes in its own name moves no handler. -/
theorem background (hI : Lives s h) {a : Act} (ha : a.owner? = none)
    (hs : s.background a = some (s', o)) : Lives s' (h ++ o) := by
  obtain ⟨hg, hhandlers⟩ := Server.of_background hs
  have hstep := Process.stepped hg
  refine ⟨hI.handshakes.step hstep, hI.named.step hstep, fun sid => ?_⟩
  rw [hhandlers]
  exact (hI.lifecycle sid).of_bystander (hstep.bystander (by rw [ha]; exact nofun))

/-- Moving a handler without a gateway step. -/
theorem exec_nil (hI : Lives s h) {next : Process → List Obs → Handler}
    (hown : Lifecycle sid s.gateway h (next s.gateway []))
    (hs : s.exec sid [] next = some (s', o)) : Lives s' (h ++ o) := by
  obtain ⟨hr, hself, hother⟩ := Server.of_exec hs
  obtain ⟨hg, rfl⟩ : s.gateway = s'.gateway ∧ [] = o := by simpa using hr
  rw [← hg] at hself
  refine ⟨hg ▸ hI.handshakes, hg ▸ hI.named, fun sid' => ?_⟩
  rw [List.append_nil, ← hg]
  by_cases hs : sid' = sid
  · subst hs
    rw [hself]
    exact hown
  · rw [hother sid' hs]
    exact hI.lifecycle sid'

/-- One gateway step of a session's handler: the others stay in their phase. -/
theorem exec_one (hI : Lives s h) {a : Act} {next : Process → List Obs → Handler}
    (ha : a.owner? = some sid ∨ a.owner? = none)
    (hown : ∀ g o, Stepped s.gateway a g o → Lifecycle sid g (h ++ o) (next g o))
    (hs : s.exec sid [a] next = some (s', o)) : Lives s' (h ++ o) := by
  obtain ⟨hr, hself, hother⟩ := Server.of_exec hs
  have hstep := Process.stepped (Machine.run_singleton.mp hr)
  refine ⟨hI.handshakes.step hstep, hI.named.step hstep, fun sid' => ?_⟩
  by_cases hs : sid' = sid
  · subst hs
    rw [hself]
    exact hown _ o hstep
  · rw [hother sid' hs]
    refine (hI.lifecycle sid').of_bystander (hstep.bystander fun heq => ?_)
    rcases ha with ha | ha
    · exact hs (Option.some.inj (heq.symm.trans ha))
    · rw [ha] at heq
      cases heq

/-- The receive loop lets the session's call start or run on. -/
theorem serve (hI : Lives s h) (hserving : s.handlers sid = .serving) {ca : CallAct}
    (ha : ca ≠ .request .cleanup)
    (hs : s.exec sid [.call sid ca] (Server.afterCall sid) = some (s', o)) : Lives s' (h ++ o) := by
  refine hI.exec_one (Or.inl rfl) (fun g o hstep => ?_) hs
  cases hI.phase hserving with
  | serving hcall hcl =>
      cases hstep with
      | @call _ _ σ _ hc =>
          obtain ⟨hcall', hcl'⟩ := hc.not_inCleanup ha hcall
          have hnot : .closed sid ∉ h ++ o := fun hmem => (List.mem_append.mp hmem).elim hcl hcl'
          have hself := s.gateway.clients_withScope_self sid σ
          unfold Server.afterCall
          split
          · rename_i hraised
            exact .leaving (hself ▸ hc.idle_of_raised hraised) hnot
          · exact .serving (hself ▸ hcall') hnot

/-- `_cleanup` runs on. -/
theorem clean (hI : Lives s h) (hcleaning : s.handlers sid = .cleaning) {ca : CallAct}
    (hs : s.exec sid [.call sid ca] (Server.afterCleanup sid) = some (s', o)) :
    Lives s' (h ++ o) := by
  refine hI.exec_one (Or.inl rfl) (fun g o hstep => ?_) hs
  cases hI.phase hcleaning with
  | cleaning hcall htorn hgone hcl =>
      cases hstep with
      | @call _ _ σ _ hc =>
          have hself := s.gateway.clients_withScope_self sid σ
          obtain ⟨-, -, htask, hflush⟩ := hc.identity
          have htorn' : Torn σ.client := ⟨htask.trans htorn.task, hflush ▸ htorn.flushTask⟩
          obtain ⟨hgone', hcont⟩ := hc.cleanup_continues (hI.handshakes sid)
            (fun clientId hmem => (hI.named sid clientId hmem).1) hgone hcall
          unfold Server.afterCleanup
          rw [hself]
          rcases hcont with ⟨hclosing, hidle⟩ | ⟨hin, hne, hcl'⟩
          · rw [if_pos hidle]
            exact .finished (hself ▸ htorn') hgone' (List.mem_append_left o (hcl hclosing))
          · have hbusy : σ.client.call ≠ .idle := by
              intro hidle
              rw [hidle] at hin
              cases hin
            rw [if_neg hbusy]
            refine .cleaning (hself ▸ hin) (hself ▸ htorn') (fun _ => hgone') fun hc => ?_
            rw [hself] at hc
            exact List.mem_append_right h (hcl' hc)

/-- The dispatch task has been cancelled: stop the aggregator and start `_cleanup`. -/
theorem tearDown (hI : Lives s h) (hcancelling : s.handlers sid = .cancelling)
    (htask : (s.gateway.clients sid).task ≠ .failed)
    (hs : s.exec sid [.stopAggregator sid, .call sid (.request .cleanup)] (fun _ _ => .cleaning) =
      some (s', o)) : Lives s' (h ++ o) := by
  obtain ⟨hr, hself, hother⟩ := Server.of_exec hs
  obtain ⟨g₁, o₁, o₂, hg₁, hg₂, rfl⟩ := Machine.run_cons.mp hr
  have hstop := Process.stepped hg₁
  have hbegin := Process.stepped (Machine.run_singleton.mp hg₂)
  refine ⟨(hI.handshakes.step hstop).step hbegin, (hI.named.step hstop).step hbegin,
    fun sid' => ?_⟩
  by_cases hs : sid' = sid
  · subst hs
    rw [hself]
    cases hI.phase hcancelling with
    | cancelling hcall htask' hcl =>
        have hbegun := hbegin.cleanup_begun
        have hstopped := hstop.client_stopped
        refine .cleaning (by rw [hbegun]; rfl) ⟨?_, ?_⟩ (fun hne => absurd ?_ hne) ?_
        · rw [hbegun]
          show (g₁.clients sid').task = .cancelled
          rw [hstopped]
          exact htask'.resolve_right htask
        · rw [hbegun]
          show (g₁.clients sid').session.aggregator.flushTask ≠ .running
          rw [hstopped]
          exact AggregationBuffer.stop_flushTask _
        · rw [hbegun]
        · rw [hbegun]
          exact nofun
  · rw [hother sid' hs, ← List.append_assoc]
    have hne : some sid ≠ some sid' := fun heq => hs (Option.some.inj heq).symm
    exact ((hI.lifecycle sid').of_bystander (hstop.bystander hne)).of_bystander
      (hbegin.bystander hne)

/-- **Every step of the server keeps every session in its phase.** -/
theorem step (hI : Lives s h) {a : ServerAct} (hs : s.step a = some (s', o)) :
    Lives s' (h ++ o) := by
  cases Server.stepped hs with
  | task hs => exact hI.background rfl hs
  | fanout hs => exact hI.background rfl hs
  | message hs => exact hI.background rfl hs
  | connected habsent hs =>
      refine hI.exec_one (Or.inl rfl) (fun g o hstep => ?_) hs
      cases hI.phase habsent with
      | absent hon hcl =>
          have hcall := ((hI.handshakes _).absent hon).1
          refine .serving ?_ fun hmem => (List.mem_append.mp hmem).elim hcl ?_
          · rw [hstep.call_connected, hcall]
            rfl
          · intro hmem
            obtain ⟨⟨ca, hca⟩, -⟩ := hstep.closed_own hmem
            cases hca
  | replied hserving hs =>
      refine hI.exec_one (Or.inr rfl) (fun g o hstep => ?_) hs
      exact (hI.phase hserving).of_bystander (hstep.bystander nofun)
  | subscribed hserving hs =>
      refine hI.serve hserving ?_ hs
      exact nofun
  | unsubscribed hserving hs =>
      refine hI.serve hserving ?_ hs
      exact nofun
  | called hcont hserving hs =>
      refine hI.serve hserving ?_ hs
      rintro rfl
      cases hcont
  | cleaned hcont hcleaning hs => exact hI.clean hcleaning hs
  | left hserving hidle hs =>
      refine hI.exec_nil ?_ hs
      cases hI.phase hserving with
      | serving hcall hcl => exact .leaving hidle hcl
  | @cancelled sid _ _ hleaving hs =>
      refine hI.exec_one (Or.inl rfl) (fun g o hstep => ?_) hs
      cases hI.phase hleaving with
      | leaving hcall hcl =>
          obtain ⟨hclient, rfl⟩ := hstep.client_cancelled
          refine .cancelling ?_ ?_ ?_
          · rw [hclient]
            exact hcall
          · rw [hclient]
            cases (s.gateway.clients sid).task with
            | failed => exact Or.inr rfl
            | _ => exact Or.inl rfl
          · rwa [List.append_nil]
  | leaked hcancelling hfailed hs =>
      refine hI.exec_nil ?_ hs
      cases hI.phase hcancelling with
      | cancelling hcall htask hcl => exact .leaked hfailed hcl
  | tornDown hcancelling hnot hs => exact hI.tearDown hcancelling hnot hs

end Lives

/-- **No session outlives its connection, unless its dispatch task has failed.** In every run
of the server and for every finished handler: the session is in none of the registries, its
flush task does not run and `session.close()` has been called, if and only if its dispatch
task had not ended with an exception. -/
theorem no_session_outlives {keyPrefix : String} {acts : List ServerAct} {s : Server}
    {h : List Obs} (hr : Machine.run Server.step (.initial keyPrefix) acts = some (s, h))
    {sid : SessionId} (hfin : s.handlers sid = .finished) :
    (Gone sid s.gateway.registry ∧
      (s.gateway.clients sid).session.aggregator.flushTask ≠ .running ∧ .closed sid ∈ h) ↔
    (s.gateway.clients sid).task ≠ .failed := by
  have hI : Lives s h :=
    Machine.run_invariant (I := Lives) (fun _ _ _ _ _ hI hs => hI.step hs) (.initial keyPrefix) hr
  cases hI.phase hfin with
  | leaked htask hcl => exact ⟨fun hgone => absurd hgone.2.2 hcl, fun hne => absurd htask hne⟩
  | finished htorn hgone hcl =>
      refine ⟨fun _ hfailed => ?_, fun _ => ⟨hgone, htorn.flushTask, hcl⟩⟩
      rw [htorn.task] at hfailed
      cases hfailed

/-- A connection whose first frame subscribes. -/
def connectionActs : List ServerAct :=
  [.connect 0 "c0" .raw, .subscribe 0 "A" .null, .call 0 .go,
    .fanout .demanded, .fanout .connect, .fanout (.subscribed true),
    .call 0 .go, .call 0 .go, .call 0 .go, .call 0 (.read (.value none)),
    .call 0 .go, .call 0 .go, .call 0 .go, .message (.quote "A" 5), .task 0 .take]

/-- The client disconnects, and the handler tears down. -/
def disconnectActs : List ServerAct :=
  connectionActs ++
    [.leave 0, .cancel 0, .awaited 0, .call 0 (.clean ["A"]), .call 0 .go, .call 0 (.redis true),
      .call 0 .go, .call 0 .go]

theorem no_session_outlives_disconnect :
    ∃ s h, Machine.run Server.step (.initial "") disconnectActs = some (s, h) ∧
      Gone 0 s.gateway.registry ∧ .closed 0 ∈ h := by
  have hrun : ∃ s h, Machine.run Server.step (.initial "") disconnectActs = some (s, h) ∧
      s.handlers 0 = .finished ∧ (s.gateway.clients 0).task = .cancelled :=
    ⟨_, _, rfl, rfl, rfl⟩
  obtain ⟨s, h, hr, hfin, htask⟩ := hrun
  have hgone := (no_session_outlives hr hfin).mpr (by rw [htask]; exact nofun)
  exact ⟨s, h, hr, hgone.1, hgone.2.2⟩

/-- A gap, whose snapshot read raises; then the client disconnects. -/
def failedReadActs : List ServerAct :=
  connectionActs ++
    [.message (.quote "A" 7), .task 0 .take, .task 0 (.read .raised), .task 0 .resume,
      .leave 0, .cancel 0, .awaited 0]

/-- **A session can outlive its connection**: it is still registered, it has not been closed,
and the next event is pushed to it. -/
theorem session_outlives_connection :
    ∃ s h s', Machine.run Server.step (.initial "") failedReadActs = some (s, h) ∧
      s.handlers 0 = .finished ∧
      s.gateway.registry.allSessions.get? "c0" = some 0 ∧
      s.gateway.registry.subscribers "A" = {0} ∧ .closed 0 ∉ h ∧
      s.step (.message (.quote "A" 8)) = some (s', [.received (.quote "A" 8) {0}]) :=
  ⟨_, _, _, rfl, rfl, rfl, rfl, by decide, rfl⟩

end MarketData.Gateway
