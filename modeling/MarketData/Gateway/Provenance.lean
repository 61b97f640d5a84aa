import MarketData.Gateway.Outbound
import MarketData.Gateway.Unsubscribe
import MarketData.World

/-!
# MarketData.Gateway.Provenance

**Where a client's messages come from.** An event is copied on its way through the gateway: into the
initialization buffers, the aggregators, the dispatch tasks and the outbound queues; a snapshot is
held by the call or the task that has read it. `Sourced` says of every copy that the gateway has
been given the original, and that its session has asked for the symbol. Each step keeps it, as long
as what the step itself brings in has a source (`Sourced.step`), and every market message that the
step makes `enqueue` accept is one of these copies (`Sourced.given`).

What counts as a source is left open (`Sources`): the composition with the engine and Redis fills it
in.
-/

namespace MarketData.Gateway

/-- What may reach the sessions, and what they have asked for. -/
structure Sources where
  event : MarketEvent → Prop
  snapshot : SnapshotData → Prop
  asked : SessionId → PyStr → Prop

namespace Sources

/-- An event that session `sid` may hold. -/
def Event (src : Sources) (sid : SessionId) (e : MarketEvent) : Prop :=
  src.event e ∧ src.asked sid e.symbol

/-- A snapshot that session `sid` may hold. -/
def Snapshot (src : Sources) (sid : SessionId) (s : SnapshotData) : Prop :=
  src.snapshot s ∧ src.asked sid s.symbol

/-- A message that session `sid` may be given. -/
def Gives (src : Sources) (sid : SessionId) : Message → Prop
  | .incremental e => src.Event sid e
  | .snapshot s => src.Snapshot sid s
  | .error _ => True

/-- Sources are only ever added. -/
structure Grow (src src' : Sources) : Prop where
  event : ∀ e, src.event e → src'.event e
  snapshot : ∀ s, src.snapshot s → src'.snapshot s
  asked : ∀ sid symbol, src.asked sid symbol → src'.asked sid symbol

namespace Grow

variable {src src' : Sources} {sid : SessionId}

theorem toEvent (h : Grow src src') {e : MarketEvent} (he : src.Event sid e) : src'.Event sid e :=
  ⟨h.event e he.1, h.asked sid e.symbol he.2⟩

theorem toSnapshot (h : Grow src src') {s : SnapshotData} (hs : src.Snapshot sid s) :
    src'.Snapshot sid s :=
  ⟨h.snapshot s hs.1, h.asked sid s.symbol hs.2⟩

theorem gives (h : Grow src src') {m : Message} (hm : src.Gives sid m) : src'.Gives sid m := by
  cases m with
  | incremental e => exact h.toEvent hm
  | snapshot s => exact h.toSnapshot hm
  | error text => trivial

end Grow

end Sources

/-! ### The events an aggregator holds -/

namespace AggregationBuffer

/-- The event is in the window or in the output queue. -/
def Holds (b : AggregationBuffer) (e : MarketEvent) : Prop :=
  (∃ symbol, b.buffer.get? symbol = some e) ∨ e ∈ b.output.items

variable {b : AggregationBuffer} {e x : MarketEvent}

theorem holds_push (h : (b.push e).Holds x) : b.Holds x ∨ x = e := by
  unfold push at h
  cases hm : b.mode with
  | raw =>
      simp only [hm, Holds, putLatest] at h
      rcases h with h | h
      · exact Or.inl (Or.inl h)
      · exact (BoundedQueue.mem_putEvict h).imp_left Or.inr
  | agg100ms =>
      simp only [hm, Holds, Dict.get?_set] at h
      rcases h with ⟨symbol, h⟩ | h
      · split at h
        · exact Or.inr (Option.some.inj h).symm
        · exact Or.inl (Or.inl ⟨symbol, h⟩)
      · exact Or.inl (Or.inr h)

theorem holds_foldl_push {es : List MarketEvent} (h : (es.foldl push b).Holds x) :
    b.Holds x ∨ x ∈ es := by
  induction es generalizing b with
  | nil => exact Or.inl h
  | cons e es ih =>
      rcases ih h with h | h
      · rcases holds_push h with h | rfl
        · exact Or.inl h
        · exact Or.inr List.mem_cons_self
      · exact Or.inr (List.mem_cons_of_mem e h)

/-- A flush moves events, it brings nothing new. -/
theorem holds_flush (h : b.flush.Holds x) : b.Holds x := by
  rcases h with ⟨symbol, h⟩ | h
  · simp [flush] at h
  · rcases mem_foldl_putLatest h with h | h
    · exact Or.inr h
    · exact Or.inl (Dict.mem_values.mp h)

theorem holds_stop (h : b.stop.Holds x) : b.Holds x := by
  unfold stop at h
  split at h <;> exact h

theorem not_holds_start {mode : AggregationMode} :
    ¬ ({ mode := mode : AggregationBuffer }.start).Holds x := by
  intro h
  cases mode <;> rcases h with ⟨symbol, h⟩ | h <;> cases h

end AggregationBuffer

/-! ### What the parts of the gateway hold -/

/-- The snapshot that the loop resumes with. -/
def DispatchTask.snapshot? : DispatchTask → Option SnapshotData
  | .resuming _ (.value snapshot) _ => snapshot
  | _ => none

/-- The snapshot that the handshake activates with. -/
def Call.snapshot? : Call → Option SnapshotData
  | .activating _ _ (.value snapshot) _ => snapshot
  | _ => none

/-- Everything that the session's tasks hold has a source. -/
structure Pipeline.Sourced (src : Sources) (sid : SessionId) (p : Pipeline) : Prop where
  aggregator : ∀ e, p.session.aggregator.Holds e → src.Event sid e
  task : ∀ e, p.task.event? = some e → src.Event sid e
  resuming : ∀ s, p.task.snapshot? = some s → src.Snapshot sid s

/-- Everything that the session's call holds has a source. -/
structure Call.Sourced (src : Sources) (sid : SessionId) (call : Call) : Prop where
  asked : ∀ symbol, call.subscribes? = some symbol → src.asked sid symbol
  activating : ∀ s, call.snapshot? = some s → src.Snapshot sid s

/-- Everything that the registry holds for the session has a source. -/
structure Registry.Sourced (src : Sources) (sid : SessionId) (r : Registry) : Prop where
  initialization : ∀ symbol i, r.initialization? symbol sid = some i →
    src.asked sid symbol ∧ ∀ e ∈ i.events, src.event e ∧ e.symbol = symbol
  subscriber : ∀ symbol, sid ∈ r.subscribers symbol → src.asked sid symbol

/-- **Everything that the gateway holds has a source.** -/
structure Sourced (src : Sources) (g : Process) : Prop where
  pipeline : ∀ sid, (g.clients sid).toPipeline.Sourced src sid
  call : ∀ sid, (g.clients sid).call.Sourced src sid
  registry : ∀ sid, g.registry.Sourced src sid

section grow

variable {src src' : Sources} {sid : SessionId}

theorem Pipeline.Sourced.grow {p : Pipeline} (h : p.Sourced src sid) (hg : src.Grow src') :
    p.Sourced src' sid :=
  ⟨fun e he => hg.toEvent (h.aggregator e he), fun e he => hg.toEvent (h.task e he),
    fun s hs => hg.toSnapshot (h.resuming s hs)⟩

theorem Sourced.grow {g : Process} (h : Sourced src g) (hg : src.Grow src') : Sourced src' g where
  pipeline sid := (h.pipeline sid).grow hg
  call sid := ⟨fun symbol hs => hg.asked sid symbol ((h.call sid).asked symbol hs),
    fun s hs => hg.toSnapshot ((h.call sid).activating s hs)⟩
  registry sid :=
    ⟨fun symbol i hi => (((h.registry sid).initialization symbol i hi).imp (hg.asked sid symbol)
        fun he e hmem => (he e hmem).imp_left (hg.event e)),
      fun symbol hs => hg.asked sid symbol ((h.registry sid).subscriber symbol hs)⟩

end grow

/-! ### The steps of a session's tasks -/

namespace Pipeline.Sourced

variable {src : Sources} {sid : SessionId} {p p' : Pipeline} {o : List ClientObs}

/-- A pipeline with the same aggregator, whose task holds nothing. -/
theorem idle (h : p.Sourced src sid) (ha : p'.session.aggregator = p.session.aggregator)
    (ht : p'.task.event? = none) (hr : p'.task.snapshot? = none) : p'.Sourced src sid where
  aggregator e he := h.aggregator e (ha ▸ he)
  task _ he := nomatch ht.symm.trans he
  resuming _ hs := nomatch hr.symm.trans hs

/-- A pipeline with the same task, whose aggregator holds nothing new. -/
theorem still (h : p.Sourced src sid) (ht : p'.task = p.task)
    (ha : ∀ e, p'.session.aggregator.Holds e → p.session.aggregator.Holds e ∨ src.Event sid e) :
    p'.Sourced src sid where
  aggregator e he := (ha e he).elim (h.aggregator e) id
  task e he := h.task e (ht ▸ he)
  resuming s hs := h.resuming s (ht ▸ hs)

/-- What the loop takes from the output, and what it leaves. -/
theorem taken (h : p.Sourced src sid) {event : MarketEvent} {output : BoundedQueue MarketEvent}
    (hget : p.session.aggregator.output.getNowait = some (event, output)) :
    src.Event sid event ∧
      ∀ e, (p.session.withOutput output).aggregator.Holds e → src.Event sid e := by
  obtain ⟨⟨rest, hitems⟩, rfl⟩ := BoundedQueue.getNowait_eq_some.mp hget
  refine ⟨h.aggregator event (Or.inr ?_), ?_⟩
  · rw [hitems]
    exact List.mem_cons_self
  · rintro e (he | he)
    · exact h.aggregator e (Or.inl he)
    · exact h.aggregator e (Or.inr (List.mem_of_mem_tail he))

/-- One iteration of the dispatch loop. -/
theorem dispatched (h : p.Sourced src sid) {event : MarketEvent} {output : BoundedQueue MarketEvent}
    (hget : p.session.aggregator.output.getNowait = some (event, output))
    {r : ClientSession × DispatchTask × List ClientObs}
    (hd : (p.session.withOutput output).Dispatched event r) :
    Pipeline.Sourced src sid ⟨r.1, r.2.1⟩ ∧ ∀ m, .accepted m ∈ r.2.2 → src.Gives sid m := by
  obtain ⟨hevent, hagg⟩ := h.taken hget
  have hwaiting : ∀ s : ClientSession, (∀ e, s.aggregator.Holds e → src.Event sid e) →
      Pipeline.Sourced src sid ⟨s, .waiting⟩ :=
    fun s hs => ⟨hs, fun _ he => (nomatch he), fun _ he => (nomatch he)⟩
  cases hd with
  | stale hl hle => exact ⟨hwaiting _ hagg, by simp⟩
  | gap stats hl hlt =>
      refine ⟨⟨hagg, fun e he => ?_, fun _ he => (nomatch he)⟩, by simp⟩
      obtain rfl : event = e := Option.some.inj he
      exact hevent
  | unlogged =>
      exact ⟨⟨hagg, fun _ he => (nomatch he), fun _ he => (nomatch he)⟩, by simp⟩
  | withheld hn hd => exact ⟨hwaiting _ hagg, by simp⟩
  | accepted q stats d hn hd hq =>
      refine ⟨hwaiting _ hagg, fun m hm => ?_⟩
      obtain rfl : m = .incremental event := by simpa using hm
      exact hevent
  | refused q stats d hn hd hp hq => exact ⟨hwaiting _ hagg, by simp⟩

/-- The rest of a gap iteration. -/
theorem recovered (h : p.Sourced src sid) {gapped : MarketEvent} {snapshot : Option SnapshotData}
    {hs : (ReadResult.value snapshot).OfSymbol gapped.symbol}
    (ht : p.task = .resuming gapped (.value snapshot) hs) {r : ClientSession × List ClientObs}
    (hd : p.session.Recovered gapped.symbol snapshot r) :
    Pipeline.Sourced src sid ⟨r.1, .waiting⟩ ∧ ∀ m, .accepted m ∈ r.2 → src.Gives sid m := by
  cases hd with
  | ignored hn => exact ⟨h.idle rfl rfl rfl, by simp⟩
  | @accepted s q stats d hn hq =>
      refine ⟨h.idle rfl rfl rfl, fun m hm => ?_⟩
      obtain rfl : m = .snapshot s := by simpa using hm
      exact h.resuming s (by rw [ht]; rfl)
  | refused q stats d hn hp hq => exact ⟨h.idle rfl rfl rfl, by simp⟩

/-- **A step of a session's tasks moves what has a source**, if the snapshot it reads has one. -/
theorem taskStep (h : p.Sourced src sid) {a : TaskAct} (hs : p.taskStep a = some (p', o))
    (hread : ∀ e s, p.task = .reading e → a = .read (.value (some s)) → src.snapshot s) :
    p'.Sourced src sid ∧ ∀ m, .accepted m ∈ o → src.Gives sid m := by
  cases taskStepped hs with
  | dispatched hw hget hr hd => exact h.dispatched hget hd
  | recovered hs ht hr hd => exact h.recovered ht hd
  | @read gapped result ht hof =>
      refine ⟨⟨h.aggregator, ?_, ?_⟩, by simp⟩
      · rintro e ⟨⟩
        exact h.task gapped (by rw [ht]; rfl)
      · intro s hres
        cases result with
        | raised => cases hres
        | value snapshot =>
            obtain rfl : snapshot = some s := hres
            refine ⟨hread gapped s ht rfl, ?_⟩
            rw [show s.symbol = gapped.symbol from hof]
            exact (h.task gapped (by rw [ht]; rfl)).2
  | raised hof ht => exact ⟨h.idle rfl rfl rfl, by simp⟩
  | flushed hf =>
      exact ⟨h.still rfl fun e he => Or.inl (AggregationBuffer.holds_flush he), by simp⟩
  | writerTook hw hget => exact ⟨h.still rfl fun e he => Or.inl he, by simp⟩
  | writerSent hw | writerUnrecorded hw => exact ⟨h.still rfl fun e he => Or.inl he, by simp⟩
  | writerFailed hw => exact ⟨h.still rfl fun e he => Or.inl he, by simp⟩
  | writerLooped hw => exact ⟨h.still rfl fun e he => Or.inl he, by simp⟩

end Pipeline.Sourced

/-! ### The steps of a session's call -/

namespace Called

variable {src : Sources} {sid : SessionId} {σ σ' : Scope} {a : CallAct} {obs : List Obs}

/-- A handshake pushes what it has buffered, no other step pushes anything. -/
theorem pipeline_sourced (h : Called sid σ a σ' obs) (hP : σ.client.toPipeline.Sourced src sid)
    (hR : σ.registry.Sourced src sid) : σ'.client.toPipeline.Sourced src sid := by
  cases h with
  | @activated symbol filter snapshot _ initialization s _ hc hi ho hs =>
      have hagg : s.aggregator = σ.client.session.aggregator := by cases hs <;> rfl
      obtain ⟨hasked, hevents⟩ := hR.initialization symbol initialization hi
      refine hP.still rfl fun e he => ?_
      rcases AggregationBuffer.holds_foldl_push he with he | he
      · exact Or.inl (hagg ▸ he)
      · obtain ⟨hevent, hsymbol⟩ := hevents e (SubscriptionInitialization.mem_released.mp he).1
        exact Or.inr ⟨hevent, hsymbol ▸ hasked⟩
  | rejected hc hn hs | unavailable hc hs | failed hc hs =>
      obtain ⟨q, stats, d, rfl⟩ := hs.session
      exact hP.still rfl fun e he => Or.inl he
  | lastUnsubscribed | unsubscribed | closing => exact hP.still rfl fun e he => Or.inl he
  | _ => exact hP

/-- A handshake goes on with its symbol, and with the snapshot it has read. -/
theorem call_sourced (h : Called sid σ a σ' obs) (hC : σ.client.call.Sourced src sid)
    (hask : ∀ symbol payload, a = .request (.subscribe symbol payload) → src.asked sid symbol)
    (hread : ∀ symbol filter s, σ.client.call = .reading symbol filter →
      a = .read (.value (some s)) → src.snapshot s) : σ'.client.call.Sourced src sid := by
  -- the calls of a symbol that has been asked for, before the snapshot is read
  have hof : ∀ {call : Call} {symbol}, call.snapshot? = none →
      (∀ symbol', call.subscribes? = some symbol' → symbol' = symbol) → src.asked sid symbol →
      call.Sourced src sid := by
    intro call symbol hnone hsub hasked
    exact ⟨fun symbol' hs => hsub symbol' hs ▸ hasked, fun s hs => (nomatch hnone.symm.trans hs)⟩
  have hother : ∀ {call : Call}, call.snapshot? = none → call.subscribes? = none →
      call.Sourced src sid := by
    intro call hnone hsub
    exact ⟨fun symbol hs => (nomatch hsub.symm.trans hs),
      fun s hs => (nomatch hnone.symm.trans hs)⟩
  have hstart : ∀ {symbol}, σ.client.call.subscribes? = some symbol → src.asked sid symbol :=
    fun {symbol} hs => hC.asked symbol hs
  have hattempt : ∀ {symbol filter attempt ok}, src.asked sid symbol →
      (Scope.afterAttempt symbol filter attempt ok).Sourced src sid := by
    intro symbol filter attempt ok hasked
    rcases ok with - | - | -
    all_goals exact hof rfl (fun _ hs => (Option.some.inj hs).symm) hasked
  cases h with
  | @parsed symbol payload filter hc hn hp =>
      exact hof rfl (fun _ hs => (Option.some.inj hs).symm) (hask symbol payload rfl)
  | attempted hc hl => exact hattempt (hstart (by rw [hc]; rfl))
  | answered ok hc => exact hattempt (hstart (by rw [hc]; rfl))
  | slept hc hlt =>
      exact hof rfl (fun _ hs => (Option.some.inj hs).symm) (hstart (by rw [hc]; rfl))
  | registered hc =>
      exact hof rfl (fun _ hs => (Option.some.inj hs).symm) (hstart (by rw [hc]; rfl))
  | @read symbol filter result hc hsym =>
      have hasked : src.asked sid symbol := hstart (by rw [hc]; rfl)
      refine ⟨fun symbol' hs => ?_, fun s hs => ?_⟩
      · obtain rfl : symbol = symbol' := Option.some.inj hs
        exact hasked
      cases result with
      | raised => cases hs
      | value snapshot =>
          obtain rfl : snapshot = some s := hs
          exact ⟨hread symbol filter s hc rfl, (show s.symbol = symbol from hsym) ▸ hasked⟩
  | rejected hc hn hs | overflowed hc hn => exact hC
  | released hc hl =>
      refine hother ?_ ?_ <;> rw [Scope.call_goto] <;> split <;> rfl
  | _ => exact hother rfl rfl

/-- A registration is of a symbol that has been asked for, and starts without events. -/
theorem registry_sourced (h : Called sid σ a σ' obs) (hC : σ.client.call.Sourced src sid)
    (hR : σ.registry.Sourced src sid) : σ'.registry.Sourced src sid := by
  -- what a step removes or leaves alone
  have hless : ∀ {r : Registry},
      (∀ symbol, r.initialization? symbol sid = none ∨
        r.initialization? symbol sid = σ.registry.initialization? symbol sid) →
      (∀ symbol, sid ∈ r.subscribers symbol → src.asked sid symbol) → r.Sourced src sid := by
    intro r hi hs
    refine ⟨fun symbol i hsome => ?_, hs⟩
    rcases hi symbol with hnone | heq
    · cases hnone.symm.trans hsome
    · exact hR.initialization symbol i (heq.symm.trans hsome)
  have hend : ∀ symbol' symbol,
      (σ.registry.endInitialization symbol' sid).initialization? symbol sid = none ∨
      (σ.registry.endInitialization symbol' sid).initialization? symbol sid =
        σ.registry.initialization? symbol sid := by
    intro symbol' symbol
    rw [Registry.initialization?_endInitialization]
    split
    · exact Or.inl rfl
    · exact Or.inr rfl
  have hdiscard : ∀ symbol' symbol,
      sid ∈ (σ.registry.discardSubscriber symbol' sid).1.subscribers symbol →
      src.asked sid symbol := by
    intro symbol' symbol hs
    rw [Registry.subscribers_discardSubscriber] at hs
    split at hs
    · exact absurd rfl (Finset.ne_of_mem_erase hs)
    · exact hR.subscriber symbol hs
  cases h with
  | @registered symbol' filter hc =>
      refine ⟨fun symbol i hsome => ?_, hR.subscriber⟩
      rw [Scope.registry_goto, Registry.initialization?_beginInitialization] at hsome
      split at hsome
      · rename_i heq
        obtain rfl := Option.some.inj hsome
        obtain rfl := heq.1
        exact ⟨hC.asked symbol' (by rw [hc]; rfl), fun e he => absurd he List.not_mem_nil⟩
      · exact hR.initialization symbol i hsome
  | @activated symbol' _ _ _ initialization _ _ hc hi ho hs =>
      refine hless (fun symbol => ?_) fun symbol hmem => ?_
      · rw [Registry.initialization?_addSubscriber]
        exact hend symbol' symbol
      · rw [Registry.subscribers_addSubscriber, Registry.subscribers_endInitialization] at hmem
        split at hmem
        · rename_i heq
          exact heq ▸ (hR.initialization symbol' initialization hi).1
        · exact hR.subscriber symbol hmem
  | @rolledBack symbol' ok hc =>
      refine hless (fun symbol => hend symbol' symbol) fun symbol hmem => ?_
      rw [Scope.registry_goto, Registry.subscribers_endInitialization] at hmem
      exact hR.subscriber symbol hmem
  | @lastUnsubscribed symbol' hc hl | @unsubscribed symbol' hc hl =>
      refine hless (fun symbol => Or.inr ?_) (hdiscard symbol')
      exact Registry.initialization?_discardSubscriber ..
  | cleaned hc ho =>
      refine hless (fun symbol => Or.inl ?_) fun symbol hmem => ?_
      · rw [Scope.registry_goto, Registry.initialization?_cleanup, if_pos rfl]
      · rw [Scope.registry_goto, Registry.subscribers_cleanup] at hmem
        split at hmem
        · exact absurd rfl (Finset.ne_of_mem_erase hmem)
        · exact hR.subscriber symbol hmem
  | _ => exact hR

/-- A call gives its session the snapshot it has read, and error replies. -/
theorem given (h : Called sid σ a σ' obs) (hC : σ.client.call.Sourced src sid) {m : Message}
    (hm : .client sid (.accepted m) ∈ obs) : src.Gives sid m := by
  have hreply : ∀ {s text s' os}, Replied sid s text s' os → .client sid (.accepted m) ∈ os →
      src.Gives sid m := by
    intro s text s' os hs ho
    rcases hs.obs _ ho with ⟨m', heq⟩ | ⟨text, heq⟩
    · cases heq
    · obtain rfl := ClientObs.accepted.inj (Obs.client.inj heq).2
      trivial
  cases h with
  | rejected hc hn hs =>
      refine hreply hs ((List.mem_append.mp hm).resolve_right fun hm => ?_)
      cases List.mem_singleton.mp hm
  | unavailable hc hs | failed hc hs => exact hreply hs hm
  | @activated symbol filter snapshot _ initialization s o hc hi ho hs =>
      replace hm := (List.mem_append.mp hm).resolve_right fun hm => by
        cases List.mem_singleton.mp hm
      obtain ⟨x, hx, heq⟩ := List.mem_map.mp hm
      obtain rfl := (Obs.client.inj heq).2
      replace hx : .accepted m ∈ o := (List.mem_append.mp hx).resolve_right fun hx => by
        obtain ⟨e, -, he⟩ := List.mem_map.mp hx
        cases he
      cases hs with
      | absent => cases hx
      | accepted s' q stats d hok hq =>
          obtain rfl := ClientObs.accepted.inj (List.mem_singleton.mp hx)
          exact hC.activating s' (by rw [hc]; rfl)
  | overflowed | inUse | unsubscribed | finished | closing | closed =>
      cases List.mem_singleton.mp hm
  | _ => cases hm

end Called

/-! ### The steps of the gateway -/

/-- A session sees what is observed in its name, and the events pushed to it. -/
theorem of_mem_viewed {sid : SessionId} {x : ClientObs} {obs : List Obs} (h : x ∈ viewed sid obs) :
    .client sid x ∈ obs ∨ ∃ e, x = .pushed e := by
  obtain ⟨o, ho, hview⟩ := List.mem_filterMap.mp h
  cases o with
  | client sid' x' =>
      rw [Obs.view] at hview
      split at hview
      · rename_i hs
        exact Or.inl (hs ▸ Option.some.inj hview ▸ ho)
      · cases hview
  | received e sessions =>
      rw [Obs.view] at hview
      split at hview
      · exact Or.inr ⟨e, (Option.some.inj hview).symm⟩
      · cases hview
  | _ => cases hview

namespace Registry.Sourced

variable {src : Sources} {sid : SessionId} {r r' : Registry}

/-- A registry with the same registrations of the session. -/
theorem same (h : r.Sourced src sid)
    (hi : ∀ symbol, r'.initialization? symbol sid = r.initialization? symbol sid)
    (hs : ∀ symbol, sid ∈ r'.subscribers symbol ↔ sid ∈ r.subscribers symbol) :
    r'.Sourced src sid where
  initialization symbol i hsome := h.initialization symbol i ((hi symbol).symm.trans hsome)
  subscriber symbol hmem := h.subscriber symbol ((hs symbol).mp hmem)

/-- The event enters the pending initializations of its own symbol. -/
theorem bufferEvent (h : r.Sourced src sid) {e : MarketEvent} (he : src.event e) :
    (r.bufferEvent e).Sourced src sid where
  initialization symbol i hsome := by
    rw [Registry.initialization?_bufferEvent] at hsome
    split at hsome
    · rename_i hsym
      obtain ⟨i', hi', rfl⟩ := Option.map_eq_some_iff.mp hsome
      obtain ⟨hasked, hevents⟩ := h.initialization symbol i' hi'
      refine ⟨hasked, fun x hx => ?_⟩
      rcases i'.buffer_cases e with ⟨heq, -⟩ | ⟨heq, -⟩
      · exact hevents x (heq ▸ hx)
      · rcases List.mem_append.mp (heq ▸ hx) with hx | hx
        · exact hevents x hx
        · obtain rfl := List.mem_singleton.mp hx
          exact ⟨he, hsym⟩
    · exact h.initialization symbol i hsome
  subscriber symbol hmem := h.subscriber symbol (r.subscribers_bufferEvent symbol e ▸ hmem)

end Registry.Sourced

/-- What a step brings into the gateway has a source. -/
structure Brings (src : Sources) (g : Process) (a : Act) : Prop where
  event : ∀ e, a = .message e → src.event e
  snapshot : ∀ symbol s, g.reads? a = some (symbol, some s) → src.snapshot s
  asked : ∀ sid symbol payload, a = .call sid (.request (.subscribe symbol payload)) →
    src.asked sid symbol

namespace Sourced

variable {src : Sources} {g g' : Process} {a : Act} {obs : List Obs}

theorem initial (src : Sources) (keyPrefix : String) : Sourced src (.initial keyPrefix) where
  pipeline _ :=
    { aggregator := by
        rintro e (⟨symbol, he⟩ | he)
        · cases he
        · cases he
      task := fun _ he => nomatch he
      resuming := fun _ hs => nomatch hs }
  call _ := ⟨fun _ hs => (nomatch hs), fun _ hs => (nomatch hs)⟩
  registry _ := ⟨fun _ _ hi => (nomatch hi), fun _ hs => absurd hs (Finset.notMem_empty _)⟩

/-- One client is another, and the registry stays. -/
theorem withClient (h : Sourced src g) {sid : SessionId} {c : Client}
    (hp : c.toPipeline.Sourced src sid) (hc : c.call.Sourced src sid) :
    Sourced src (g.withClient sid c) where
  pipeline sid' := by
    by_cases hne : sid' = sid
    · subst hne
      rw [Process.clients_withClient_self]
      exact hp
    · rw [g.clients_withClient_ne _ _ hne]
      exact h.pipeline sid'
  call sid' := by
    by_cases hne : sid' = sid
    · subst hne
      rw [Process.clients_withClient_self]
      exact hc
    · rw [g.clients_withClient_ne _ _ hne]
      exact h.call sid'
  registry := h.registry

/-- **Every step of the gateway keeps that what it holds has a source.** -/
theorem step (h : Sourced src g) (hb : Brings src g a) (hs : Stepped g a g' obs) :
    Sourced src g' := by
  cases hs with
  | @connect sid clientId policy mode encoding hc =>
      have hw : Sourced src
          (g.withClient sid ((g.clients sid).connect clientId policy mode encoding)) := by
        refine h.withClient ⟨fun e he => ?_, fun _ he => (nomatch he), fun _ hs => (nomatch hs)⟩
          (h.call sid)
        exact absurd he AggregationBuffer.not_holds_start
      exact ⟨hw.pipeline, hw.call, fun sid' => (h.registry sid').same (fun _ => rfl)
        fun _ => Iff.rfl⟩
  | @call sid a σ obs hcall =>
      have hC := h.call sid
      refine ⟨fun sid' => ?_, fun sid' => ?_, fun sid' => ?_⟩
      · by_cases hne : sid' = sid
        · subst hne
          rw [Process.clients_withScope_self]
          exact hcall.pipeline_sourced (h.pipeline sid') (h.registry sid')
        · rw [g.clients_withScope_ne _ _ hne]
          exact h.pipeline sid'
      · by_cases hne : sid' = sid
        · subst hne
          rw [Process.clients_withScope_self]
          refine hcall.call_sourced hC (fun symbol payload ha => ?_) fun symbol filter s hr ha => ?_
          · exact hb.asked sid' symbol payload (ha ▸ rfl)
          · subst ha
            have hr' : (g.clients sid').call = .reading symbol filter := hr
            exact hb.snapshot symbol s (by simp only [Process.reads?, hr'])
        · rw [g.clients_withScope_ne _ _ hne]
          exact h.call sid'
      · by_cases hne : sid' = sid
        · subst hne
          exact hcall.registry_sourced hC (h.registry sid')
        · exact (h.registry sid').same (fun symbol => (hcall.frame hne symbol).1)
            fun symbol => (hcall.frame hne symbol).2
  | @task sid a p obs ht =>
      refine h.withClient ((h.pipeline sid).taskStep ht fun e s hr ha => ?_).1 (h.call sid)
      subst ha
      exact hb.snapshot e.symbol s (by simp only [Process.reads?, hr])
  | @replied sid text hc =>
      refine h.withClient ((h.pipeline sid).still rfl fun e he => Or.inl ?_) (h.call sid)
      have hagg := ClientSession.enqueue_aggregator (g.clients sid).session (.error text)
      exact hagg ▸ he
  | @cancelled sid =>
      refine h.withClient ((h.pipeline sid).idle rfl ?_ ?_) (h.call sid) <;>
        cases (g.clients sid).task <;> rfl
  | @stopped sid =>
      exact h.withClient ((h.pipeline sid).still rfl fun e he =>
        Or.inl (AggregationBuffer.holds_stop he)) (h.call sid)
  | fanout hf => exact ⟨h.pipeline, h.call, h.registry⟩
  | @message e hl =>
      have he : src.event e := hb.event e rfl
      refine ⟨fun sid => ?_, fun sid => ?_, fun sid => (h.registry sid).bufferEvent he⟩
      · rw [Process.clients_fanoutEvent]
        split
        · rename_i hmem
          refine (h.pipeline sid).still rfl fun x hx => ?_
          rcases AggregationBuffer.holds_push hx with hx | rfl
          · exact Or.inl hx
          · exact Or.inr ⟨he, (h.registry sid).subscriber _ hmem⟩
        · exact h.pipeline sid
      · rw [Process.clients_fanoutEvent]
        split
        · exact h.call sid
        · exact h.call sid

/-- **Every message that a step accepts has a source.** -/
theorem given (h : Sourced src g) (hb : Brings src g a) (hs : Stepped g a g' obs)
    {sid : SessionId} {m : Message} (hm : .client sid (.accepted m) ∈ obs) : src.Gives sid m := by
  cases hs with
  | @call sid' a σ obs hcall =>
      cases hcall.observed hm with
      | client => exact hcall.given (h.call sid) hm
  | @task sid' a p obs ht =>
      obtain ⟨x, hx, heq⟩ := List.mem_map.mp hm
      obtain ⟨rfl, rfl⟩ := Obs.client.inj heq
      refine ((h.pipeline sid').taskStep ht fun e s hr ha => ?_).2 m hx
      subst ha
      exact hb.snapshot e.symbol s (by simp only [Process.reads?, hr])
  | @replied sid' text hc =>
      obtain ⟨x, hx, heq⟩ := List.mem_map.mp hm
      obtain ⟨rfl, rfl⟩ := Obs.client.inj heq
      rw [ClientSession.enqueueError_eq, List.mem_singleton, ClientObs.enqueued] at hx
      split at hx
      · obtain rfl := ClientObs.accepted.inj hx
        trivial
      · cases hx
  | message hl => cases List.mem_singleton.mp hm
  | connect | cancelled | stopped | fanout => cases hm

end Sourced

end MarketData.Gateway
