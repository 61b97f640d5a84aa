import MarketData.Engine.Lives
import MarketData.Gateway.Handoff
import MarketData.Gateway.Provenance

/-!
# MarketData.Provenance

**From the Kafka log to the WebSocket.** Nothing that a client is sent is made up, and nothing is
sent to the wrong client: every incremental message is an event that the engine has polled, parsed
and published, and every snapshot message is the hash that the engine has written to Redis for such
an event (`World.sent_origin`); and the session has subscribed to the symbol.

The engine's half is that the record in progress is one of those polled (`StoredEngine.run_origin`);
the gateway's half is `Gateway.Sourced`, with the publishes and updates of the world as sources.
-/

namespace MarketData

open Engine (StoredEngine StoreAct StoreObs ConsumedEvent)
open Gateway (Process Act Obs SessionId viewed)

/-! ### The engine and Redis -/

namespace Engine

variable {ρ : Type} {parseEvent : ρ → Option MarketEvent}

/-- Only a poll polls. -/
theorem polled_of_engine {e e' : DistributionEngine MarketEvent} {a : EngineAct MarketEvent ρ}
    {o : List (EngineObs MarketEvent)} (hs : e.step parseEvent a = some (e', o))
    {c : ConsumedEvent MarketEvent} (hc : c ∈ polls (o.filterMap EngineObs.bridge?)) :
    ∃ m, a = .bridge (.poll (.message m)) ∧ parseEvent m.value = some c.event := by
  cases a with
  | bridge b =>
      have hbridge : ∃ consumer obs, e.consumer.step parseEvent b = some (consumer, obs) ∧
          o = obs.map .bridge := by
        cases b <;> simp only [DistributionEngine.step] at hs <;> first
          | (split at hs
             · rename_i consumer obs hb
               obtain ⟨rfl, rfl⟩ := Machine.outcome hs
               exact ⟨consumer, obs, hb, rfl⟩
             · exact absurd hs (by simp))
          | exact absurd hs (by simp)
      obtain ⟨consumer, obs, hb, rfl⟩ := hbridge
      rw [bridge?_map_bridge] at hc
      obtain ⟨x, hx, hpolled⟩ := List.mem_filterMap.mp hc
      cases KafkaConsumerBridge.stepped hb with
      | @polled m event next c' ht hc' hp hpos hnext =>
          obtain rfl := List.mem_singleton.mp hx
          obtain rfl : c' = c := Option.some.inj hpolled
          exact ⟨m, rfl, by rw [hp, hc']⟩
      | committing | acknowledged =>
          obtain rfl := List.mem_singleton.mp hx
          cases hpolled
      | _ => cases hx
  | take =>
      simp only [DistributionEngine.step] at hs
      split at hs
      · obtain ⟨rfl, rfl⟩ := Machine.outcome hs
        exact absurd hc List.not_mem_nil
      · exact absurd hs (by simp)
  | updated ok | published ok =>
      simp only [DistributionEngine.step] at hs
      split at hs
      · cases ok with
        | true =>
            obtain ⟨rfl, rfl⟩ := Machine.outcome hs
            exact absurd hc List.not_mem_nil
        | false =>
            obtain ⟨rfl, rfl⟩ := Machine.outcome hs
            exact absurd hc List.not_mem_nil
      · exact absurd hs (by simp)
  | retry =>
      simp only [DistributionEngine.step] at hs
      split at hs
      · obtain ⟨rfl, rfl⟩ := Machine.outcome hs
        exact absurd hc List.not_mem_nil
      · exact absurd hs (by simp)
  | shutdown =>
      obtain ⟨rfl, rfl⟩ := Machine.outcome hs
      exact absurd hc List.not_mem_nil
  | cancel =>
      simp only [DistributionEngine.step] at hs
      split at hs
      · exact absurd hs (by simp)
      · obtain ⟨rfl, rfl⟩ := Machine.outcome hs
        exact absurd hc List.not_mem_nil

/-- A poll of the engine has returned a record that parses to the event. -/
def Consumed (parseEvent : ρ → Option MarketEvent) (acts : List (StoreAct ρ)) (e : MarketEvent) :
    Prop :=
  ∃ m, .engine (.bridge (.poll (.message m))) ∈ acts ∧ parseEvent m.value = some e

theorem Consumed.append {acts : List (StoreAct ρ)} {e : MarketEvent}
    (h : Consumed parseEvent acts e) (acts' : List (StoreAct ρ)) :
    Consumed parseEvent (acts ++ acts') e :=
  h.imp fun _ => .imp_left (List.mem_append_left acts')

/-- Where the records of the engine come from. -/
structure Origin (parseEvent : ρ → Option MarketEvent) (s : StoredEngine) (acts : List (StoreAct ρ))
    (h : List StoreObs) : Prop where
  order : InOrder s.engine (polled h) (done h)
  consumed : ∀ c ∈ polled h, Consumed parseEvent acts c.event
  updated : ∀ c, .updated c ∈ h → c ∈ polled h
  published : ∀ c snapshot, .published c snapshot ∈ h → c ∈ polled h

namespace Origin

variable {s s' : StoredEngine} {acts : List (StoreAct ρ)} {a : StoreAct ρ} {h o : List StoreObs}

/-- The record in progress has been polled. -/
theorem current_mem (hI : Origin parseEvent s acts h) {c : ConsumedEvent MarketEvent}
    (hc : s.engine.task.current? = some c) : c ∈ polled h :=
  (hI.order.current_le hc).subset (List.mem_append_right _ (List.mem_singleton_self c))

theorem step (hI : Origin parseEvent s acts h) (hs : StoredEngine.Stepped parseEvent s a s' o) :
    Origin parseEvent s' (acts ++ [a]) (h ++ o) := by
  have hold : ∀ {c}, c ∈ polled h → c ∈ polled (h ++ o) := by
    intro c hc
    rw [polled_append]
    exact List.mem_append_left _ hc
  cases hs with
  | @engine a engine obs hr he =>
      have hnone : ∀ x ∈ obs.map StoreObs.engine, ∃ y, x = .engine y := by
        intro x hx
        obtain ⟨y, -, rfl⟩ := List.mem_map.mp hx
        exact ⟨y, rfl⟩
      refine ⟨?_, fun c hc => ?_, fun c hmem => ?_, fun c snapshot hmem => ?_⟩
      · rw [polled_append, done_append, polled_map_engine, done_map_engine]
        exact hI.order.step he
      · rw [polled_append, polled_map_engine] at hc
        rcases List.mem_append.mp hc with hc | hc
        · exact (hI.consumed c hc).append _
        · obtain ⟨m, rfl, hp⟩ := polled_of_engine he hc
          exact ⟨m, List.mem_append_right _ (List.mem_singleton_self _), hp⟩
      · refine hold (hI.updated c ((List.mem_append.mp hmem).resolve_right fun hmem => ?_))
        cases (hnone _ hmem).choose_spec
      · refine hold
          (hI.published c snapshot ((List.mem_append.mp hmem).resolve_right fun hmem => ?_))
        cases (hnone _ hmem).choose_spec
  | @updated c backoff he ht =>
      have hpolled : polled (h ++ [.updated c]) = polled h :=
        (polled_append _ _).trans (List.append_nil _)
      have hdone : done (h ++ [.updated c]) = done h := (done_append _ _).trans (List.append_nil _)
      refine ⟨?_, fun c' hc' => ?_, fun c' hmem => ?_, fun c' snapshot hmem => ?_⟩
      · rw [hpolled, hdone]
        exact hI.order
      · exact (hI.consumed c' (hpolled ▸ hc')).append _
      · rcases List.mem_append.mp hmem with hmem | hmem
        · exact hold (hI.updated c' hmem)
        · obtain rfl := StoreObs.updated.inj (List.mem_singleton.mp hmem)
          exact hold (hI.current_mem (by rw [ht]; rfl))
      · exact hold (hI.published c' snapshot ((List.mem_append.mp hmem).resolve_right (by simp)))
  | @published c backoff he ht =>
      have hpolled : polled (h ++ [.published c (s.snapshots.get? c.event.symbol)]) = polled h :=
        (polled_append _ _).trans (List.append_nil _)
      have hdone : done (h ++ [.published c (s.snapshots.get? c.event.symbol)]) = done h :=
        (done_append _ _).trans (List.append_nil _)
      refine ⟨?_, fun c' hc' => ?_, fun c' hmem => ?_, fun c' snapshot hmem => ?_⟩
      · rw [hpolled, hdone]
        exact hI.order
      · exact (hI.consumed c' (hpolled ▸ hc')).append _
      · exact hold (hI.updated c' ((List.mem_append.mp hmem).resolve_right (by simp)))
      · rcases List.mem_append.mp hmem with hmem | hmem
        · exact hold (hI.published c' snapshot hmem)
        · obtain ⟨rfl, -⟩ := StoreObs.published.inj (List.mem_singleton.mp hmem)
          exact hold (hI.current_mem (by rw [ht]; rfl))

theorem initial (retryInitial retryMax : ℚ) :
    Origin parseEvent { engine := { redisRetryInitial := retryInitial, redisRetryMax := retryMax } }
      [] [] where
  order := (Piped.initial retryInitial retryMax .empty).order
  consumed _ hc := absurd hc List.not_mem_nil
  updated _ hmem := absurd hmem List.not_mem_nil
  published _ _ hmem := absurd hmem List.not_mem_nil

end Origin

/-- **What takes effect in Redis has been consumed**, in every run of the engine. -/
theorem StoredEngine.run_origin {retryInitial retryMax : ℚ} {s : StoredEngine}
    {acts : List (StoreAct ρ)} {h : List StoreObs}
    (hr : Machine.run (step parseEvent)
      { engine := { redisRetryInitial := retryInitial, redisRetryMax := retryMax } } acts =
        some (s, h)) : Origin parseEvent s acts h :=
  Machine.run_invariant_traced (C := fun _ _ => True) (I := Origin parseEvent)
    (fun _ _ _ _ _ _ _ hI hs => hI.step (stepped hs)) (.initial retryInitial retryMax)
    (Machine.along_true _ _) hr

end Engine

/-! ### The world -/

/-- The share of the engine and Redis in an observation. -/
def WorldObs.store? : WorldObs → Option StoreObs
  | .store o => some o
  | .gateway _ => none

theorem mem_filterMap_store {o : StoreObs} {h : List WorldObs} :
    o ∈ h.filterMap WorldObs.store? ↔ .store o ∈ h := by
  rw [List.mem_filterMap]
  constructor
  · rintro ⟨x, hx, ho⟩
    cases x with
    | store o' =>
        obtain rfl : o' = o := Option.some.inj ho
        exact hx
    | gateway o' => cases ho
  · exact fun hmem => ⟨_, hmem, rfl⟩

section origin

variable {ρ : Type} (parseEvent : ρ → Option MarketEvent) (acts : List (WorldAct ρ))
  (h : List WorldObs)

/-- The engine has polled a record that parses to the event. -/
def Polled (e : MarketEvent) : Prop :=
  ∃ m delivered, .store (.engine (.bridge (.poll (.message m)))) delivered ∈ acts ∧
    parseEvent m.value = some e

/-- The session has asked for the symbol. -/
def Asked (sid : SessionId) (symbol : PyStr) : Prop :=
  ∃ payload, .gateway (.call sid (.request (.subscribe symbol payload))) ∈ acts

/-- The event has been published. -/
def Published (e : MarketEvent) : Prop :=
  ∃ c snapshot, .store (.published c snapshot) ∈ h ∧ c.event = e

/-- The snapshot is the one that was stored for the event. -/
def Stored (e : MarketEvent) (s : SnapshotData) : Prop :=
  s = .fromEvent e ∧ ∃ c, .store (.updated c) ∈ h ∧ c.event = e

/-- **Where a message to session `sid` comes from.** Error replies are the gateway's own. -/
def Originates (sid : SessionId) : Gateway.Message → Prop
  | .incremental e => Asked acts sid e.symbol ∧ Polled parseEvent acts e ∧ Published h e
  | .snapshot s => Asked acts sid s.symbol ∧ ∃ e, Polled parseEvent acts e ∧ Stored h e s
  | .error _ => True

/-- The publishes and updates of the world, as sources for the gateway. -/
def sources : Gateway.Sources where
  event := Published h
  snapshot s := ∃ e, Stored h e s
  asked := Asked acts

end origin

section views

variable {ρ : Type} {acts acts' : List (WorldAct ρ)} {h h' : List WorldObs}

theorem Published.append {e : MarketEvent} (hp : Published h e) : Published (h ++ h') e :=
  hp.imp fun _ => .imp fun _ => .imp_left (List.mem_append_left h')

theorem Stored.append {e : MarketEvent} {s : SnapshotData} (hs : Stored h e s) :
    Stored (h ++ h') e s :=
  hs.imp_right (.imp fun _ => .imp_left (List.mem_append_left h'))

theorem Asked.append {sid : SessionId} {symbol : PyStr} (ha : Asked acts sid symbol) :
    Asked (acts ++ acts') sid symbol :=
  ha.imp fun _ => List.mem_append_left acts'

theorem sources_grow : (sources acts h).Grow (sources (acts ++ acts') (h ++ h')) where
  event _ := .append
  snapshot _ hs := hs.imp fun _ => .append
  asked _ _ := .append

end views

namespace World

variable {ρ : Type} {parseEvent : ρ → Option MarketEvent}

/-- **A run of the world is a run of the engine and Redis**, on its actions. -/
theorem run_store {w w' : World} {acts : List (WorldAct ρ)} {h : List WorldObs}
    (hr : Machine.run (World.step parseEvent) w acts = some (w', h)) :
    ∃ bs, Machine.run (StoredEngine.step parseEvent) w.store bs =
        some (w'.store, h.filterMap WorldObs.store?) ∧
      ∀ b ∈ bs, ∃ delivered, .store b delivered ∈ acts := by
  refine Machine.run_project_along (P := fun _ => True) store WorldObs.store? ?_ trivial
    (Machine.along_of_forall (C := (· ∈ acts)) (fun _ => id) w) hr
  intro w a w' o hC _ hs
  refine ⟨trivial, ?_⟩
  have hgateway : ∀ obs : List Obs, (obs.map WorldObs.gateway).filterMap WorldObs.store? = [] := by
    intro obs
    simp [List.filterMap_map, Function.comp_def, WorldObs.store?]
  cases a with
  | store a delivered =>
      simp only [step] at hs
      split at hs
      · rename_i store obs hst
        obtain ⟨rfl, rfl⟩ := Machine.outcome hs
        refine ⟨[a], ?_, fun b hb => ⟨delivered, List.mem_singleton.mp hb ▸ hC⟩⟩
        rw [List.filterMap_map, show WorldObs.store? ∘ WorldObs.store = some from rfl,
          List.filterMap_some]
        exact Machine.run_singleton.mpr hst
      · exact absurd hs (by simp)
  | receive | gateway a =>
      cases stepped hs
      rw [hgateway]
      exact ⟨[], rfl, fun b hb => absurd hb List.not_mem_nil⟩

/-- What is between the engine and the clients has an origin. -/
structure Traced (w : World) (acts : List (WorldAct ρ)) (h : List WorldObs) : Prop where
  unpublished : ∀ c, w.store.unpublished? = some c → .store (.updated c) ∈ h
  snapshots : ∀ symbol s, w.store.snapshots.get? symbol = some s → ∃ e, Stored h e s
  inbox : ∀ e ∈ w.inbox, Published h e
  gateway : Gateway.Sourced (sources acts h) w.gateway

namespace Traced

variable {w w' : World} {acts : List (WorldAct ρ)} {a : WorldAct ρ} {h o : List WorldObs}

/-- What a step of the gateway brings in. -/
theorem brings (hI : Traced w acts h) {b : Act} (hb : ∀ e, b = .message e → Published h e)
    (hc : w.current b = true)
    (ha : ∀ sid symbol payload, b = .call sid (.request (.subscribe symbol payload)) →
      a = .gateway b) : Gateway.Brings (sources (acts ++ [a]) (h ++ o)) w.gateway b where
  event e he := (hb e he).append
  snapshot symbol s hs := by
    have hget : w.store.snapshots.get? symbol = some s := by
      simpa [current, hs] using hc
    exact (hI.snapshots symbol s hget).imp fun _ => .append
  asked sid symbol payload hcall := by
    refine ⟨payload, List.mem_append_right _ ?_⟩
    rw [ha sid symbol payload hcall, hcall]
    exact List.mem_singleton_self _

/-- A step outside the engine and Redis adds only to the acts. -/
theorem of_gateway (hI : Traced w acts h) {g : Process} {inbox : List MarketEvent} {obs : List Obs}
    {b : Act} (hi : ∀ e ∈ inbox, e ∈ w.inbox)
    (hb : Gateway.Brings (sources (acts ++ [a]) (h ++ obs.map .gateway)) w.gateway b)
    (hg : w.gateway.step b = some (g, obs)) :
    Traced { w with inbox := inbox, gateway := g } (acts ++ [a]) (h ++ obs.map .gateway) where
  unpublished c hc := List.mem_append_left _ (hI.unpublished c hc)
  snapshots symbol s hs := (hI.snapshots symbol s hs).imp fun _ => .append
  inbox e he := (hI.inbox e (hi e he)).append
  gateway := (hI.gateway.grow sources_grow).step hb (Process.stepped hg)

/-- **Every step keeps the trace.** -/
theorem step (hI : Traced w acts h) (hs : w.Stepped a w' o) : Traced w' (acts ++ [a]) (h ++ o) := by
  cases hs with
  | @engine a delivered store obs hs hu =>
      exact ⟨fun c hc => List.mem_append_left _ (hI.unpublished c (hu c hc)),
        fun symbol s hget => (hI.snapshots symbol s (hs ▸ hget)).imp fun _ => .append,
        fun e he => (hI.inbox e he).append, hI.gateway.grow sources_grow⟩
  | @updated a delivered store c hs hu =>
      refine ⟨fun c' hc' => ?_, fun symbol s hget => ?_, fun e he => (hI.inbox e he).append,
        hI.gateway.grow sources_grow⟩
      · obtain rfl := Option.some.inj (hu.symm.trans hc')
        exact List.mem_append_right _ (List.mem_singleton_self _)
      · rw [hs, SnapshotStore.get?_update] at hget
        split at hget
        · refine ⟨c.event, (Option.some.inj hget).symm, c, ?_, rfl⟩
          exact List.mem_append_right _ (List.mem_singleton_self _)
        · exact (hI.snapshots symbol s hget).imp fun _ => .append
  | @published a delivered store c snapshot hs hu hu' =>
      refine ⟨fun c' hc' => absurd (hu'.symm.trans hc') (Option.some_ne_none c').symm,
        fun symbol s hget => (hI.snapshots symbol s (hs ▸ hget)).imp fun _ => .append,
        fun e he => ?_, hI.gateway.grow sources_grow⟩
      rcases List.mem_append.mp he with he | he
      · exact (hI.inbox e he).append
      · cases delivered with
        | false => cases he
        | true =>
            obtain rfl := List.mem_singleton.mp he
            exact ⟨c, snapshot, List.mem_append_right _ (List.mem_singleton_self _), rfl⟩
  | @received event rest gateway obs hi hg =>
      refine hI.of_gateway (fun e he => hi ▸ List.mem_cons_of_mem _ he) ?_ hg
      refine hI.brings (fun e he => ?_) rfl fun _ _ _ heq => ?_
      · obtain rfl := Act.message.inj he
        exact hI.inbox event (hi ▸ List.mem_cons_self)
      · cases heq
  | @gateway b gateway obs hm hc hg =>
      exact hI.of_gateway (fun _ => id)
        (hI.brings (fun e he => absurd he (hm e)) hc fun _ _ _ _ => rfl)
        hg

theorem initial (keyPrefix : String) (redisRetryInitial redisRetryMax : ℚ) :
    Traced (ρ := ρ) (.initial keyPrefix redisRetryInitial redisRetryMax) [] [] where
  unpublished _ hc := nomatch hc
  snapshots _ _ hs := nomatch hs
  inbox _ he := absurd he List.not_mem_nil
  gateway := .initial _ keyPrefix

/-- What a step makes `enqueue` accept has a source. -/
theorem accepted (hI : Traced w acts h) (hs : w.Stepped a w' o) {sid : SessionId}
    {m : Gateway.Message} (hm : .gateway (.client sid (.accepted m)) ∈ o) :
    (sources (acts ++ [a]) (h ++ o)).Gives sid m := by
  have hsourced : Gateway.Sourced (sources (acts ++ [a]) (h ++ o)) w.gateway :=
    hI.gateway.grow sources_grow
  cases hs with
  | engine obs hs hu =>
      obtain ⟨x, -, hx⟩ := List.mem_map.mp hm
      cases hx
  | updated hs hu => cases List.mem_singleton.mp hm
  | published hs hu hu' => cases List.mem_singleton.mp hm
  | @received event rest gateway obs hi hg =>
      obtain ⟨x, hx, heq⟩ := List.mem_map.mp hm
      obtain rfl := WorldObs.gateway.inj heq
      refine hsourced.given (hI.brings (fun e he => ?_) rfl fun _ _ _ heq => ?_)
        (Process.stepped hg) hx
      · obtain rfl := Act.message.inj he
        exact hI.inbox event (hi ▸ List.mem_cons_self)
      · cases heq
  | @gateway b gateway obs hne hc hg =>
      obtain ⟨x, hx, heq⟩ := List.mem_map.mp hm
      obtain rfl := WorldObs.gateway.inj heq
      exact hsourced.given (hI.brings (fun e he => absurd he (hne e)) hc fun _ _ _ _ => rfl)
        (Process.stepped hg) hx

end Traced

variable {keyPrefix : String} {redisRetryInitial redisRetryMax : ℚ} {w : World}
  {acts : List (WorldAct ρ)} {h : List WorldObs}

/-- In every run, what the gateway holds has a source, and so has everything accepted so far. -/
theorem run_traced (hr : Machine.run (step parseEvent)
      (.initial keyPrefix redisRetryInitial redisRetryMax) acts = some (w, h)) :
    Traced w acts h ∧ ∀ sid m, .gateway (.client sid (.accepted m)) ∈ h →
      (sources acts h).Gives sid m := by
  refine Machine.run_invariant_traced (C := fun _ _ => True)
    (I := fun w acts h => Traced w acts h ∧ ∀ sid m, .gateway (.client sid (.accepted m)) ∈ h →
      (sources acts h).Gives sid m) ?_
    ⟨.initial keyPrefix redisRetryInitial redisRetryMax, fun _ _ hm => absurd hm List.not_mem_nil⟩
    (Machine.along_true _ _) hr
  rintro w a w' o acts h - ⟨hI, hgiven⟩ hs
  refine ⟨hI.step (stepped hs), fun sid m hm => ?_⟩
  rcases List.mem_append.mp hm with hm | hm
  · exact sources_grow.gives (hgiven sid m hm)
  · exact hI.accepted (stepped hs) hm

/-- What has taken effect in Redis was polled. -/
theorem run_polled (hr : Machine.run (step parseEvent)
      (.initial keyPrefix redisRetryInitial redisRetryMax) acts = some (w, h)) :
    (∀ e, Published h e → Polled parseEvent acts e) ∧
    ∀ e s, Stored h e s → Polled parseEvent acts e := by
  obtain ⟨bs, hbs, hacts⟩ := run_store hr
  have hI := StoredEngine.run_origin hbs
  have hpolled : ∀ {c : ConsumedEvent MarketEvent},
      c ∈ Engine.polled (h.filterMap WorldObs.store?) → Polled parseEvent acts c.event := by
    intro c hc
    obtain ⟨m, hmem, hp⟩ := hI.consumed c hc
    obtain ⟨delivered, hact⟩ := hacts _ hmem
    exact ⟨m, delivered, hact, hp⟩
  constructor
  · rintro e ⟨c, snapshot, hmem, rfl⟩
    exact hpolled (hI.published c snapshot (mem_filterMap_store.mpr hmem))
  · rintro e s ⟨-, c, hmem, rfl⟩
    exact hpolled (hI.updated c (mem_filterMap_store.mpr hmem))

/-- **Nothing that a client is sent is made up.** In every run of the engine, Redis and the gateway:
an incremental message that the writer of session `sid` has sent is an event of a symbol that the
session has asked for, parsed from a record that the engine has polled, and published; a snapshot
message is the snapshot that was stored for such an event. -/
theorem sent_origin (hr : Machine.run (step parseEvent)
      (.initial keyPrefix redisRetryInitial redisRetryMax) acts = some (w, h))
    {sid : SessionId} {m : Gateway.Message} (hm : .gateway (.client sid (.sent m)) ∈ h) :
    Originates parseEvent acts h sid m := by
  -- what was sent had been accepted
  obtain ⟨bs, hbs, -⟩ := run_gateway (Q := fun _ => True) (by simp) (by simp) hr
  have hsent : m ∈ Gateway.sends (viewed sid (gatewayObs h)) :=
    List.mem_filterMap.mpr ⟨_, List.mem_filterMap.mpr
      ⟨_, Gateway.mem_gatewayObs.mpr hm, if_pos rfl⟩, rfl⟩
  obtain ⟨x, hx, hacc⟩ := List.mem_filterMap.mp
    ((Process.run_sends hbs sid).subset (List.mem_append_left _ hsent))
  obtain rfl : x = .accepted m := by
    cases x with
    | accepted m' => exact congrArg _ (Option.some.inj hacc)
    | _ => cases hacc
  have hmem : .client sid (.accepted m) ∈ gatewayObs h := by
    rcases Gateway.of_mem_viewed hx with hmem | ⟨e, he⟩
    · exact hmem
    · cases he
  have hgives := (run_traced hr).2 sid m (Gateway.mem_gatewayObs.mp hmem)
  obtain ⟨hpub, hsto⟩ := run_polled hr
  cases m with
  | incremental e => exact ⟨hgives.2, hpub e hgives.1, hgives.1⟩
  | snapshot s =>
      obtain ⟨⟨e, he⟩, hasked⟩ := hgives
      exact ⟨hasked, e, hsto e s he, he⟩
  | error text => trivial

/-- A client is subscribed over the snapshot of event 5, and then sent event 6. -/
def sentActs : List (WorldAct MarketEvent) :=
  Gateway.pollingActs [.quote "A" 5, .quote "A" 6] ++
    .gateway (.call 0 (.request (.subscribe "A" .null))) :: (Gateway.confirmActs ++
    Gateway.updateActs ++ Gateway.publishActs ++ [.receive] ++ Gateway.readActs ++
    [.gateway (.call 0 .go)] ++ Gateway.updateActs ++ Gateway.publishActs ++
    [.receive, .gateway (.task 0 .take), .gateway (.task 0 .writerTake),
      .gateway (.task 0 .writerSent), .gateway (.task 0 .writerTake),
      .gateway (.task 0 .writerSent)])

theorem sent_origin_snapshot_then_event :
    ∃ w h, Machine.run (World.step some) (.initial "" (1 / 10) 5) sentActs = some (w, h) ∧
      Gateway.sends (viewed 0 (gatewayObs h)) =
        [.snapshot (.fromEvent (.quote "A" 5)), .incremental (.quote "A" 6)] ∧
      Originates some sentActs h 0 (.snapshot (.fromEvent (.quote "A" 5))) ∧
      Originates some sentActs h 0 (.incremental (.quote "A" 6)) := by
  have hrun : ∃ w h, Machine.run (World.step some) (.initial "" (1 / 10) 5) sentActs = some (w, h) ∧
      Gateway.sends (viewed 0 (gatewayObs h)) =
        [.snapshot (.fromEvent (.quote "A" 5)), .incremental (.quote "A" 6)] ∧
      .client 0 (.sent (.snapshot (.fromEvent (.quote "A" 5)))) ∈ gatewayObs h ∧
      .client 0 (.sent (.incremental (.quote "A" 6))) ∈ gatewayObs h :=
    ⟨_, _, rfl, rfl, by decide, by decide⟩
  obtain ⟨w, h, hr, hsends, h5, h6⟩ := hrun
  exact ⟨w, h, hr, hsends, sent_origin hr (Gateway.mem_gatewayObs.mp h5),
    sent_origin hr (Gateway.mem_gatewayObs.mp h6)⟩

end World

end MarketData
