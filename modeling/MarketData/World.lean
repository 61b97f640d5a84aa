import MarketData.Engine.Store
import MarketData.Gateway.Interleaving

/-!
# MarketData.World

**The engine, Redis and a gateway, composed.** Redis is what the two processes share: the
snapshots, which the engine writes and the gateway reads, and the messages under way on the
gateway's Pub/Sub connection. They arrive in the order in which they were published; whether
a message reaches the connection at all is up to the environment.

The engine updates the snapshot before it publishes. `Ordered` says what follows for a
gateway, as long as the events of the symbol are processed in ascending order, each once:
they arrive in ascending order, and the snapshot is never behind one that has arrived.
-/

namespace MarketData

open Engine (StoredEngine StoreAct StoreObs ConsumedEvent EngineObs)
open Gateway (Process Act Obs SessionId)

/-- One engine and one gateway around one Redis. -/
structure World where
  store : StoredEngine := {}
  /-- Published on a channel of the gateway's connection and not yet received. -/
  inbox : List MarketEvent := []
  gateway : Process

/-- A step of the world, over the type of raw Kafka records. -/
inductive WorldAct (ρ : Type)
  /-- The engine or Redis steps; a publish reaches the gateway's connection if `delivered`. -/
  | store (a : StoreAct ρ) (delivered : Bool)
  /-- `fanout_loop` receives the next message. -/
  | receive
  /-- The gateway takes any other step. -/
  | gateway (a : Act)

/-- What the world visibly does. -/
inductive WorldObs
  | store (o : StoreObs)
  | gateway (o : Obs)

/-- The snapshot read that a gateway step completes: its symbol, and what it returns. -/
def Gateway.Process.reads? (g : Process) : Act → Option (PyStr × Option SnapshotData)
  | .call sid (.read (.value snapshot)) =>
    match (g.clients sid).call with
    | .reading symbol _ => some (symbol, snapshot)
    | _ => none
  | .task sid (.read (.value snapshot)) =>
    match (g.clients sid).task with
    | .reading event => some (event.symbol, snapshot)
    | _ => none
  | _ => none

namespace World

/-- Both processes at startup, and nothing in Redis. -/
def initial (keyPrefix : String) (redisRetryInitial redisRetryMax : ℚ) : World where
  store := { engine := { redisRetryInitial := redisRetryInitial, redisRetryMax := redisRetryMax } }
  gateway := .initial keyPrefix

/-- A snapshot read returns the value that is current at this instant. -/
def current (w : World) (a : Act) : Bool :=
  (w.gateway.reads? a).all fun (symbol, snapshot) =>
    decide (w.store.snapshots.get? symbol = snapshot)

/-- The world after a step of the gateway. -/
def gatewayStep (w : World) (a : Act) : Option (World × List WorldObs) :=
  match w.gateway.step a with
  | some (gateway, obs) => some ({ w with gateway := gateway }, obs.map .gateway)
  | none => none

/-- One step of the world, over the parser of Kafka records. -/
def step {ρ : Type} (parseEvent : ρ → Option MarketEvent) (w : World) :
    WorldAct ρ → Option (World × List WorldObs)
  | .store a delivered =>
    match w.store.step parseEvent a with
    | some (store, obs) =>
      let messages := if delivered then (Engine.published obs).map ConsumedEvent.event else []
      some ({ w with store := store, inbox := w.inbox ++ messages }, obs.map .store)
    | none => none
  | .receive =>
    match w.inbox with
    | event :: rest => { w with inbox := rest }.gatewayStep (.message event)
    | [] => none
  | .gateway (.message _) => none
  | .gateway a => if w.current a then w.gatewayStep a else none

/-! ### Inversion -/

variable {ρ : Type} {parseEvent : ρ → Option MarketEvent}

/-- **Everything one step of the world can do.** -/
inductive Stepped (w : World) : WorldAct ρ → World → List WorldObs → Prop
  /-- The engine steps, and nothing takes effect in Redis. -/
  | engine {a delivered store} (obs : List (EngineObs MarketEvent))
      (hs : store.snapshots = w.store.snapshots)
      (hu : ∀ c, store.unpublished? = some c → w.store.unpublished? = some c) :
      Stepped w (.store a delivered) { w with store := store } (obs.map fun o => .store (.engine o))
  | updated {a delivered store c}
      (hs : store.snapshots = SnapshotStore.update w.store.snapshots c.event)
      (hu : store.unpublished? = some c) :
      Stepped w (.store a delivered) { w with store := store } [.store (.updated c)]
  | published {a delivered store c snapshot} (hs : store.snapshots = w.store.snapshots)
      (hu : w.store.unpublished? = some c) (hu' : store.unpublished? = none) :
      Stepped w (.store a delivered)
        { w with store := store, inbox := w.inbox ++ if delivered then [c.event] else [] }
        [.store (.published c snapshot)]
  | received {event rest gateway obs} (hi : w.inbox = event :: rest)
      (hg : w.gateway.step (.message event) = some (gateway, obs)) :
      Stepped w .receive { w with inbox := rest, gateway := gateway } (obs.map .gateway)
  | gateway {a gateway obs} (hm : ∀ event, a ≠ .message event) (hc : w.current a = true)
      (hg : w.gateway.step a = some (gateway, obs)) :
      Stepped w (.gateway a) { w with gateway := gateway } (obs.map .gateway)

theorem gatewayStep_eq {w w' : World} {a : Act} {o : List WorldObs}
    (h : w.gatewayStep a = some (w', o)) :
    ∃ gateway obs, w.gateway.step a = some (gateway, obs) ∧
      w' = { w with gateway := gateway } ∧ o = obs.map .gateway := by
  unfold gatewayStep at h
  split at h
  · rename_i gateway obs hg
    obtain ⟨rfl, rfl⟩ := Machine.outcome h
    exact ⟨gateway, obs, hg, rfl, rfl⟩
  · exact absurd h (by simp)

/-- **Inversion**: every step of the world is one of the constructors of `Stepped`. -/
theorem stepped {w w' : World} {a : WorldAct ρ} {o : List WorldObs}
    (h : w.step parseEvent a = some (w', o)) : Stepped w a w' o := by
  cases a with
  | store a delivered =>
      simp only [step] at h
      split at h
      case h_2 => exact absurd h (by simp)
      rename_i store obs hs
      obtain ⟨rfl, rfl⟩ := Machine.outcome h
      have hinbox : w.inbox ++ (if delivered then
          ([] : List (ConsumedEvent MarketEvent)).map ConsumedEvent.event else []) = w.inbox := by
        cases delivered <;> exact List.append_nil _
      cases StoredEngine.stepped hs with
      | @engine a engine o hr he =>
          rw [Engine.published_map_engine, List.map_map, hinbox]
          exact .engine o rfl fun c hc => StoredEngine.unpublished?_engine hr he hc
      | updated he ht =>
          rw [show Engine.published [.updated _] = [] from rfl, hinbox]
          refine .updated rfl ?_
          simp [StoredEngine.unpublished?, ht]
      | published he ht =>
          refine .published rfl ?_ ?_
          · simp [StoredEngine.unpublished?, ht, he]
          · simp [StoredEngine.unpublished?, ht]
  | receive =>
      simp only [step] at h
      split at h
      · rename_i event rest hi
        obtain ⟨gateway, obs, hg, rfl, rfl⟩ := gatewayStep_eq h
        exact .received hi hg
      · exact absurd h (by simp)
  | gateway a =>
      have hother : (∀ event, a ≠ .message event) →
          (if w.current a then w.gatewayStep a else none) = some (w', o) →
          Stepped w (.gateway a : WorldAct ρ) w' o := by
        intro hm h
        split at h
        · rename_i hc
          obtain ⟨gateway, obs, hg, rfl, rfl⟩ := gatewayStep_eq h
          exact .gateway hm hc hg
        · exact absurd h (by simp)
      cases a with
      | message event => exact absurd h (by simp [step])
      | connect | call | task | error | cancelDispatch | stopAggregator | fanout =>
          exact hother (by simp) h

end World

/-! ### What the world has done -/

/-- The event whose snapshot update has taken effect. -/
def WorldObs.update? : WorldObs → Option MarketEvent
  | .store (.updated c) => some c.event
  | _ => none

/-- The event that the gateway has received. -/
def Gateway.Obs.received? : Obs → Option MarketEvent
  | .received e _ => some e
  | _ => none

/-- The gateway's share of an observation. -/
def WorldObs.gateway? : WorldObs → Option Obs
  | .gateway o => some o
  | .store _ => none

/-- The events of `symbol` whose snapshot update has taken effect, in order. -/
def updated (symbol : PyStr) (h : List WorldObs) : List MarketEvent :=
  (h.filterMap WorldObs.update?).filter (·.symbol = symbol)

/-- The events of `symbol` that the gateway has received, in order. -/
def received (symbol : PyStr) (h : List Obs) : List MarketEvent :=
  (h.filterMap Obs.received?).filter (·.symbol = symbol)

/-- What the gateway has done. -/
def gatewayObs (h : List WorldObs) : List Obs := h.filterMap WorldObs.gateway?

/-- The engine's events of `symbol` ascend, and none comes twice. -/
def Ascending (symbol : PyStr) (h : List WorldObs) : Prop :=
  (updated symbol h).Pairwise (fun e e' => e.seq < e'.seq)

section views

variable (symbol : PyStr) (h h' : List WorldObs)

theorem updated_append : updated symbol (h ++ h') = updated symbol h ++ updated symbol h' := by
  simp [updated]

theorem received_append (h h' : List Obs) :
    received symbol (h ++ h') = received symbol h ++ received symbol h' := by
  simp [received]

theorem gatewayObs_append : gatewayObs (h ++ h') = gatewayObs h ++ gatewayObs h' := by
  simp [gatewayObs]

@[simp] theorem gatewayObs_map (o : List Obs) : gatewayObs (o.map .gateway) = o := by
  simp [gatewayObs, List.filterMap_map, Function.comp_def, WorldObs.gateway?]

@[simp] theorem updated_map_gateway (o : List Obs) : updated symbol (o.map .gateway) = [] := by
  simp [updated, List.filterMap_map, Function.comp_def, WorldObs.update?]

variable {symbol h h'}

theorem Ascending.of_append (ha : Ascending symbol (h ++ h')) : Ascending symbol h := by
  rw [Ascending, updated_append] at ha
  exact (List.pairwise_append.mp ha).1

end views

/-- Only `fanout_loop` receives. -/
theorem Gateway.Called.not_received {sid : SessionId} {σ σ' : Gateway.Scope}
    {a : Gateway.CallAct} {obs : List Obs} (h : Gateway.Called sid σ a σ' obs)
    {event : MarketEvent} {sessions : Finset SessionId} : .received event sessions ∉ obs := by
  intro hmem
  cases h.observed hmem

theorem Gateway.Stepped.not_received {g g' : Process} {a : Act} {obs : List Obs}
    (h : Gateway.Stepped g a g' obs) (hm : ∀ event, a ≠ .message event) (symbol : PyStr) :
    received symbol obs = [] := by
  suffices key : ∀ event sessions, .received event sessions ∉ obs by
    have hnone : obs.filterMap Obs.received? = [] := by
      refine List.filterMap_eq_nil_iff.mpr fun o ho => ?_
      cases o with
      | received event sessions => exact absurd ho (key event sessions)
      | client | activated | returned | raised | closed => rfl
    rw [received, hnone]
    rfl
  intro event sessions hmem
  cases h with
  | call h => exact h.not_received hmem
  | task h =>
      obtain ⟨o, -, ho⟩ := List.mem_map.mp hmem
      cases ho
  | replied hc =>
      obtain ⟨o, -, ho⟩ := List.mem_map.mp hmem
      cases ho
  | message hl => exact hm _ rfl
  | connect | cancelled | stopped | fanout => cases hmem

/-! ### Events arrive in order, and behind the snapshot -/

/-- The events of `symbol` that the gateway has received or is going to receive. -/
def World.delivered (w : World) (symbol : PyStr) (h : List WorldObs) : List MarketEvent :=
  received symbol (gatewayObs h) ++ w.inbox.filter (·.symbol = symbol)

/-- Where the events of `symbol` are. -/
structure Ordered (symbol : PyStr) (w : World) (h : List WorldObs) : Prop where
  ascending : (w.delivered symbol h).Pairwise (fun e e' => e.seq < e'.seq)
  updated : ∀ e ∈ w.delivered symbol h, e ∈ updated symbol h
  /-- The event about to be published is the latest. -/
  unpublished : ∀ c, w.store.unpublished? = some c → c.event.symbol = symbol →
    c.event ∈ MarketData.updated symbol h ∧ ∀ e ∈ w.delivered symbol h, e.seq < c.event.seq
  /-- The snapshot is not behind any event. -/
  snapshot : ∀ e ∈ MarketData.updated symbol h, ∃ s ∈ w.store.snapshots.get? symbol, e.seq ≤ s.seq

namespace Ordered

variable {symbol : PyStr} {w w' : World} {ρ : Type} {a : WorldAct ρ} {h o : List WorldObs}

/-- A step that only moves an event from the connection to the gateway, or leaves both alone. -/
theorem of_delivered (hI : Ordered symbol w h)
    (hd : w'.delivered symbol (h ++ o) = w.delivered symbol h)
    (hu : MarketData.updated symbol o = [])
    (hs : w'.store.snapshots = w.store.snapshots)
    (ht : ∀ c, w'.store.unpublished? = some c → w.store.unpublished? = some c) :
    Ordered symbol w' (h ++ o) where
  ascending := hd ▸ hI.ascending
  updated e he := by
    rw [updated_append, hu, List.append_nil]
    exact hI.updated e (hd ▸ he)
  unpublished c hc hsym := by
    rw [updated_append, hu, List.append_nil, hd]
    exact hI.unpublished c (ht c hc) hsym
  snapshot e he := by
    rw [updated_append, hu, List.append_nil] at he
    rw [hs]
    exact hI.snapshot e he

/-- The snapshot update of the next event. -/
theorem update (hI : Ordered symbol w h) {c : ConsumedEvent MarketEvent} {store : StoredEngine}
    (ha : Ascending symbol (h ++ [.store (.updated c)]))
    (hs : store.snapshots = SnapshotStore.update w.store.snapshots c.event)
    (hu : store.unpublished? = some c) :
    Ordered symbol { w with store := store } (h ++ [.store (.updated c)]) := by
  have hd : World.delivered { w with store := store } symbol (h ++ [.store (.updated c)]) =
      w.delivered symbol h := by
    have hg : gatewayObs [.store (.updated c)] = [] := rfl
    rw [World.delivered, gatewayObs_append, hg, List.append_nil]
    rfl
  have hget : ∀ {s}, (if c.event.symbol = symbol then some (SnapshotDataOf.fromEvent c.event)
      else w.store.snapshots.get? symbol) = some s → store.snapshots.get? symbol = some s := by
    intro s hif
    rw [hs, SnapshotStore.get?_update]
    exact hif
  by_cases hsym : c.event.symbol = symbol
  · have happ : MarketData.updated symbol (h ++ [.store (.updated c)]) =
        MarketData.updated symbol h ++ [c.event] := by
      rw [updated_append]
      simp [MarketData.updated, WorldObs.update?, hsym]
    have hlt : ∀ e ∈ MarketData.updated symbol h, e.seq < c.event.seq := by
      rw [Ascending, happ] at ha
      exact fun e he => (List.pairwise_append.mp ha).2.2 e he _ (List.mem_singleton_self _)
    refine ⟨hd ▸ hI.ascending, fun e he => ?_, fun c' hc' hs' => ?_, fun e he => ?_⟩
    · rw [happ]
      exact List.mem_append_left _ (hI.updated e (hd ▸ he))
    · obtain rfl := Option.some.inj (hu.symm.trans hc')
      rw [happ, hd]
      exact ⟨List.mem_append_right _ (List.mem_singleton_self _),
        fun e he => hlt e (hI.updated e he)⟩
    · refine ⟨.fromEvent c.event, hget (if_pos hsym), ?_⟩
      rcases List.mem_append.mp (happ ▸ he) with he | he
      · exact (hlt e he).le
      · exact (congrArg MarketEventOf.seq (List.mem_singleton.mp he)).le
  · have hnone : MarketData.updated symbol [.store (.updated c)] = [] := by
      simp [MarketData.updated, WorldObs.update?, hsym]
    refine ⟨hd ▸ hI.ascending, fun e he => ?_, fun c' hc' hs' => ?_, fun e he => ?_⟩
    · rw [updated_append, hnone, List.append_nil]
      exact hI.updated e (hd ▸ he)
    · obtain rfl := Option.some.inj (hu.symm.trans hc')
      exact absurd hs' hsym
    · rw [updated_append, hnone, List.append_nil] at he
      obtain ⟨s, hsnap, hle⟩ := hI.snapshot e he
      exact ⟨s, hget ((if_neg hsym).trans hsnap), hle⟩

/-- The publish of the latest event, delivered or not. -/
theorem publish (hI : Ordered symbol w h) {c : ConsumedEvent MarketEvent} {delivered : Bool}
    {store : StoredEngine} {snapshot : Option SnapshotData}
    (hs : store.snapshots = w.store.snapshots) (hu : w.store.unpublished? = some c)
    (hu' : store.unpublished? = none) :
    Ordered symbol
      { w with store := store, inbox := w.inbox ++ if delivered then [c.event] else [] }
      (h ++ [.store (.published c snapshot)]) := by
  have hg : gatewayObs (h ++ [.store (.published c snapshot)]) = gatewayObs h :=
    (gatewayObs_append _ _).trans (List.append_nil _)
  have hnone : ∀ c', store.unpublished? = some c' → w.store.unpublished? = some c' :=
    fun c' hc' => nomatch hu'.symm.trans hc'
  by_cases hd : delivered = true ∧ c.event.symbol = symbol
  · obtain ⟨rfl, hsym⟩ := hd
    have hd : World.delivered
        { w with store := store, inbox := w.inbox ++ if true then [c.event] else [] } symbol
        (h ++ [.store (.published c snapshot)]) = w.delivered symbol h ++ [c.event] := by
      rw [World.delivered, hg]
      simp [World.delivered, hsym]
    have happ : MarketData.updated symbol (h ++ [.store (.published c snapshot)]) =
        MarketData.updated symbol h :=
      (updated_append _ _ _).trans (List.append_nil _)
    obtain ⟨hmem, hlt⟩ := hI.unpublished c hu hsym
    refine ⟨?_, fun e he => ?_, fun c' hc' => (nomatch hu'.symm.trans hc'), fun e he => ?_⟩
    · rw [hd]
      refine List.pairwise_append.mpr ⟨hI.ascending, List.pairwise_singleton _ _, ?_⟩
      exact fun e he e' he' => List.mem_singleton.mp he' ▸ hlt e he
    · rw [happ]
      rcases List.mem_append.mp (hd ▸ he) with he | he
      · exact hI.updated e he
      · exact List.mem_singleton.mp he ▸ hmem
    · show ∃ s ∈ store.snapshots.get? symbol, e.seq ≤ s.seq
      rw [hs]
      exact hI.snapshot e (happ ▸ he)
  · refine hI.of_delivered ?_ rfl hs hnone
    rw [World.delivered, hg]
    cases delivered with
    | false => simp [World.delivered]
    | true =>
        have hsym : ¬ c.event.symbol = symbol := fun hsym => hd ⟨rfl, hsym⟩
        simp [World.delivered, hsym]

theorem initial (keyPrefix : String) (redisRetryInitial redisRetryMax : ℚ) (symbol : PyStr) :
    Ordered symbol (.initial keyPrefix redisRetryInitial redisRetryMax) [] where
  ascending := List.Pairwise.nil
  updated _ he := absurd he List.not_mem_nil
  unpublished _ hc := nomatch hc
  snapshot _ he := absurd he List.not_mem_nil

/-- **Every step keeps the order**, as long as the engine's events ascend. -/
theorem step (hI : Ordered symbol w h) (ha : Ascending symbol (h ++ o))
    (hs : World.Stepped w a w' o) : Ordered symbol w' (h ++ o) := by
  cases hs with
  | engine obs hs hu =>
      have hup : MarketData.updated symbol
          (obs.map fun o => WorldObs.store (.engine o)) = [] := by
        simp [MarketData.updated, List.filterMap_map, Function.comp_def, WorldObs.update?]
      have hg : gatewayObs (obs.map fun o => WorldObs.store (.engine o)) = [] := by
        simp [gatewayObs, List.filterMap_map, Function.comp_def, WorldObs.gateway?]
      refine hI.of_delivered ?_ hup hs hu
      rw [World.delivered, gatewayObs_append, hg, List.append_nil]
      rfl
  | updated hs hu => exact hI.update ha hs hu
  | published hs hu hu' => exact hI.publish hs hu hu'
  | @received event rest gateway obs hi hg =>
      cases Process.stepped hg with
      | message hl =>
          refine hI.of_delivered ?_ rfl rfl fun _ => id
          simp only [World.delivered, hi, gatewayObs_append, gatewayObs_map, received_append,
            List.append_assoc]
          congr 1
          by_cases hs : event.symbol = symbol <;> simp [MarketData.received, Obs.received?, hs]
  | gateway hm hc hg =>
      refine hI.of_delivered ?_ (updated_map_gateway symbol _) rfl fun _ => id
      rw [World.delivered, gatewayObs_append, gatewayObs_map, received_append,
        (Process.stepped hg).not_received hm, List.append_nil]
      rfl

end Ordered

/-- **A run of the world is a run of the gateway**, which receives its messages from Redis. -/
theorem World.run_gateway {ρ : Type} {parseEvent : ρ → Option MarketEvent} {w w' : World}
    {acts : List (WorldAct ρ)} {h : List WorldObs} {Q : Act → Prop}
    (hm : ∀ event, Q (.message event)) (hq : ∀ a, .gateway a ∈ acts → Q a)
    (hr : Machine.run (World.step parseEvent) w acts = some (w', h)) :
    ∃ bs, Machine.run Process.step w.gateway bs = some (w'.gateway, gatewayObs h) ∧
      ∀ b ∈ bs, Q b := by
  refine Machine.run_project_along (P := fun _ => True) gateway WorldObs.gateway? ?_ trivial
    (Machine.along_of_forall (C := fun a : WorldAct ρ => ∀ b, a = .gateway b → Q b)
      (fun a ha b hab => hq b (hab ▸ ha)) w) hr
  intro w a w' o hC _ hs
  refine ⟨trivial, ?_⟩
  have hone : ∀ {b g obs}, Q b → w.gateway.step b = some (g, obs) →
      ∃ bs, Machine.run Process.step w.gateway bs = some (g, gatewayObs (obs.map .gateway)) ∧
        ∀ b ∈ bs, Q b := by
    intro b g obs hb hg
    rw [gatewayObs_map]
    exact ⟨[b], Machine.run_singleton.mpr hg, by simpa using hb⟩
  cases World.stepped hs with
  | engine obs hs hu =>
      exact ⟨[], by simp [List.filterMap_map, Function.comp_def, WorldObs.gateway?]⟩
  | updated hs hu => exact ⟨[], rfl, by simp⟩
  | published hs hu hu' => exact ⟨[], rfl, by simp⟩
  | received hi hg => exact hone (hm _) hg
  | gateway hm' hc hg => exact hone (hC _ rfl) hg

/-- **In every run**: the events of the symbol arrive in ascending order, each after its
snapshot update. -/
theorem World.run_ordered {ρ : Type} {parseEvent : ρ → Option MarketEvent} {keyPrefix : String}
    {redisRetryInitial redisRetryMax : ℚ} {w : World} {acts : List (WorldAct ρ)}
    {h : List WorldObs} {symbol : PyStr}
    (hr : Machine.run (World.step parseEvent)
      (.initial keyPrefix redisRetryInitial redisRetryMax) acts = some (w, h))
    (ha : Ascending symbol h) : Ordered symbol w h := by
  refine Machine.run_invariant (I := fun w h => Ascending symbol h → Ordered symbol w h) ?_ ?_ hr ha
  · intro w a w' o h hI hs ha
    exact (hI ha.of_append).step ha (World.stepped hs)
  · exact fun _ => .initial keyPrefix redisRetryInitial redisRetryMax symbol

end MarketData
