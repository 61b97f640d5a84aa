import MarketData.Engine.Order
import MarketData.Lib.Collapse
import MarketData.Models

/-!
# MarketData.Engine.Store

**The engine with the Redis it writes to.** A Redis call of `process_event` takes effect at
some moment while the engine awaits it (`redis`), or not at all; afterwards it returns or
raises. It returns only if it has taken effect; it may raise either way, and the engine may
be cancelled in between.

The engine is an in-order at-least-once pipe (`engine_pipe`): what is published, repeats
collapsed, is a prefix of what was polled, and each publish of an event finds that event as
the symbol's snapshot.
-/

namespace MarketData

/-- The hash that `SnapshotStore.update` writes, as `SnapshotStore.get` reads it. -/
def SnapshotStore.update {σ : Type} [DecidableEq σ] (snapshots : Dict σ (SnapshotDataOf σ))
    (event : MarketEventOf σ) : Dict σ (SnapshotDataOf σ) :=
  snapshots.set event.symbol
    { symbol := event.symbol
      bid := event.bid
      ask := event.ask
      bidSize := event.bidSize
      askSize := event.askSize
      seq := event.seq
      ts := event.serverTs }

theorem SnapshotStore.get?_update {σ : Type} [DecidableEq σ]
    (snapshots : Dict σ (SnapshotDataOf σ)) (event : MarketEventOf σ) (symbol : σ) :
    (update snapshots event).get? symbol =
      if event.symbol = symbol then some (.fromEvent event) else snapshots.get? symbol :=
  Dict.get?_set ..

namespace Engine

/-- A step beside the engine's own task. -/
def EngineAct.beside {ε ρ : Type} : EngineAct ε ρ → Bool
  | .bridge _ | .shutdown => true
  | _ => false

/-- The Redis call that the engine awaits returns without an exception. -/
def EngineAct.returns {ε ρ : Type} : EngineAct ε ρ → Bool
  | .updated ok | .published ok => ok
  | _ => false

/-- The engine and the snapshots in Redis. -/
structure StoredEngine where
  engine : DistributionEngine MarketEvent := {}
  snapshots : Dict PyStr SnapshotData := .empty
  /-- The Redis call that the engine awaits has taken effect. -/
  effective : Bool := false

/-- A step of the engine, or of Redis. -/
inductive StoreAct (ρ : Type)
  | engine (a : EngineAct MarketEvent ρ)
  /-- The Redis call that the engine awaits takes effect. -/
  | redis

/-- What the engine does, and what takes effect in Redis. -/
inductive StoreObs
  | engine (o : EngineObs MarketEvent)
  | updated (c : ConsumedEvent MarketEvent)
  /-- A publish, and the snapshot stored for its symbol at that moment. -/
  | published (c : ConsumedEvent MarketEvent) (snapshot : Option SnapshotData)

/-- The engine's share of an observation. -/
def StoreObs.engine? : StoreObs → Option (EngineObs MarketEvent)
  | .engine o => some o
  | _ => none

/-- The record whose publish took effect. -/
def StoreObs.published? : StoreObs → Option (ConsumedEvent MarketEvent)
  | .published c _ => some c
  | _ => none

namespace StoredEngine

variable {ρ : Type}

/-- One step of the engine or of Redis. -/
def step (parseEvent : ρ → Option MarketEvent) (s : StoredEngine) :
    StoreAct ρ → Option (StoredEngine × List StoreObs)
  | .engine a =>
    if a.returns ∧ ¬ s.effective then none
    else
      match s.engine.step parseEvent a with
      | some (engine, obs) =>
        some ({ s with engine := engine, effective := s.effective && a.beside }, obs.map .engine)
      | none => none
  | .redis =>
    if s.effective then none
    else
      match s.engine.task with
      | .updating c _ =>
        some ({ s with snapshots := SnapshotStore.update s.snapshots c.event, effective := true },
          [.updated c])
      | .publishing c _ =>
        some ({ s with effective := true }, [.published c (s.snapshots.get? c.event.symbol)])
      | _ => none

/-! ### Inversion -/

/-- **Everything a step can do.** -/
inductive Stepped (parseEvent : ρ → Option MarketEvent) (s : StoredEngine) :
    StoreAct ρ → StoredEngine → List StoreObs → Prop
  | engine {a engine obs} (hr : a.returns = true → s.effective = true)
      (hs : s.engine.step parseEvent a = some (engine, obs)) :
      Stepped parseEvent s (.engine a)
        { s with engine := engine, effective := s.effective && a.beside } (obs.map .engine)
  | updated {c backoff} (he : s.effective = false) (ht : s.engine.task = .updating c backoff) :
      Stepped parseEvent s .redis
        { s with snapshots := SnapshotStore.update s.snapshots c.event, effective := true }
        [.updated c]
  | published {c backoff} (he : s.effective = false) (ht : s.engine.task = .publishing c backoff) :
      Stepped parseEvent s .redis { s with effective := true }
        [.published c (s.snapshots.get? c.event.symbol)]

variable {parseEvent : ρ → Option MarketEvent} {s s' : StoredEngine} {a : StoreAct ρ}
  {o : List StoreObs}

theorem stepped (h : s.step parseEvent a = some (s', o)) : Stepped parseEvent s a s' o := by
  cases a with
  | engine a =>
      simp only [step] at h
      split at h
      · exact absurd h (by simp)
      · rename_i hr
        split at h
        · rename_i engine obs hs
          obtain ⟨rfl, rfl⟩ := Machine.outcome h
          exact .engine (by simpa using hr) hs
        · exact absurd h (by simp)
  | redis =>
      simp only [step] at h
      split at h
      · exact absurd h (by simp)
      · rename_i he
        replace he := Bool.eq_false_iff.mpr he
        split at h
        · rename_i ht
          obtain ⟨rfl, rfl⟩ := Machine.outcome h
          exact .updated he ht
        · rename_i ht
          obtain ⟨rfl, rfl⟩ := Machine.outcome h
          exact .published he ht
        · exact absurd h (by simp)

/-! ### What happens to the engine's task -/

/-- Of a step of the engine: beside its task; the return of one of its Redis calls; or anything
else, which never leads to a publish. -/
theorem engine_cases {e e' : DistributionEngine MarketEvent} {a : EngineAct MarketEvent ρ}
    {o : List (EngineObs MarketEvent)} (hs : e.step parseEvent a = some (e', o)) :
    (a.beside = true ∧ e'.task = e.task ∧ dones o = []) ∨
    (∃ c backoff, a = .updated true ∧ e.task = .updating c backoff ∧
      e'.task = .publishing c backoff ∧ dones o = []) ∨
    (∃ c backoff, a = .published true ∧ e.task = .publishing c backoff ∧ e'.task = .waiting ∧
      dones o = [c]) ∨
    (a.beside = false ∧ a.returns = false ∧ dones o = [] ∧
      (∀ c backoff, e'.task ≠ .publishing c backoff) ∧
      (e.task = .waiting ∨ e'.task = .stopped ∨
        ∃ c, e.task.current? = some c ∧ e'.task.current? = some c)) := by
  have hattempt : ∀ (e : DistributionEngine MarketEvent) c backoff,
      (e.attempt c backoff).task = .stopped ∨ (e.attempt c backoff).task.current? = some c := by
    intro e c backoff
    rcases e.attempt_cases c backoff with heq | heq <;> rw [heq]
    · exact Or.inl rfl
    · exact Or.inr rfl
  cases a with
  | bridge b =>
      refine Or.inl ⟨rfl, ?_⟩
      cases b <;> simp only [DistributionEngine.step] at hs <;> first
        | (split at hs
           · obtain ⟨rfl, rfl⟩ := Machine.outcome hs
             exact ⟨rfl, dones_map_bridge _⟩
           · exact absurd hs (by simp))
        | exact absurd hs (by simp)
  | shutdown =>
      obtain ⟨rfl, rfl⟩ := Machine.outcome hs
      exact Or.inl ⟨rfl, rfl, rfl⟩
  | take =>
      simp only [DistributionEngine.step] at hs
      split at hs
      · rename_i c queue ht hq
        obtain ⟨rfl, rfl⟩ := Machine.outcome hs
        exact Or.inr (Or.inr (Or.inr ⟨rfl, rfl, rfl,
          fun c' b' => DistributionEngine.attempt_task _ _ c' _ b', Or.inl ht⟩))
      · exact absurd hs (by simp)
  | updated ok =>
      simp only [DistributionEngine.step] at hs
      split at hs
      · rename_i c backoff ht
        cases ok with
        | true =>
            obtain ⟨rfl, rfl⟩ := Machine.outcome hs
            exact Or.inr (Or.inl ⟨c, backoff, rfl, ht, rfl, rfl⟩)
        | false =>
            obtain ⟨rfl, rfl⟩ := Machine.outcome hs
            exact Or.inr (Or.inr (Or.inr ⟨rfl, rfl, rfl, by simp [DistributionEngine.failed],
              Or.inr (Or.inr ⟨c, by rw [ht]; rfl, rfl⟩)⟩))
      · exact absurd hs (by simp)
  | published ok =>
      simp only [DistributionEngine.step] at hs
      split at hs
      · rename_i c backoff ht
        cases ok with
        | true =>
            obtain ⟨rfl, rfl⟩ := Machine.outcome hs
            exact Or.inr (Or.inr (Or.inl ⟨c, backoff, rfl, ht, rfl, rfl⟩))
        | false =>
            obtain ⟨rfl, rfl⟩ := Machine.outcome hs
            exact Or.inr (Or.inr (Or.inr ⟨rfl, rfl, rfl, by simp [DistributionEngine.failed],
              Or.inr (Or.inr ⟨c, by rw [ht]; rfl, rfl⟩)⟩))
      · exact absurd hs (by simp)
  | retry =>
      simp only [DistributionEngine.step] at hs
      split at hs
      · rename_i c backoff ht
        obtain ⟨rfl, rfl⟩ := Machine.outcome hs
        refine Or.inr (Or.inr (Or.inr ⟨rfl, rfl, rfl,
          fun c' b' => DistributionEngine.attempt_task _ _ c' _ b', Or.inr ?_⟩))
        exact (hattempt e c _).imp_right fun h => ⟨c, by rw [ht]; rfl, h⟩
      · exact absurd hs (by simp)
  | cancel =>
      simp only [DistributionEngine.step] at hs
      split at hs
      · exact absurd hs (by simp)
      · obtain ⟨rfl, rfl⟩ := Machine.outcome hs
        exact Or.inr (Or.inr (Or.inr ⟨rfl, rfl, rfl, by simp [DistributionEngine.finish],
          Or.inr (Or.inl rfl)⟩))

/-- The record whose snapshot update has taken effect in the present attempt, and whose publish
has not. -/
def unpublished? (s : StoredEngine) : Option (ConsumedEvent MarketEvent) :=
  match s.engine.task, s.effective with
  | .updating c _, true | .publishing c _, false => some c
  | _, _ => none

/-- No step of the engine leads there. -/
theorem unpublished?_engine {a : EngineAct MarketEvent ρ} {engine : DistributionEngine MarketEvent}
    {obs : List (EngineObs MarketEvent)} (hr : a.returns = true → s.effective = true)
    (hs : s.engine.step parseEvent a = some (engine, obs)) {c : ConsumedEvent MarketEvent}
    (hc : unpublished? { s with engine := engine, effective := s.effective && a.beside } = some c) :
    s.unpublished? = some c := by
  rcases engine_cases hs with ⟨hb, ht, -⟩ | ⟨c', backoff, rfl, ht, ht', -⟩ |
    ⟨c', backoff, rfl, ht, ht', -⟩ | ⟨hb, -, -, ht, -⟩
  · rw [← hc]
    simp [unpublished?, ht, hb]
  · have he : s.effective = true := hr rfl
    have hcc : c' = c := by
      simpa [unpublished?, EngineAct.beside, ht'] using hc
    simp [unpublished?, ht, he, hcc]
  · simp [unpublished?, EngineAct.beside, ht'] at hc
  · rw [hb, Bool.and_false] at hc
    unfold unpublished? at hc
    split at hc
    · rename_i h
      cases h
    · rename_i h _
      exact absurd h (ht _ _)
    · cases hc

end StoredEngine

/-! ### The pipe -/

/-- The valid records polled, in order. -/
def polled (h : List StoreObs) : List (ConsumedEvent MarketEvent) :=
  polls ((h.filterMap StoreObs.engine?).filterMap EngineObs.bridge?)

/-- The records the engine is done with, in order. -/
def done (h : List StoreObs) : List (ConsumedEvent MarketEvent) :=
  dones (h.filterMap StoreObs.engine?)

/-- The publishes that took effect, in order. -/
def published (h : List StoreObs) : List (ConsumedEvent MarketEvent) :=
  h.filterMap StoreObs.published?

theorem polled_append (h h' : List StoreObs) : polled (h ++ h') = polled h ++ polled h' := by
  simp [polled, polls]

theorem done_append (h h' : List StoreObs) : done (h ++ h') = done h ++ done h' := by
  simp [done, dones]

theorem published_append (h h' : List StoreObs) :
    published (h ++ h') = published h ++ published h' := by
  simp [published]

theorem polled_map_engine (o : List (EngineObs MarketEvent)) :
    polled (o.map .engine) = polls (o.filterMap EngineObs.bridge?) := by
  rw [polled, List.filterMap_map]
  exact congrArg (fun l => polls (l.filterMap EngineObs.bridge?)) List.filterMap_some

theorem done_map_engine (o : List (EngineObs MarketEvent)) : done (o.map .engine) = dones o := by
  rw [done, List.filterMap_map]
  exact congrArg dones List.filterMap_some

theorem published_map_engine (o : List (EngineObs MarketEvent)) :
    published (o.map StoreObs.engine) = [] := by
  simp [published, List.filterMap_map, Function.comp_def, StoreObs.published?]

/-- **The pipe**: what the engine has published is what it is done with, and possibly the record
in progress. -/
structure Piped (s : StoredEngine) (polled done published : List (ConsumedEvent MarketEvent)) :
    Prop where
  delivered : Delivered s.engine.consumer polled
  order : InOrder s.engine polled done
  published_le : collapse published <+: polled
  live : s.engine.task ≠ .stopped → collapse published = done ∨
    ∃ c, s.engine.task.current? = some c ∧ collapse published = done ++ [c]
  /-- A publish that may return has taken effect. -/
  returning : ∀ c backoff, s.engine.task = .publishing c backoff → s.effective = true →
    collapse published = done ++ [c]
  /-- The snapshot is that of the record to be published. -/
  stored : ∀ c backoff, s.engine.task = .publishing c backoff ∨
    s.engine.task = .updating c backoff ∧ s.effective = true →
      s.snapshots.get? c.event.symbol = some (.fromEvent c.event)

namespace Piped

variable {ρ : Type} {parseEvent : ρ → Option MarketEvent} {s : StoredEngine}
  {polled done published : List (ConsumedEvent MarketEvent)}

/-- A record in progress is none of those the engine is done with. -/
theorem not_done (hI : Piped s polled done published) {c : ConsumedEvent MarketEvent}
    (hc : s.engine.task.current? = some c) : c ∉ done := by
  obtain ⟨rest, hrest⟩ := hI.order.current_le hc
  have hnodup : polled.Nodup := hI.delivered.ascending.imp fun hlt heq =>
    absurd (hlt (congrArg _ heq)) (by rw [heq]; exact lt_irrefl _)
  rw [← hrest] at hnodup
  exact fun hmem => List.disjoint_of_nodup_append hnodup.of_append_left hmem
    (List.mem_singleton_self c)

/-- The update of the record in progress takes effect. -/
theorem update (hI : Piped s polled done published) {c : ConsumedEvent MarketEvent} {backoff : ℚ}
    (ht : s.engine.task = .updating c backoff) :
    Piped { s with snapshots := SnapshotStore.update s.snapshots c.event, effective := true }
      polled done published where
  delivered := hI.delivered
  order := hI.order
  published_le := hI.published_le
  live := hI.live
  returning c' backoff' hc' := nomatch ht.symm.trans hc'
  stored c' backoff' hc' := by
    rcases hc' with hc' | ⟨hc', -⟩
    · cases ht.symm.trans hc'
    · obtain ⟨rfl, -⟩ := EngineTask.updating.inj (ht.symm.trans hc')
      exact (SnapshotStore.get?_update ..).trans (if_pos rfl)

/-- The publish of the record in progress takes effect, for the first time or again. -/
theorem publish (hI : Piped s polled done published) {c : ConsumedEvent MarketEvent} {backoff : ℚ}
    (ht : s.engine.task = .publishing c backoff) :
    Piped { s with effective := true } polled done (published ++ [c]) := by
  have hc : s.engine.task.current? = some c := by
    rw [ht]
    rfl
  have hcol : collapse (published ++ [c]) = done ++ [c] := by
    rcases hI.live (EngineTask.ne_stopped hc) with hcol | ⟨c', hc', hcol⟩
    · rw [Collapse.snoc_new (hcol ▸ hI.not_done hc), hcol]
    · obtain rfl := Option.some.inj (hc.symm.trans hc')
      exact Collapse.snoc_last hcol
  refine ⟨hI.delivered, hI.order, hcol ▸ hI.order.current_le hc, fun _ => Or.inr ⟨c, hc, hcol⟩,
    fun c' backoff' hc' _ => ?_, fun c' backoff' hc' => ?_⟩
  · obtain ⟨rfl, -⟩ := EngineTask.publishing.inj (ht.symm.trans hc')
    exact hcol
  · refine hI.stored c' backoff' (hc'.imp_right fun h => ?_)
    cases ht.symm.trans h.1

/-- The engine takes a step. -/
theorem engine (hI : Piped s polled done published) {a : EngineAct MarketEvent ρ}
    {e : DistributionEngine MarketEvent} {o : List (EngineObs MarketEvent)}
    (hr : a.returns = true → s.effective = true)
    (hs : s.engine.step parseEvent a = some (e, o)) :
    Piped { s with engine := e, effective := s.effective && a.beside }
      (polled ++ polls (o.filterMap EngineObs.bridge?)) (done ++ dones o) published := by
  have hdel := hI.delivered.forward (.engine_step hs)
  have hord := hI.order.step hs
  have hle := hI.published_le.trans
    (List.prefix_append polled (polls (o.filterMap EngineObs.bridge?)))
  rcases StoredEngine.engine_cases hs with ⟨hb, ht, ho⟩ | ⟨c, backoff, rfl, ht, ht', ho⟩ |
    ⟨c, backoff, rfl, ht, ht', ho⟩ | ⟨hb, -, ho, ht, hnext⟩
  · rw [ho, List.append_nil] at hord ⊢
    rw [hb, Bool.and_true]
    exact ⟨hdel, hord, hle, ht ▸ hI.live, ht ▸ hI.returning, ht ▸ hI.stored⟩
  · rw [ho, List.append_nil] at hord ⊢
    have he : s.effective = true := hr rfl
    refine ⟨hdel, hord, hle, fun _ => ?_, fun _ _ _ h => ?_, fun c' backoff' hc' => ?_⟩
    · have hlive := hI.live (by rw [ht]; exact nofun)
      rw [ht] at hlive
      exact ht'.symm ▸ hlive
    · cases (Bool.and_false _).symm.trans h
    · rcases hc' with hc' | ⟨hc', -⟩
      · obtain ⟨rfl, -⟩ := EngineTask.publishing.inj (ht'.symm.trans hc')
        exact hI.stored c backoff (Or.inr ⟨ht, he⟩)
      · cases ht'.symm.trans hc'
  · rw [ho] at hord ⊢
    have hcol := hI.returning c backoff ht (hr rfl)
    refine ⟨hdel, hord, hle, fun _ => Or.inl hcol, fun _ _ hc' => ?_, fun _ _ hc' => ?_⟩
    · cases ht'.symm.trans hc'
    · rcases hc' with hc' | ⟨hc', -⟩ <;> cases ht'.symm.trans hc'
  · rw [ho, List.append_nil] at hord ⊢
    rw [hb, Bool.and_false]
    refine ⟨hdel, hord, hle, fun hlive => ?_, fun _ _ hc' => absurd hc' (ht _ _), fun _ _ hc' => ?_⟩
    · rcases hnext with hw | hstop | ⟨c, hc, hc'⟩
      · refine Or.inl ((hI.live (by rw [hw]; exact nofun)).resolve_right ?_)
        rintro ⟨c, hc, -⟩
        rw [hw] at hc
        cases hc
      · exact absurd hstop hlive
      · have hcur : e.task.current? = s.engine.task.current? := hc'.trans hc.symm
        exact hcur.symm ▸ hI.live (EngineTask.ne_stopped hc)
    · rcases hc' with hc' | ⟨-, h⟩
      · exact absurd hc' (ht _ _)
      · cases h

theorem initial (initial max : ℚ) (snapshots : Dict PyStr SnapshotData) :
    Piped
      { engine := { redisRetryInitial := initial, redisRetryMax := max }
        snapshots := snapshots }
      [] [] [] where
  delivered := ⟨fun _ hmem => absurd hmem List.not_mem_nil, List.Pairwise.nil⟩
  order := ⟨List.prefix_rfl, fun _ => ⟨⟨[], rfl, fun _ => rfl⟩, fun _ => rfl⟩⟩
  published_le := List.prefix_rfl
  live _ := Or.inl rfl
  returning _ _ h := nomatch h
  stored _ _ h := by rcases h with h | ⟨h, -⟩ <;> cases h

end Piped

/-- **The engine is an in-order at-least-once pipe with a coherent snapshot.** In every engine
life, under every pattern of Redis failures and with a shutdown anywhere: the publishes that took
effect, with consecutive repeats collapsed, are a prefix of the valid records polled, in poll
order; and each publish finds its own event stored as the symbol's snapshot. -/
theorem engine_pipe {ρ : Type} {parseEvent : ρ → Option MarketEvent} {initial max : ℚ}
    {s : StoredEngine} {acts : List (StoreAct ρ)} {h : List StoreObs}
    {snapshots : Dict PyStr SnapshotData}
    (hr : Machine.run (StoredEngine.step parseEvent)
      { engine := { redisRetryInitial := initial, redisRetryMax := max }, snapshots := snapshots }
      acts = some (s, h)) :
    collapse (published h) <+: polled h ∧
    ∀ c snapshot, .published c snapshot ∈ h → snapshot = some (.fromEvent c.event) := by
  suffices key : Piped s (polled h) (done h) (published h) ∧
      ∀ c snapshot, .published c snapshot ∈ h → snapshot = some (.fromEvent c.event) from
    ⟨key.1.published_le, key.2⟩
  refine Machine.run_invariant (I := fun s h => Piped s (polled h) (done h) (published h) ∧
    ∀ c snapshot, .published c snapshot ∈ h → snapshot = some (.fromEvent c.event)) ?_
    ⟨.initial initial max snapshots, fun _ _ hmem => absurd hmem List.not_mem_nil⟩ hr
  rintro s a s' o h ⟨hI, hcoh⟩ hs
  rw [polled_append, done_append, published_append]
  cases StoredEngine.stepped hs with
  | engine hret he =>
      refine ⟨?_, fun c snapshot hmem => ?_⟩
      · rw [polled_map_engine, done_map_engine, published_map_engine, List.append_nil]
        exact hI.engine hret he
      · refine hcoh c snapshot ((List.mem_append.mp hmem).resolve_right fun hmem => ?_)
        obtain ⟨o, -, ho⟩ := List.mem_map.mp hmem
        cases ho
  | updated he ht =>
      refine ⟨?_, fun c snapshot hmem => ?_⟩
      · show Piped _ (polled h ++ []) (done h ++ []) (published h ++ [])
        rw [List.append_nil, List.append_nil, List.append_nil]
        exact hI.update ht
      · exact hcoh c snapshot ((List.mem_append.mp hmem).resolve_right (by simp))
  | published he ht =>
      refine ⟨?_, fun c snapshot hmem => ?_⟩
      · show Piped _ (polled h ++ []) (done h ++ []) (published h ++ [_])
        rw [List.append_nil, List.append_nil]
        exact hI.publish ht
      · rcases List.mem_append.mp hmem with hmem | hmem
        · exact hcoh c snapshot hmem
        · obtain ⟨rfl, rfl⟩ := StoreObs.published.inj (List.mem_singleton.mp hmem)
          exact hI.stored c _ (Or.inl ht)

/-- The engine polls an event at an offset and hands it over. -/
def pollActs (offset : Nat) (event : MarketEvent) : List (EngineAct MarketEvent MarketEvent) :=
  [.bridge .check, .bridge .drain, .bridge (.poll (.message ⟨"market-events", 0, offset, event⟩)),
    .bridge .put, .bridge .handed]

/-- Two records of one symbol. The first attempt at the first one raises after its update, the
second one after its publish; during the publish of the second record the engine is cancelled. -/
def ambiguousActs : List (StoreAct MarketEvent) :=
  (pollActs 3 (.quote "A" 1)).map .engine ++ (pollActs 4 (.quote "A" 2)).map .engine ++
    [.engine .take, .redis, .engine (.updated false), .engine .retry,
      .redis, .engine (.updated true), .redis, .engine (.published false), .engine .retry,
      .redis, .engine (.updated true), .redis, .engine (.published true),
      .engine .take, .redis, .engine (.updated true), .redis, .engine .cancel]

theorem engine_pipe_ambiguous :
    ∃ s h, Machine.run (StoredEngine.step (some : MarketEvent → Option MarketEvent))
        { engine := { redisRetryInitial := 1 / 10, redisRetryMax := 5 }, snapshots := .empty }
        ambiguousActs = some (s, h) ∧
      published h = [⟨.quote "A" 1, "market-events", 0, 3⟩, ⟨.quote "A" 1, "market-events", 0, 3⟩,
        ⟨.quote "A" 2, "market-events", 0, 4⟩] ∧
      collapse (published h) <+: polled h := by
  have hrun : ∃ s h, Machine.run (StoredEngine.step (some : MarketEvent → Option MarketEvent))
      { engine := { redisRetryInitial := 1 / 10, redisRetryMax := 5 }, snapshots := .empty }
      ambiguousActs = some (s, h) ∧
      published h = [⟨.quote "A" 1, "market-events", 0, 3⟩, ⟨.quote "A" 1, "market-events", 0, 3⟩,
        ⟨.quote "A" 2, "market-events", 0, 4⟩] :=
    ⟨_, _, rfl, rfl⟩
  obtain ⟨s, h, hr, hp⟩ := hrun
  exact ⟨s, h, hr, hp, (engine_pipe hr).1⟩

end Engine

end MarketData
