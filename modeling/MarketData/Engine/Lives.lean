import MarketData.Engine.Store

/-!
# MarketData.Engine.Lives

**The engine over many lives.** A life ends at any step; the next one is a new process over the
same Redis, and Kafka hands it the records from the positions committed so far. What has been
processed and not committed is handed out again, and `SnapshotStore.update` writes whatever it
is given.

Within a life the records of a symbol are stored in the order of their sequence numbers, because
the engine keeps the order of the partition (`Delivered`, `InOrder`). The invariant is that
nothing still to come is older than what is stored (`Abreast`); each life keeps it, and a restart
keeps it if nothing to be handed out again is older than what is stored
(`snapshot_never_back`). Otherwise the snapshot goes back (`snapshot_back`).
-/

namespace MarketData.Engine

/-- What orders a record in the topic. A record parsed again gets a new `server_ts`, and these
stay the same. -/
structure TopicRecord where
  key : PartitionKey
  offset : Nat
  symbol : PyStr
  seq : Int
  deriving DecidableEq

/-- The place of a polled record in the topic. -/
def ConsumedEvent.topicRecord (c : ConsumedEvent MarketEvent) : TopicRecord :=
  ⟨c.key, c.offset, c.event.symbol, c.event.seq⟩

/-- Each symbol has one partition, and along it its sequence numbers strictly increase. -/
def Sequenced (log : List TopicRecord) : Prop :=
  ∀ r ∈ log, ∀ r' ∈ log, r.symbol = r'.symbol →
    r.key = r'.key ∧ (r.offset < r'.offset → r.seq < r'.seq)

/-- The record is not older than the snapshot stored for its symbol. -/
def Fresh (snapshots : Dict PyStr SnapshotData) (r : TopicRecord) : Prop :=
  ∀ snapshot ∈ snapshots.get? r.symbol, snapshot.seq ≤ r.seq

instance (snapshots : Dict PyStr SnapshotData) (r : TopicRecord) : Decidable (Fresh snapshots r) :=
  inferInstanceAs (Decidable (∀ _ ∈ _, _))

/-- The present life, Redis, and the broker's committed positions. -/
structure Lives where
  current : StoredEngine
  committed : Dict PartitionKey Nat := .empty
  /-- The broker has accepted the commit that the polling thread awaits. -/
  accepted : Bool := false

inductive LivesAct (ρ : Type)
  | life (a : StoreAct ρ)
  /-- The broker accepts the commit that the polling thread awaits. -/
  | accepted
  /-- The process ends, in whatever it is doing, and the next one starts. -/
  | restart

/-- `consumer.commit` is over. -/
def StoreAct.commits {ρ : Type} : StoreAct ρ → Bool
  | .engine (.bridge (.commit _)) => true
  | _ => false

/-- `consumer.commit` returns without an exception. -/
def StoreAct.commitReturns {ρ : Type} : StoreAct ρ → Bool
  | .engine (.bridge (.commit ok)) => ok
  | _ => false

namespace Lives

variable {ρ : Type}

/-- The seq held under `snapshot_key(symbol)`. -/
def seq? (s : Lives) (symbol : PyStr) : Option Int :=
  (s.current.snapshots.get? symbol).map SnapshotDataOf.seq

/-- The first life, over an empty Redis and a consumer group that has committed nothing. -/
def initial (redisRetryInitial redisRetryMax : ℚ) : Lives where
  current :=
    { engine := { redisRetryInitial := redisRetryInitial, redisRetryMax := redisRetryMax }
      snapshots := .empty }

/-- Where the broker starts the next life: at the committed position of a partition. A partition
without one is read from its end (`auto.offset.reset` is `latest`), which lies nowhere before
what the past life has read of it. -/
def resumed (s : Lives) : Dict PartitionKey Nat :=
  s.current.engine.consumer.position.update s.committed

/-- The next life. -/
def restart (s : Lives) : Lives where
  current :=
    { engine :=
        { redisRetryInitial := s.current.engine.redisRetryInitial
          redisRetryMax := s.current.engine.redisRetryMax
          consumer := { position := s.resumed } }
      snapshots := s.current.snapshots }
  committed := s.committed

/-- One step of a life, the broker accepting a commit, or the start of the next life. The broker
hands out records of `log` only. -/
def step (parseEvent : ρ → Option MarketEvent) (log : List TopicRecord) (s : Lives) :
    LivesAct ρ → Option (Lives × List StoreObs)
  | .life a =>
    if a.commitReturns ∧ ¬ s.accepted then none
    else
      match s.current.step parseEvent a with
      | some (current, obs) =>
        if ∀ c ∈ polled obs, c.topicRecord ∈ log then
          some ({ s with current := current, accepted := s.accepted && !a.commits }, obs)
        else none
      | none => none
  | .accepted =>
    match s.current.engine.consumer.thread with
    | .committing _ advances =>
      some ({ s with
        committed := s.committed.update (advances.mapValues fun _ adv => adv.2)
        accepted := true }, [])
    | _ => none
  | .restart => some (s.restart, [])

/-- Nothing that a restart hands out again is older than the snapshot stored for its symbol. -/
def Resumable (log : List TopicRecord) (s : Lives) : Prop :=
  ∀ r ∈ log, ∀ p ∈ s.committed.get? r.key, p ≤ r.offset → Fresh s.current.snapshots r

instance (log : List TopicRecord) (s : Lives) : Decidable (s.Resumable log) :=
  inferInstanceAs (Decidable (∀ _ ∈ _, ∀ _ ∈ _, _ → _))

/-- A restart is such a one. -/
def Resumes (log : List TopicRecord) (s : Lives) : LivesAct ρ → Prop
  | .restart => s.Resumable log
  | .life _ | .accepted => True

instance (log : List TopicRecord) (s : Lives) (a : LivesAct ρ) : Decidable (s.Resumes log a) :=
  match a with
  | .restart => inferInstanceAs (Decidable (s.Resumable log))
  | .life _ | .accepted => isTrue trivial

/-- **Everything a step can do.** -/
inductive Stepped (parseEvent : ρ → Option MarketEvent) (log : List TopicRecord) (s : Lives) :
    LivesAct ρ → Lives → Prop
  | life {a current obs} (hs : s.current.step parseEvent a = some (current, obs))
      (hlog : ∀ c ∈ polled obs, c.topicRecord ∈ log) :
      Stepped parseEvent log s (.life a)
        { s with current := current, accepted := s.accepted && !a.commits }
  | accepted {committed} :
      Stepped parseEvent log s .accepted { s with committed := committed, accepted := true }
  | restart : Stepped parseEvent log s .restart s.restart

variable {parseEvent : ρ → Option MarketEvent} {log : List TopicRecord} {s s' : Lives}
  {a : LivesAct ρ} {o : List StoreObs}

theorem stepped (h : s.step parseEvent log a = some (s', o)) : Stepped parseEvent log s a s' := by
  cases a with
  | life a =>
      simp only [step] at h
      split at h
      · exact absurd h (by simp)
      · split at h
        · rename_i current obs hs
          split at h
          · rename_i hlog
            obtain ⟨rfl, rfl⟩ := Machine.outcome h
            exact .life hs hlog
          · exact absurd h (by simp)
        · exact absurd h (by simp)
  | accepted =>
      simp only [step] at h
      split at h
      · obtain ⟨rfl, rfl⟩ := Machine.outcome h
        exact .accepted
      · exact absurd h (by simp)
  | restart =>
      obtain ⟨rfl, rfl⟩ := Machine.outcome h
      exact .restart

end Lives

/-! ### Within a life -/

/-- **Nothing still to come is older than what is stored**: neither a record that is polled and not
done, nor one that the broker has yet to hand out. -/
structure Abreast (log : List TopicRecord) (s : StoredEngine)
    (polled done : List (ConsumedEvent MarketEvent)) : Prop where
  delivered : Delivered s.engine.consumer polled
  order : InOrder s.engine polled done
  recorded : ∀ c ∈ polled, c.topicRecord ∈ log
  coming : ∀ rest, polled = done ++ rest → ∀ c ∈ rest, Fresh s.snapshots c.topicRecord
  ahead : ∀ r ∈ log, (∀ p, s.engine.consumer.position.get? r.key = some p → p ≤ r.offset) →
    Fresh s.snapshots r

namespace Abreast

variable {ρ : Type} {parseEvent : ρ → Option MarketEvent} {log : List TopicRecord}
  {s s' : StoredEngine} {polled done : List (ConsumedEvent MarketEvent)}

/-- A life starts. -/
theorem start (position : Dict PartitionKey Nat) (initial max : ℚ)
    {snapshots : Dict PyStr SnapshotData}
    (ha : ∀ r ∈ log, (∀ p, position.get? r.key = some p → p ≤ r.offset) → Fresh snapshots r) :
    Abreast log
      { engine :=
          { redisRetryInitial := initial
            redisRetryMax := max
            consumer := { position := position } }
        snapshots := snapshots } [] [] where
  delivered := ⟨fun _ hmem => absurd hmem List.not_mem_nil, List.Pairwise.nil⟩
  order := ⟨List.prefix_rfl, fun _ => ⟨⟨[], rfl, fun _ => rfl⟩, fun _ => rfl⟩⟩
  recorded _ hmem := absurd hmem List.not_mem_nil
  coming rest hrest c hc := by
    obtain rfl : rest = [] := hrest.symm
    cases hc
  ahead := ha

/-- The engine takes a step. -/
theorem engine (hI : Abreast log s polled done) {a : EngineAct MarketEvent ρ}
    {e : DistributionEngine MarketEvent} {o : List (EngineObs MarketEvent)} {effective : Bool}
    (hs : s.engine.step parseEvent a = some (e, o))
    (hlog : ∀ c ∈ polls (o.filterMap EngineObs.bridge?), c.topicRecord ∈ log) :
    Abreast log { s with engine := e, effective := effective }
      (polled ++ polls (o.filterMap EngineObs.bridge?)) (done ++ dones o) := by
  have hforward := Forward.engine_step hs
  refine ⟨hI.delivered.forward hforward, hI.order.step hs, fun c hc => ?_,
    fun rest hrest c hc => ?_,
    fun r hr hp => hI.ahead r hr fun p hpos => ?_⟩
  · exact (List.mem_append.mp hc).elim (hI.recorded c) (hlog c)
  · -- it was to come before, or has just been polled
    obtain ⟨old, hold⟩ := hI.order.done_le
    have hsplit : old ++ polls (o.filterMap EngineObs.bridge?) = dones o ++ rest := by
      rw [← hold, List.append_assoc, List.append_assoc] at hrest
      exact List.append_cancel_left hrest
    have hmem : c ∈ old ++ polls (o.filterMap EngineObs.bridge?) := by
      rw [hsplit]
      exact List.mem_append_right _ hc
    rcases List.mem_append.mp hmem with hmem | hmem
    · exact hI.coming old hold.symm c hmem
    · exact hI.ahead _ (hlog c hmem) fun p hpos => hforward.at_position hmem hpos
  · obtain ⟨p', hpos', hle⟩ := hforward.position hpos
    exact hle.trans (hp p' hpos')

/-- The record in progress is one of those to come. -/
theorem current (hI : Abreast log s polled done) {c : ConsumedEvent MarketEvent}
    (hc : s.engine.task.current? = some c) : Fresh s.snapshots c.topicRecord := by
  obtain ⟨rest, hrest⟩ := hI.order.current_le hc
  exact hI.coming (c :: rest) (by rw [← hrest, List.append_assoc]; rfl) c List.mem_cons_self

/-- The update of the record in progress takes effect. -/
theorem update (hI : Abreast log s polled done) (hlog : Sequenced log)
    {c : ConsumedEvent MarketEvent} (hc : s.engine.task.current? = some c) :
    Abreast log { s with snapshots := SnapshotStore.update s.snapshots c.event, effective := true }
      polled done := by
  obtain ⟨rest, hrest⟩ := hI.order.current_le hc
  have hsplit : polled = done ++ c :: rest := by rw [← hrest, List.append_assoc]; rfl
  have hmem : c ∈ polled := by
    rw [hsplit]
    exact List.mem_append_right _ List.mem_cons_self
  -- a record of the same symbol comes later in the same partition
  have hfresh : ∀ r ∈ log, (c.key = r.key → c.offset < r.offset ∨ r.seq = c.event.seq) →
      Fresh s.snapshots r → Fresh (SnapshotStore.update s.snapshots c.event) r := by
    intro r hr hlater hold snapshot hsnap
    rw [SnapshotStore.get?_update] at hsnap
    split at hsnap
    · rename_i hsym
      obtain rfl := Option.some.inj hsnap
      obtain ⟨hkey, hseq⟩ := hlog _ (hI.recorded c hmem) r hr hsym
      rcases hlater hkey with hlt | heq
      · exact (hseq hlt).le
      · exact heq.ge
    · exact hold snapshot hsnap
  refine ⟨hI.delivered, hI.order, hI.recorded, fun rest' hrest' c' hc' => ?_, fun r hr hp => ?_⟩
  · obtain rfl : c :: rest = rest' := List.append_cancel_left (hsplit.symm.trans hrest')
    have hmem' : c' ∈ polled := by
      rw [hsplit]
      exact List.mem_append_right _ hc'
    refine hfresh _ (hI.recorded c' hmem') (fun hkey => ?_) (hI.coming _ hsplit c' hc')
    rcases List.mem_cons.mp hc' with rfl | hc'
    · exact Or.inr rfl
    · have hasc := hI.delivered.ascending
      rw [hsplit] at hasc
      exact Or.inl (List.rel_of_pairwise_cons (List.pairwise_append.mp hasc).2.1 hc' hkey)
  · refine hfresh r hr (fun hkey => Or.inl ?_) (hI.ahead r hr hp)
    obtain ⟨p, hpos, hlt⟩ := hI.delivered.position c hmem
    exact hlt.trans_le (hp p (hkey ▸ hpos))

/-- **A life keeps it.** -/
theorem step (hI : Abreast log s polled done) (hlog : Sequenced log) {a : StoreAct ρ}
    {o : List StoreObs} (hs : s.step parseEvent a = some (s', o))
    (ho : ∀ c ∈ Engine.polled o, c.topicRecord ∈ log) :
    Abreast log s' (polled ++ Engine.polled o) (done ++ Engine.done o) := by
  cases StoredEngine.stepped hs with
  | engine hr he =>
      rw [polled_map_engine] at ho ⊢
      rw [done_map_engine]
      exact hI.engine he ho
  | updated he ht =>
      show Abreast log _ (polled ++ []) (done ++ [])
      rw [List.append_nil, List.append_nil]
      exact hI.update hlog (by rw [ht]; rfl)
  | published he ht =>
      show Abreast log _ (polled ++ []) (done ++ [])
      rw [List.append_nil, List.append_nil]
      exact ⟨hI.delivered, hI.order, hI.recorded, hI.coming, hI.ahead⟩

end Abreast

/-! ### Over many lives -/

namespace Lives

variable {ρ : Type} {parseEvent : ρ → Option MarketEvent} {log : List TopicRecord} {s s' : Lives}
  {a : LivesAct ρ} {o : List StoreObs}

/-- The present life keeps up with what is stored. -/
def Abreast (log : List TopicRecord) (s : Lives) : Prop :=
  ∃ polled done, Engine.Abreast log s.current polled done

theorem abreast_initial (log : List TopicRecord) (redisRetryInitial redisRetryMax : ℚ) :
    (initial redisRetryInitial redisRetryMax).Abreast log := by
  refine ⟨[], [], .start .empty _ _ fun r _ _ snapshot hs => ?_⟩
  cases hs

/-- **A restart keeps it**, if nothing handed out again is older than what is stored. -/
theorem Abreast.restart (hI : s.Abreast log) (hr : s.Resumable log) : s.restart.Abreast log := by
  obtain ⟨polled, done, hI⟩ := hI
  refine ⟨[], [], .start _ _ _ fun r hmem hp => ?_⟩
  cases hc : s.committed.get? r.key with
  | some p =>
      refine hr r hmem p hc (hp p ?_)
      rw [resumed, Dict.get?_update, hc]
      rfl
  | none =>
      refine hI.ahead r hmem fun p hpos => hp p ?_
      rw [resumed, Dict.get?_update, hc]
      exact hpos

theorem Abreast.step (hI : s.Abreast log) (hlog : Sequenced log)
    (hr : s.Resumes log a) (hs : s.step parseEvent log a = some (s', o)) :
    s'.Abreast log := by
  cases stepped hs with
  | life hlife ho =>
      obtain ⟨polled, done, hI⟩ := hI
      exact ⟨_, _, hI.step hlog hlife ho⟩
  | accepted => exact hI
  | restart => exact hI.restart hr

/-- **No step takes a snapshot back.** -/
theorem Abreast.forward (hI : s.Abreast log) (hs : s.step parseEvent log a = some (s', o))
    {symbol : PyStr} {n : Int} (hn : s.seq? symbol = some n) :
    ∃ n', s'.seq? symbol = some n' ∧ n ≤ n' := by
  cases stepped hs with
  | life hlife ho =>
      obtain ⟨polled, done, hI⟩ := hI
      cases StoredEngine.stepped hlife with
      | engine hr he => exact ⟨n, hn, le_rfl⟩
      | published he ht => exact ⟨n, hn, le_rfl⟩
      | updated he ht =>
          rename_i c backoff
          by_cases hsym : c.event.symbol = symbol
          · obtain ⟨snapshot, hsnap, rfl⟩ := Option.map_eq_some_iff.mp hn
            refine ⟨c.event.seq, ?_, hI.current (by rw [ht]; rfl) snapshot ?_⟩
            · show ((SnapshotStore.update _ _).get? symbol).map _ = _
              rw [SnapshotStore.get?_update, if_pos hsym]
              rfl
            · show s.current.snapshots.get? c.event.symbol = some snapshot
              rw [hsym, hsnap]
          · refine ⟨n, ?_, le_rfl⟩
            show ((SnapshotStore.update _ _).get? symbol).map _ = _
            rw [SnapshotStore.get?_update, if_neg hsym]
            exact hn
  | accepted => exact ⟨n, hn, le_rfl⟩
  | restart => exact ⟨n, hn, le_rfl⟩

end Lives

/-- **The stored snapshot never goes back**, over any number of lives, under any pattern of Redis
and commit failures, as long as no restart hands out again, at or after the committed position of
its partition, a record older than the snapshot stored for its symbol. -/
theorem snapshot_never_back {ρ : Type} {parseEvent : ρ → Option MarketEvent}
    {log : List TopicRecord}
    {redisRetryInitial redisRetryMax : ℚ} {acts acts' : List (LivesAct ρ)} {s s' : Lives}
    {h h' : List StoreObs} (hlog : Sequenced log)
    (hr : Machine.run (Lives.step parseEvent log) (.initial redisRetryInitial redisRetryMax) acts =
      some (s, h))
    (hr' : Machine.run (Lives.step parseEvent log) s acts' = some (s', h'))
    (hresume : Machine.Along (Lives.step parseEvent log) (Lives.Resumes log)
      (.initial redisRetryInitial redisRetryMax) (acts ++ acts')) {symbol : PyStr} {n : Int}
    (hn : s.seq? symbol = some n) :
    ∃ n', s'.seq? symbol = some n' ∧ n ≤ n' := by
  obtain ⟨hbefore, hafter⟩ := (Machine.along_append hr).mp hresume
  have hI : s.Abreast log := Machine.run_invariant_along (I := fun s _ => s.Abreast log)
    (fun _ _ _ _ _ hc hI hs => hI.step hlog hc hs) (Lives.abreast_initial log _ _) hbefore hr
  have key : s'.Abreast log ∧ ∃ n', s'.seq? symbol = some n' ∧ n ≤ n' := by
    refine Machine.run_invariant_along
      (I := fun s _ => s.Abreast log ∧ ∃ n', s.seq? symbol = some n' ∧ n ≤ n')
      (fun s a t o h hc hI hs => ?_) ⟨hI, n, hn, le_rfl⟩ hafter hr'
    obtain ⟨hI, n', hn', hle⟩ := hI
    obtain ⟨n'', hn'', hle'⟩ := hI.forward hs hn'
    exact ⟨hI.step hlog hc hs, n'', hn'', hle.trans hle'⟩
  exact key.2

/-- Three records of one symbol. -/
def threeRecords : List TopicRecord :=
  [⟨("market-events", 0), 0, "A", 1⟩, ⟨("market-events", 0), 1, "A", 2⟩,
    ⟨("market-events", 0), 2, "A", 3⟩]

/-- A record is polled, with `commits` in the drain before the poll, and processed. -/
def liveActs (offset : Nat) (seq : Int) (commits : List (LivesAct MarketEvent)) :
    List (LivesAct MarketEvent) :=
  [.life (.engine (.bridge .check)), .life (.engine (.bridge .drain))] ++ commits ++
    [.life (.engine (.bridge (.poll (.message ⟨"market-events", 0, offset, .quote "A" seq⟩)))),
      .life (.engine (.bridge .put)), .life (.engine (.bridge .handed)),
      .life (.engine .take), .life .redis, .life (.engine (.updated true)),
      .life .redis, .life (.engine (.published true))]

/-- The broker accepts the commit, and it returns. -/
def committedActs : List (LivesAct MarketEvent) :=
  [.accepted, .life (.engine (.bridge (.commit true)))]

/-- The commit raises. -/
def commitFailedActs : List (LivesAct MarketEvent) := [.life (.engine (.bridge (.commit false)))]

/-- The record in progress at a crash is processed again, and the one after it is new. -/
theorem snapshot_never_back_replayed :
    ∃ s s' h h', Machine.run (Lives.step (some : MarketEvent → Option MarketEvent) threeRecords)
        (.initial (1 / 10) 5)
        (liveActs 0 1 [] ++ liveActs 1 2 committedActs) = some (s, h) ∧
      Machine.run (Lives.step (some : MarketEvent → Option MarketEvent) threeRecords) s
        (.restart :: (liveActs 1 2 [] ++ liveActs 2 3 committedActs)) = some (s', h') ∧
      s.seq? "A" = some 2 ∧ ∃ n', s'.seq? "A" = some n' ∧ 2 ≤ n' := by
  have hrun : ∃ s s' h h',
      Machine.run (Lives.step (some : MarketEvent → Option MarketEvent) threeRecords)
        (.initial (1 / 10) 5)
        (liveActs 0 1 [] ++ liveActs 1 2 committedActs) = some (s, h) ∧
      Machine.run (Lives.step (some : MarketEvent → Option MarketEvent) threeRecords) s
        (.restart :: (liveActs 1 2 [] ++ liveActs 2 3 committedActs)) = some (s', h') ∧
      s.seq? "A" = some 2 := ⟨_, _, _, _, rfl, rfl, rfl⟩
  obtain ⟨s, s', h, h', hr, hr', hn⟩ := hrun
  exact ⟨s, s', h, h', hr, hr', hn,
    snapshot_never_back (by unfold Sequenced; decide) hr hr' (by decide) hn⟩

/-- Two records are processed after the last commit that the broker accepted: the next life is
handed the older one, and `SnapshotStore.update` writes it over the newer one. -/
theorem snapshot_back :
    ∃ s s' h h', Sequenced threeRecords ∧
      Machine.run (Lives.step (some : MarketEvent → Option MarketEvent) threeRecords)
        (.initial (1 / 10) 5)
        (liveActs 0 1 [] ++ liveActs 1 2 committedActs ++ liveActs 2 3 commitFailedActs) =
          some (s, h) ∧
      Machine.run (Lives.step (some : MarketEvent → Option MarketEvent) threeRecords) s
        (.restart :: liveActs 1 2 []) = some (s', h') ∧
      s.seq? "A" = some 3 ∧ s'.seq? "A" = some 2 :=
  ⟨_, _, _, _, by unfold Sequenced; decide, rfl, rfl, rfl, rfl⟩

end MarketData.Engine
