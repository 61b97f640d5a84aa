import MarketData.Gateway.Burst

/-!
# MarketData.Gateway.SnapshotFirst

**Snapshot first on the wire.** The handshake enqueues a symbol's snapshot before anything else of
the symbol, and what is sent follows the order of acceptance. Between the two the snapshot can be
evicted like any other message: it stays in front of the symbol's incrementals as long as no put
leaves one of them without a snapshot ahead of it (`LeadsWith`, `snapshot_first`). A slow client
can be sent an incremental first (`snapshot_evicted`).
-/

namespace MarketData.Gateway

open Boundary (Emission Move)

/-! ### Before the first activation -/

/-- Nothing of `symbol` reaches session `sid`. -/
structure Unserved (symbol : PyStr) (sid : SessionId) (r : Registry) (c : Client) : Prop where
  drained : c.Drained symbol
  unregistered : sid ∉ r.subscribers symbol

namespace Unserved

variable {symbol : PyStr} {sid : SessionId}

/-- A session's own calls keep it so until they activate the symbol. -/
theorem called {σ σ' : Scope} {a : CallAct} {obs : List Obs}
    (hU : Unserved symbol sid σ.registry σ.client) (hI : Handshake sid σ.registry σ.client)
    (h : Called sid σ a σ' obs) (hno : ∀ snapshot, .activated sid symbol snapshot ∉ obs) :
    Unserved symbol sid σ'.registry σ'.client ∧ emissions symbol (viewed sid obs) = [] := by
  obtain ⟨⟨hagg, htask⟩, hreg⟩ := hU
  cases h with
  | rejected hc hn hs =>
      obtain ⟨_, _, _, rfl⟩ := hs.session
      refine ⟨⟨⟨hagg, htask⟩, hreg⟩, ?_⟩
      rw [viewed_returned]
      exact hs.quiet
  | unavailable hc hs | failed hc hs =>
      obtain ⟨_, _, _, rfl⟩ := hs.session
      exact ⟨⟨⟨hagg, htask⟩, hreg⟩, hs.quiet⟩
  | @activated symbol' filter snapshot hsym i s o hc hi ho hs =>
      have hne : symbol' ≠ symbol := by
        intro heq
        exact hno snapshot (heq ▸ List.mem_append_right _ List.mem_cons_self)
      refine ⟨⟨⟨hI.not_inFlight_of_activated hi hne hs.aggregator hagg, htask⟩, ?_⟩, ?_⟩
      · rw [Registry.subscribers_addSubscriber, if_neg hne]
        exact hreg
      · exact (Seeded.emissions_activated ..).trans (hs.elsewhere hsym hne).2.2
  | lastUnsubscribed hc hl | unsubscribed hc hl =>
      refine ⟨⟨⟨hagg, htask⟩, fun hmem => ?_⟩, rfl⟩
      rw [Scope.registry_goto, Scope.registry_withSession,
        Registry.subscribers_discardSubscriber] at hmem
      split at hmem
      · exact hreg (Finset.mem_of_mem_erase hmem)
      · exact hreg hmem
  | cleaned hc ho =>
      refine ⟨⟨⟨hagg, htask⟩, fun hmem => ?_⟩, rfl⟩
      rw [Scope.registry_goto, Registry.subscribers_cleanup] at hmem
      split at hmem
      · exact hreg (Finset.mem_of_mem_erase hmem)
      · exact hreg hmem
  | _ => exact ⟨⟨⟨hagg, htask⟩, hreg⟩, rfl⟩

/-- Beside its calls it stays so while nothing of the symbol is pushed. -/
theorem clientStepped {r : Registry} {c c' : Client} {o : List ClientObs}
    (hU : Unserved symbol sid r c) (hk : c.session.aggregator.Keyed) (h : ClientStepped c c' o)
    (hpush : ∀ e, .pushed e ∈ o → e.symbol ≠ symbol) :
    Unserved symbol sid r c' ∧ emissions symbol o = [] := by
  cases h with
  | idle => exact ⟨hU, rfl⟩
  | pipeline h =>
      obtain ⟨hd, he, -, -⟩ := Pipeline.step_drained hk hU.drained h hpush
      exact ⟨⟨hd, hU.unregistered⟩, he⟩
  | connected hc =>
      exact ⟨⟨⟨AggregationBuffer.not_inFlight_start _ symbol, by simp [Client.connect]⟩,
        hU.unregistered⟩, rfl⟩
  | cancelled =>
      refine ⟨⟨⟨hU.drained.aggregator, fun ht => ?_⟩, hU.unregistered⟩, rfl⟩
      cases htask : c.task <;> rw [htask] at ht <;> cases ht
  | stopped =>
      exact ⟨⟨⟨fun hf => hU.drained.aggregator (AggregationBuffer.inFlight_stop hf),
        hU.drained.task⟩, hU.unregistered⟩, rfl⟩

/-- **Every step keeps it** but an activation of the symbol. -/
theorem step {g g' : Process} {a : Act} {obs : List Obs}
    (hU : Unserved symbol sid g.registry (g.clients sid)) (hI : Handshakes g) (hk : Keyed g)
    (h : Stepped g a g' obs) (hno : ∀ snapshot, .activated sid symbol snapshot ∉ obs) :
    Unserved symbol sid g'.registry (g'.clients sid) ∧ emissions symbol (viewed sid obs) = [] := by
  rcases h.call_or_outside with ⟨sid', ca, σ, rfl, rfl, hc⟩ | ⟨hother, ho⟩
  · by_cases hs : sid = sid'
    · subst hs
      rw [Process.registry_withScope, Process.clients_withScope_self]
      exact hU.called (hI sid) hc hno
    · rw [Process.registry_withScope, Process.clients_withScope_ne g sid' σ hs,
        hc.viewed_other hs]
      exact ⟨⟨hU.drained, fun hmem => hU.unregistered ((hc.frame hs symbol).2.mp hmem)⟩, rfl⟩
  · have hstep := (h.client sid).resolve_left fun ⟨ca, _, hca, _⟩ => hother sid ca hca
    obtain ⟨hU', he⟩ := hU.clientStepped (hk sid) hstep fun e hpush heq =>
      hU.unregistered (heq ▸ h.subscriber_of_pushed (hother sid) hpush)
    refine ⟨⟨hU'.drained, fun hmem => hU.unregistered ?_⟩, he⟩
    rwa [ho.subscribers] at hmem

/-- **Until its first activation of a symbol a session is given nothing of it.** -/
theorem run {keyPrefix : String} {g : Process} {acts : List Act} {h : List Obs}
    (hr : Machine.run Process.step (.initial keyPrefix) acts = some (g, h))
    (hno : ∀ snapshot, .activated sid symbol snapshot ∉ h) :
    emissions symbol (viewed sid h) = [] := by
  have hC := Machine.along_of_observed
    (p := fun x => ∀ snapshot, x ≠ .activated sid symbol snapshot)
    hr fun x hx snapshot heq => hno snapshot (heq ▸ hx)
  have key : (Handshakes g ∧ Keyed g ∧ Unserved symbol sid g.registry (g.clients sid)) ∧
      emissions symbol (viewed sid h) = [] := by
    refine Machine.run_invariant_along
      (I := fun g h => (Handshakes g ∧ Keyed g ∧ Unserved symbol sid g.registry (g.clients sid)) ∧
        emissions symbol (viewed sid h) = []) ?_ ?_ hC hr
    · intro g a g' o h hC hI hs
      obtain ⟨⟨hH, hk, hU⟩, hquiet⟩ := hI
      have hstep := Process.stepped hs
      obtain ⟨hU', hquiet'⟩ := hU.step hH hk hstep fun snapshot hmem =>
        hC g' o hs _ hmem snapshot rfl
      refine ⟨⟨hH.step hstep, hk.step hstep, hU'⟩, ?_⟩
      rw [viewed_append, emissions_append, hquiet, hquiet']
      rfl
    · refine ⟨⟨.initial keyPrefix, fun _ _ _ he => ?_, ⟨⟨?_, by simp [Process.initial]⟩, ?_⟩⟩, rfl⟩
      · cases he
      · simp [Process.initial, AggregationBuffer.InFlight, Dict.mem_def, BoundedQueue.empty]
      · exact Finset.notMem_empty sid
  exact key.2

end Unserved

/-! ### What is in front -/

/-- The first of a symbol's messages, if there is one, is a snapshot. -/
def SnapshotFirst (es : List (Emission Int)) : Prop := ∀ e ∈ es.head?, e.incremental? = none

instance (es : List (Emission Int)) : Decidable (SnapshotFirst es) :=
  inferInstanceAs (Decidable (∀ _ ∈ _, _))

namespace SnapshotFirst

variable {es es' : List (Emission Int)}

/-- What comes behind does not matter, and what is in front decides. -/
theorem append (h : SnapshotFirst es) (h' : es = [] → SnapshotFirst es') :
    SnapshotFirst (es ++ es') := by
  cases es with
  | nil => exact h' rfl
  | cons e es => exact h

theorem of_append (h : SnapshotFirst (es ++ es')) : SnapshotFirst es := by
  cases es with
  | nil =>
      intro e he
      cases he
  | cons e es => exact h

/-- Every incremental of an ascending list that starts with a snapshot lies beyond a snapshot in
front of it. -/
theorem exists_snapshot (h : SnapshotFirst es) (hlt : es.Pairwise fun e e' => e.seq < e'.seq)
    {before after : List (Emission Int)} {n : Int} (hes : es = before ++ .incremental n :: after) :
    ∃ k, .snapshot k ∈ before ∧ k < n := by
  subst hes
  cases before with
  | nil => cases h _ rfl
  | cons e before =>
      have hsnap : e.incremental? = none := h e rfl
      have hlt' : e.seq < n := List.rel_of_pairwise_cons hlt (List.mem_append_right before
        List.mem_cons_self)
      cases e with
      | incremental k => cases hsnap
      | snapshot k => exact ⟨k, List.mem_cons_self, hlt'⟩

end SnapshotFirst

/-- **The condition**: a put, as long as nothing of the symbol has been sent and the writer goes on,
leaves a snapshot in front of what the session holds of the symbol. -/
def LeadsWith (sid : SessionId) (symbol : PyStr) (p : Process × List Obs) (a : Act) : Prop :=
  market symbol (sends (viewed sid p.2)) = [] → (p.1.clients sid).session.writer ≠ .stopped →
    ∀ r ∈ p.1.step a, ∀ m ∈ accepts (viewed sid r.2),
      SnapshotFirst (market symbol ((p.1.clients sid).session.outboundWith m))

instance (sid : SessionId) (symbol : PyStr) (p : Process × List Obs) (a : Act) :
    Decidable (LeadsWith sid symbol p a) :=
  inferInstanceAs (Decidable (_ → _ → ∀ _ ∈ _, ∀ _ ∈ _, _))

/-- A snapshot is in front of what was sent of the symbol, and of what is still going to be. -/
structure Led (symbol : PyStr) (s : ClientSession) (h : List ClientObs) : Prop where
  sent : SnapshotFirst (market symbol (sends h))
  held : s.writer ≠ .stopped → SnapshotFirst (market symbol (sends h ++ s.outbound))

theorem Led.step {symbol : PyStr} {s s' : ClientSession} {h o : List ClientObs}
    (hI : Led symbol s h) (ho : Outbound s s' o)
    (hput : market symbol (sends h) = [] → s.writer ≠ .stopped → ∀ m ∈ accepts o,
      SnapshotFirst (market symbol (s.outboundWith m))) : Led symbol s' (h ++ o) := by
  by_cases hstop : s.writer = .stopped
  · -- a stopped writer sends nothing, now or later
    obtain ⟨hstop', hs⟩ := ho.stopped hstop
    refine ⟨?_, fun hne => absurd hstop' hne⟩
    rw [sends_append, hs, List.append_nil]
    exact hI.sent
  rcases ho.conserved with ⟨-, hout⟩ | ⟨m, ha, hs, hout⟩ | ⟨-, hs, hw', -⟩
  · -- what is sent has only changed sides
    have hheld : SnapshotFirst (market symbol (sends (h ++ o) ++ s'.outbound)) := by
      rw [sends_append, List.append_assoc, hout]
      exact hI.held hstop
    refine ⟨?_, fun _ => hheld⟩
    rw [market_append] at hheld
    exact hheld.of_append
  · have hsends : sends (h ++ o) = sends h := by rw [sends_append, hs, List.append_nil]
    refine ⟨hsends ▸ hI.sent, fun _ => ?_⟩
    rw [hsends, hout, market_append]
    exact hI.sent.append fun hnone =>
      hput hnone hstop m (by rw [ha]; exact List.mem_singleton_self m)
  · refine ⟨?_, fun hne => absurd hw' hne⟩
    rw [sends_append, hs, List.append_nil]
    exact hI.sent

/-! ### The first subscription -/

/-- **What an activation is**: the handshake's initialization is at hand and has not overflowed, its
snapshot is taken, and what it has buffered is pushed. -/
theorem Called.activation {sid sid' : SessionId} {σ σ' : Scope} {a : CallAct} {obs : List Obs}
    {symbol : PyStr} {snapshot : Option SnapshotData} (h : Called sid' σ a σ' obs)
    (hmem : .activated sid symbol snapshot ∈ obs) :
    sid = sid' ∧ ∃ filter hsym i s o,
      σ.client.call = .activating symbol filter (.value snapshot) hsym ∧
      σ.registry.initialization? symbol sid' = some i ∧ i.overflowed = false ∧
      Seeded σ.client.session symbol snapshot s o ∧
      obs = (o ++ (i.released snapshot).map ClientObs.pushed).map (.client sid') ++
        [.activated sid' symbol snapshot] ∧
      σ'.registry = (σ.registry.endInitialization symbol sid').addSubscriber symbol sid' ∧
      σ'.client = { σ.client with
        session := (s.pushAll (i.released snapshot)).subscribed symbol filter
        call := .rollingBack symbol true } := by
  cases h with
  | @activated symbol' filter found hsym i s o hc hi ho hs =>
      rcases List.mem_append.mp hmem with hmem | hmem
      · obtain ⟨x, -, hx⟩ := List.mem_map.mp hmem
        cases hx
      · obtain ⟨rfl, rfl, rfl⟩ := Obs.activated.inj (List.mem_singleton.mp hmem)
        exact ⟨rfl, filter, hsym, i, s, o, hc, hi, ho, hs, rfl, rfl, rfl⟩
  | rejected hc hn hs =>
      rcases List.mem_append.mp hmem with hmem | hmem
      · rcases hs.obs _ hmem with ⟨m, hm⟩ | ⟨text, hm⟩ <;> cases hm
      · cases List.mem_singleton.mp hmem
  | unavailable hc hs | failed hc hs =>
      rcases hs.obs _ hmem with ⟨m, hm⟩ | ⟨text, hm⟩ <;> cases hm
  | overflowed | inUse | unsubscribed | finished | closing | closed =>
      cases List.mem_singleton.mp hmem
  | _ => cases hmem

/-- What an activation with a snapshot does. -/
theorem Called.activates {sid sid' : SessionId} {σ σ' : Scope} {a : CallAct} {obs : List Obs}
    {symbol : PyStr} {snapshot : SnapshotData} (h : Called sid' σ a σ' obs)
    (hmem : .activated sid symbol (some snapshot) ∈ obs) :
    sid = sid' ∧ σ.client.call ≠ .idle ∧ σ'.client.call = .rollingBack symbol true ∧
      σ'.client.connected = σ.client.connected ∧
      σ'.client.session.lastSeq.get? symbol = some snapshot.seq ∧
      emissions symbol (viewed sid' obs) = [.snapshot snapshot.seq] := by
  obtain ⟨rfl, filter, hsym, i, s, o, hc, -, -, hs, rfl, -, hclient⟩ := h.activation hmem
  replace hsym : snapshot.symbol = symbol := hsym
  rw [hclient]
  refine ⟨rfl, by simp [hc], rfl, rfl, ?_, ?_⟩
  · cases hs with
    | accepted => exact Dict.get?_set_self ..
  · refine (Seeded.emissions_activated ..).trans ?_
    cases hs with
    | accepted => simp [ClientObs.emission?, Message.emission?, hsym]

theorem Stepped.activates {g g' : Process} {a : Act} {o : List Obs} {sid : SessionId}
    {symbol : PyStr} {snapshot : SnapshotData} (h : Stepped g a g' o) (hI : Handshakes g)
    (hmem : .activated sid symbol (some snapshot) ∈ o) :
    Staying g' sid symbol ∧ (g'.clients sid).session.lastSeq.get? symbol = some snapshot.seq ∧
      emissions symbol (viewed sid o) = [.snapshot snapshot.seq] := by
  have hclient : ∀ {sid'} {os : List ClientObs},
      .activated sid symbol (some snapshot) ∉ os.map (Obs.client sid') := by
    intro sid' os hmem
    obtain ⟨x, -, hx⟩ := List.mem_map.mp hmem
    cases hx
  cases h with
  | @call sid' ca σ _ hc =>
      obtain ⟨rfl, hbusy, hcall, hon, hl, he⟩ := hc.activates hmem
      refine ⟨⟨?_, ?_⟩, ?_, he⟩ <;> rw [Process.clients_withScope_self]
      · rw [hon]
        exact (hI sid).connected hbusy
      · rw [hcall]
        simp
      · exact hl
  | task | replied => exact absurd hmem hclient
  | message => cases List.mem_singleton.mp hmem
  | connect | cancelled | stopped | fanout => cases hmem

namespace Staying

variable {g g' : Process} {sid : SessionId} {symbol : PyStr} {acts : List Act} {h : List Obs}

/-- **Without another activation every move of the boundary is strict**: what is accepted lies
beyond the boundary, in ascending order. -/
theorem run_strict (hI : Staying g sid symbol)
    (hstay : .call sid (.request (.unsubscribe symbol)) ∉ acts)
    (hagain : ∀ x, .activated sid symbol x ∉ h)
    (hr : Machine.run Process.step g acts = some (g', h)) :
    (emissions symbol (viewed sid h)).Pairwise (fun e e' => e.seq < e'.seq) ∧
    ∀ e ∈ emissions symbol (viewed sid h),
      ∀ l ∈ (g.clients sid).session.lastSeq.get? symbol, l < e.seq := by
  have hC := Machine.along_of_observed (p := fun x => ∀ y, x ≠ .activated sid symbol y) hr
    fun x hx y heq => hagain y (heq ▸ hx)
  have hmove : ∀ {g : Process} {a c' o mv},
      (∀ g' o, g.step a = some (g', o) → ∀ x ∈ o, ∀ y, x ≠ .activated sid symbol y) →
      Reseeded g a sid symbol c' o mv →
        mv.Guard ((g.clients sid).session.lastSeq.get? symbol) ∧ mv.Strict := by
    intro g a c' o mv hC hmv
    rcases hmv.guard with hguard | ⟨n, -, hn⟩
    · exact hguard
    · obtain ⟨g', o, hs, -, y, hy⟩ := Process.step_of_reseed? hn
      exact absurd rfl (hC g' o hs _ hy y)
  obtain ⟨ms, hms, hstrict⟩ := hI.run hmove hstay hC hr
  rw [hms.emitted]
  exact ⟨hms.guarded.emitted_lt hstrict, fun e he l hl => hms.guarded.lt_emitted hstrict he l hl⟩

end Staying

/-- **What leads keeps leading**, as long as every put meets the condition. -/
theorem Led.run {g g' : Process} {sid : SessionId} {symbol : PyStr} {acts : List Act}
    {h : List Obs} (hI : Led symbol (g.clients sid).session [])
    (hon : (g.clients sid).connected = true)
    (hlead : Machine.Along (Machine.recorded Process.step) (LeadsWith sid symbol) (g, []) acts)
    (hr : Machine.run Process.step g acts = some (g', h)) :
    Led symbol (g'.clients sid).session (viewed sid h) := by
  have key : (g'.clients sid).connected = true ∧
      Led symbol (g'.clients sid).session (viewed sid h) := by
    refine Machine.run_invariant_recorded (I := fun g h =>
      (g.clients sid).connected = true ∧ Led symbol (g.clients sid).session (viewed sid h))
      (fun g a g' o h hC hI hs => ?_) ⟨hon, hI⟩ hlead hr
    have hstep := Process.stepped hs
    refine ⟨hstep.connected hI.1, ?_⟩
    rw [viewed_append]
    exact hI.2.step (hstep.outbound hI.1) fun hnone hgoes m hm => hC hnone hgoes (g', o) hs m hm
  exact key.2

/-- **Snapshot first on the wire**, as long as no put leaves an incremental in front. Let a
session's first subscription to a symbol activate with a snapshot; then, until it unsubscribes or is
activated again, the first market message of the symbol that the writer sends is a snapshot, and
every incremental sent lies beyond a snapshot sent before it. -/
theorem snapshot_first {keyPrefix : String} {g₁ g₂ g₃ : Process} {acts₁ acts₂ : List Act} {a : Act}
    {h₁ o h₂ : List Obs} {sid : SessionId} {symbol : PyStr} {snapshot : SnapshotData}
    (hr₁ : Machine.run Process.step (.initial keyPrefix) acts₁ = some (g₁, h₁))
    (hfirst : ∀ x, .activated sid symbol x ∉ h₁)
    (hs : g₁.step a = some (g₂, o)) (hact : .activated sid symbol (some snapshot) ∈ o)
    (hr₂ : Machine.run Process.step g₂ acts₂ = some (g₃, h₂))
    (hstay : .call sid (.request (.unsubscribe symbol)) ∉ acts₂)
    (hagain : ∀ x, .activated sid symbol x ∉ h₂)
    (hlead : Machine.Along (Machine.recorded Process.step) (LeadsWith sid symbol) (g₂, []) acts₂) :
    SnapshotFirst (market symbol (sends (viewed sid (h₁ ++ (o ++ h₂))))) ∧
    ∀ before n after,
      market symbol (sends (viewed sid (h₁ ++ (o ++ h₂)))) = before ++ .incremental n :: after →
        ∃ k, .snapshot k ∈ before ∧ k < n := by
  have hI : Handshakes g₁ := Machine.run_preserves
    (fun _ _ _ _ hI hs => hI.step (Process.stepped hs)) (.initial keyPrefix) hr₁
  obtain ⟨hstaying, hlast, hseed⟩ := (Process.stepped hs).activates hI hact
  have hbefore : emissions symbol (viewed sid h₁) = [] := Unserved.run hr₁ hfirst
  have hr₁₂ : Machine.run Process.step (.initial keyPrefix) (acts₁ ++ [a]) = some (g₂, h₁ ++ o) :=
    Machine.run_append.mpr ⟨g₁, h₁, o, hr₁, Machine.run_singleton.mpr hs, rfl⟩
  have hr : Machine.run Process.step (.initial keyPrefix) (acts₁ ++ [a] ++ acts₂) =
      some (g₃, h₁ ++ o ++ h₂) := Machine.run_append.mpr ⟨g₂, h₁ ++ o, h₂, hr₁₂, hr₂, rfl⟩
  have haccepted : emissions symbol (viewed sid (h₁ ++ o)) = [.snapshot snapshot.seq] := by
    rw [viewed_append, emissions_append, hbefore, hseed]
    rfl
  rw [← List.append_assoc]
  have hfront : SnapshotFirst (market symbol (sends (viewed sid (h₁ ++ o ++ h₂)))) := by
    -- at the activation the snapshot is all there is of the symbol
    have hsub : (market symbol (sends (viewed sid (h₁ ++ o))) ++
        market symbol (g₂.clients sid).session.outbound).Sublist [.snapshot snapshot.seq] := by
      rw [← haccepted, ← market_accepts, ← market_append]
      exact (Process.run_sends hr₁₂ sid).filterMap _
    have hsnap : ∀ {es}, List.Sublist es [Emission.snapshot snapshot.seq] → SnapshotFirst es := by
      intro es hes
      rcases List.sublist_singleton.mp hes with rfl | rfl
      · intro e he
        cases he
      · intro e he
        cases he
        rfl
    have hled : Led symbol (g₂.clients sid).session [] :=
      ⟨hsnap (List.nil_sublist _), fun _ => hsnap ((List.sublist_append_right ..).trans hsub)⟩
    rw [viewed_append, sends_append, market_append]
    exact (hsnap ((List.sublist_append_left ..).trans hsub)).append fun _ =>
      (hled.run hstaying.connected hlead hr₂).sent
  have hlt : (market symbol (sends (viewed sid (h₁ ++ o ++ h₂)))).Pairwise
      fun e e' => e.seq < e'.seq := by
    obtain ⟨hasc, hbeyond⟩ := hstaying.run_strict hstay hagain hr₂
    have hall : (emissions symbol (viewed sid (h₁ ++ o ++ h₂))).Pairwise
        fun e e' => e.seq < e'.seq := by
      rw [viewed_append, emissions_append, haccepted]
      exact List.pairwise_cons.mpr ⟨fun e he => hbeyond e he _ hlast, hasc⟩
    rw [← market_accepts] at hall
    have hsub := (Process.run_sends hr sid).filterMap (Message.emission? symbol)
    exact hall.sublist (((List.sublist_append_left ..).filterMap _).trans hsub)
  exact ⟨hfront, fun before n after hes => hfront.exists_snapshot hlt hes⟩

/-! ### Two runs -/

/-- A session connects, is sent an error reply, and subscribes to a symbol whose snapshot is at 5;
the last step of the handshake is the one that activates it. -/
def handshakeActs : List Act :=
  [.connect 0 "c0" .dropOldest .raw, .error 0 "invalid json", .task 0 .writerTake,
    .call 0 (.request (.subscribe "A" .null)), .call 0 .go, .fanout .demanded, .fanout .connect,
    .fanout (.subscribed true), .call 0 .go, .call 0 .go, .call 0 .go,
    .call 0 (.read (.value (some (.fromEvent (.quote "A" 5)))))]

/-- `_subscribe` goes on to return `True`. -/
def returnActs : List Act := [.call 0 .go, .call 0 .go]

/-- A writer that keeps up sends the snapshot, then the next event. -/
def promptActs : List Act :=
  returnActs ++ [.message (.quote "A" 6), .task 0 .take, .task 0 .writerSent, .task 0 .writerTake,
    .task 0 .writerSent, .task 0 .writerTake, .task 0 .writerSent]

theorem snapshot_first_prompt :
    ∃ g₁ h₁ g₂ o g₃ h₂, Machine.run Process.step (.initial "") handshakeActs = some (g₁, h₁) ∧
      g₁.step (.call 0 .go) = some (g₂, o) ∧
      Machine.run Process.step g₂ promptActs = some (g₃, h₂) ∧
      .returned 0 (.subscribe "A" true) ∈ h₂ ∧
      market "A" (sends (viewed 0 (h₁ ++ (o ++ h₂)))) = [.snapshot 5, .incremental 6] ∧
      SnapshotFirst (market "A" (sends (viewed 0 (h₁ ++ (o ++ h₂))))) ∧
      ∀ before n after,
        market "A" (sends (viewed 0 (h₁ ++ (o ++ h₂)))) = before ++ .incremental n :: after →
          ∃ k, .snapshot k ∈ before ∧ k < n := by
  have hrun : ∃ g₁ h₁ g₂ o g₃ h₂,
      Machine.run Process.step (.initial "") handshakeActs = some (g₁, h₁) ∧
      (∀ x, .activated 0 "A" x ∉ h₁) ∧ g₁.step (.call 0 .go) = some (g₂, o) ∧
      .activated 0 "A" (some (.fromEvent (.quote "A" 5))) ∈ o ∧
      Machine.run Process.step g₂ promptActs = some (g₃, h₂) ∧
      (∀ x, .activated 0 "A" x ∉ h₂) ∧ .returned 0 (.subscribe "A" true) ∈ h₂ ∧
      market "A" (sends (viewed 0 (h₁ ++ (o ++ h₂)))) = [.snapshot 5, .incremental 6] ∧
      Machine.Along (Machine.recorded Process.step) (LeadsWith 0 "A") (g₂, []) promptActs :=
    ⟨_, _, _, _, _, _, rfl, fun x hx => by simp at hx, rfl, by decide, rfl,
      fun x hx => by simp at hx,
      by decide, rfl, by decide⟩
  obtain ⟨g₁, h₁, g₂, o, g₃, h₂, hr₁, hfirst, hs, hact, hr₂, hagain, hret, hmarket, hlead⟩ := hrun
  exact ⟨g₁, h₁, g₂, o, g₃, h₂, hr₁, hs, hr₂, hret, hmarket,
    snapshot_first hr₁ hfirst hs hact hr₂ (by simp [promptActs, returnActs]) hagain hlead⟩

/-- While the writer sends `m`, a burst of 500 events displaces the only message of the queue: the
next one sent is the first event of the burst. -/
theorem Pipeline.Ready.displaced {p : Pipeline} (hI : p.Ready) {symbol : PyStr} {n : Int}
    (hlast : ∀ l ∈ p.session.lastSeq.get? symbol, l = n) {m m' : Message}
    (hw : p.session.writer = .sending m) (hd : p.session.disconnected = false)
    (hm : m.GoesOut p.session.encoding)
    (hnext : (Message.incremental (.quote symbol (n + 1))).GoesOut p.session.encoding)
    (hq : p.session.queue.items = [m']) (hmax : p.session.queue.maxsize = queueMaxSize) :
    ∃ p', Machine.run step p ((quotesAfter symbol n 500).flatMap roundActs ++
        [.task .writerSent, .task .writerTake, .task .writerSent]) = some (p',
      (quotesAfter symbol n 500).flatMap roundObs ++
        [.sent m, .sent (.incremental (.quote symbol (n + 1)))]) := by
  obtain ⟨p₁, hburst, hb⟩ := hI.burst (inSequence_quotesAfter hlast 500)
  have hqueue : p₁.session.queue.items = (quotesAfter symbol n 500).map .incremental := by
    rw [hb.queue, BoundedQueue.items_foldl_putEvict, hq, hmax, List.length_map, length_quotesAfter,
      List.length_singleton, show 1 + 500 - queueMaxSize = 1 by decide, List.singleton_append,
      List.drop_succ_cons, List.drop_zero]
  have hsent := step_writerSent (hb.writer.trans hw) (hb.disconnected.trans hd) (hb.encoding ▸ hm)
  obtain ⟨p₂, hrest, -⟩ := run_sendNext (p := { p₁ with session := { p₁.session with
    stats := { p₁.session.stats with sent := p₁.session.stats.sent + 1 }, writer := .waiting } })
    rfl (hb.disconnected.trans hd) hqueue (hb.encoding ▸ hnext)
  exact ⟨p₂, Machine.run_append.mpr ⟨p₁, _, _, hburst,
    Machine.run_cons.mpr ⟨_, _, _, hsent, hrest, rfl⟩, rfl⟩⟩

/-- **The snapshot can be evicted in front of the events after it.** While the writer sends the
error reply, a burst of 500 events is received and dispatched: the last one finds the outbound
queue full, and its oldest message is the snapshot. -/
theorem snapshot_evicted :
    ∃ g₁ h₁ g₂ o acts₂ g₃ h₂,
      Machine.run Process.step (.initial "") handshakeActs = some (g₁, h₁) ∧
      (∀ x, .activated 0 "A" x ∉ h₁) ∧ g₁.step (.call 0 .go) = some (g₂, o) ∧
      .activated 0 "A" (some (.fromEvent (.quote "A" 5))) ∈ o ∧
      Machine.run Process.step g₂ acts₂ = some (g₃, h₂) ∧
      (∀ x, .activated 0 "A" x ∉ h₂) ∧ (∀ r, .call 0 (.request r) ∉ acts₂) ∧
      .returned 0 (.subscribe "A" true) ∈ h₂ ∧
      market "A" (sends (viewed 0 (h₁ ++ (o ++ h₂)))) = [.incremental 6] := by
  have hrun : ∃ g₁ h₁ g₂ o g₃ h₂,
      Machine.run Process.step (.initial "") handshakeActs = some (g₁, h₁) ∧
      (∀ x, .activated 0 "A" x ∉ h₁) ∧ g₁.step (.call 0 .go) = some (g₂, o) ∧
      .activated 0 "A" (some (.fromEvent (.quote "A" 5))) ∈ o ∧
      Machine.run Process.step g₂ returnActs = some (g₃, h₂) ∧
      (∀ x, .activated 0 "A" x ∉ h₂) ∧ .returned 0 (.subscribe "A" true) ∈ h₂ ∧
      sends (viewed 0 (h₁ ++ (o ++ h₂))) = [] ∧
      g₃.fanout = .listening ∧ 0 ∈ g₃.registry.subscribers "A" ∧
      (g₃.clients 0).toPipeline.Ready ∧
      (∀ l ∈ (g₃.clients 0).session.lastSeq.get? "A", l = 5) ∧
      (g₃.clients 0).session.queue.items = [.snapshot (.fromEvent (.quote "A" 5))] ∧
      (g₃.clients 0).session.queue.maxsize = queueMaxSize ∧
      (g₃.clients 0).session.writer = .sending (.error "invalid json") ∧
      (g₃.clients 0).session.disconnected = false ∧ (g₃.clients 0).session.encoding = .json :=
    ⟨_, _, _, _, _, _, rfl, fun x hx => by simp at hx, rfl, by decide, rfl,
      fun x hx => by simp at hx,
      by decide, rfl, rfl, by decide, ⟨rfl, rfl, rfl, rfl, fun _ => rfl⟩,
      fun l hl => (Option.some.inj hl).symm, rfl, rfl, rfl, rfl, rfl⟩
  obtain ⟨g₁, h₁, g₂, o, g₃, h₂, hr₁, hfirst, hs, hact, hr₂, hagain, hret, hsends, hlisten, hsub,
    hready, hlast, hitems, hmax, hwriter, hd, hjson⟩ := hrun
  obtain ⟨p, hburst⟩ := hready.displaced hlast hwriter hd (hjson ▸ by decide) (hjson ▸ by decide)
    hitems hmax
  have hacts : ∀ a ∈ (Pipeline.quotesAfter "A" 5 500).flatMap Pipeline.roundActs ++
      [.task .writerSent, .task .writerTake, .task .writerSent],
      (∃ t, a = .task t) ∨ ∃ e, a = .push e ∧ 0 ∈ g₃.registry.subscribers e.symbol := by
    intro a ha
    rcases List.mem_append.mp ha with ha | ha
    · rcases Pipeline.of_mem_roundActs ha with rfl | ⟨e, he, rfl⟩
      · exact Or.inl ⟨_, rfl⟩
      · exact Or.inr ⟨e, rfl, (Pipeline.symbol_of_mem_quotesAfter he).symm ▸ hsub⟩
    · simp only [List.mem_cons, List.not_mem_nil, or_false] at ha
      rcases ha with rfl | rfl | rfl <;> exact Or.inl ⟨_, rfl⟩
  obtain ⟨g₄, h₃, hr₃, -, hview, hkinds⟩ := Process.run_lift hlisten hacts hburst
  refine ⟨g₁, h₁, g₂, o, _, g₄, h₂ ++ h₃, hr₁, hfirst, hs, hact,
    Machine.run_append.mpr ⟨g₃, h₂, h₃, hr₂, hr₃, rfl⟩, fun x hx => ?_, fun r hmem => ?_,
    List.mem_append_left _ hret, ?_⟩
  · rcases List.mem_append.mp hx with hx | hx
    · exact hagain x hx
    · rcases hkinds _ hx with ⟨y, hy⟩ | ⟨e, sessions, hy⟩ <;> cases hy
  · rcases List.mem_append.mp hmem with hmem | hmem
    · simp [returnActs] at hmem
    · obtain ⟨b, -, hb⟩ := List.mem_map.mp hmem
      cases b <;> cases hb
  · rw [← List.append_assoc o, ← List.append_assoc, viewed_append, sends_append, hsends, hview,
      sends_append, Pipeline.sends_roundObs]
    rfl

end MarketData.Gateway
