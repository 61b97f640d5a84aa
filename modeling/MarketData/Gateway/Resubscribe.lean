import MarketData.Gateway.Unsubscribe
import MarketData.World

/-!
# MarketData.Gateway.Resubscribe

**Subscribing again.** A session that is subscribed to a symbol can subscribe to it again.
While that handshake reads its snapshot, the session goes on receiving and dispatching
events; the activation then writes `last_seq[symbol]` and enqueues the snapshot without
looking at the boundary it replaces. Gap recovery has that guard (`snapshot.seq >
previous_seq`), the activation does not.

The client never goes backwards exactly as long as each activation finds its snapshot not
behind the boundary (`never_backwards_iff`).
-/

namespace MarketData.Gateway

open Boundary (Emission Move)

/-- The sequence number that the step `a` writes into `last_seq[symbol]` as the activation of
a handshake of `sid`: its snapshot has been read and the outbound queue takes it. -/
def Process.reseed? (g : Process) (sid : SessionId) (symbol : PyStr) : Act → Option Int
  | .call caller .go =>
    if caller = sid then
      match (g.clients sid).call, g.registry.initialization? symbol sid with
      | .activating s _ (.value (some snapshot)) _, some initialization =>
        if s = symbol ∧ initialization.overflowed = false ∧
            ((g.clients sid).session.enqueue (.snapshot snapshot)).1 = true then
          some snapshot.seq
        else none
      | _, _ => none
    else none
  | _ => none

/-- **The condition**: an activation does not write a boundary behind the present one. -/
def ReseedsForward (sid : SessionId) (symbol : PyStr) (g : Process) (a : Act) : Prop :=
  ∀ n ∈ g.reseed? sid symbol a, ∀ l ∈ (g.clients sid).session.lastSeq.get? symbol, l ≤ n

/-- The step does not lower `last_seq[symbol]`. -/
def KeepsBoundary (sid : SessionId) (symbol : PyStr) (g : Process) (a : Act) : Prop :=
  ∀ g' o, g.step a = some (g', o) → ∀ l ∈ (g.clients sid).session.lastSeq.get? symbol,
    ∃ l' ∈ (g'.clients sid).session.lastSeq.get? symbol, l ≤ l'

/-! ### One step, as a move of the boundary -/

/-- A step moves the boundary of `symbol` by `mv`: guarded, or the reseed of an activation. -/
structure Reseeded (g : Process) (a : Act) (sid : SessionId) (symbol : PyStr)
    (c' : Client) (o : List Obs) (mv : Move Int) : Prop where
  target : c'.session.lastSeq.get? symbol =
    mv.target ((g.clients sid).session.lastSeq.get? symbol)
  emitted : emissions symbol (viewed sid o) = mv.emitted
  guard : (mv.Guard ((g.clients sid).session.lastSeq.get? symbol) ∧ mv.Strict) ∨
    ∃ n, mv = .reseed n ∧ g.reseed? sid symbol a = some n

/-- **One step of its own call moves a session's boundary.** -/
theorem Called.reseeded {g : Process} {sid : SessionId} {σ' : Scope} {a : CallAct}
    {obs : List Obs} (h : Called sid (g.scope sid) a σ' obs) {symbol : PyStr}
    (hf : (g.clients sid).call ≠ .unsubscribing symbol) :
    ∃ mv, Reseeded g (.call sid a) sid symbol σ'.client obs mv := by
  have hkeep : ∀ {c' o}, c'.session.lastSeq = (g.clients sid).session.lastSeq →
      emissions symbol (viewed sid o) = [] →
      ∃ mv, Reseeded g (.call sid a) sid symbol c' o mv :=
    fun hl he => ⟨.keep, by rw [hl]; rfl, he, Or.inl ⟨trivial, trivial⟩⟩
  cases h with
  | rejected hc hn hs =>
      obtain ⟨_, _, _, rfl⟩ := hs.session
      exact hkeep rfl ((congrArg _ (viewed_returned ..)).trans hs.quiet)
  | unavailable hc hs | failed hc hs =>
      obtain ⟨_, _, _, rfl⟩ := hs.session
      exact hkeep rfl hs.quiet
  | @lastUnsubscribed symbol' hc hl | @unsubscribed symbol' hc hl =>
      have hne : symbol' ≠ symbol := by
        rintro rfl
        exact hf hc
      exact ⟨.keep, Dict.get?_erase_ne _ hne, rfl, Or.inl ⟨trivial, trivial⟩⟩
  | @activated symbol' filter snapshot hsym i s o hc hi ho hs =>
      have hview := Seeded.emissions_activated sid symbol symbol' snapshot o (i.released snapshot)
      by_cases hne : symbol' = symbol
      · cases hs with
        | absent => exact hkeep rfl hview
        | accepted snapshot q stats d hok =>
            replace hsym : snapshot.symbol = symbol' := hsym
            refine ⟨.reseed snapshot.seq, ?_, hview.trans ?_, Or.inr ⟨snapshot.seq, rfl, ?_⟩⟩
            · rw [← hne]
              exact Dict.get?_set_self ..
            · simp [ClientObs.emission?, Message.emission?, hsym, hne, Move.emitted]
            · rw [Process.client_scope] at hc hok
              rw [Process.registry_scope, hne] at hi
              simp [Process.reseed?, hc, hi, hne, ho, hok]
      · obtain ⟨hlast, -, hquiet⟩ := hs.elsewhere hsym hne
        exact ⟨.keep, hlast, hview.trans hquiet, Or.inl ⟨trivial, trivial⟩⟩
  | _ => exact hkeep rfl rfl

/-- **One step of the gateway moves a connected session's boundary.** -/
theorem Stepped.reseeded {g g' : Process} {a : Act} {obs : List Obs} (h : Stepped g a g' obs)
    {sid : SessionId} {symbol : PyStr} (hon : (g.clients sid).connected = true)
    (hf : (g.clients sid).call ≠ .unsubscribing symbol) :
    ∃ mv, Reseeded g a sid symbol (g'.clients sid) obs mv := by
  rcases h.client sid with ⟨ca, σ, rfl, rfl, hc⟩ | hc
  · rw [Process.clients_withScope_self]
    exact hc.reseeded hf
  · generalize g'.clients sid = c' at hc
    generalize ho : viewed sid obs = o at hc
    cases hc with
    | idle => exact ⟨.keep, rfl, by rw [ho]; rfl, Or.inl ⟨trivial, trivial⟩⟩
    | cancelled => exact ⟨.keep, rfl, by rw [ho]; rfl, Or.inl ⟨trivial, trivial⟩⟩
    | stopped => exact ⟨.keep, rfl, by rw [ho]; rfl, Or.inl ⟨trivial, trivial⟩⟩
    | connected hc => exact absurd (hc.symm.trans hon) Bool.false_ne_true
    | pipeline hp =>
        obtain ⟨mv, hmv, -, -⟩ := Pipeline.step_move hp symbol
        exact ⟨mv, hmv.target, ho ▸ hmv.emitted, Or.inl ⟨hmv.guard, hmv.strict⟩⟩

/-- **A reseed is what it says**: the step it announces is taken, activates a handshake and writes
that boundary. -/
theorem Process.step_of_reseed? {g : Process} {a : Act} {sid : SessionId} {symbol : PyStr}
    {n : Int} (hn : g.reseed? sid symbol a = some n) :
    ∃ g' o, g.step a = some (g', o) ∧ (g'.clients sid).session.lastSeq.get? symbol = some n ∧
      ∃ snapshot, .activated sid symbol snapshot ∈ o := by
  unfold reseed? at hn
  split at hn
  case h_2 => exact absurd hn (by simp)
  rename_i caller
  split at hn
  case isFalse => exact absurd hn (by simp)
  rename_i hcaller
  obtain rfl := hcaller
  split at hn
  case h_2 => exact absurd hn (by simp)
  rename_i s _ snapshot _ initialization hc hi
  split at hn
  case isFalse => exact absurd hn (by simp)
  rename_i hcond
  obtain ⟨rfl, ho, hok⟩ := hcond
  obtain rfl := Option.some.inj hn
  obtain ⟨q, stats, d, hfields⟩ := (g.clients caller).session.enqueue_fields (.snapshot snapshot)
  have hq : (g.clients caller).session.enqueue (.snapshot snapshot) =
      (true, { (g.clients caller).session with queue := q, stats := stats, disconnected := d }) :=
    Prod.ext hok hfields
  simp only [step, Scope.step, client_scope, hc, Scope.activate, registry_scope, hi, ho,
    ClientSession.seed, hq]
  refine ⟨_, _, rfl, ?_, some snapshot, List.mem_append_right _ List.mem_cons_self⟩
  rw [clients_withScope_self]
  exact Dict.get?_set_self ..

theorem Process.lastSeq_of_reseed? {g g' : Process} {a : Act} {o : List Obs}
    (hs : g.step a = some (g', o)) {sid : SessionId} {symbol : PyStr} {n : Int}
    (hn : g.reseed? sid symbol a = some n) :
    (g'.clients sid).session.lastSeq.get? symbol = some n := by
  obtain ⟨g'', o', hs', hl, -⟩ := step_of_reseed? hn
  obtain ⟨rfl, -⟩ := Machine.outcome (hs'.symm.trans hs)
  exact hl

/-! ### The run -/

/-- A connected session stays connected. -/
theorem Stepped.connected {g g' : Process} {a : Act} {obs : List Obs} (h : Stepped g a g' obs)
    {sid : SessionId} (hon : (g.clients sid).connected = true) :
    (g'.clients sid).connected = true := by
  rcases h.call_or_outside with ⟨sid', ca, σ, -, rfl, hc⟩ | ⟨-, ho⟩
  · by_cases hs : sid = sid'
    · subst hs
      rw [Process.clients_withScope_self]
      have hsame : σ.client.connected = (g.clients sid).connected := by cases hc <;> rfl
      exact hsame.trans hon
    · rw [Process.clients_withScope_ne g sid' σ hs]
      exact hon
  · exact ho.connected sid hon

/-- The session is connected, and no unsubscribe of the symbol is under way. -/
structure Staying (g : Process) (sid : SessionId) (symbol : PyStr) : Prop where
  connected : (g.clients sid).connected = true
  call : (g.clients sid).call ≠ .unsubscribing symbol

/-- An unsubscribe begins with its request. -/
theorem Called.unsubscribing {sid : SessionId} {σ σ' : Scope} {a : CallAct} {obs : List Obs}
    (h : Called sid σ a σ' obs) {symbol : PyStr}
    (hf : σ'.client.call = .unsubscribing symbol) :
    σ.client.call = .unsubscribing symbol ∨ a = .request (.unsubscribe symbol) := by
  cases h with
  | unsubscribeBegun hc hn => exact Or.inr (by rw [Call.unsubscribing.inj hf])
  | rejected hc hn hs | overflowed hc hn => exact Or.inl hf
  | attempted hc hl =>
      rw [Scope.call_goto] at hf
      generalize (σ.channels.subscribePubsubSymbol sid _).2 = ok at hf
      rcases ok with - | - | - <;> cases hf
  | answered ok hc => cases ok <;> cases hf
  | released hc hl =>
      rw [Scope.call_goto] at hf
      split at hf <;> cases hf
  | _ => cases hf

/-- Only a request to unsubscribe ends it. -/
theorem Staying.step {g g' : Process} {a : Act} {obs : List Obs} {sid : SessionId}
    {symbol : PyStr} (hI : Staying g sid symbol) (h : Stepped g a g' obs)
    (hno : a ≠ .call sid (.request (.unsubscribe symbol))) : Staying g' sid symbol := by
  refine ⟨h.connected hI.connected, fun hf => ?_⟩
  rcases h.client sid with ⟨ca, σ, rfl, rfl, hc⟩ | hc
  · rw [Process.clients_withScope_self] at hf
    rcases hc.unsubscribing hf with hf | rfl
    · exact hI.call hf
    · exact hno rfl
  · obtain ⟨-, hcall, -⟩ := hc.settings hI.connected
    exact hI.call (hcall ▸ hf)

/-- The moves `ms` account for a run from `g` to `g'` that observed `h`. -/
structure Reseededs (sid : SessionId) (symbol : PyStr) (g g' : Process) (h : List Obs)
    (ms : List (Move Int)) : Prop where
  after : (g'.clients sid).session.lastSeq.get? symbol =
    Boundary.after ((g.clients sid).session.lastSeq.get? symbol) ms
  emitted : emissions symbol (viewed sid h) = Boundary.emitted ms
  guarded : Boundary.Guarded ((g.clients sid).session.lastSeq.get? symbol) ms

/-- **A run whose moves are all guarded is a guarded run of the boundary.** `C` is what makes
them guarded, and whatever else `C` says of each move holds of them all. -/
theorem Staying.run {C : Process → Act → Prop} {Q : Move Int → Prop} {g g' : Process}
    {acts : List Act} {h : List Obs} {sid : SessionId} {symbol : PyStr}
    (hmove : ∀ {g a c' o mv}, C g a → Reseeded g a sid symbol c' o mv →
      mv.Guard ((g.clients sid).session.lastSeq.get? symbol) ∧ Q mv)
    (hI : Staying g sid symbol) (hno : .call sid (.request (.unsubscribe symbol)) ∉ acts)
    (hC : Machine.Along Process.step C g acts)
    (hr : Machine.run Process.step g acts = some (g', h)) :
    ∃ ms, Reseededs sid symbol g g' h ms ∧ ∀ mv ∈ ms, Q mv := by
  have hC' := Machine.along_and.mpr ⟨hC, Machine.along_ne hno g⟩
  suffices key : Staying g' sid symbol ∧ ∃ ms, Reseededs sid symbol g g' h ms ∧ ∀ mv ∈ ms, Q mv from
    key.2
  refine Machine.run_invariant_along (I := fun g' h => Staying g' sid symbol ∧
    ∃ ms, Reseededs sid symbol g g' h ms ∧ ∀ mv ∈ ms, Q mv)
    ?_ ⟨hI, [], ⟨rfl, rfl, trivial⟩, by simp⟩ hC' hr
  rintro g₁ a g₂ o h₁ ⟨hf, ha⟩ ⟨hI, ms, hms, hQ⟩ hs
  have hs := Process.stepped hs
  obtain ⟨mv, hmv⟩ := hs.reseeded hI.connected hI.call
  obtain ⟨hguard, hQmv⟩ := hmove hf hmv
  refine ⟨hI.step hs ha, ms ++ [mv], ⟨?_, ?_, ?_⟩, fun m hm => ?_⟩
  · rw [Boundary.after_snoc, ← hms.after, hmv.target]
  · rw [viewed_append, emissions_append, Boundary.emitted_snoc, hms.emitted, hmv.emitted]
  · exact (Boundary.guarded_snoc _ _ _).mpr ⟨hms.guarded, hms.after ▸ hguard⟩
  · rcases List.mem_append.mp hm with hm | hm
    · exact hQ m hm
    · exact List.mem_singleton.mp hm ▸ hQmv

/-- Under the condition every move is guarded. -/
theorem Reseeded.forward {g : Process} {a : Act} {sid : SessionId} {symbol : PyStr}
    {c' : Client} {o : List Obs} {mv : Move Int} (h : Reseeded g a sid symbol c' o mv)
    (hC : ReseedsForward sid symbol g a) :
    mv.Guard ((g.clients sid).session.lastSeq.get? symbol) := by
  rcases h.guard with ⟨hguard, -⟩ | ⟨n, rfl, hn⟩
  · exact hguard
  · exact hC n hn

/-- **A client never goes backwards exactly as long as its subscribes do not.** In every run
without an unsubscribe: each activation finds a snapshot that is not behind the boundary if
and only if `last_seq` never decreases, the accepted sequence numbers never decrease, and no
incremental is accepted twice. -/
theorem never_backwards_iff {keyPrefix : String} {g g' : Process} {acts acts' : List Act}
    {h h' : List Obs} {sid : SessionId} {symbol : PyStr}
    (hr : Machine.run Process.step (.initial keyPrefix) acts = some (g, h))
    (hsub : sid ∈ g.registry.subscribers symbol)
    (hcall : (g.clients sid).call ≠ .unsubscribing symbol)
    (hno : .call sid (.request (.unsubscribe symbol)) ∉ acts')
    (hr' : Machine.run Process.step g acts' = some (g', h')) :
    Machine.Along Process.step (ReseedsForward sid symbol) g acts' ↔
      Machine.Along Process.step (KeepsBoundary sid symbol) g acts' ∧
      (emissions symbol (viewed sid h')).Pairwise (fun e e' => e.seq ≤ e'.seq) ∧
      ((emissions symbol (viewed sid h')).filterMap Emission.incremental?).Nodup := by
  have hI : Staying g sid symbol := by
    have hshake : Handshakes g := Machine.run_preserves
      (fun g a g' o hI hs => hI.step (Process.stepped hs)) (Handshakes.initial keyPrefix) hr
    exact ⟨Bool.of_not_eq_false fun hoff => ((hshake sid).absent hoff).2 symbol hsub, hcall⟩
  constructor
  · intro hC
    obtain ⟨ms, hms, -⟩ :=
      hI.run (Q := fun _ => True) (fun hf hmv => ⟨hmv.forward hf, trivial⟩) hno hC hr'
    refine ⟨?_, ?_, ?_⟩
    · refine Machine.Along.imp_of_run (P := fun g => Staying g sid symbol) ?_ hI
        (Machine.along_and.mpr ⟨hC, Machine.along_ne hno g⟩) hr'
      rintro g₁ a g₂ o hI ⟨hf, ha⟩ hs
      refine ⟨hI.step (Process.stepped hs) ha, fun g₃ o' hs' l hl => ?_⟩
      obtain ⟨mv, hmv⟩ := (Process.stepped hs').reseeded hI.connected hI.call
      rw [hmv.target]
      exact (hmv.forward hf).le_target hl
    · rw [hms.emitted]
      exact hms.guarded.emitted_le
    · rw [hms.emitted]
      exact hms.guarded.incrementals_lt.imp ne_of_lt
  · rintro ⟨hC, -⟩
    refine Machine.Along.imp_of_run (P := fun _ => True) ?_ trivial hC hr'
    intro g₁ a g₂ o _ hkeep hs
    refine ⟨trivial, fun n hn l hl => ?_⟩
    obtain ⟨l', hl', hle⟩ := hkeep g₂ o hs l hl
    rw [Process.lastSeq_of_reseed? hs hn] at hl'
    exact Option.some.inj hl' ▸ hle

/-- A session that has been given event 5 subscribes again; its handshake reads a snapshot that
is not behind 5, and event 6 follows. -/
def reseedActs : List Act :=
  [.call 0 (.request (.subscribe "A" .null)), .call 0 .go, .call 0 .go,
    .call 0 (.read (.value (some (.fromEvent (.quote "A" 5))))), .call 0 .go,
    .message (.quote "A" 6), .task 0 .take]

theorem never_backwards_reseeded :
    ∃ g h g' h',
      Machine.run Process.step (.initial "")
        (openingActs ++ [.message (.quote "A" 5), .task 0 .take]) = some (g, h) ∧
      Machine.run Process.step g reseedActs = some (g', h') ∧
      emissions "A" (viewed 0 h') = [.snapshot 5, .incremental 6] ∧
      ((emissions "A" (viewed 0 h')).filterMap Emission.incremental?).Nodup := by
  have hrun : ∃ g h g' h',
      Machine.run Process.step (.initial "")
        (openingActs ++ [.message (.quote "A" 5), .task 0 .take]) = some (g, h) ∧
      0 ∈ g.registry.subscribers "A" ∧ (g.clients 0).call = .idle ∧
      Machine.run Process.step g reseedActs = some (g', h') ∧
      emissions "A" (viewed 0 h') = [.snapshot 5, .incremental 6] ∧
      Machine.Along Process.step (ReseedsForward 0 "A") g reseedActs :=
    ⟨_, _, _, _, rfl, by decide, rfl, rfl, rfl, nofun, nofun, nofun, nofun,
      fun n hn l hl => by
        obtain rfl : 5 = n := Option.some.inj hn
        exact (Option.some.inj hl).ge, nofun, nofun, trivial⟩
  obtain ⟨g, h, g', h', hr, hsub, hcall, hr', he, hC⟩ := hrun
  have hiff := never_backwards_iff hr hsub (hcall ▸ nofun) (by simp [reseedActs]) hr'
  exact ⟨g, h, g', h', hr, hr', he, (hiff.mp hC).2.2⟩

/-- The engine takes up the next record, and both its Redis calls succeed. -/
def processActs : List (WorldAct MarketEvent) :=
  [.store (.engine .take) true, .store .redis true, .store (.engine (.updated true)) true,
    .store .redis true, .store (.engine (.published true)) true]

/-- A session subscribes before there is anything, and is given event 5. -/
def givenActs : List (WorldAct MarketEvent) :=
  openingActs.map .gateway ++
    (Engine.pollActs 0 (.quote "A" 5) ++ Engine.pollActs 1 (.quote "A" 6)).map
      (fun a => .store (.engine a) true) ++
    processActs ++ [.receive, .gateway (.task 0 .take)]

/-- It subscribes again. Between the snapshot read and the activation, event 6 is published,
received and dispatched. -/
def overtakenActs : List (WorldAct MarketEvent) :=
  [.gateway (.call 0 (.request (.subscribe "A" .null))), .gateway (.call 0 .go),
    .gateway (.call 0 .go),
    .gateway (.call 0 (.read (.value (some (.fromEvent (.quote "A" 5))))))] ++
  processActs ++
  [.receive, .gateway (.task 0 .take), .gateway (.call 0 .go), .gateway (.task 0 .take)]

/-- **Subscribing again can move a client backwards.** The snapshot read returns the value
current at that moment; the activation sets the boundary back to it, and the client is given
event 6, then the older snapshot, then event 6 once more. -/
theorem moved_backwards :
    ∃ w h w' h',
      Machine.run (World.step some) (.initial "" (1 / 10) 5) givenActs = some (w, h) ∧
      0 ∈ w.gateway.registry.subscribers "A" ∧ (w.gateway.clients 0).call = .idle ∧
      Machine.run (World.step some) w overtakenActs = some (w', h') ∧
      emissions "A" (viewed 0 (gatewayObs h')) =
        [.incremental 6, .snapshot 5, .incremental 6] ∧
      ¬ (emissions "A" (viewed 0 (gatewayObs h'))).Pairwise (fun e e' => e.seq ≤ e'.seq) ∧
      ¬ ((emissions "A" (viewed 0 (gatewayObs h'))).filterMap Emission.incremental?).Nodup := by
  have hrun : ∃ w h w' h',
      Machine.run (World.step some) (.initial "" (1 / 10) 5) givenActs = some (w, h) ∧
      0 ∈ w.gateway.registry.subscribers "A" ∧ (w.gateway.clients 0).call = .idle ∧
      Machine.run (World.step some) w overtakenActs = some (w', h') ∧
      emissions "A" (viewed 0 (gatewayObs h')) =
        [.incremental 6, .snapshot 5, .incremental 6] :=
    ⟨_, _, _, _, rfl, by decide, rfl, rfl, rfl⟩
  obtain ⟨w, h, w', h', hr, hsub, hcall, hr', he⟩ := hrun
  refine ⟨w, h, w', h', hr, hsub, hcall, hr', he, ?_, ?_⟩
  · rw [he]
    simp [Emission.seq]
  · rw [he]
    simp [Emission.incremental?]

end MarketData.Gateway
