import MarketData.Gateway.Connection

/-!
# MarketData.Gateway.RegistryLaw

**The subscription registry invariant.** Five operations edit `subscriptions`,
`initializing_subscriptions` and the `subscriptions` sets of the sessions. In every state
between two critical sections of `subscriptions_lock`:

* a session that is listed in `all_sessions` is registered for exactly the symbols it knows;
* no emptied collection is left behind (`Registry.Tidy`);
* a session is initializing a symbol exactly while its `_subscribe` is between registering
  and activation or rollback (`Call.registered?`);
* no initialization buffer grows beyond its bound;
* a session that has been cleaned up is in none of the maps, and stays out.
-/

namespace MarketData.Gateway

/-! ### No emptied collection is left behind -/

/-- Neither dictionary holds an empty collection. -/
structure Registry.Tidy (r : Registry) : Prop where
  subscriptions : ∀ symbol sessions, r.subscriptions.get? symbol = some sessions → sessions ≠ ∅
  initializing : ∀ symbol inits, r.initializing.get? symbol = some inits → inits.isEmpty = false

namespace Registry.Tidy

variable {r : Registry} {symbol : PyStr} {sid : SessionId}

theorem bufferEvent (h : r.Tidy) (e : MarketEvent) : (r.bufferEvent e).Tidy := by
  unfold Registry.bufferEvent
  split
  · exact h
  · rename_i inits hi
    refine ⟨h.subscriptions, Dict.forall_set h.initializing ?_⟩
    rw [Dict.isEmpty_mapValues]
    exact h.initializing _ inits hi

theorem beginInitialization (h : r.Tidy) : (r.beginInitialization symbol sid).Tidy :=
  ⟨h.subscriptions, Dict.forall_set h.initializing (Dict.isEmpty_set ..)⟩

theorem endInitialization (h : r.Tidy) : (r.endInitialization symbol sid).Tidy := by
  refine ⟨h.subscriptions, ?_⟩
  show ∀ symbol' inits, (if ((r.initializations symbol).erase sid).isEmpty then
    r.initializing.erase symbol else r.initializing.set symbol
      ((r.initializations symbol).erase sid)).get? symbol' = some inits → inits.isEmpty = false
  split
  · exact Dict.forall_erase h.initializing
  · rename_i hne
    exact Dict.forall_set h.initializing (Bool.eq_false_iff.mpr hne)

theorem addSubscriber (h : r.Tidy) : (r.addSubscriber symbol sid).Tidy :=
  ⟨Dict.forall_set h.subscriptions (Finset.insert_ne_empty sid _), h.initializing⟩

theorem discardSubscriber (h : r.Tidy) : (r.discardSubscriber symbol sid).1.Tidy := by
  unfold Registry.discardSubscriber
  dsimp only
  split
  · exact ⟨Dict.forall_erase h.subscriptions, h.initializing⟩
  · rename_i hne
    exact ⟨Dict.forall_set h.subscriptions hne, h.initializing⟩

theorem discardAll (h : r.Tidy) (symbols : List PyStr) : (r.discardAll sid symbols).1.Tidy := by
  induction symbols generalizing r with
  | nil => exact h
  | cons s rest ih => exact ih h.discardSubscriber

theorem cancelInitializations (h : r.Tidy) : (r.cancelInitializations sid).1.Tidy := by
  refine ⟨h.subscriptions, fun symbol inits hi => ?_⟩
  rw [Registry.cancelInitializations, Dict.get?_filterMapValues] at hi
  obtain ⟨before, -, hb⟩ := Option.bind_eq_some_iff.mp hi
  split at hb
  · cases hb
  · rename_i hne
    exact Option.some.inj hb ▸ Bool.eq_false_iff.mpr hne

theorem cleanup (h : r.Tidy) (clientId : String) (symbols : List PyStr) :
    (r.cleanup sid clientId symbols).1.Tidy := by
  have ht : (r.cancelInitializations sid).1.Tidy := h.cancelInitializations
  obtain ⟨hs, hi⟩ := @discardAll _ sid ht symbols
  exact ⟨hs, hi⟩

end Registry.Tidy

theorem Called.tidy {sid : SessionId} {σ σ' : Scope} {a : CallAct} {obs : List Obs}
    (h : Called sid σ a σ' obs) (ht : σ.registry.Tidy) : σ'.registry.Tidy := by
  cases h with
  | registered hc => exact ht.beginInitialization
  | activated hc hi ho hs => exact ht.endInitialization.addSubscriber
  | rolledBack hc => exact ht.endInitialization
  | lastUnsubscribed hc hl | unsubscribed hc hl => exact ht.discardSubscriber
  | cleaned hc ho => exact ht.cleanup _ _
  | _ => exact ht

theorem Stepped.tidy {g g' : Process} {a : Act} {obs : List Obs} (h : Stepped g a g' obs)
    (ht : g.registry.Tidy) : g'.registry.Tidy := by
  cases h with
  | call hc => exact hc.tidy ht
  | connect hc => exact ⟨ht.subscriptions, ht.initializing⟩
  | message hl => exact ht.bufferEvent _
  | task | replied | cancelled | stopped | fanout => exact ht

/-! ### One session and the registries -/

/-- The symbol of a `_subscribe` between registering its initialization and its activation or
rollback. -/
def Call.registered? : Call → Option PyStr
  | .reading symbol _ | .activating symbol _ _ _ | .rollingBack symbol false => some symbol
  | _ => none

@[simp] theorem Call.registered?_afterAttempt (symbol : PyStr)
    (filter : Option SubscriptionFilter) (attempt : Nat) (ok : Option Bool) :
    (Scope.afterAttempt symbol filter attempt ok).registered? = none := by
  rcases ok with - | - | - <;> rfl

/-- Session `sid` is registered for what it knows and for what it is doing. -/
structure Registered (sid : SessionId) (r : Registry) (c : Client) : Prop where
  known : ∀ clientId, r.allSessions.get? clientId = some sid →
    ∀ symbol ∈ c.session.subscriptions, sid ∈ r.subscribers symbol
  initializing : ∀ symbol, r.initialization? symbol sid ≠ none ↔ c.call.registered? = some symbol
  bounded : ∀ symbol i, r.initialization? symbol sid = some i →
    i.events.length ≤ initializationBufferMaxSize
  /-- From the critical section of `_cleanup` on. -/
  cleaned : c.call.inCleanup = true → c.call ≠ .cleaning → Gone sid r

/-- A buffer does not grow beyond its bound. -/
theorem SubscriptionInitialization.length_buffer {i : SubscriptionInitialization}
    (h : i.events.length ≤ initializationBufferMaxSize) (e : MarketEvent) :
    (i.buffer e).events.length ≤ initializationBufferMaxSize := by
  unfold buffer
  split
  · exact h
  · rename_i hlt
    rw [List.length_append, List.length_singleton]
    omega

namespace Registered

variable {sid : SessionId} {σ σ' : Scope} {a : CallAct} {obs : List Obs}

/-- The session's own call keeps it registered for what it knows. -/
theorem known_of_called (hR : Registered sid σ.registry σ.client)
    (hnamed : ∀ clientId, σ.registry.allSessions.get? clientId = some sid →
      clientId = σ.client.session.clientId)
    (h : Called sid σ a σ' obs) {clientId : String}
    (hlisted : σ'.registry.allSessions.get? clientId = some sid) {symbol : PyStr}
    (hmem : symbol ∈ σ'.client.session.subscriptions) : sid ∈ σ'.registry.subscribers symbol := by
  have hbefore := h.mem_allSessions hlisted
  have hknown := hR.known clientId hbefore symbol
  cases h with
  | @activated symbol' _ _ _ _ s _ hc hi ho hs =>
      have hsub : s.subscriptions = σ.client.session.subscriptions := by cases hs <;> rfl
      have hmem : symbol ∈ insert symbol' s.subscriptions := hmem
      rw [Registry.subscribers_addSubscriber, Registry.subscribers_endInitialization]
      split
      · exact Finset.mem_insert_self ..
      · rename_i hne
        exact hknown (hsub ▸ (Finset.mem_insert.mp hmem).resolve_left (Ne.symm hne))
  | @lastUnsubscribed symbol' hc hl | @unsubscribed symbol' hc hl =>
      obtain ⟨hne, hmem⟩ := Finset.mem_erase.mp hmem
      rw [Scope.registry_goto, Scope.registry_withSession,
        Registry.subscribers_discardSubscriber, if_neg (Ne.symm hne)]
      exact hknown hmem
  | cleaned hc ho =>
      -- it is listed under its own id only, which `_cleanup` has just removed
      obtain rfl := hnamed clientId hbefore
      rw [Scope.registry_goto, Registry.allSessions_cleanup, Dict.get?_erase_self] at hlisted
      cases hlisted
  | rejected hc hn hs | unavailable hc hs | failed hc hs =>
      obtain ⟨_, _, _, rfl⟩ := hs.session
      exact hknown hmem
  | _ => exact hknown hmem

/-- Its initialization comes and goes with its `_subscribe`. -/
theorem initializing_of_called (hR : Registered sid σ.registry σ.client)
    (h : Called sid σ a σ' obs) (symbol : PyStr) :
    σ'.registry.initialization? symbol sid ≠ none ↔ σ'.client.call.registered? = some symbol := by
  have hbefore := hR.initializing symbol
  have hnone : ∀ {r : Registry} {call : Call}, r.initialization? symbol sid = none →
      call.registered? = none →
      (r.initialization? symbol sid ≠ none ↔ call.registered? = some symbol) := by
    intro r call hr hcall
    rw [hr, hcall]
    simp
  cases h with
  | @registered symbol' filter hc =>
      rw [hc] at hbefore
      rw [Scope.registry_goto, Registry.initialization?_beginInitialization, Scope.call_goto]
      by_cases hs : symbol' = symbol
      · simp [hs, Call.registered?]
      · simpa [hs, Call.registered?] using hbefore
  | @activated symbol' _ _ _ _ _ _ hc | @rolledBack symbol' _ hc =>
      refine hnone ?_ rfl
      show (σ.registry.endInitialization symbol' sid).initialization? symbol sid = none
      rw [Registry.initialization?_endInitialization]
      by_cases hs : symbol' = symbol
      · exact if_pos ⟨hs, rfl⟩
      · rw [if_neg (fun h => hs h.1)]
        refine Classical.not_not.mp fun hne => hs ?_
        have := hbefore.mp hne
        rw [hc] at this
        unfold Call.registered? at this
        grind
  | cleaned hc ho =>
      refine hnone ?_ rfl
      rw [Scope.registry_goto, Registry.initialization?_cleanup, if_pos rfl]
  | lastUnsubscribed hc hl | unsubscribed hc hl =>
      rw [hc] at hbefore
      rw [Scope.registry_goto, Scope.registry_withSession,
        Registry.initialization?_discardSubscriber]
      exact hbefore
  | released hc hl =>
      rw [hc] at hbefore
      rw [Scope.call_goto]
      split <;> exact hbefore
  | attempted hc hl | answered ok hc =>
      rw [hc] at hbefore
      rw [Scope.call_goto, Call.registered?_afterAttempt]
      exact hbefore
  | overflowed hc hn | rejected hc hn hs => exact hbefore
  | parsed hc | unsubscribeBegun hc | cleanupBegun hc | slept hc | unavailable hc | read hc
  | failed hc | inUse hc | unused hc | dropped ok hc | finished hc | closing hc | closed hc =>
      rw [hc] at hbefore
      exact hbefore

/-- **A step of its own call keeps a session registered.** -/
theorem called (hR : Registered sid σ.registry σ.client) (hI : Handshake sid σ.registry σ.client)
    (hnamed : ∀ clientId, σ.registry.allSessions.get? clientId = some sid →
      clientId = σ.client.session.clientId)
    (h : Called sid σ a σ' obs) : Registered sid σ'.registry σ'.client where
  known _ hlisted _ hmem := hR.known_of_called hnamed h hlisted hmem
  initializing symbol := hR.initializing_of_called h symbol
  bounded symbol i hi := by
    rcases hI.initialization_of_called h symbol with ⟨heq, -⟩ | heq | ⟨heq, -⟩
    · exact hR.bounded symbol i (heq.symm.trans hi)
    · rw [heq] at hi
      cases hi
    · obtain rfl := Option.some.inj (heq.symm.trans hi)
      exact Nat.zero_le _
  cleaned hin hne := by
    cases hbefore : σ.client.call.inCleanup with
    | true => exact (h.cleanup_continues hI hnamed (hR.cleaned hbefore) hbefore).1
    | false =>
        by_cases ha : a = .request .cleanup
        · subst ha
          cases h with
          | cleanupBegun => exact absurd rfl hne
        · rw [(h.not_inCleanup ha hbefore).1] at hin
          cases hin

/-- **A step the session does not take itself keeps it registered.** -/
theorem of_bystander {g g' : Process} {a : Act}
    (hR : Registered sid g.registry (g.clients sid)) (h : Stepped g a g' obs)
    (hne : a.owner? ≠ some sid) : Registered sid g'.registry (g'.clients sid) := by
  have hb := h.bystander hne
  have hsubs : (g'.clients sid).session.subscriptions = (g.clients sid).session.subscriptions := by
    rcases h.client_of_bystander hne with hsame | ⟨pa, p, o, hp, hsame⟩
    · rw [hsame]
    · rw [hsame]
      exact (Pipeline.step_settings hp).subscriptions
  -- another session's call is in its frame, and a message only fills the buffers
  have hreg :
      ∀ symbol, (sid ∈ g'.registry.subscribers symbol ↔ sid ∈ g.registry.subscribers symbol) ∧
      (g'.registry.initialization? symbol sid = g.registry.initialization? symbol sid ∨
        ∃ e : MarketEvent, g'.registry.initialization? symbol sid =
          (g.registry.initialization? symbol sid).map (·.buffer e)) := by
    intro symbol
    rcases h.call_or_outside with ⟨sid', ca, σ, rfl, rfl, hc⟩ | ⟨-, ho⟩
    · have hs : sid ≠ sid' := fun heq => hne (congrArg some heq.symm)
      exact ⟨(hc.frame hs symbol).2, Or.inl (hc.frame hs symbol).1⟩
    · refine ⟨by rw [ho.subscribers], (ho.initialization symbol sid).imp_right ?_⟩
      intro hbuf
      obtain ⟨e, -, he⟩ := hbuf
      exact ⟨e, he⟩
  refine ⟨fun clientId hlisted symbol hmem => ?_, fun symbol => ?_, fun symbol i hi => ?_,
    fun hin hnc => ?_⟩
  · rw [hsubs] at hmem
    exact (hreg symbol).1.mpr (hR.known clientId (hb.allSessions clientId hlisted) symbol hmem)
  · rw [hb.call, ← hR.initializing symbol]
    rcases (hreg symbol).2 with heq | ⟨e, heq⟩
    · rw [heq]
    · rw [heq, Ne, Option.map_eq_none_iff]
  · rcases (hreg symbol).2 with heq | ⟨e, heq⟩
    · exact hR.bounded symbol i (heq.symm.trans hi)
    · obtain ⟨i', hi', rfl⟩ := Option.map_eq_some_iff.mp (heq.symm.trans hi)
      exact SubscriptionInitialization.length_buffer (hR.bounded symbol i' hi') e
  · rw [hb.call] at hin hnc
    exact hb.gone (hR.cleaned hin hnc)

end Registered

/-! ### Every state of a run -/

/-- What holds of the registries in every state between critical sections. -/
structure RegistryLaw (g : Process) : Prop where
  handshakes : Handshakes g
  named : Named g
  tidy : g.registry.Tidy
  sessions : ∀ sid, Registered sid g.registry (g.clients sid)

namespace RegistryLaw

variable {g g' : Process} {a : Act} {obs : List Obs}

theorem initial (keyPrefix : String) : RegistryLaw (.initial keyPrefix) where
  handshakes := .initial keyPrefix
  named _ _ h := by cases h
  tidy := ⟨(fun _ _ h => by cases h), (fun _ _ h => by cases h)⟩
  sessions _ :=
    { known := (fun _ h => by cases h)
      initializing := fun _ => iff_of_false (fun h => h rfl) (fun h => by cases h)
      bounded := (fun _ _ h => by cases h)
      cleaned := (fun h => by cases h) }

/-- **Every step keeps the law.** -/
theorem step (hI : RegistryLaw g) (h : Stepped g a g' obs) : RegistryLaw g' where
  handshakes := hI.handshakes.step h
  named := hI.named.step h
  tidy := h.tidy hI.tidy
  sessions sid := by
    by_cases hown : a.owner? = some sid
    · have hR := hI.sessions sid
      cases h with
      | @call _ _ σ _ hc =>
          obtain rfl := Option.some.inj hown
          rw [Process.registry_withScope, Process.clients_withScope_self]
          exact hR.called (hI.handshakes _) (fun clientId hl => (hI.named _ clientId hl).1) hc
      | @connect sid' clientId policy mode encoding hc =>
          -- a new session knows no symbol, and there was no call before it
          obtain rfl := Option.some.inj hown
          have hcall := ((hI.handshakes sid').absent hc).1
          have hself :=
            g.clients_withClient_self sid' ((g.clients sid').connect clientId policy mode encoding)
          have hclient :
              ∀ r, ({ g.withClient sid' ((g.clients sid').connect clientId policy mode encoding)
              with registry := r } : Process).clients sid' =
              (g.clients sid').connect clientId policy mode encoding := fun _ => hself
          rw [hclient]
          refine ⟨fun _ _ symbol hmem => absurd hmem (Finset.notMem_empty symbol),
            hR.initializing, hR.bounded, fun hin => ?_⟩
          replace hin : (g.clients sid').call.inCleanup = true := hin
          rw [hcall] at hin
          cases hin
      | cancelled =>
          obtain rfl := Option.some.inj hown
          rw [Process.clients_withClient_self]
          exact ⟨hR.known, hR.initializing, hR.bounded, hR.cleaned⟩
      | stopped =>
          obtain rfl := Option.some.inj hown
          rw [Process.clients_withClient_self]
          exact ⟨hR.known, hR.initializing, hR.bounded, hR.cleaned⟩
      | task | replied | fanout | message => cases hown
    · exact (hI.sessions sid).of_bystander h hown

theorem run {keyPrefix : String} {acts : List Act}
    (hr : Machine.run Process.step (.initial keyPrefix) acts = some (g, obs)) : RegistryLaw g :=
  Machine.run_preserves (fun _ _ _ _ hI hs => hI.step (Process.stepped hs)) (initial keyPrefix) hr

end RegistryLaw

/-! ### After `_cleanup` -/

/-- `_cleanup` is a session's last call. -/
def CleanupLast (acts : List Act) : Prop :=
  acts.Pairwise fun a b => ∀ sid, a = .call sid (.request .cleanup) →
    ∀ r, b ≠ .call sid (.request r)

/-- A session for which `_cleanup` has not been called is not in it. -/
theorem Process.run_not_inCleanup {keyPrefix : String} {g : Process} {acts : List Act}
    {h : List Obs} (hr : Machine.run step (.initial keyPrefix) acts = some (g, h))
    {sid : SessionId} (hno : .call sid (.request .cleanup) ∉ acts) :
    (g.clients sid).call.inCleanup = false := by
  refine Machine.run_invariant_along (I := fun g _ => (g.clients sid).call.inCleanup = false)
    ?_ rfl (Machine.along_ne hno _) hr
  intro g₁ a g₂ o _ hne hcall hs
  rcases (stepped hs).call_or_outside with ⟨sid', ca, σ, rfl, rfl, hc⟩ | ⟨-, ho⟩
  · by_cases hs : sid = sid'
    · subst hs
      rw [clients_withScope_self]
      exact (hc.not_inCleanup (fun heq => hne (congrArg _ heq)) hcall).1
    · rw [clients_withScope_ne g₁ sid' σ hs]
      exact hcall
  · rw [ho.call]
    exact hcall

/-- When `_cleanup` returns, the session is in none of the registries and has no call. -/
theorem Stepped.cleaned {g g' : Process} {a : Act} {obs : List Obs} (h : Stepped g a g' obs)
    (hI : RegistryLaw g) {sid : SessionId} (hmem : .returned sid .cleanup ∈ obs) :
    (g.clients sid).call.inCleanup = true ∧ Gone sid g'.registry ∧
      (g'.clients sid).call = .idle := by
  rcases h.call_or_outside with ⟨sid', ca, σ, rfl, rfl, hc⟩ | ⟨hno, -⟩
  · obtain rfl := hc.returned_own hmem
    rw [Process.clients_withScope_self]
    cases hc.observed hmem with
    | returned hidle hr =>
        have hin : (g.clients sid).call.inCleanup = true := by
          rcases hr with hr | ⟨-, symbol, hr⟩
          · rw [Process.client_scope] at hr
            cases hcall : (g.clients sid).call <;> rw [hcall] at hr <;> cases hr <;> rfl
          · cases hr
        exact ⟨hin, (hc.cleanup_continues (hI.handshakes sid)
          (fun clientId hl => (hI.named sid clientId hl).1) ((hI.sessions sid).cleaned hin) hin).1,
          hidle⟩
  · exact absurd hmem (h.not_returned hno)

/-- A session that is gone, has no call and calls nothing stays out. -/
theorem Gone.run {g g' : Process} {acts : List Act} {h : List Obs} {sid : SessionId}
    (hg : Gone sid g.registry) (hidle : (g.clients sid).call = .idle)
    (hon : (g.clients sid).connected = true)
    (hno : ∀ a ∈ acts, ∀ r, a ≠ .call sid (.request r))
    (hr : Machine.run Process.step g acts = some (g', h)) : Gone sid g'.registry := by
  refine (Machine.run_invariant_along (C := fun _ a => ∀ r, a ≠ Act.call sid (.request r))
    (I := fun g _ => Gone sid g.registry ∧ (g.clients sid).call = .idle ∧
      (g.clients sid).connected = true) ?_ ⟨hg, hidle, hon⟩
    (Machine.along_of_forall hno g) hr).1
  intro g₁ a g₂ o _ hC hI hs
  obtain ⟨hg, hidle, hon⟩ := hI
  have hstep := Process.stepped hs
  by_cases hown : a.owner? = some sid
  · cases hstep with
    | @call _ ca σ _ hc =>
        obtain rfl := Option.some.inj hown
        cases hc with
        | parsed | rejected | overflowed | unsubscribeBegun | cleanupBegun =>
            exact absurd rfl (hC _)
        | attempted hc | answered _ hc | slept hc | unavailable hc | registered hc | read hc
        | failed hc | activated hc | rolledBack hc | inUse hc | unused hc | lastUnsubscribed hc
        | unsubscribed hc | cleaned hc | released hc | dropped _ hc | finished hc | closing hc
        | closed hc => exact absurd (hidle.symm.trans hc) (fun h => by cases h)
    | connect hc =>
        obtain rfl := Option.some.inj hown
        exact absurd (hon.symm.trans hc) (fun h => by cases h)
    | cancelled =>
        obtain rfl := Option.some.inj hown
        rw [Process.clients_withClient_self]
        exact ⟨hg, hidle, hon⟩
    | stopped =>
        obtain rfl := Option.some.inj hown
        rw [Process.clients_withClient_self]
        exact ⟨hg, hidle, hon⟩
    | task | replied | fanout | message => cases hown
  · have hb := hstep.bystander hown
    exact ⟨hb.gone hg, hb.call.trans hidle, hb.connected.trans hon⟩

/-- **The subscription registry invariant.** In every state of every run: a listed session is
registered for exactly the symbols it knows; no empty collection is left in either map; a
session is initializing a symbol exactly while its `_subscribe` is between registering and
activation or rollback; no buffer exceeds its bound; and a session whose `_cleanup`, its last
call, has returned is in none of the maps. -/
theorem registry_law {keyPrefix : String} {g : Process} {acts : List Act} {h : List Obs}
    (hlast : CleanupLast acts)
    (hr : Machine.run Process.step (.initial keyPrefix) acts = some (g, h)) :
    (∀ clientId sid, g.registry.allSessions.get? clientId = some sid → ∀ symbol,
      (sid ∈ g.registry.subscribers symbol ↔
        symbol ∈ (g.clients sid).session.subscriptions)) ∧
    (∀ symbol sessions, g.registry.subscriptions.get? symbol = some sessions → sessions ≠ ∅) ∧
    (∀ symbol inits, g.registry.initializing.get? symbol = some inits → inits.isEmpty = false) ∧
    (∀ sid symbol, g.registry.initialization? symbol sid ≠ none ↔
      (g.clients sid).call.registered? = some symbol) ∧
    (∀ sid symbol i, g.registry.initialization? symbol sid = some i →
      i.events.length ≤ initializationBufferMaxSize) ∧
    ∀ sid, .returned sid .cleanup ∈ h → Gone sid g.registry := by
  have hI : RegistryLaw g := .run hr
  refine ⟨fun clientId sid hl symbol => ⟨(hI.handshakes sid).owned symbol,
    (hI.sessions sid).known clientId hl symbol⟩, hI.tidy.subscriptions, hI.tidy.initializing,
    fun sid => (hI.sessions sid).initializing, fun sid => (hI.sessions sid).bounded,
    fun sid hmem => ?_⟩
  -- at the return the session is gone, and nothing it could call is left of the run
  obtain ⟨as₁, a, as₂, g₁, g₂, h₁, o, h₂, rfl, rfl, hr₁, hs, hr₂, -, ⟨_, hret, rfl⟩⟩ :=
    Machine.run_split (p := (· = .returned sid .cleanup)) hr ⟨_, hmem, rfl⟩
  have hI₁ : RegistryLaw g₁ := .run hr₁
  have hstep := Process.stepped hs
  obtain ⟨hin, hgone, hidle⟩ := hstep.cleaned hI₁ hret
  have hcalled : .call sid (.request .cleanup) ∈ as₁ := by
    by_contra hno
    rw [Process.run_not_inCleanup hr₁ hno] at hin
    cases hin
  have hon : (g₂.clients sid).connected = true := by
    have hbusy : (g₁.clients sid).call ≠ .idle := by
      intro hc
      rw [hc] at hin
      cases hin
    have hon₁ := (hI₁.handshakes sid).connected hbusy
    rcases hstep.client sid with ⟨ca, σ, -, rfl, hc⟩ | hc
    · rw [Process.clients_withScope_self]
      exact hc.identity.2.1.trans hon₁
    · exact (hc.settings hon₁).2.2.trans hon₁
  refine hgone.run hidle hon (fun b hb r => ?_) hr₂
  exact (List.pairwise_append.mp hlast).2.2 _ hcalled b (List.mem_cons_of_mem a hb) sid rfl r

/-- Two sessions on one symbol; an event arrives during the handshake of the second; the first
one leaves, and another event arrives. -/
def registryActs : List Act :=
  openingActs ++
    [.call 1 (.request (.subscribe "A" .null)), .call 1 .go, .call 1 .go, .message (.quote "A" 5),
      .call 1 (.read (.value none)), .call 1 .go, .call 1 .go, .call 1 .go,
      .call 0 (.request .cleanup), .call 0 (.clean ["A"]), .call 0 .go, .call 0 .go,
      .message (.quote "A" 6)]

theorem registry_law_cleanup :
    ∃ g h, Machine.run Process.step (.initial "") registryActs = some (g, h) ∧
      .returned 0 .cleanup ∈ h ∧ Gone 0 g.registry ∧
      (1 ∈ g.registry.subscribers "A" ↔ ("A" : PyStr) ∈ (g.clients 1).session.subscriptions) := by
  have hrun : ∃ g h, Machine.run Process.step (.initial "") registryActs = some (g, h) ∧
      .returned 0 .cleanup ∈ h ∧ g.registry.allSessions.get? "c1" = some 1 :=
    ⟨_, _, rfl, by decide, rfl⟩
  obtain ⟨g, h, hr, hret, hlisted⟩ := hrun
  have hlaw := registry_law (by simp [CleanupLast, registryActs, openingActs]) hr
  exact ⟨g, h, hr, hret, hlaw.2.2.2.2.2 0 hret, hlaw.1 "c1" 1 hlisted "A"⟩

end MarketData.Gateway
