import MarketData.Gateway.Interleaving

/-!
# MarketData.Gateway.ChannelLaw

**On-demand channels.** The gateway wants a symbol's Pub/Sub channel exactly while somebody
is subscribed to it. Two registries under two locks have to agree, and four operations
update them in separate critical sections.

One direction always holds: whoever makes a channel wanted, or removes its last subscriber,
stays responsible for it until somebody is subscribed or it is given up (`wanted`). The
other direction needs that no channel is given up while it is needed (`GivenUpUnused`).
`_remove_desired_channel_if_unused` looks before it gives a channel up;
`_unsubscribe` and `_cleanup` look at the subscribers only, and at an earlier moment, so a
handshake that has its channel confirmed can lose it (`channel_given_up`).
-/

namespace MarketData.Gateway

/-- The symbol of a handshake that has its channel confirmed and will not ask again. -/
def Call.handshake? : Call → Option PyStr
  | .registering symbol _ | .reading symbol _ | .activating symbol _ _ _ => some symbol
  | _ => none

/-- The symbol whose channel the call takes to be wanted. -/
def Call.wants? : Call → Option PyStr
  | .confirming symbol _ _ => some symbol
  | call => call.handshake?

/-- The call made the symbol's channel wanted, or removed its last subscriber, and will
still see to it that the channel is given up if nobody uses it. -/
def Call.Responsible (symbol : PyStr) : Call → Prop
  | .ensuring s _ attempt => s = symbol ∧ 0 < attempt
  | .confirming s _ _ | .sleeping s _ _ | .registering s _ | .reading s _
  | .activating s _ _ _ | .rollingBack s _ | .checkingUnused s _ => s = symbol
  | .releasing symbols _ | .dropping symbols _ => symbol ∈ symbols
  | _ => False

theorem Call.responsible_of_initializes {call : Call} {symbol : PyStr}
    (h : call.initializes? = some symbol) : call.Responsible symbol := by
  cases call <;> simp_all [initializes?, Responsible]

/-- After an attempt to confirm its channel a call is responsible for it. -/
theorem Call.responsible_afterAttempt (symbol : PyStr) (filter : Option SubscriptionFilter)
    (attempt : Nat) (ok : Option Bool) :
    (Scope.afterAttempt symbol filter attempt ok).Responsible symbol := by
  rcases ok with - | - | - <;> rfl

/-- The channel a call takes to be wanted after an attempt is the one it attempted. -/
theorem Call.symbol_of_wants_afterAttempt {symbol symbol' : PyStr}
    {filter : Option SubscriptionFilter} {attempt : Nat} {ok : Option Bool}
    (h : (Scope.afterAttempt symbol filter attempt ok).wants? = some symbol') :
    symbol = symbol' := by
  rcases ok with - | - | -
  · exact Option.some.inj h
  · cases h
  · exact Option.some.inj h

/-- Nobody is subscribed to the symbol, and no handshake relies on its channel. -/
def Process.Unused (g : Process) (symbol : PyStr) : Prop :=
  g.registry.subscribers symbol = ∅ ∧ ∀ sid, (g.clients sid).call.handshake? ≠ some symbol

/-- **The condition**: when a step gives a wanted channel up, its symbol is unused. -/
def GivenUpUnused (g : Process) : Act → Prop
  | .call sid .go =>
    match (g.clients sid).call with
    | .releasing (symbol :: _) _ => g.channels.Active symbol → g.Unused symbol
    | _ => True
  | _ => True

/-! ### One step of a call -/

namespace Called

variable {sid : SessionId} {σ σ' : Scope} {a : CallAct} {obs : List Obs} {symbol : PyStr}

/-- Only an attempt to confirm a channel makes it wanted. -/
theorem newly_active (h : Called sid σ a σ' obs) (hact : σ'.channels.Active symbol) :
    σ.channels.Active symbol ∨ σ'.client.call.Responsible symbol := by
  cases h with
  | attempted hc hl =>
      refine ((Channels.active_subscribePubsubSymbol ..).mp hact).imp id ?_
      rintro rfl
      exact Call.responsible_afterAttempt ..
  | answered ok hc => exact Or.inl ((Channels.active_subscribeAnswered ..).mp hact)
  | released hc hl => exact Or.inl ((Channels.active_unsubscribePubsubSymbol ..).mp hact).1
  | _ => exact Or.inl hact

/-- A call that removes the last subscriber of a symbol becomes responsible for it. -/
theorem subscribers_kept (h : Called sid σ a σ' obs) (hs : σ.registry.subscribers symbol ≠ ∅) :
    σ'.registry.subscribers symbol ≠ ∅ ∨ σ'.client.call.Responsible symbol := by
  cases h with
  | activated hc hi ho hseed =>
      refine Or.inl ?_
      rw [Registry.subscribers_addSubscriber]
      split
      · exact Finset.insert_ne_empty sid _
      · exact hs
  | @lastUnsubscribed symbol' hc hl =>
      by_cases heq : symbol' = symbol
      · exact Or.inr (List.mem_singleton.mpr heq.symm)
      · refine Or.inl ?_
        rwa [Scope.registry_goto, Scope.registry_withSession,
          Registry.subscribers_discardSubscriber, if_neg heq]
  | @unsubscribed symbol' hc hl =>
      refine Or.inl ?_
      by_cases heq : symbol' = symbol
      · subst heq
        intro hempty
        rw [(Registry.discardSubscriber_last ..).mpr hempty] at hl
        cases hl
      · rwa [Scope.registry_goto, Scope.registry_withSession,
          Registry.subscribers_discardSubscriber, if_neg heq]
  | @cleaned order hc ho =>
      by_cases hmem : symbol ∈ order
      · by_cases hempty : (σ.registry.cleanup sid σ.client.session.clientId order).1.subscribers
            symbol = ∅
        · exact Or.inr (Registry.mem_cleanup _ _ _ _ hmem hempty)
        · exact Or.inl hempty
      · refine Or.inl ?_
        rwa [Scope.registry_goto, Registry.subscribers_cleanup, if_neg hmem]
  | _ => exact Or.inl hs

/-- A responsible call stays so until it has given the channel up, or has seen that the
symbol is in use. -/
theorem responsible_kept (h : Called sid σ a σ' obs)
    (hI : Handshake sid σ.registry σ.client) (hr : σ.client.call.Responsible symbol)
    (hact : σ'.channels.Active symbol) :
    σ'.client.call.Responsible symbol ∨ σ'.registry.subscribers symbol ≠ ∅ ∨
      ∃ sid', sid' ≠ sid ∧ σ.registry.initialization? symbol sid' ≠ none := by
  cases h with
  | parsed hc | rejected hc | overflowed hc | unsubscribeBegun hc | cleanupBegun hc
  | lastUnsubscribed hc | unsubscribed hc | cleaned hc | closed hc =>
      rw [hc] at hr
      exact hr.elim
  | finished hc | closing hc =>
      rw [hc] at hr
      exact absurd hr List.not_mem_nil
  | attempted hc hl =>
      rw [hc] at hr
      obtain rfl := hr.1
      exact Or.inl (Call.responsible_afterAttempt ..)
  | answered ok hc =>
      rw [hc] at hr
      obtain rfl := hr
      exact Or.inl (Call.responsible_afterAttempt ..)
  | slept hc hlt =>
      rw [hc] at hr
      exact Or.inl ⟨hr, Nat.succ_pos _⟩
  | unused hc hu =>
      rw [hc] at hr
      exact Or.inl (List.mem_singleton.mpr hr.symm)
  | released hc hl =>
      rw [hc] at hr
      have hrest := (List.mem_cons.mp hr).resolve_left
        (Ne.symm ((Channels.active_unsubscribePubsubSymbol ..).mp hact).2)
      refine Or.inl ?_
      rw [Scope.call_goto]
      split <;> exact hrest
  | inUse hc hu =>
      rw [hc] at hr
      obtain rfl := hr
      rcases (Registry.inUse_iff ..).mp hu with hs | ⟨sid', hi⟩
      · exact Or.inr (Or.inl hs)
      · refine Or.inr (Or.inr ⟨sid', ?_, hi⟩)
        rintro rfl
        exact hi (hI.initialization?_eq_none (by rw [hc]; rfl) _)
  | unavailable hc | registered hc | read hc | failed hc | activated hc | rolledBack hc
  | dropped ok hc =>
      rw [hc] at hr
      exact Or.inl hr

/-- A call that takes a channel to be wanted has made it so itself. -/
theorem wants_kept (h : Called sid σ a σ' obs) (hw : σ'.client.call.wants? = some symbol) :
    σ.client.call.wants? = some symbol ∨ σ'.channels.Active symbol := by
  cases h with
  | attempted hc hl =>
      refine Or.inr ((Channels.active_subscribePubsubSymbol ..).mpr (Or.inr ?_))
      exact Call.symbol_of_wants_afterAttempt hw
  | answered ok hc =>
      rw [hc]
      cases ok with
      | true => exact Or.inl hw
      | false => cases hw
  | released hc hl =>
      rw [Scope.call_goto] at hw
      split at hw <;> cases hw
  | registered hc | read hc =>
      rw [hc]
      exact Or.inl hw
  | rejected hc | overflowed hc => exact Or.inl hw
  | parsed | unsubscribeBegun | cleanupBegun | slept | unavailable | failed | activated
  | rolledBack | inUse | unused | lastUnsubscribed | unsubscribed | cleaned | dropped | finished
  | closing | closed => cases hw

/-- A session becomes a subscriber only at the end of a handshake. -/
theorem subscriber_of_handshake (h : Called sid σ a σ' obs)
    (hs : sid ∈ σ'.registry.subscribers symbol) :
    sid ∈ σ.registry.subscribers symbol ∨ σ.client.call.handshake? = some symbol := by
  cases h with
  | @activated symbol' _ _ _ _ _ _ hc =>
      by_cases heq : symbol' = symbol
      · exact Or.inr (by rw [hc]; exact congrArg some heq)
      · rw [Registry.subscribers_addSubscriber, if_neg heq] at hs
        exact Or.inl hs
  | lastUnsubscribed hc hl | unsubscribed hc hl =>
      rw [Scope.registry_goto, Scope.registry_withSession,
        Registry.subscribers_discardSubscriber] at hs
      split at hs
      · exact absurd rfl (Finset.ne_of_mem_erase hs)
      · exact Or.inl hs
  | cleaned hc ho =>
      rw [Scope.registry_goto, Registry.subscribers_cleanup] at hs
      split at hs
      · exact absurd rfl (Finset.ne_of_mem_erase hs)
      · exact Or.inl hs
  | _ => exact Or.inl hs

/-- Only `_unsubscribe_pubsub_symbol` gives a channel up, and it holds the lock to do so. -/
theorem active_kept (h : Called sid σ a σ' obs) (hact : σ.channels.Active symbol) :
    σ'.channels.Active symbol ∨
    (a = .go ∧ σ.channels.pubsubLock = none ∧
      ∃ rest result, σ.client.call = .releasing (symbol :: rest) result) := by
  cases h with
  | attempted hc hl => exact Or.inl ((Channels.active_subscribePubsubSymbol ..).mpr (Or.inl hact))
  | answered ok hc => exact Or.inl ((Channels.active_subscribeAnswered ..).mpr hact)
  | @released symbol' rest result hc hl =>
      by_cases heq : symbol' = symbol
      · subst heq
        exact Or.inr ⟨rfl, hl, rest, result, hc⟩
      · exact Or.inl ((Channels.active_unsubscribePubsubSymbol ..).mpr ⟨hact, heq⟩)
  | _ => exact Or.inl hact

end Called

/-! ### The invariant -/

/-- What holds in every state of a run that gives up unused channels only. -/
structure ChannelLaw (g : Process) : Prop where
  locking : Locking g
  handshakes : Handshakes g
  subscribed : ∀ sid symbol, sid ∈ g.registry.subscribers symbol → g.channels.Active symbol
  confirmed : ∀ sid symbol, (g.clients sid).call.wants? = some symbol → g.channels.Active symbol
  wanted : ∀ symbol, g.channels.Active symbol →
    g.registry.subscribers symbol ≠ ∅ ∨ ∃ sid, (g.clients sid).call.Responsible symbol

namespace ChannelLaw

theorem initial (keyPrefix : String) : ChannelLaw (.initial keyPrefix) where
  locking := .initial keyPrefix
  handshakes := .initial keyPrefix
  subscribed _ _ h := absurd h (Finset.notMem_empty _)
  confirmed _ _ h := nomatch h
  wanted _ h := absurd h (Finset.notMem_empty _)

variable {g g' : Process} {a : Act} {obs : List Obs}

/-- What is still needed stays wanted. -/
theorem active_kept (hI : ChannelLaw g) {sid : SessionId} {ca : CallAct} {σ : Scope}
    (hC : GivenUpUnused g (.call sid ca)) (h : Called sid (g.scope sid) ca σ obs)
    {symbol : PyStr} (hact : g.channels.Active symbol)
    (hneed : (∃ sid', sid' ∈ g.registry.subscribers symbol) ∨
      ∃ sid', (g.clients sid').call.wants? = some symbol) : σ.channels.Active symbol := by
  rcases h.active_kept hact with h | ⟨rfl, hlock, rest, result, hc⟩
  · exact h
  · exfalso
    have hunused : g.Unused symbol := by
      rw [Process.client_scope] at hc
      simp only [GivenUpUnused, hc] at hC
      exact hC hact
    rcases hneed with ⟨sid', hmem⟩ | ⟨sid', hw⟩
    · rw [hunused.1] at hmem
      exact absurd hmem (Finset.notMem_empty _)
    · -- a session that awaits Redis holds the lock, so it is past that await
      have hawait : ¬ (g.clients sid').call.AwaitsRedis := by
        intro haw
        have := hI.locking.sessions sid' haw
        rw [Process.channels_scope] at hlock
        rw [hlock] at this
        cases this
      refine hunused.2 sid' ?_
      cases hcall : (g.clients sid').call with
      | confirming symbol' filter attempt =>
          rw [hcall] at hawait
          exact absurd trivial hawait
      | _ =>
          rw [hcall] at hw
          exact hw

/-- **Every step that gives up unused channels only keeps the law.** -/
theorem step (hI : ChannelLaw g) (hC : GivenUpUnused g a) (h : Stepped g a g' obs) :
    ChannelLaw g' := by
  refine ⟨hI.locking.step h, hI.handshakes.step h, ?_, ?_, ?_⟩
  all_goals rcases h.call_or_outside with ⟨sid, ca, σ, rfl, rfl, hc⟩ | ⟨-, ho⟩
  -- subscribed
  · intro sid' symbol hmem
    have hframe : sid' ∈ g.registry.subscribers symbol ∨
        (g.clients sid').call.handshake? = some symbol := by
      by_cases hs : sid' = sid
      · subst hs
        exact hc.subscriber_of_handshake hmem
      · exact Or.inl ((hc.frame hs symbol).2.mp hmem)
    rcases hframe with hmem | hhand
    · exact hI.active_kept hC hc (hI.subscribed sid' symbol hmem) (Or.inl ⟨sid', hmem⟩)
    · have hw : (g.clients sid').call.wants? = some symbol := by
        cases hcall : (g.clients sid').call <;> simp_all [Call.wants?, Call.handshake?]
      exact hI.active_kept hC hc (hI.confirmed sid' symbol hw) (Or.inr ⟨sid', hw⟩)
  · intro sid' symbol hmem
    exact (ho.active symbol).mpr (hI.subscribed sid' symbol (ho.subscribers symbol ▸ hmem))
  -- confirmed
  · intro sid' symbol hw
    by_cases hs : sid' = sid
    · subst hs
      rw [Process.clients_withScope_self] at hw
      rcases hc.wants_kept hw with hw | hact
      · exact hI.active_kept hC hc (hI.confirmed sid' symbol hw) (Or.inr ⟨sid', hw⟩)
      · exact hact
    · rw [Process.clients_withScope_ne g sid σ hs] at hw
      exact hI.active_kept hC hc (hI.confirmed sid' symbol hw) (Or.inr ⟨sid', hw⟩)
  · intro sid' symbol hw
    rw [ho.call] at hw
    exact (ho.active symbol).mpr (hI.confirmed sid' symbol hw)
  -- wanted
  · intro symbol hact
    have hother : ∀ sid', sid' ≠ sid → (g.clients sid').call.Responsible symbol →
        ∃ sid', ((g.withScope sid σ).clients sid').call.Responsible symbol := by
      intro sid' hs hr
      exact ⟨sid', by rwa [Process.clients_withScope_ne g sid σ hs]⟩
    have hself : σ.client.call.Responsible symbol →
        ∃ sid', ((g.withScope sid σ).clients sid').call.Responsible symbol :=
      fun hr => ⟨sid, by rwa [Process.clients_withScope_self]⟩
    rcases hc.newly_active hact with hold | hr
    · rcases hI.wanted symbol hold with hs | ⟨sid', hr⟩
      · exact (hc.subscribers_kept hs).imp id hself
      · by_cases hs : sid' = sid
        · subst hs
          rcases hc.responsible_kept (hI.handshakes sid') hr hact with hr | hs | ⟨sid'', hne, hi⟩
          · exact Or.inr (hself hr)
          · exact Or.inl hs
          · exact Or.inr (hother sid'' hne
              (Call.responsible_of_initializes ((hI.handshakes sid'').underWay symbol hi)))
        · exact Or.inr (hother sid' hs hr)
    · exact Or.inr (hself hr)
  · intro symbol hact
    rcases hI.wanted symbol ((ho.active symbol).mp hact) with hs | ⟨sid, hr⟩
    · exact Or.inl (ho.subscribers symbol ▸ hs)
    · exact Or.inr ⟨sid, ho.call sid ▸ hr⟩

end ChannelLaw

/-- **Channels match the registry.** In every run in which no channel is given up while
somebody is subscribed to its symbol or has it confirmed for a handshake, and in every
state of it where no call is in progress: a symbol's channel is wanted if and only if
somebody is subscribed to the symbol. -/
theorem channels_match_registry {keyPrefix : String} {g : Process} {acts : List Act}
    {h : List Obs} (hC : Machine.Along Process.step GivenUpUnused (.initial keyPrefix) acts)
    (hr : Machine.run Process.step (.initial keyPrefix) acts = some (g, h))
    (hidle : ∀ sid, (g.clients sid).call = .idle) (symbol : PyStr) :
    g.channels.eventChannel symbol ∈ g.channels.active ↔ g.registry.subscribers symbol ≠ ∅ := by
  have hI : ChannelLaw g := by
    refine Machine.run_invariant_along (I := fun g _ => ChannelLaw g) ?_ (.initial keyPrefix) hC hr
    exact fun g a g' o _ hC hI hs => hI.step hC (Process.stepped hs)
  constructor
  · intro hact
    rcases hI.wanted symbol hact with hs | ⟨sid, hr⟩
    · exact hs
    · rw [hidle] at hr
      exact hr.elim
  · intro hs
    obtain ⟨sid, hmem⟩ := Finset.nonempty_iff_ne_empty.mpr hs
    exact hI.subscribed sid symbol hmem

/-- Two sessions connect and the first one subscribes; its first attempt to confirm the
channel makes the fanout loop open a connection. -/
def openingActs : List Act :=
  [.connect 0 "c0" .dropOldest .raw, .connect 1 "c1" .dropOldest .raw,
    .call 0 (.request (.subscribe "A" .null)), .call 0 .go,
    .fanout .demanded, .fanout .connect, .fanout (.subscribed true),
    .call 0 .go, .call 0 .go, .call 0 .go, .call 0 (.read (.value none)),
    .call 0 .go, .call 0 .go, .call 0 .go]

/-- Then the only subscriber unsubscribes, up to the channel, ... -/
def unsubscribeActs : List Act :=
  openingActs ++ [.call 0 (.request (.unsubscribe "A")), .call 0 .go]

/-- ... and gives it up. -/
def releaseActs : List Act := [.call 0 .go, .call 0 (.redis true), .call 0 .go]

theorem releaseActs_givenUpUnused :
    Machine.Along Process.step GivenUpUnused (.initial "") (unsubscribeActs ++ releaseActs) := by
  have hrun : ∃ g h, Machine.run Process.step (.initial "") unsubscribeActs = some (g, h) ∧
      g.registry.subscribers "A" = ∅ ∧
      (g.clients 0).call = .releasing ["A"] (.unsubscribe "A") ∧
      ((∀ sid, (g.clients sid).call.handshake? ≠ some "A") →
        Machine.Along Process.step GivenUpUnused g releaseActs) :=
    ⟨_, _, rfl, rfl, rfl, fun hn => ⟨fun _ => ⟨rfl, hn⟩, trivial, trivial, trivial⟩⟩
  obtain ⟨g, h, hr, hs, hcall, hrest⟩ := hrun
  refine (Machine.along_append hr).mpr ⟨?_, hrest fun sid => ?_⟩
  · exact ⟨trivial, trivial, trivial, trivial, trivial, trivial, trivial, trivial, trivial,
      trivial, trivial, trivial, trivial, trivial, trivial, trivial, trivial⟩
  · by_cases h0 : sid = 0
    · rw [h0, hcall]
      exact nofun
    · have hnot : sid ∉ unsubscribeActs.filterMap Act.caller? := by
        simpa [unsubscribeActs, openingActs, Act.caller?] using Ne.symm h0
      rw [Process.run_call_frame hr hnot]
      exact nofun

theorem channels_match_registry_released :
    ∃ g h, Machine.run Process.step (.initial "") (unsubscribeActs ++ releaseActs) = some (g, h) ∧
      g.registry.subscribers "A" = ∅ ∧
      (g.channels.eventChannel "A" ∈ g.channels.active ↔ g.registry.subscribers "A" ≠ ∅) := by
  have hrun : ∃ g h, Machine.run Process.step (.initial "") (unsubscribeActs ++ releaseActs) =
      some (g, h) ∧ g.registry.subscribers "A" = ∅ ∧ (g.clients 0).call = .idle :=
    ⟨_, _, rfl, rfl, rfl⟩
  obtain ⟨g, h, hr, hs, hcall⟩ := hrun
  refine ⟨g, h, hr, hs, channels_match_registry releaseActs_givenUpUnused hr ?_ "A"⟩
  refine Process.idle_of_run hr fun sid hmem => ?_
  obtain rfl : 0 = sid := by
    simpa [unsubscribeActs, openingActs, releaseActs, Act.caller?] using hmem
  exact hcall

/-- The second session has the channel confirmed and reads the snapshot while the first one,
the only subscriber, unsubscribes and gives the channel up. -/
def overlapActs : List Act :=
  openingActs ++
    [.call 1 (.request (.subscribe "A" .null)), .call 1 .go, .call 1 .go,
      .call 0 (.request (.unsubscribe "A")), .call 0 .go, .call 0 .go, .call 0 (.redis true),
      .call 0 .go,
      .call 1 (.read (.value none)), .call 1 .go, .call 1 .go, .call 1 .go]

/-- **A session can stay registered for a symbol whose channel has been given up.** -/
theorem channel_given_up :
    ∃ g h, Machine.run Process.step (.initial "") overlapActs = some (g, h) ∧
      (∀ sid, (g.clients sid).call = .idle) ∧
      g.registry.subscribers "A" = {1} ∧ g.channels.active = ∅ ∧
      ¬ (g.channels.eventChannel "A" ∈ g.channels.active ↔ g.registry.subscribers "A" ≠ ∅) := by
  have hrun : ∃ g h, Machine.run Process.step (.initial "") overlapActs = some (g, h) ∧
      (g.clients 0).call = .idle ∧ (g.clients 1).call = .idle ∧
      g.registry.subscribers "A" = {1} ∧ g.channels.active = ∅ :=
    ⟨_, _, rfl, rfl, rfl, rfl, rfl⟩
  obtain ⟨g, h, hr, h0, h1, hs, ha⟩ := hrun
  refine ⟨g, h, hr, Process.idle_of_run hr fun sid hmem => ?_, hs, ha, fun hiff => ?_⟩
  · have hsid : sid = 0 ∨ sid = 1 := by
      simp [overlapActs, openingActs, Act.caller?] at hmem
      tauto
    rcases hsid with rfl | rfl
    · exact h0
    · exact h1
  · rw [hs, ha] at hiff
    exact absurd (hiff.mpr (Finset.singleton_ne_empty 1)) (Finset.notMem_empty _)

end MarketData.Gateway
