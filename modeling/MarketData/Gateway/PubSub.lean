import MarketData.Gateway.Interleaving

/-!
# MarketData.Gateway.PubSub

**The Pub/Sub state under three kinds of coroutine.** `fanout_loop` connects and reconnects;
any number of callers run `_subscribe_pubsub_symbol` and `_unsubscribe_pubsub_symbol`. They
interleave at awaits, and every Redis call may fail.

A caller here is one coroutine that makes one such call after the other, for whatever symbols
it likes; what the gateway calls them for is the matter of other modules. `Channels` has the
critical sections, this module adds who is in which, and what Redis has been asked.

`ChannelState` says what the four variables have to do with each other and with the requests
made of the current connection. Each critical section has one lemma; `PubSubLaw` adds that
nobody else is in a critical section.
-/

namespace MarketData.Gateway

/-- Where a caller is. -/
inductive ChannelCall
  | idle
  /-- `_subscribe_pubsub_symbol`, awaiting `pubsub_lock`. -/
  | subscribing (symbol : PyStr)
  /-- Awaiting the Redis `subscribe`, under the lock. -/
  | confirming (symbol : PyStr)
  /-- `_unsubscribe_pubsub_symbol`, awaiting `pubsub_lock`. -/
  | unsubscribing (symbol : PyStr)
  /-- Awaiting the Redis `unsubscribe`, under the lock. -/
  | dropping
  deriving DecidableEq

/-- The Pub/Sub state with everybody who works on it. -/
structure PubSubState where
  channels : Channels := {}
  fanout : Channels.FanoutTask := .idle
  calls : SessionId → ChannelCall := fun _ => .idle

inductive PubSubAct
  /-- `_subscribe_pubsub_symbol` is called. -/
  | subscribe (caller : SessionId) (symbol : PyStr)
  /-- `_unsubscribe_pubsub_symbol` is called. -/
  | unsubscribe (caller : SessionId) (symbol : PyStr)
  /-- The caller gets the lock and runs on to its Redis call or its end. -/
  | enter (caller : SessionId)
  /-- The caller's Redis call returns or raises. -/
  | redis (caller : SessionId) (ok : Bool)
  | fanout (a : Channels.FanoutAct)

/-- What happens to the object in `redis_pubsub`. -/
inductive PubSubObs
  /-- `fanout_loop` has put a fresh object there. -/
  | installed
  /-- `subscribe` of these channels has succeeded on it. -/
  | subscribed (channels : Finset PyStr)
  /-- `unsubscribe` of this channel is called on it. -/
  | unsubscribe (channel : PyStr)
  /-- `_subscribe_desired_channels` has succeeded on it. -/
  | reconnected
  deriving DecidableEq

namespace PubSubState

/-- The state with the caller somewhere else. -/
def goto (s : PubSubState) (caller : SessionId) (call : ChannelCall) : PubSubState :=
  { s with calls := Function.update s.calls caller call }

@[simp] theorem calls_goto_self (s : PubSubState) (caller : SessionId) (call : ChannelCall) :
    (s.goto caller call).calls caller = call :=
  Function.update_self ..

theorem calls_goto_ne (s : PubSubState) {caller caller' : SessionId} (call : ChannelCall)
    (h : caller' ≠ caller) : (s.goto caller call).calls caller' = s.calls caller' :=
  Function.update_of_ne h ..

/-- What a step of `fanout_loop` does to the object in `redis_pubsub`. -/
def fanoutObs (c : Channels) : Channels.FanoutTask → Channels.FanoutAct → List PubSubObs
  | .connecting, .connect => if c.active = ∅ then [.installed, .reconnected] else [.installed]
  | .subscribing channels, .subscribed true => [.subscribed channels, .reconnected]
  | _, _ => []

/-- Run one step. -/
def step (s : PubSubState) : PubSubAct → Option (PubSubState × List PubSubObs)
  | .subscribe caller symbol =>
    if s.calls caller = .idle then some (s.goto caller (.subscribing symbol), []) else none
  | .unsubscribe caller symbol =>
    if s.calls caller = .idle then some (s.goto caller (.unsubscribing symbol), []) else none
  | .enter caller =>
    if s.channels.pubsubLock = none then
      match s.calls caller with
      | .subscribing symbol =>
        let (channels, ok) := s.channels.subscribePubsubSymbol caller symbol
        some ({ s with channels := channels }.goto caller
          (if ok = none then .confirming symbol else .idle), [])
      | .unsubscribing symbol =>
        let (channels, awaiting) := s.channels.unsubscribePubsubSymbol caller symbol
        some ({ s with channels := channels }.goto caller (if awaiting then .dropping else .idle),
          if awaiting then [.unsubscribe (s.channels.eventChannel symbol)] else [])
      | _ => none
    else none
  | .redis caller ok =>
    match s.calls caller with
    | .confirming symbol =>
      some ({ s with channels := s.channels.subscribeAnswered symbol ok }.goto caller .idle,
        if ok then [.subscribed {s.channels.eventChannel symbol}] else [])
    | .dropping =>
      some ({ s with channels := s.channels.unsubscribeAnswered }.goto caller .idle, [])
    | _ => none
  | .fanout a =>
    match s.channels.fanoutStep s.fanout a with
    | some (channels, fanout) =>
      some ({ s with channels := channels, fanout := fanout }, fanoutObs s.channels s.fanout a)
    | none => none

end PubSubState

/-! ### What Redis has been asked -/

/-- The channel was passed to a successful `subscribe` on the present object, and to no later
`unsubscribe`. -/
def Subscribed (channel : PyStr) (h : List PubSubObs) : Prop :=
  ∃ h₁ channels h₂, h = h₁ ++ .subscribed channels :: h₂ ∧ channel ∈ channels ∧
    .installed ∉ h₂ ∧ .unsubscribe channel ∉ h₂

namespace Subscribed

variable {channel : PyStr} {h o : List PubSubObs}

theorem append (hs : Subscribed channel h) (hi : .installed ∉ o) (hu : .unsubscribe channel ∉ o) :
    Subscribed channel (h ++ o) := by
  obtain ⟨h₁, channels, h₂, rfl, hmem, hi', hu'⟩ := hs
  refine ⟨h₁, channels, h₂ ++ o, by simp, hmem, ?_, ?_⟩
  · rw [List.mem_append, not_or]
    exact ⟨hi', hi⟩
  · rw [List.mem_append, not_or]
    exact ⟨hu', hu⟩

/-- A `subscribe` that has just succeeded. -/
theorem of_subscribed {channels : Finset PyStr} (hmem : channel ∈ channels)
    (hi : .installed ∉ o) (hu : .unsubscribe channel ∉ o) :
    Subscribed channel (h ++ .subscribed channels :: o) :=
  ⟨h, channels, o, rfl, hmem, hi, hu⟩

end Subscribed

/-- How the Pub/Sub variables fit together, given what Redis has been asked. -/
structure ChannelState (c : Channels) (h : List PubSubObs) : Prop where
  /-- A confirmed channel is wanted. -/
  confirmed_active : c.confirmed ⊆ c.active
  /-- Without a connection nothing is confirmed. -/
  disconnected : c.redisPubsub = none → c.confirmed = ∅
  /-- `fanout_loop` is asked to connect while some channel is wanted. -/
  demand : c.demand = true ↔ c.active ≠ ∅
  /-- A confirmed channel is subscribed to. -/
  subscribed : ∀ channel ∈ c.confirmed, Subscribed channel h

namespace ChannelState

variable {c c' : Channels} {h : List PubSubObs}

/-- Only the lock, or nothing, has changed. -/
theorem of_eq (hI : ChannelState c h) (ha : c'.active = c.active) (hc : c'.confirmed = c.confirmed)
    (hd : c'.demand = c.demand) (hp : c'.redisPubsub = none → c.redisPubsub = none) :
    ChannelState c' h := by
  refine ⟨?_, fun hnone => ?_, ?_, fun channel hmem => ?_⟩
  · rw [ha, hc]
    exact hI.confirmed_active
  · rw [hc]
    exact hI.disconnected (hp hnone)
  · rw [ha, hd]
    exact hI.demand
  · exact hI.subscribed channel (hc ▸ hmem)

/-- A channel becomes wanted. -/
theorem want (hI : ChannelState c h) (channel : PyStr) (lock : Option Holder) :
    ChannelState { c with active := insert channel c.active, demand := true, pubsubLock := lock }
      h where
  confirmed_active := hI.confirmed_active.trans (Finset.subset_insert ..)
  disconnected := hI.disconnected
  demand := by
    show true = true ↔ insert channel c.active ≠ ∅
    exact iff_of_true rfl (Finset.insert_nonempty ..).ne_empty
  subscribed := hI.subscribed

/-- Redis confirms a wanted channel. -/
theorem confirm (hI : ChannelState c h) {channel : PyStr} (ha : channel ∈ c.active)
    {pubsub : Option PubSub} (hp : pubsub ≠ none) (lock : Option Holder) :
    ChannelState { c with
        confirmed := insert channel c.confirmed
        redisPubsub := pubsub
        pubsubLock := lock } (h ++ [.subscribed {channel}]) where
  confirmed_active := Finset.insert_subset ha hI.confirmed_active
  disconnected hnone := absurd hnone hp
  demand := hI.demand
  subscribed channel' hmem := by
    rcases Finset.mem_insert.mp hmem with rfl | hmem
    · exact .of_subscribed (Finset.mem_singleton_self _) List.not_mem_nil List.not_mem_nil
    · exact (hI.subscribed channel' hmem).append (by simp) (by simp)

/-- A channel is given up; `o` is the `unsubscribe` of it, if there is a connection. -/
theorem giveUp (hI : ChannelState c h) (channel : PyStr) (pubsub : Option PubSub)
    (hp : pubsub = none → c.redisPubsub = none) (lock : Option Holder) (o : List PubSubObs)
    (ho : ∀ x ∈ o, x = .unsubscribe channel) :
    ChannelState { c with
        active := c.active.erase channel
        confirmed := c.confirmed.erase channel
        demand := if c.active.erase channel = ∅ then false else c.demand
        redisPubsub := pubsub
        pubsubLock := lock } (h ++ o) where
  confirmed_active := Finset.erase_subset_erase channel hI.confirmed_active
  disconnected hnone := by
    show c.confirmed.erase channel = ∅
    rw [hI.disconnected (hp hnone), Finset.erase_empty]
  demand := by
    show (if c.active.erase channel = ∅ then false else c.demand) = true ↔ _
    by_cases he : c.active.erase channel = ∅
    · simp [he]
    · rw [if_neg he, hI.demand]
      refine iff_of_true (fun hempty => he ?_) he
      rw [hempty, Finset.erase_empty]
  subscribed channel' hmem := by
    obtain ⟨hne, hmem⟩ := Finset.mem_erase.mp hmem
    refine (hI.subscribed channel' hmem).append (fun hi => ?_) fun hu => ?_
    · cases ho _ hi
    · exact hne (PubSubObs.unsubscribe.inj (ho _ hu))

/-- A fresh object: nothing is confirmed. -/
theorem install (hI : ChannelState c h) (pubsub : Option PubSub) (lock : Option Holder)
    (o : List PubSubObs) :
    ChannelState { c with redisPubsub := pubsub, confirmed := ∅, pubsubLock := lock }
      (h ++ o) where
  confirmed_active := Finset.empty_subset _
  disconnected _ := rfl
  demand := hI.demand
  subscribed _ hmem := absurd hmem (Finset.notMem_empty _)

/-- `_subscribe_desired_channels` succeeds: the wanted channels are the confirmed ones. -/
theorem resubscribe (hI : ChannelState c h) {pubsub : Option PubSub} (hp : pubsub ≠ none)
    (lock : Option Holder) :
    ChannelState { c with
        confirmed := c.confirmed ∪ c.active
        redisPubsub := pubsub
        pubsubLock := lock } (h ++ [.subscribed c.active, .reconnected]) where
  confirmed_active := Finset.union_subset hI.confirmed_active subset_rfl
  disconnected hnone := absurd hnone hp
  demand := hI.demand
  subscribed channel hmem := by
    have hactive : channel ∈ c.active :=
      (Finset.mem_union.mp hmem).elim (fun hc => hI.confirmed_active hc) id
    exact .of_subscribed hactive (by simp) (by simp)

end ChannelState

/-! ### Everybody together -/

/-- The caller awaits Redis under the lock. -/
def ChannelCall.AwaitsRedis : ChannelCall → Prop
  | .confirming _ | .dropping => True
  | _ => False

/-- What holds under every interleaving. -/
structure PubSubLaw (s : PubSubState) (h : List PubSubObs) : Prop where
  state : ChannelState s.channels h
  /-- Whoever awaits Redis holds the lock. -/
  callers : ∀ caller, (s.calls caller).AwaitsRedis →
    s.channels.pubsubLock = some (.session caller)
  /-- `fanout_loop` subscribes to what is wanted, on a fresh object. -/
  fanout : ∀ channels, s.fanout = .subscribing channels → s.channels.pubsubLock = some .fanout ∧
    channels = s.channels.active ∧ s.channels.redisPubsub ≠ none
  /-- A channel that is being confirmed is wanted. -/
  confirming : ∀ caller symbol, s.calls caller = .confirming symbol →
    s.channels.eventChannel symbol ∈ s.channels.active ∧ s.channels.redisPubsub ≠ none

namespace PubSubLaw

variable {s s' : PubSubState} {h o : List PubSubObs}

/-- A call begins. -/
theorem begin (hI : PubSubLaw s h) (caller : SessionId) {call : ChannelCall}
    (hcall : ¬ call.AwaitsRedis) : PubSubLaw (s.goto caller call) h where
  state := hI.state
  callers caller' haw := by
    by_cases hs : caller' = caller
    · rw [hs, PubSubState.calls_goto_self] at haw
      exact absurd haw hcall
    · rw [PubSubState.calls_goto_ne _ _ hs] at haw
      exact hI.callers caller' haw
  fanout := hI.fanout
  confirming caller' symbol hconf := by
    by_cases hs : caller' = caller
    · rw [hs, PubSubState.calls_goto_self] at hconf
      exact absurd (by rw [hconf]; trivial) hcall
    · rw [PubSubState.calls_goto_ne _ _ hs] at hconf
      exact hI.confirming caller' symbol hconf

/-- **A step inside a critical section.** The lock was free or the caller's own, so nobody else
is in one. -/
theorem own (hI : PubSubLaw s h) {caller : SessionId} {call : ChannelCall} {c' : Channels}
    (hl : s.channels.pubsubLock = none ∨ s.channels.pubsubLock = some (.session caller))
    (hstate : ChannelState c' (h ++ o))
    (hlock : call.AwaitsRedis → c'.pubsubLock = some (.session caller))
    (hconf : ∀ symbol, call = .confirming symbol →
      c'.eventChannel symbol ∈ c'.active ∧ c'.redisPubsub ≠ none) :
    PubSubLaw ({ s with channels := c' }.goto caller call) (h ++ o) := by
  have hnot : ∀ caller', caller' ≠ caller → ¬ (s.calls caller').AwaitsRedis := by
    intro caller' hs haw
    have hheld := hI.callers caller' haw
    rcases hl with hl | hl
    · rw [hl] at hheld
      cases hheld
    · rw [hl] at hheld
      exact hs (Holder.session.inj (Option.some.inj hheld)).symm
  have hfan : ∀ channels, s.fanout ≠ .subscribing channels := by
    intro channels hf
    obtain ⟨hheld, -⟩ := hI.fanout channels hf
    rcases hl with hl | hl <;> rw [hl] at hheld <;> cases hheld
  refine ⟨hstate, fun caller' haw => ?_, fun channels hf => absurd hf (hfan channels),
    fun caller' symbol hc => ?_⟩
  · by_cases hs : caller' = caller
    · rw [hs, PubSubState.calls_goto_self] at haw
      rw [hs]
      exact hlock haw
    · rw [PubSubState.calls_goto_ne _ _ hs] at haw
      exact absurd haw (hnot caller' hs)
  · by_cases hs : caller' = caller
    · rw [hs, PubSubState.calls_goto_self] at hc
      exact hconf symbol hc
    · rw [PubSubState.calls_goto_ne _ _ hs] at hc
      exact absurd (by rw [hc]; trivial) (hnot caller' hs)

/-- A step of `fanout_loop` under the lock, which was free or its own. -/
theorem loop (hI : PubSubLaw s h) {task : Channels.FanoutTask} {c' : Channels}
    (hl : s.channels.pubsubLock = none ∨ s.channels.pubsubLock = some .fanout)
    (hstate : ChannelState c' (h ++ o))
    (htask : ∀ channels, task = .subscribing channels → c'.pubsubLock = some .fanout ∧
      channels = c'.active ∧ c'.redisPubsub ≠ none) :
    PubSubLaw { s with channels := c', fanout := task } (h ++ o) := by
  have hnot : ∀ caller, ¬ (s.calls caller).AwaitsRedis := by
    intro caller haw
    have hheld := hI.callers caller haw
    rcases hl with hl | hl <;> rw [hl] at hheld <;> cases hheld
  exact ⟨hstate, fun caller haw => absurd haw (hnot caller), htask,
    fun caller symbol hc => absurd (by rw [hc]; trivial) (hnot caller)⟩

/-- The critical section of `_subscribe_pubsub_symbol`, up to the Redis call. -/
theorem attempt (hI : PubSubLaw s h) {caller : SessionId} (hlock : s.channels.pubsubLock = none)
    (symbol : PyStr) :
    PubSubLaw ({ s with channels := (s.channels.subscribePubsubSymbol caller symbol).1 }.goto caller
      (if (s.channels.subscribePubsubSymbol caller symbol).2 = none then .confirming symbol
        else .idle)) (h ++ []) := by
  have hwant := hI.state.want (s.channels.eventChannel symbol)
  rw [← List.append_nil h] at hwant
  unfold Channels.subscribePubsubSymbol
  dsimp only
  split
  · exact hI.own (Or.inl hlock) (hwant _) False.elim fun symbol h => by cases h
  · split
    · exact hI.own (Or.inl hlock) (hwant _) False.elim fun symbol h => by cases h
    · rename_i p hp
      rw [if_pos rfl]
      refine hI.own (Or.inl hlock) (hwant (some (.session caller))) (fun _ => rfl) ?_
      intro symbol' h
      obtain rfl := ChannelCall.confirming.inj h
      exact ⟨Finset.mem_insert_self .., fun hnone => by rw [hp] at hnone; cases hnone⟩

/-- The critical section of `_unsubscribe_pubsub_symbol`, up to the Redis call. -/
theorem release (hI : PubSubLaw s h) {caller : SessionId} (hlock : s.channels.pubsubLock = none)
    (symbol : PyStr) :
    PubSubLaw
      ({ s with channels := (s.channels.unsubscribePubsubSymbol caller symbol).1 }.goto caller
      (if (s.channels.unsubscribePubsubSymbol caller symbol).2 then .dropping else .idle))
      (h ++ if (s.channels.unsubscribePubsubSymbol caller symbol).2 then
        [.unsubscribe (s.channels.eventChannel symbol)] else []) := by
  unfold Channels.unsubscribePubsubSymbol
  dsimp only
  by_cases ha : s.channels.eventChannel symbol ∈ s.channels.active
  · rw [if_neg (not_not.mpr ha)]
    split
    · rename_i hp
      refine hI.own (Or.inl hlock) ?_ False.elim fun symbol h => by cases h
      have hgone := hI.state.giveUp (s.channels.eventChannel symbol) none (fun _ => hp)
        s.channels.pubsubLock [] (by simp)
      rw [← hp] at hgone
      exact hgone
    · rename_i p hp
      refine hI.own (Or.inl hlock) ?_ (fun _ => rfl) fun symbol h => by cases h
      exact hI.state.giveUp _ _ (fun hnone => by cases hnone) _ _ (by simp)
  · rw [if_pos ha]
    refine hI.own (Or.inl hlock) ?_ False.elim fun symbol h => by cases h
    exact (List.append_nil h).symm ▸ hI.state

/-- `fanout_loop` moves on without touching anything. -/
theorem move (hI : PubSubLaw s h) {task : Channels.FanoutTask}
    (htask : ∀ channels, task ≠ .subscribing channels) :
    PubSubLaw { s with fanout := task } (h ++ []) := by
  rw [List.append_nil]
  exact ⟨hI.state, hI.callers, fun channels hf => absurd hf (htask channels), hI.confirming⟩

/-- **Every step of `fanout_loop` keeps the law**, and reconnecting confirms what is wanted. -/
theorem fanout_step (hI : PubSubLaw s h) {a : Channels.FanoutAct} {c' : Channels}
    {task : Channels.FanoutTask} (hs : s.channels.fanoutStep s.fanout a = some (c', task)) :
    PubSubLaw { s with channels := c', fanout := task }
      (h ++ PubSubState.fanoutObs s.channels s.fanout a) ∧
    (.reconnected ∈ PubSubState.fanoutObs s.channels s.fanout a → c'.confirmed = c'.active) := by
  have hmove : (∀ channels, task ≠ .subscribing channels) → c' = s.channels →
      PubSubState.fanoutObs s.channels s.fanout a = [] →
      PubSubLaw { s with channels := c', fanout := task }
        (h ++ PubSubState.fanoutObs s.channels s.fanout a) ∧
      (.reconnected ∈ PubSubState.fanoutObs s.channels s.fanout a →
        c'.confirmed = c'.active) := by
    intro htask hc ho
    rw [ho, hc]
    exact ⟨hI.move htask, fun hmem => absurd hmem List.not_mem_nil⟩
  have hlaw := hI.fanout
  generalize hfan : s.fanout = fanout at hs hlaw hmove ⊢
  cases fanout with
  | idle =>
      cases a <;> simp only [Channels.fanoutStep] at hs <;> try cases hs
      split at hs <;> cases hs
      exact hmove (fun channels h => by cases h) rfl rfl
  | connecting =>
      cases a <;> simp only [Channels.fanoutStep] at hs <;> try cases hs
      split at hs
      case isFalse => cases hs
      rename_i hlock
      have hfresh := hI.state.install (some {}) s.channels.pubsubLock
      by_cases he : s.channels.active = ∅
      · rw [if_pos he] at hs
        cases hs
        rw [PubSubState.fanoutObs, if_pos he]
        exact ⟨hI.loop (Or.inl hlock) (hfresh _) (fun channels h => by cases h), fun _ => he.symm⟩
      · rw [if_neg he] at hs
        cases hs
        rw [PubSubState.fanoutObs, if_neg he]
        refine ⟨hI.loop (Or.inl hlock) (hI.state.install (some {}) (some .fanout) _) ?_, ?_⟩
        · intro channels h
          cases h
          exact ⟨rfl, rfl, Option.some_ne_none _⟩
        · intro hmem
          simp at hmem
  | subscribing channels =>
      obtain ⟨hlock, hchannels, hp⟩ := hlaw channels rfl
      cases a <;> simp only [Channels.fanoutStep] at hs <;> try cases hs
      rename_i ok
      cases ok with
      | true =>
          cases hs
          subst hchannels
          refine ⟨hI.loop (Or.inr hlock) (hI.state.resubscribe (fun h => hp ?_) none)
            (fun channels h => by cases h), fun _ => ?_⟩
          · exact Option.map_eq_none_iff.mp h
          · exact Finset.union_eq_right.mpr hI.state.confirmed_active
      | false =>
          cases hs
          refine ⟨hI.loop (o := []) (Or.inr hlock) ?_ (fun channels h => by cases h), ?_⟩
          · rw [List.append_nil]
            exact hI.state.of_eq rfl rfl rfl id
          · exact fun hmem => absurd hmem List.not_mem_nil
  | listening =>
      cases a <;> simp only [Channels.fanoutStep] at hs <;> try cases hs
      all_goals exact hmove (fun channels h => by cases h) rfl rfl
  | retrying =>
      cases a <;> simp only [Channels.fanoutStep] at hs <;> try cases hs
      exact hmove (fun channels h => by cases h) rfl rfl
  | finalizing =>
      cases a <;> simp only [Channels.fanoutStep] at hs <;> try cases hs
      split at hs
      case isFalse => cases hs
      rename_i hlock
      cases hs
      exact ⟨hI.loop (Or.inl hlock) (hI.state.install none s.channels.pubsubLock [])
        (fun channels h => by cases h), fun hmem => absurd hmem List.not_mem_nil⟩
  | closing =>
      cases a <;> simp only [Channels.fanoutStep] at hs <;> try cases hs
      rename_i ok
      cases ok <;> cases hs <;> exact hmove (fun channels h => by cases h) rfl rfl
  | failed =>
      cases a <;> simp only [Channels.fanoutStep] at hs <;> cases hs

/-- **Every step keeps the law.** -/
theorem step (hI : PubSubLaw s h) {a : PubSubAct} (hs : s.step a = some (s', o)) :
    PubSubLaw s' (h ++ o) := by
  cases a with
  | subscribe caller symbol | unsubscribe caller symbol =>
      simp only [PubSubState.step] at hs
      split at hs
      case isFalse => cases hs
      obtain ⟨rfl, rfl⟩ := Machine.outcome hs
      rw [List.append_nil]
      exact hI.begin caller id
  | enter caller =>
      simp only [PubSubState.step] at hs
      split at hs
      case isFalse => cases hs
      rename_i hlock
      cases hcall : s.calls caller with
      | subscribing symbol =>
          simp only [hcall] at hs
          obtain ⟨rfl, rfl⟩ := Machine.outcome hs
          exact hI.attempt hlock symbol
      | unsubscribing symbol =>
          simp only [hcall] at hs
          obtain ⟨rfl, rfl⟩ := Machine.outcome hs
          exact hI.release hlock symbol
      | idle | confirming symbol | dropping =>
          simp only [hcall] at hs
          cases hs
  | redis caller ok =>
      cases hcall : s.calls caller with
      | confirming symbol =>
          obtain ⟨hactive, hp⟩ := hI.confirming caller symbol hcall
          have hlock := hI.callers caller (by rw [hcall]; trivial)
          simp only [PubSubState.step, hcall] at hs
          obtain ⟨rfl, rfl⟩ := Machine.outcome hs
          cases ok with
          | true =>
              refine hI.own (Or.inr hlock) (hI.state.confirm hactive (fun hn => hp ?_) none)
                False.elim
                fun symbol h => by cases h
              exact Option.map_eq_none_iff.mp hn
          | false =>
              refine hI.own (Or.inr hlock) ?_ False.elim fun symbol h => by cases h
              exact (List.append_nil h).symm ▸ hI.state.of_eq rfl rfl rfl id
      | dropping =>
          have hlock := hI.callers caller (by rw [hcall]; trivial)
          simp only [PubSubState.step, hcall] at hs
          obtain ⟨rfl, rfl⟩ := Machine.outcome hs
          refine hI.own (Or.inr hlock) ?_ False.elim fun symbol h => by cases h
          exact (List.append_nil h).symm ▸ hI.state.of_eq rfl rfl rfl id
      | idle | subscribing symbol | unsubscribing symbol =>
          simp only [PubSubState.step, hcall] at hs
          cases hs
  | fanout a =>
      simp only [PubSubState.step] at hs
      split at hs
      case h_2 => cases hs
      rename_i channels fanout hf
      obtain ⟨rfl, rfl⟩ := Machine.outcome hs
      exact (hI.fanout_step hf).1

/-- Every run keeps the law. -/
theorem run (hI : PubSubLaw s h) {acts : List PubSubAct}
    (hr : Machine.run PubSubState.step s acts = some (s', o)) : PubSubLaw s' (h ++ o) := by
  refine Machine.run_invariant (I := fun s' o => PubSubLaw s' (h ++ o)) ?_
    ((List.append_nil h).symm ▸ hI) hr
  intro s₁ a s₂ o₂ o₁ hI hs
  exact List.append_assoc .. ▸ hI.step hs

theorem initial (keyPrefix : String) :
    PubSubLaw { channels := { keyPrefix := keyPrefix } } [] where
  state :=
    { confirmed_active := Finset.empty_subset _
      disconnected := fun _ => rfl
      demand := iff_of_false Bool.false_ne_true (not_not.mpr rfl)
      subscribed := fun _ hmem => absurd hmem (Finset.notMem_empty _) }
  callers _ haw := haw.elim
  fanout _ hf := by cases hf
  confirming _ _ hc := by cases hc

/-- Only `fanout_loop` reconnects, and then what is wanted is confirmed. -/
theorem reconnected (hI : PubSubLaw s h) {a : PubSubAct} (hs : s.step a = some (s', o))
    (hmem : .reconnected ∈ o) : s'.channels.confirmed = s'.channels.active := by
  cases a with
  | fanout a =>
      simp only [PubSubState.step] at hs
      split at hs
      case h_2 => cases hs
      rename_i channels fanout hf
      obtain ⟨rfl, rfl⟩ := Machine.outcome hs
      exact (hI.fanout_step hf).2 hmem
  | subscribe caller symbol | unsubscribe caller symbol =>
      simp only [PubSubState.step] at hs
      split at hs <;> cases hs
      cases hmem
  | enter caller =>
      simp only [PubSubState.step] at hs
      split at hs
      · split at hs <;> cases hs
        · cases hmem
        · split at hmem <;> simp at hmem
      · cases hs
  | redis caller ok =>
      simp only [PubSubState.step] at hs
      split at hs <;> cases hs
      · split at hmem <;> simp at hmem
      · cases hmem

end PubSubLaw

/-! ### The callers of the gateway -/

/-- Where the call of a session is, as a caller of `_subscribe_pubsub_symbol` and
`_unsubscribe_pubsub_symbol`. -/
def Call.channelCall : Call → ChannelCall
  | .ensuring symbol _ _ => .subscribing symbol
  | .confirming symbol _ _ => .confirming symbol
  | .releasing (symbol :: _) _ => .unsubscribing symbol
  | .dropping _ _ => .dropping
  | _ => .idle

/-- The Pub/Sub state of the gateway. -/
def Process.pubsub (g : Process) : PubSubState where
  channels := g.channels
  fanout := g.fanout
  calls sid := (g.clients sid).call.channelCall

theorem Process.pubsub_withScope (g : Process) (sid : SessionId) (σ : Scope) :
    (g.withScope sid σ).pubsub =
      { g.pubsub with channels := σ.channels }.goto sid σ.client.call.channelCall := by
  have hcalls : (g.withScope sid σ).pubsub.calls =
      Function.update g.pubsub.calls sid σ.client.call.channelCall := by
    funext sid'
    by_cases hs : sid' = sid
    · rw [hs, Function.update_self]
      exact congrArg (fun c : Client => c.call.channelCall) (g.clients_withScope_self sid σ)
    · rw [Function.update_of_ne hs]
      exact congrArg (fun c : Client => c.call.channelCall) (g.clients_withScope_ne sid σ hs)
  exact congrArg (fun calls => (⟨σ.channels, g.fanout, calls⟩ : PubSubState)) hcalls

/-- The next symbol on the list is given up, if there is one. -/
theorem PubSubState.run_releasing (s : PubSubState) (sid : SessionId) (symbols : List PyStr)
    (result : Returning) :
    ∃ acts, Machine.run PubSubState.step (s.goto sid .idle) acts =
      some (s.goto sid (Call.releasing symbols result).channelCall, []) := by
  cases symbols with
  | nil => exact ⟨[], rfl⟩
  | cons symbol rest =>
      refine ⟨[.unsubscribe sid symbol], ?_⟩
      simp [Machine.run, step, goto, Call.channelCall]

theorem PubSubState.step_enter_subscribing {s : PubSubState} {sid : SessionId} {symbol : PyStr}
    (hl : s.channels.pubsubLock = none) (hc : s.calls sid = .subscribing symbol) :
    s.step (.enter sid) =
      some ({ s with channels := (s.channels.subscribePubsubSymbol sid symbol).1 }.goto sid
        (if (s.channels.subscribePubsubSymbol sid symbol).2 = none then .confirming symbol
          else .idle), []) := by
  simp [step, hl, hc]

theorem PubSubState.step_enter_unsubscribing {s : PubSubState} {sid : SessionId}
    {symbol : PyStr} (hl : s.channels.pubsubLock = none)
    (hc : s.calls sid = .unsubscribing symbol) :
    s.step (.enter sid) =
      some ({ s with channels := (s.channels.unsubscribePubsubSymbol sid symbol).1 }.goto sid
        (if (s.channels.unsubscribePubsubSymbol sid symbol).2 then .dropping else .idle),
        if (s.channels.unsubscribePubsubSymbol sid symbol).2 then
          [.unsubscribe (s.channels.eventChannel symbol)] else []) := by
  simp [step, hl, hc]

theorem PubSubState.run_subscribe {s : PubSubState} {sid : SessionId} (hc : s.calls sid = .idle)
    (symbol : PyStr) : Machine.run PubSubState.step s [.subscribe sid symbol] =
      some (s.goto sid (.subscribing symbol), []) := by
  simp [Machine.run, step, hc]

theorem PubSubState.run_unsubscribe {s : PubSubState} {sid : SessionId}
    (hc : s.calls sid = .idle) (symbol : PyStr) :
    Machine.run PubSubState.step s [.unsubscribe sid symbol] =
      some (s.goto sid (.unsubscribing symbol), []) := by
  simp [Machine.run, step, hc]

theorem PubSubState.step_redis_confirming {s : PubSubState} {sid : SessionId} {symbol : PyStr}
    (hc : s.calls sid = .confirming symbol) (ok : Bool) :
    s.step (.redis sid ok) =
      some ({ s with channels := s.channels.subscribeAnswered symbol ok }.goto sid .idle,
        if ok then [.subscribed {s.channels.eventChannel symbol}] else []) := by
  simp [step, hc]

theorem PubSubState.step_redis_dropping {s : PubSubState} {sid : SessionId}
    (hc : s.calls sid = .dropping) (ok : Bool) :
    s.step (.redis sid ok) =
      some ({ s with channels := s.channels.unsubscribeAnswered }.goto sid .idle, []) := by
  simp [step, hc]

/-- **A step of a session's call is a few steps of a caller.** -/
theorem Called.pubsub {g : Process} {sid : SessionId} {σ : Scope} {a : CallAct} {obs : List Obs}
    (h : Called sid (g.scope sid) a σ obs) :
    ∃ acts o, Machine.run PubSubState.step g.pubsub acts =
      some ((g.withScope sid σ).pubsub, o) := by
  rw [Process.pubsub_withScope]
  have hself : ∀ {call}, (g.clients sid).call = call → g.pubsub.calls sid = call.channelCall := by
    intro call hc
    show (g.clients sid).call.channelCall = call.channelCall
    rw [hc]
  have hstay : ∀ {call : Call}, g.pubsub.calls sid = call.channelCall →
      g.pubsub.goto sid call.channelCall = g.pubsub := by
    intro call hc
    rw [← hc]
    exact congrArg (fun calls => (⟨g.channels, g.fanout, calls⟩ : PubSubState))
      (Function.update_eq_self ..)
  have hidle : ∀ {σ : Scope}, g.pubsub.calls sid = .idle → σ.channels = g.channels →
      σ.client.call.channelCall = .idle →
      ∃ acts o, Machine.run PubSubState.step g.pubsub acts =
        some ({ g.pubsub with channels := σ.channels }.goto sid σ.client.call.channelCall, o) := by
    intro σ hc hch hcall
    rw [hch, hcall]
    exact ⟨[], [], congrArg (fun s => some (s, [])) (@hstay .idle hc).symm⟩
  cases h with
  | @parsed symbol _ _ hc =>
      exact ⟨[.subscribe sid symbol], [], PubSubState.run_subscribe (hself hc) symbol⟩
  | @slept symbol _ _ hc =>
      exact ⟨[.subscribe sid symbol], [], PubSubState.run_subscribe (hself hc) symbol⟩
  | @unused symbol _ hc =>
      exact ⟨[.unsubscribe sid symbol], [], PubSubState.run_unsubscribe (hself hc) symbol⟩
  | @lastUnsubscribed symbol hc =>
      exact ⟨[.unsubscribe sid symbol], [], PubSubState.run_unsubscribe (hself hc) symbol⟩
  | @attempted symbol filter attempt hc hl =>
      refine ⟨[.enter sid], [], ?_⟩
      have hcall := hself hc
      have hafter : (Scope.afterAttempt symbol filter attempt
          (g.channels.subscribePubsubSymbol sid symbol).2).channelCall =
          if (g.channels.subscribePubsubSymbol sid symbol).2 = none then .confirming symbol
          else .idle := by
        rcases (g.channels.subscribePubsubSymbol sid symbol).2 with - | - | - <;> rfl
      refine Machine.run_singleton.mpr ?_
      show PubSubState.step g.pubsub (.enter sid) =
        some ({ g.pubsub with channels := (g.channels.subscribePubsubSymbol sid symbol).1 }.goto sid
          (Scope.afterAttempt symbol filter attempt
            (g.channels.subscribePubsubSymbol sid symbol).2).channelCall, [])
      rw [hafter]
      exact PubSubState.step_enter_subscribing hl hcall
  | @answered symbol filter attempt ok hc =>
      refine ⟨[.redis sid ok], if ok then [.subscribed {g.channels.eventChannel symbol}] else [],
        Machine.run_singleton.mpr ?_⟩
      have hafter : (Scope.afterAttempt symbol filter attempt (some ok)).channelCall = .idle := by
        cases ok <;> rfl
      show PubSubState.step g.pubsub (.redis sid ok) =
        some ({ g.pubsub with channels := g.channels.subscribeAnswered symbol ok }.goto sid
          (Scope.afterAttempt symbol filter attempt (some ok)).channelCall, _)
      rw [hafter]
      exact PubSubState.step_redis_confirming (hself hc) ok
  | @cleaned order hc ho =>
      obtain ⟨acts, hr⟩ := g.pubsub.run_releasing sid
        (g.registry.cleanup sid (g.clients sid).session.clientId order).2 .cleanup
      rw [show g.pubsub.goto sid .idle = g.pubsub from @hstay .cleaning (hself hc)] at hr
      exact ⟨acts, [], hr⟩
  | @released symbol rest result hc hl =>
      have hstep := PubSubState.step_enter_unsubscribing hl (hself hc)
      rw [show g.pubsub.channels = g.channels from rfl] at hstep
      show ∃ acts o, Machine.run PubSubState.step g.pubsub acts = some ({ g.pubsub with
        channels := (g.channels.unsubscribePubsubSymbol sid symbol).1 }.goto sid
          (if (g.channels.unsubscribePubsubSymbol sid symbol).2 then Call.dropping rest result
            else .releasing rest result).channelCall, o)
      cases hw : (g.channels.unsubscribePubsubSymbol sid symbol).2 with
      | true =>
          rw [hw] at hstep
          exact ⟨[.enter sid], [.unsubscribe (g.channels.eventChannel symbol)],
            Machine.run_singleton.mpr hstep⟩
      | false =>
          obtain ⟨acts, hr⟩ := { g.pubsub with
            channels := (g.channels.unsubscribePubsubSymbol sid symbol).1 }.run_releasing sid rest
              result
          rw [hw] at hstep
          exact ⟨.enter sid :: acts, [], Machine.run_cons.mpr ⟨_, _, _, hstep, hr, rfl⟩⟩
  | @dropped rest result ok hc =>
      obtain ⟨acts, hr⟩ := { g.pubsub with
        channels := g.channels.unsubscribeAnswered }.run_releasing sid rest result
      exact ⟨.redis sid ok :: acts, [],
        Machine.run_cons.mpr ⟨_, _, _, PubSubState.step_redis_dropping (hself hc) ok, hr, rfl⟩⟩
  | rejected hc hn hs | overflowed hc hn =>
      exact hidle (hself hc) rfl (congrArg Call.channelCall hc)
  | unsubscribeBegun hc | cleanupBegun hc | unavailable hc | registered hc | read hc | failed hc
  | activated hc | rolledBack hc | inUse hc | unsubscribed hc | finished hc | closing hc
  | closed hc => exact hidle (hself hc) rfl rfl

/-- A step of the gateway is a few steps of the Pub/Sub state. -/
theorem Stepped.pubsub {g g' : Process} {a : Act} {obs : List Obs} (h : Stepped g a g' obs) :
    ∃ acts o, Machine.run PubSubState.step g.pubsub acts = some (g'.pubsub, o) := by
  -- outside the calls nothing moves but the loop
  have hsame : OutsideCalls g g' → g'.channels = g.channels → g'.fanout = g.fanout →
      ∃ acts o, Machine.run PubSubState.step g.pubsub acts = some (g'.pubsub, o) := by
    intro ho hch hf
    refine ⟨[], [], congrArg (fun s => some (s, [])) ?_⟩
    show (⟨g.channels, g.fanout, _⟩ : PubSubState) = ⟨g'.channels, g'.fanout, _⟩
    rw [hch, hf]
    refine congrArg (fun calls => (⟨g.channels, g.fanout, calls⟩ : PubSubState))
      (funext fun sid => ?_)
    rw [ho.call sid]
  have hout := h.call_or_outside
  cases h with
  | call h => exact h.pubsub
  | @fanout a channels task h =>
      refine ⟨[.fanout a], PubSubState.fanoutObs g.channels g.fanout a,
        Machine.run_singleton.mpr ?_⟩
      show PubSubState.step g.pubsub (.fanout a) = _
      rw [PubSubState.step, show g.pubsub.channels.fanoutStep g.pubsub.fanout a = _ from h]
      rfl
  | connect hc => exact hsame (hout.resolve_left (by simp)).2 rfl rfl
  | message h => exact hsame (hout.resolve_left (by simp)).2 rfl rfl
  | task h => exact hsame (hout.resolve_left (by simp)).2 rfl rfl
  | replied hc => exact hsame (hout.resolve_left (by simp)).2 rfl rfl
  | cancelled => exact hsame (hout.resolve_left (by simp)).2 rfl rfl
  | stopped => exact hsame (hout.resolve_left (by simp)).2 rfl rfl

/-- **The law holds of the whole gateway**: its sessions are callers of the Pub/Sub state. -/
theorem Process.run_pubsubLaw {keyPrefix : String} {g : Process} {acts : List Act} {h : List Obs}
    (hr : Machine.run Process.step (.initial keyPrefix) acts = some (g, h)) :
    ∃ o, PubSubLaw g.pubsub o := by
  refine Machine.run_invariant (I := fun g _ => ∃ o, PubSubLaw g.pubsub o) ?_
    ⟨[], .initial keyPrefix⟩ hr
  intro g₁ a g₂ obs _ hI hs
  obtain ⟨o, hlaw⟩ := hI
  obtain ⟨acts, o', hrun⟩ := (Process.stepped hs).pubsub
  exact ⟨o ++ o', hlaw.run hrun⟩

/-- **The Pub/Sub channel state invariant.** In every state of every run, whoever holds the
lock: confirmed channels are wanted; without a connection none is confirmed; `channel_demand` is
set exactly while some channel is wanted; Redis has been asked for every confirmed channel on the
present connection; and when a reconnect has subscribed, the confirmed channels are the wanted
ones. -/
theorem pubsub_law {keyPrefix : String} {s : PubSubState} {acts : List PubSubAct}
    {h : List PubSubObs}
    (hr : Machine.run PubSubState.step { channels := { keyPrefix := keyPrefix } } acts =
      some (s, h)) :
    s.channels.confirmed ⊆ s.channels.active ∧
    (s.channels.redisPubsub = none → s.channels.confirmed = ∅) ∧
    (s.channels.demand = true ↔ s.channels.active ≠ ∅) ∧
    (∀ channel ∈ s.channels.confirmed, Subscribed channel h) ∧
    ∀ a s' o, s.step a = some (s', o) → .reconnected ∈ o →
      s'.channels.confirmed = s'.channels.active := by
  have hI : PubSubLaw s h := (PubSubLaw.initial keyPrefix).run hr
  exact ⟨hI.state.confirmed_active, hI.state.disconnected, hI.state.demand, hI.state.subscribed,
    fun _ _ _ hs hmem => hI.reconnected hs hmem⟩

/-- A first attempt without a connection; the loop connects and loses the connection; while it
backs off, a channel is confirmed on the dead object; then it reconnects. -/
def reconnectActs : List PubSubAct :=
  [.subscribe 0 "A", .enter 0, .fanout .demanded, .fanout .connect, .fanout (.subscribed true),
    .fanout .broken, .subscribe 1 "B", .enter 1, .redis 1 true, .fanout .retry, .fanout .finalize,
    .unsubscribe 0 "A", .enter 0, .fanout (.closed true), .fanout .demanded, .fanout .connect]

theorem pubsub_law_reconnected :
    ∃ s h, Machine.run PubSubState.step { channels := {} } reconnectActs = some (s, h) ∧
      s.channels.confirmed = ∅ ∧ s.channels.active = {↑"events:B"} ∧
      ∃ s' o, s.step (.fanout (.subscribed true)) = some (s', o) ∧
        s'.channels.confirmed = s'.channels.active := by
  have hrun : ∃ s h, Machine.run PubSubState.step { channels := {} } reconnectActs = some (s, h) ∧
      s.channels.confirmed = ∅ ∧ s.channels.active = {↑"events:B"} ∧
      ∃ s' o, s.step (.fanout (.subscribed true)) = some (s', o) ∧ .reconnected ∈ o :=
    ⟨_, _, rfl, by decide, by decide, _, _, rfl, by decide⟩
  obtain ⟨s, h, hr, hc, ha, s', o, hs, hmem⟩ := hrun
  exact ⟨s, h, hr, hc, ha, s', o, hs, (pubsub_law hr).2.2.2.2 _ _ _ hs hmem⟩

end MarketData.Gateway
