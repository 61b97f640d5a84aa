import MarketData.Gateway.Registry

/-!
# MarketData.Gateway.Channels

The state behind `pubsub_lock` in `src/gateway/gateway.py`: the channels the gateway wants
(`active_channels`), the ones Redis has confirmed on the current connection
(`confirmed_channels`), the connection itself (`redis_pubsub`), and the `fanout_loop` that
opens and replaces it.

`pubsub_lock` is held across the Redis calls, so a critical section is two functions: the
part up to the call, which takes the lock if there is a call to await, and the part after
Redis has answered, which releases it.
-/

namespace MarketData.Gateway

/-- The Pub/Sub object of one connection. -/
structure PubSub where
  /-- The channels passed to a successful `subscribe` and to no later `unsubscribe`. -/
  subscribed : Finset PyStr := ∅

/-- Who holds `pubsub_lock`. -/
inductive Holder
  | fanout
  | session (sid : SessionId)
  deriving DecidableEq

/-- The Pub/Sub state guarded by `pubsub_lock`. -/
structure Channels where
  /-- `SnapshotStore._prefix`. -/
  keyPrefix : String := ""
  /-- `active_channels`. -/
  active : Finset PyStr := ∅
  /-- `confirmed_channels`. -/
  confirmed : Finset PyStr := ∅
  /-- `channel_demand`. -/
  demand : Bool := false
  redisPubsub : Option PubSub := none
  pubsubLock : Option Holder := none

namespace Channels

/-- `_event_channel`, i.e. `SnapshotStore.event_channel`. -/
def eventChannel (c : Channels) (symbol : PyStr) : PyStr :=
  (c.keyPrefix ++ "events:" : String) ++ symbol

/-- The critical section of `_subscribe_pubsub_symbol`, up to the Redis call if there is
one: `some ok` is the result without a call. -/
def subscribePubsubSymbol (c : Channels) (sid : SessionId) (symbol : PyStr) :
    Channels × Option Bool :=
  let channel := c.eventChannel symbol
  let c : Channels := { c with active := insert channel c.active, demand := true }
  if channel ∈ c.confirmed then (c, some true)
  else match c.redisPubsub with
    | none => (c, some false)
    | some _ => ({ c with pubsubLock := some (.session sid) }, none)

/-- The rest of `_subscribe_pubsub_symbol`. -/
def subscribeAnswered (c : Channels) (symbol : PyStr) (ok : Bool) : Channels :=
  let channel := c.eventChannel symbol
  if ok then
    { c with
      confirmed := insert channel c.confirmed
      redisPubsub := c.redisPubsub.map fun p => { subscribed := insert channel p.subscribed }
      pubsubLock := none }
  else { c with pubsubLock := none }

/-- The critical section of `_unsubscribe_pubsub_symbol`, up to the Redis call if there is
one; the flag says whether there is. -/
def unsubscribePubsubSymbol (c : Channels) (sid : SessionId) (symbol : PyStr) :
    Channels × Bool :=
  let channel := c.eventChannel symbol
  if channel ∉ c.active then (c, false)
  else
    let active := c.active.erase channel
    let c : Channels := { c with
      active := active
      confirmed := c.confirmed.erase channel
      demand := if active = ∅ then false else c.demand }
    match c.redisPubsub with
    | none => (c, false)
    | some p =>
      ({ c with
        redisPubsub := some { subscribed := p.subscribed.erase channel }
        pubsubLock := some (.session sid) }, true)

/-- The rest of `_unsubscribe_pubsub_symbol`; a Redis error is logged and ignored. -/
def unsubscribeAnswered (c : Channels) : Channels := { c with pubsubLock := none }

/-! ### `fanout_loop` -/

/-- Where `fanout_loop` is. -/
inductive FanoutTask
  /-- Awaiting `channel_demand.wait()`. -/
  | idle
  /-- Awaiting `pubsub_lock` with a fresh Pub/Sub object. -/
  | connecting
  /-- Awaiting the `subscribe` of `_subscribe_desired_channels`, under the lock. -/
  | subscribing (channels : Finset PyStr)
  /-- Awaiting the next message. -/
  | listening
  /-- Awaiting the backoff after an error; the object is still installed. -/
  | retrying
  /-- Awaiting `pubsub_lock` in the `finally` block. -/
  | finalizing
  /-- Awaiting `_close_pubsub`. -/
  | closing
  /-- `_close_pubsub` raised out of the loop. -/
  | failed
  deriving DecidableEq

/-- A step of `fanout_loop` other than a message. -/
inductive FanoutAct
  | demanded
  | connect
  | subscribed (ok : Bool)
  /-- `listen()` raises. -/
  | broken
  /-- `listen()` ends. -/
  | ended
  | retry
  | finalize
  | closed (ok : Bool)
  deriving DecidableEq

/-- Run one step of `fanout_loop`. -/
def fanoutStep (c : Channels) : FanoutTask → FanoutAct → Option (Channels × FanoutTask)
  | .idle, .demanded => if c.demand then some (c, .connecting) else none
  | .connecting, .connect =>
    if c.pubsubLock = none then
      let c : Channels := { c with redisPubsub := some {}, confirmed := ∅ }
      if c.active = ∅ then some (c, .listening)
      else some ({ c with pubsubLock := some .fanout }, .subscribing c.active)
    else none
  | .subscribing channels, .subscribed true =>
    some ({ c with
      confirmed := c.confirmed ∪ channels
      redisPubsub := c.redisPubsub.map fun p => { subscribed := p.subscribed ∪ channels }
      pubsubLock := none }, .listening)
  | .subscribing _, .subscribed false => some ({ c with pubsubLock := none }, .retrying)
  | .listening, .broken => some (c, .retrying)
  | .listening, .ended => some (c, .finalizing)
  | .retrying, .retry => some (c, .finalizing)
  | .finalizing, .finalize =>
    if c.pubsubLock = none then
      some ({ c with redisPubsub := none, confirmed := ∅ }, .closing)
    else none
  | .closing, .closed true => some (c, .idle)
  | .closing, .closed false => some (c, .failed)
  | _, _ => none

/-! ### What each operation does to the wanted channels and to the lock -/

/-- Different symbols have different channels. -/
theorem eventChannel_injective (c : Channels) {symbol symbol' : PyStr}
    (h : c.eventChannel symbol = c.eventChannel symbol') : symbol = symbol' :=
  PyStr.coe_append_inj.mp h

variable (c : Channels) (sid : SessionId) (symbol symbol' : PyStr)

/-- The channel of `symbol` is wanted. -/
def Active : Prop := c.eventChannel symbol ∈ c.active

instance : Decidable (c.Active symbol) := inferInstanceAs (Decidable (_ ∈ _))

/-- `_subscribe_pubsub_symbol` wants its channel, whatever comes of it, and holds the lock
exactly while it awaits Redis. -/
theorem subscribePubsubSymbol_cases :
    ∃ lock ok, c.subscribePubsubSymbol sid symbol =
        ({ c with
          active := insert (c.eventChannel symbol) c.active
          demand := true
          pubsubLock := lock }, ok) ∧
      ((ok = none ∧ lock = some (.session sid)) ∨ (ok ≠ none ∧ lock = c.pubsubLock)) := by
  unfold subscribePubsubSymbol
  dsimp only
  split
  · exact ⟨_, _, rfl, Or.inr ⟨by simp, rfl⟩⟩
  · split
    · exact ⟨_, _, rfl, Or.inr ⟨by simp, rfl⟩⟩
    · exact ⟨_, _, rfl, Or.inl ⟨rfl, rfl⟩⟩

@[simp] theorem active_subscribePubsubSymbol :
    (c.subscribePubsubSymbol sid symbol).1.Active symbol' ↔
      c.Active symbol' ∨ symbol = symbol' := by
  obtain ⟨lock, ok, heq, -⟩ := c.subscribePubsubSymbol_cases sid symbol
  rw [heq]
  unfold Active
  rw [Finset.mem_insert, or_comm]
  refine or_congr Iff.rfl ⟨fun h => (c.eventChannel_injective h).symm, ?_⟩
  rintro rfl
  rfl

@[simp] theorem active_subscribeAnswered (ok : Bool) :
    (c.subscribeAnswered symbol ok).Active symbol' ↔ c.Active symbol' := by
  cases ok <;> exact Iff.rfl

@[simp] theorem lock_subscribeAnswered (ok : Bool) :
    (c.subscribeAnswered symbol ok).pubsubLock = none := by
  cases ok <;> rfl

/-- `_unsubscribe_pubsub_symbol` gives its channel up, and holds the lock exactly while it
awaits Redis. -/
theorem unsubscribePubsubSymbol_cases :
    (¬ c.Active symbol ∧ c.unsubscribePubsubSymbol sid symbol = (c, false)) ∨
    ∃ confirmed demand pubsub lock awaiting, c.Active symbol ∧
      c.unsubscribePubsubSymbol sid symbol =
        ({ c with
          active := c.active.erase (c.eventChannel symbol)
          confirmed := confirmed
          demand := demand
          redisPubsub := pubsub
          pubsubLock := lock }, awaiting) ∧
      ((awaiting = true ∧ lock = some (.session sid)) ∨
        (awaiting = false ∧ lock = c.pubsubLock)) := by
  unfold unsubscribePubsubSymbol Active
  dsimp only
  by_cases ha : c.eventChannel symbol ∈ c.active
  · rw [if_neg (not_not.mpr ha)]
    refine Or.inr ?_
    split
    · exact ⟨_, _, _, _, _, ha, rfl, Or.inr ⟨rfl, rfl⟩⟩
    · exact ⟨_, _, _, _, _, ha, rfl, Or.inl ⟨rfl, rfl⟩⟩
  · rw [if_pos ha]
    exact Or.inl ⟨ha, rfl⟩

@[simp] theorem active_unsubscribePubsubSymbol :
    (c.unsubscribePubsubSymbol sid symbol).1.Active symbol' ↔
      c.Active symbol' ∧ symbol ≠ symbol' := by
  rcases c.unsubscribePubsubSymbol_cases sid symbol with
    ⟨ha, heq⟩ | ⟨_, _, _, _, _, -, heq, -⟩
  · rw [heq, iff_self_and]
    rintro h rfl
    exact ha h
  · rw [heq]
    unfold Active
    rw [Finset.mem_erase, and_comm]
    refine and_congr Iff.rfl (not_congr ⟨fun h => (c.eventChannel_injective h).symm, ?_⟩)
    rintro rfl
    rfl

/-- `fanout_loop` never touches the wanted channels, and takes the lock only when it is
free. -/
theorem fanoutStep_frame {c c' : Channels} {task task' : FanoutTask} {a : FanoutAct}
    (h : c.fanoutStep task a = some (c', task')) :
    c'.keyPrefix = c.keyPrefix ∧ c'.active = c.active ∧ c'.demand = c.demand ∧
      (c'.pubsubLock = c.pubsubLock ∨ (c.pubsubLock = none ∧ c'.pubsubLock = some .fanout) ∨
        ((∃ channels, task = .subscribing channels) ∧ c'.pubsubLock = none)) := by
  unfold fanoutStep at h
  split at h
  -- the steps that look at the state first: the demand, and the lock (twice)
  case h_1 =>
    split at h
    · obtain ⟨rfl, rfl⟩ := Prod.mk.inj (Option.some.inj h)
      exact ⟨rfl, rfl, rfl, Or.inl rfl⟩
    · exact absurd h (by simp)
  case h_2 =>
    split at h
    · rename_i hlock
      dsimp only at h
      split at h <;> obtain ⟨rfl, rfl⟩ := Prod.mk.inj (Option.some.inj h)
      · exact ⟨rfl, rfl, rfl, Or.inl rfl⟩
      · exact ⟨rfl, rfl, rfl, Or.inr (Or.inl ⟨hlock, rfl⟩)⟩
    · exact absurd h (by simp)
  case h_8 =>
    split at h
    · obtain ⟨rfl, rfl⟩ := Prod.mk.inj (Option.some.inj h)
      exact ⟨rfl, rfl, rfl, Or.inl rfl⟩
    · exact absurd h (by simp)
  -- Redis has answered: the lock is released
  case h_3 | h_4 =>
    obtain ⟨rfl, rfl⟩ := Prod.mk.inj (Option.some.inj h)
    exact ⟨rfl, rfl, rfl, Or.inr (Or.inr ⟨⟨_, rfl⟩, rfl⟩)⟩
  case h_11 => exact absurd h (by simp)
  all_goals
    obtain ⟨rfl, rfl⟩ := Prod.mk.inj (Option.some.inj h)
    exact ⟨rfl, rfl, rfl, Or.inl rfl⟩

/-- Entering `_subscribe_desired_channels`, the loop holds the lock. -/
theorem fanoutStep_subscribing {c c' : Channels} {task : FanoutTask} {a : FanoutAct}
    {channels : Finset PyStr} (h : c.fanoutStep task a = some (c', .subscribing channels)) :
    c'.pubsubLock = some .fanout := by
  unfold fanoutStep at h
  split at h
  case h_2 =>
    split at h
    · dsimp only at h
      split at h
      · cases h
      · cases h
        rfl
    · cases h
  case h_1 | h_8 => split at h <;> cases h
  all_goals cases h

end Channels

end MarketData.Gateway
