import Mathlib.Data.Finset.Card
import Mathlib.Logic.Function.Basic
import MarketData.Gateway.Channels
import MarketData.Gateway.Pipeline

/-!
# MarketData.Gateway.Coroutines

The gateway as **coroutines that interleave only at awaits**: any number of sessions, each
with its own dispatch, flush and writer tasks (`Pipeline`) and one `_subscribe`,
`_unsubscribe` or `_cleanup` call at a time, beside the one `fanout_loop`.

Design points:

* A `Call` names the await a call is suspended at, with the call's local variables. Every
  acquisition of a lock counts as an await, also where the lock is free.
* A step of a call sees the shared state and its own session only (`Scope`), so that it
  leaves other sessions alone holds by construction.
* What the scheduler and the outside world decide is in the action: which task runs, what
  Redis answers, what a snapshot read returns, in which order `_cleanup` walks a set.

`called` is the inversion lemma: a constructor of `Called` for each way a call can step,
with its whole effect. The invariants of later modules are case analyses over it.
-/

namespace MarketData.Gateway

/-- What a session's owner can call. -/
inductive Request
  | subscribe (symbol : PyStr) (filterPayload : Json)
  | unsubscribe (symbol : PyStr)
  | cleanup

/-- A call's return, with the result of `_subscribe`. -/
inductive Returning
  | subscribe (symbol : PyStr) (ok : Bool)
  | unsubscribe (symbol : PyStr)
  | cleanup
  deriving DecidableEq

/-- Where a session's call is suspended. -/
inductive Call
  | idle
  /-- `_subscribe`, awaiting `pubsub_lock` for the given attempt to confirm the channel. -/
  | ensuring (symbol : PyStr) (filter : Option SubscriptionFilter) (attempt : Nat)
  /-- Awaiting the Redis `subscribe`, under the lock. -/
  | confirming (symbol : PyStr) (filter : Option SubscriptionFilter) (attempt : Nat)
  /-- Awaiting the backoff after a failed attempt. -/
  | sleeping (symbol : PyStr) (filter : Option SubscriptionFilter) (attempt : Nat)
  /-- Awaiting `subscriptions_lock` to register the initialization. -/
  | registering (symbol : PyStr) (filter : Option SubscriptionFilter)
  /-- Awaiting `snapshot_store.get(symbol)`. -/
  | reading (symbol : PyStr) (filter : Option SubscriptionFilter)
  /-- The read has its result; awaiting `subscriptions_lock` to activate. -/
  | activating (symbol : PyStr) (filter : Option SubscriptionFilter) (result : ReadResult)
      (ofSymbol : result.OfSymbol symbol)
  /-- Awaiting `subscriptions_lock` in the `finally` block. -/
  | rollingBack (symbol : PyStr) (ok : Bool)
  /-- Awaiting `subscriptions_lock` in `_remove_desired_channel_if_unused`. -/
  | checkingUnused (symbol : PyStr) (ok : Bool)
  /-- `_unsubscribe`, awaiting `subscriptions_lock`. -/
  | unsubscribing (symbol : PyStr)
  /-- `_cleanup`, awaiting `subscriptions_lock`. -/
  | cleaning
  /-- Awaiting `pubsub_lock` to give up the first of the symbols. -/
  | releasing (symbols : List PyStr) (result : Returning)
  /-- Awaiting the Redis `unsubscribe`, under the lock, with these symbols to go. -/
  | dropping (symbols : List PyStr) (result : Returning)
  /-- `_cleanup`, awaiting `session.close()`. -/
  | closing
  deriving DecidableEq

/-- A session with its dispatch task and its current call. -/
structure Client extends Pipeline where
  call : Call := .idle
  connected : Bool := false

/-- What the gateway visibly does. -/
inductive Obs
  | client (sid : SessionId) (o : ClientObs)
  /-- An event arrived from Pub/Sub and was pushed to these sessions. -/
  | received (e : MarketEvent) (sessions : Finset SessionId)
  /-- `_subscribe` registered the session, after reading this snapshot. -/
  | activated (sid : SessionId) (symbol : PyStr) (snapshot : Option SnapshotData)
  | returned (sid : SessionId) (result : Returning)
  /-- An exception left the call. -/
  | raised (sid : SessionId)
  /-- `session.close()` was called. -/
  | closed (sid : SessionId)
  deriving DecidableEq

/-- What the tasks of one session see of an observation. -/
def Obs.view (sid : SessionId) : Obs → Option ClientObs
  | .client s o => if s = sid then some o else none
  | .received e sessions => if sid ∈ sessions then some (.pushed e) else none
  | _ => none

/-- A step of a call. -/
inductive CallAct
  | request (r : Request)
  /-- Run on from the current await. -/
  | go
  /-- Run the critical section of `_cleanup`, walking `session.subscriptions` in this order. -/
  | clean (order : List PyStr)
  /-- The pending Redis call returns or raises. -/
  | redis (ok : Bool)
  /-- The pending snapshot read gets its result. -/
  | read (result : ReadResult)

/-! ### The parts of the calls that touch the session -/

namespace ClientSession

/-- Enqueue the handshake's snapshot, if there is one, and make it boundary and baseline.
The flag says whether the handshake goes on. -/
def seed (s : ClientSession) (symbol : PyStr) :
    Option SnapshotData → Bool × ClientSession × List ClientObs
  | none => (true, s, [])
  | some snapshot =>
    match s.enqueue (.snapshot snapshot) with
    | (true, s) =>
      (true, { s with
        lastSeq := s.lastSeq.set symbol snapshot.seq
        lastPrice := s.lastPrice.set symbol snapshot.bid }, [.accepted (.snapshot snapshot)])
    | (false, s) => (false, s, [.refused (.snapshot snapshot)])

/-- Push the buffered events. -/
def pushAll (s : ClientSession) (events : List MarketEvent) : ClientSession :=
  { s with aggregator := events.foldl AggregationBuffer.push s.aggregator }

/-- `session.subscriptions` and `session.filters` after a handshake. -/
def subscribed (s : ClientSession) (symbol : PyStr) (filter : Option SubscriptionFilter) :
    ClientSession :=
  { s with
    subscriptions := insert symbol s.subscriptions
    filters := match filter with
      | none => s.filters.erase symbol
      | some f => s.filters.set symbol f }

/-- What `_unsubscribe` removes from the session. -/
def forget (s : ClientSession) (symbol : PyStr) : ClientSession :=
  { s with
    subscriptions := s.subscriptions.erase symbol
    lastSeq := s.lastSeq.erase symbol
    filters := s.filters.erase symbol
    lastPrice := s.lastPrice.erase symbol }

/-- `close`: set the disconnect flag and cancel the writer task. -/
def close (s : ClientSession) : ClientSession :=
  { s with
    disconnected := true
    writer := match s.writer with
      | .notStarted => .notStarted
      | _ => .stopped }

end ClientSession

/-! ### One step of a call -/

/-- What a step of a call works on: the shared state and the caller. -/
structure Scope where
  registry : Registry
  channels : Channels
  client : Client

namespace Scope

/-- The caller suspended at `call`. -/
def goto (σ : Scope) (call : Call) : Scope := { σ with client := { σ.client with call := call } }

/-- The caller with another session state. -/
def withSession (σ : Scope) (s : ClientSession) : Scope :=
  { σ with client := { σ.client with session := s } }

/-- Enqueue an error reply. -/
def reply (σ : Scope) (sid : SessionId) (text : PyStr) : Scope × List Obs :=
  let (s, obs) := σ.client.session.enqueueError text
  (σ.withSession s, obs.map (.client sid))

/-- The start of a call. -/
def begin (σ : Scope) (sid : SessionId) : Request → Scope × List Obs
  | .subscribe symbol payload =>
    match parseSubscriptionFilter payload with
    | .ok filter => (σ.goto (.ensuring symbol filter 0), [])
    | .error (.valueError text) =>
      let (σ, obs) := σ.reply sid text
      (σ, obs ++ [.returned sid (.subscribe symbol false)])
    | .error .overflowError => (σ, [.raised sid])
  | .unsubscribe symbol => (σ.goto (.unsubscribing symbol), [])
  | .cleanup => (σ.goto .cleaning, [])

/-- Where `_subscribe` goes from an attempt to confirm the channel. -/
def afterAttempt (symbol : PyStr) (filter : Option SubscriptionFilter) (attempt : Nat) :
    Option Bool → Call
  | some true => .registering symbol filter
  | some false => .sleeping symbol filter attempt
  | none => .confirming symbol filter attempt

/-- The attempts of `_ensure_pubsub_subscription`. -/
def ensureAttempts : Nat := 5

/-- After the backoff: the next attempt, or the error reply after the last. -/
def retry (σ : Scope) (sid : SessionId) (symbol : PyStr) (filter : Option SubscriptionFilter)
    (attempt : Nat) : Scope × List Obs :=
  if attempt + 1 < ensureAttempts then (σ.goto (.ensuring symbol filter (attempt + 1)), [])
  else
    let (σ, obs) := σ.reply sid ("subscription unavailable for " ++ symbol)
    (σ.goto (.checkingUnused symbol false), obs)

/-- The `except Exception` branch of `_subscribe`. -/
def fail (σ : Scope) (sid : SessionId) (symbol : PyStr) : Scope × List Obs :=
  let (σ, obs) := σ.reply sid ("subscription failed for " ++ symbol)
  (σ.goto (.rollingBack symbol false), obs)

/-- The critical section that ends the handshake. A session has one call at a time, so an
initialization it finds registered is its own. -/
def activate (σ : Scope) (sid : SessionId) (symbol : PyStr) (filter : Option SubscriptionFilter)
    (result : ReadResult) : Scope × List Obs :=
  match result, σ.registry.initialization? symbol sid with
  | .value snapshot, some initialization =>
    if initialization.overflowed then σ.fail sid symbol
    else
      match σ.client.session.seed symbol snapshot with
      | (false, s, obs) =>
        let (σ, obs') := (σ.withSession s).fail sid symbol
        (σ, obs.map (.client sid) ++ obs')
      | (true, s, obs) =>
        let events := initialization.released snapshot
        ({ registry := (σ.registry.endInitialization symbol sid).addSubscriber symbol sid
           channels := σ.channels
           client := { σ.client with
             session := (s.pushAll events).subscribed symbol filter
             call := .rollingBack symbol true } },
          (obs ++ events.map ClientObs.pushed).map (.client sid) ++
            [.activated sid symbol snapshot])
  | _, _ => σ.fail sid symbol

/-- `_remove_desired_channel_if_unused`. -/
def removeDesiredChannelIfUnused (σ : Scope) (sid : SessionId) (symbol : PyStr) (ok : Bool) :
    Scope × List Obs :=
  if σ.registry.inUse symbol then (σ.goto .idle, [.returned sid (.subscribe symbol ok)])
  else (σ.goto (.releasing [symbol] (.subscribe symbol ok)), [])

/-- `_unsubscribe`, up to the channel. -/
def unsubscribe (σ : Scope) (sid : SessionId) (symbol : PyStr) : Scope × List Obs :=
  let (registry, shouldUnsubscribe) := σ.registry.discardSubscriber symbol sid
  let σ := { σ with registry := registry }.withSession (σ.client.session.forget symbol)
  if shouldUnsubscribe then (σ.goto (.releasing [symbol] (.unsubscribe symbol)), [])
  else (σ.goto .idle, [.returned sid (.unsubscribe symbol)])

/-- `_cleanup`, up to the channels. -/
def cleanup (σ : Scope) (sid : SessionId) (order : List PyStr) : Scope :=
  let (registry, symbols) := σ.registry.cleanup sid σ.client.session.clientId order
  { σ with registry := registry }.goto (.releasing symbols .cleanup)

/-- `_unsubscribe_pubsub_symbol`, up to the Redis call if there is one. -/
def release (σ : Scope) (sid : SessionId) (symbol : PyStr) (rest : List PyStr)
    (result : Returning) : Scope :=
  let (channels, awaiting) := σ.channels.unsubscribePubsubSymbol sid symbol
  { σ with channels := channels }.goto
    (if awaiting then .dropping rest result else .releasing rest result)

/-- Nothing is left to give up: return, `_cleanup` by way of `session.close()`. -/
def finish (σ : Scope) (sid : SessionId) : Returning → Scope × List Obs
  | .cleanup => ((σ.withSession σ.client.session.close).goto .closing, [.closed sid])
  | result => (σ.goto .idle, [.returned sid result])

/-- Run one step of a call. -/
def step (σ : Scope) (sid : SessionId) (a : CallAct) : Option (Scope × List Obs) :=
  match σ.client.call, a with
  | .idle, .request r => if σ.client.connected then some (σ.begin sid r) else none
  | .ensuring symbol filter attempt, .go =>
    if σ.channels.pubsubLock = none then
      let (channels, ok) := σ.channels.subscribePubsubSymbol sid symbol
      some ({ σ with channels := channels }.goto (afterAttempt symbol filter attempt ok), [])
    else none
  | .confirming symbol filter attempt, .redis ok =>
    some ({ σ with channels := σ.channels.subscribeAnswered symbol ok }.goto
      (afterAttempt symbol filter attempt (some ok)), [])
  | .sleeping symbol filter attempt, .go => some (σ.retry sid symbol filter attempt)
  | .registering symbol filter, .go =>
    some ({ σ with registry := σ.registry.beginInitialization symbol sid }.goto
      (.reading symbol filter), [])
  | .reading symbol filter, .read result =>
    if h : result.OfSymbol symbol then some (σ.goto (.activating symbol filter result h), [])
    else none
  | .activating symbol filter result _, .go => some (σ.activate sid symbol filter result)
  | .rollingBack symbol ok, .go =>
    some ({ σ with registry := σ.registry.endInitialization symbol sid }.goto
      (.checkingUnused symbol ok), [])
  | .checkingUnused symbol ok, .go => some (σ.removeDesiredChannelIfUnused sid symbol ok)
  | .unsubscribing symbol, .go => some (σ.unsubscribe sid symbol)
  | .cleaning, .clean order =>
    if order.Nodup ∧ order.toFinset = σ.client.session.subscriptions then
      some (σ.cleanup sid order, [])
    else none
  | .releasing [] result, .go => some (σ.finish sid result)
  | .releasing (symbol :: rest) result, .go =>
    if σ.channels.pubsubLock = none then some (σ.release sid symbol rest result, []) else none
  | .dropping rest result, .redis _ =>
    some ({ σ with channels := σ.channels.unsubscribeAnswered }.goto (.releasing rest result), [])
  | .closing, .go => some (σ.goto .idle, [.returned sid .cleanup])
  | _, _ => none

end Scope

/-! ### Inversion of a call's step -/

/-- An error reply, after the queue has refused the handshake's snapshot or not: the session's
queue may change, and no market data reaches it. -/
inductive Replied (sid : SessionId) (s : ClientSession) (text : PyStr) :
    ClientSession → List Obs → Prop
  | mk (refused : List SnapshotData) (stats : ClientStats) (d : Bool)
      (hd : s.policy = .dropOldest → d = s.disconnected) :
      Replied sid s text ({ s with stats := stats, disconnected := d }.enqueueError text).1
        ((refused.map (fun snapshot => ClientObs.refused (.snapshot snapshot)) ++
          ({ s with stats := stats, disconnected := d }.enqueueError text).2).map (.client sid))

namespace Replied

variable {sid : SessionId} {s s' : ClientSession} {text : PyStr} {os : List Obs}

theorem session (h : Replied sid s text s' os) :
    ∃ q stats d, s' = { s with queue := q, stats := stats, disconnected := d } := by
  obtain ⟨refused, stats, d, -⟩ := h
  obtain ⟨q, stats', d', heq⟩ := ClientSession.enqueue_fields
    { s with stats := stats, disconnected := d } (.error text)
  exact ⟨q, stats', d', heq⟩

/-- Under DROP_OLDEST a reply does not disconnect. -/
theorem disconnected (h : Replied sid s text s' os) (hp : s.policy = .dropOldest) :
    s'.disconnected = s.disconnected := by
  obtain ⟨refused, stats, d, hd⟩ := h
  obtain ⟨stats', heq⟩ := ClientSession.enqueue_dropOldest_eq
    (s := { s with stats := stats, disconnected := d }) hp (.error text)
  rw [ClientSession.enqueueError_eq, heq]
  exact hd hp

theorem obs (h : Replied sid s text s' os) : ∀ o ∈ os, (∃ m, o = .client sid (.refused m)) ∨
    ∃ text, o = .client sid (.accepted (.error text)) := by
  intro o ho
  obtain ⟨refused, stats, d, -⟩ := h
  obtain ⟨x, hx, rfl⟩ := List.mem_map.mp ho
  rcases List.mem_append.mp hx with hx | hx
  · obtain ⟨snapshot, -, rfl⟩ := List.mem_map.mp hx
    exact Or.inl ⟨_, rfl⟩
  · simp only [ClientSession.enqueueError_eq, List.mem_singleton] at hx
    subst hx
    cases (ClientSession.enqueue { s with stats := stats, disconnected := d } (.error text)).1 with
    | true => exact Or.inr ⟨text, rfl⟩
    | false => exact Or.inl ⟨_, rfl⟩

/-- What it puts on the queue is its error. -/
theorem accepted_eq (h : Replied sid s text s' os) {m : Message}
    (hm : .client sid (.accepted m) ∈ os) : m = .error text := by
  obtain ⟨refused, stats, d, -⟩ := h
  obtain ⟨x, hx, hxm⟩ := List.mem_map.mp hm
  obtain rfl := (Obs.client.inj hxm).2
  rcases List.mem_append.mp hx with hx | hx
  · obtain ⟨snapshot, -, hx⟩ := List.mem_map.mp hx
    cases hx
  · simp only [ClientSession.enqueueError_eq, List.mem_singleton] at hx
    generalize
      (ClientSession.enqueue { s with stats := stats, disconnected := d } (.error text)).1 =
      ok at hx
    cases ok <;> cases hx
    rfl

end Replied

theorem Scope.reply_replied (σ : Scope) (sid : SessionId) (text : PyStr) :
    ∃ s, (σ.reply sid text).1 = σ.withSession s ∧
      Replied sid σ.client.session text s (σ.reply sid text).2 :=
  ⟨_, rfl, .mk [] σ.client.session.stats σ.client.session.disconnected fun _ => rfl⟩

/-- What seeding the boundary does when the handshake goes on. -/
inductive Seeded (s : ClientSession) (symbol : PyStr) :
    Option SnapshotData → ClientSession → List ClientObs → Prop
  | absent : Seeded s symbol none s []
  | accepted (snapshot : SnapshotData) (q : BoundedQueue Message) (stats : ClientStats) (d : Bool)
      (hok : (s.enqueue (.snapshot snapshot)).1 = true)
      (hq : q = s.queue.putEvict (.snapshot snapshot))
      (hd : s.policy = .dropOldest → d = s.disconnected) :
      Seeded s symbol (some snapshot) { s with
          lastSeq := s.lastSeq.set symbol snapshot.seq
          lastPrice := s.lastPrice.set symbol snapshot.bid
          queue := q, stats := stats, disconnected := d }
        [.accepted (.snapshot snapshot)]

/-- Seeding goes through, or the queue refuses the snapshot. -/
theorem ClientSession.seed_cases (s : ClientSession) (symbol : PyStr)
    (snapshot : Option SnapshotData) :
    (∃ s' obs, s.seed symbol snapshot = (true, s', obs) ∧ Seeded s symbol snapshot s' obs) ∨
    ∃ refused stats d, (s.policy = .dropOldest → d = s.disconnected) ∧ s.seed symbol snapshot =
      (false, { s with stats := stats, disconnected := d }, [.refused (.snapshot refused)]) := by
  cases snapshot with
  | none => exact Or.inl ⟨s, [], rfl, .absent⟩
  | some snapshot =>
      obtain ⟨q, stats, d, hf⟩ := s.enqueue_fields (.snapshot snapshot)
      have haccepted := @Seeded.accepted s symbol snapshot q stats d
      have hrefused := @ClientSession.enqueue_refused s (.snapshot snapshot)
      have hqueue := s.enqueue_queue (.snapshot snapshot)
      have hconnected : s.policy = .dropOldest →
          (s.enqueue (.snapshot snapshot)).2.disconnected = s.disconnected :=
        fun hp => ClientSession.enqueue_disconnected hp (.snapshot snapshot)
      simp only [seed]
      generalize s.enqueue (.snapshot snapshot) = p at hf haccepted hrefused hqueue hconnected ⊢
      obtain ⟨ok, s'⟩ := p
      cases ok with
      | true =>
          obtain rfl : s' = _ := hf
          exact Or.inl ⟨_, _, rfl, haccepted rfl hqueue hconnected⟩
      | false =>
          obtain ⟨stats, d, hs⟩ := hrefused rfl
          obtain rfl : s' = _ := hs
          exact Or.inr ⟨snapshot, stats, d, hconnected, rfl⟩

/-- **Everything one step of a call of `sid` can do.** -/
inductive Called (sid : SessionId) (σ : Scope) : CallAct → Scope → List Obs → Prop
  | parsed {symbol payload filter} (hc : σ.client.call = .idle)
      (hn : σ.client.connected = true) (hp : parseSubscriptionFilter payload = .ok filter) :
      Called sid σ (.request (.subscribe symbol payload)) (σ.goto (.ensuring symbol filter 0)) []
  | rejected {symbol payload text s obs} (hc : σ.client.call = .idle)
      (hn : σ.client.connected = true)
      (hs : Replied sid σ.client.session (PyStr.mk text []) s obs)
      (hp : parseSubscriptionFilter payload = .error (.valueError text)) :
      Called sid σ (.request (.subscribe symbol payload)) (σ.withSession s)
        (obs ++ [.returned sid (.subscribe symbol false)])
  | overflowed {symbol payload} (hc : σ.client.call = .idle) (hn : σ.client.connected = true) :
      Called sid σ (.request (.subscribe symbol payload)) σ [.raised sid]
  | unsubscribeBegun {symbol} (hc : σ.client.call = .idle) (hn : σ.client.connected = true) :
      Called sid σ (.request (.unsubscribe symbol)) (σ.goto (.unsubscribing symbol)) []
  | cleanupBegun (hc : σ.client.call = .idle) (hn : σ.client.connected = true) :
      Called sid σ (.request .cleanup) (σ.goto .cleaning) []
  | attempted {symbol filter attempt} (hc : σ.client.call = .ensuring symbol filter attempt)
      (hl : σ.channels.pubsubLock = none) :
      Called sid σ .go
        ({ σ with channels := (σ.channels.subscribePubsubSymbol sid symbol).1 }.goto
          (Scope.afterAttempt symbol filter attempt
            (σ.channels.subscribePubsubSymbol sid symbol).2)) []
  | answered {symbol filter attempt} (ok : Bool)
      (hc : σ.client.call = .confirming symbol filter attempt) :
      Called sid σ (.redis ok)
        ({ σ with channels := σ.channels.subscribeAnswered symbol ok }.goto
          (Scope.afterAttempt symbol filter attempt (some ok))) []
  | slept {symbol filter attempt} (hc : σ.client.call = .sleeping symbol filter attempt)
      (hlt : attempt + 1 < Scope.ensureAttempts) :
      Called sid σ .go (σ.goto (.ensuring symbol filter (attempt + 1))) []
  | unavailable {symbol filter attempt s obs}
      (hc : σ.client.call = .sleeping symbol filter attempt)
      (hs : Replied sid σ.client.session ("subscription unavailable for " ++ symbol) s obs) :
      Called sid σ .go ((σ.withSession s).goto (.checkingUnused symbol false)) obs
  | registered {symbol filter} (hc : σ.client.call = .registering symbol filter) :
      Called sid σ .go
        ({ σ with registry := σ.registry.beginInitialization symbol sid }.goto
          (.reading symbol filter)) []
  | read {symbol filter result} (hc : σ.client.call = .reading symbol filter)
      (h : result.OfSymbol symbol) :
      Called sid σ (.read result) (σ.goto (.activating symbol filter result h)) []
  | failed {symbol filter result h s obs}
      (hc : σ.client.call = .activating symbol filter result h)
      (hs : Replied sid σ.client.session ("subscription failed for " ++ symbol) s obs) :
      Called sid σ .go ((σ.withSession s).goto (.rollingBack symbol false)) obs
  | activated {symbol filter snapshot h initialization s obs}
      (hc : σ.client.call = .activating symbol filter (.value snapshot) h)
      (hi : σ.registry.initialization? symbol sid = some initialization)
      (ho : initialization.overflowed = false)
      (hs : Seeded σ.client.session symbol snapshot s obs) :
      Called sid σ .go
        { registry := (σ.registry.endInitialization symbol sid).addSubscriber symbol sid
          channels := σ.channels
          client := { σ.client with
            session := (s.pushAll (initialization.released snapshot)).subscribed symbol filter
            call := .rollingBack symbol true } }
        ((obs ++ (initialization.released snapshot).map ClientObs.pushed).map (.client sid) ++
          [.activated sid symbol snapshot])
  | rolledBack {symbol ok} (hc : σ.client.call = .rollingBack symbol ok) :
      Called sid σ .go
        ({ σ with registry := σ.registry.endInitialization symbol sid }.goto
          (.checkingUnused symbol ok)) []
  | inUse {symbol ok} (hc : σ.client.call = .checkingUnused symbol ok)
      (hu : σ.registry.inUse symbol = true) :
      Called sid σ .go (σ.goto .idle) [.returned sid (.subscribe symbol ok)]
  | unused {symbol ok} (hc : σ.client.call = .checkingUnused symbol ok)
      (hu : σ.registry.inUse symbol = false) :
      Called sid σ .go (σ.goto (.releasing [symbol] (.subscribe symbol ok))) []
  | lastUnsubscribed {symbol} (hc : σ.client.call = .unsubscribing symbol)
      (hl : (σ.registry.discardSubscriber symbol sid).2 = true) :
      Called sid σ .go
        (({ σ with registry := (σ.registry.discardSubscriber symbol sid).1 }.withSession
          (σ.client.session.forget symbol)).goto (.releasing [symbol] (.unsubscribe symbol))) []
  | unsubscribed {symbol} (hc : σ.client.call = .unsubscribing symbol)
      (hl : (σ.registry.discardSubscriber symbol sid).2 = false) :
      Called sid σ .go
        (({ σ with registry := (σ.registry.discardSubscriber symbol sid).1 }.withSession
          (σ.client.session.forget symbol)).goto .idle) [.returned sid (.unsubscribe symbol)]
  | cleaned {order} (hc : σ.client.call = .cleaning)
      (ho : order.toFinset = σ.client.session.subscriptions) :
      Called sid σ (.clean order)
        ({ σ with
            registry := (σ.registry.cleanup sid σ.client.session.clientId order).1 }.goto
          (.releasing (σ.registry.cleanup sid σ.client.session.clientId order).2 .cleanup)) []
  | released {symbol rest result} (hc : σ.client.call = .releasing (symbol :: rest) result)
      (hl : σ.channels.pubsubLock = none) :
      Called sid σ .go
        ({ σ with channels := (σ.channels.unsubscribePubsubSymbol sid symbol).1 }.goto
          (if (σ.channels.unsubscribePubsubSymbol sid symbol).2 then .dropping rest result
            else .releasing rest result)) []
  | dropped {rest result} (ok : Bool) (hc : σ.client.call = .dropping rest result) :
      Called sid σ (.redis ok)
        ({ σ with channels := σ.channels.unsubscribeAnswered }.goto (.releasing rest result)) []
  | finished {result} (hc : σ.client.call = .releasing [] result) (hr : result ≠ .cleanup) :
      Called sid σ .go (σ.goto .idle) [.returned sid result]
  | closing (hc : σ.client.call = .releasing [] .cleanup) :
      Called sid σ .go ((σ.withSession σ.client.session.close).goto .closing) [.closed sid]
  | closed (hc : σ.client.call = .closing) :
      Called sid σ .go (σ.goto .idle) [.returned sid .cleanup]

namespace Scope

variable {σ σ' : Scope} {sid : SessionId} {obs : List Obs}

theorem begin_called (hc : σ.client.call = .idle) (hn : σ.client.connected = true) (r : Request) :
    Called sid σ (.request r) (σ.begin sid r).1 (σ.begin sid r).2 := by
  cases r with
  | unsubscribe symbol => exact .unsubscribeBegun hc hn
  | cleanup => exact .cleanupBegun hc hn
  | subscribe symbol payload =>
      simp only [begin]
      cases hp : parseSubscriptionFilter payload with
      | ok filter => exact .parsed hc hn hp
      | error e =>
          cases e with
          | overflowError => exact .overflowed hc hn
          | valueError text =>
              obtain ⟨s, hs, hr⟩ := σ.reply_replied sid text
              dsimp only
              rw [hs]
              exact .rejected hc hn hr hp

/-- The `except` branch, after the queue has refused the snapshot or not. -/
theorem fail_called {symbol : PyStr} {filter : Option SubscriptionFilter} {result : ReadResult}
    {h : result.OfSymbol symbol} (hc : σ.client.call = .activating symbol filter result h)
    (refused : List SnapshotData) (stats : ClientStats) (d : Bool)
    (hd : σ.client.session.policy = .dropOldest → d = σ.client.session.disconnected) :
    Called sid σ .go ((σ.withSession { σ.client.session with
        stats := stats, disconnected := d }).fail sid symbol).1
      ((refused.map fun snapshot => ClientObs.refused (.snapshot snapshot)).map (.client sid) ++
        ((σ.withSession { σ.client.session with
          stats := stats, disconnected := d }).fail sid symbol).2) := by
  have hs := @Replied.mk sid σ.client.session
    ("subscription failed for " ++ symbol) refused stats d hd
  rw [List.map_append] at hs
  exact .failed hc hs

theorem activate_called {symbol : PyStr} {filter : Option SubscriptionFilter}
    {result : ReadResult} {h : result.OfSymbol symbol}
    (hc : σ.client.call = .activating symbol filter result h) :
    Called sid σ .go (σ.activate sid symbol filter result).1
      (σ.activate sid symbol filter result).2 := by
  -- an initialization that overflowed or is gone fails without touching the session
  have hfail : Called sid σ .go (σ.fail sid symbol).1 (σ.fail sid symbol).2 :=
    fail_called hc [] σ.client.session.stats σ.client.session.disconnected fun _ => rfl
  unfold activate
  split
  · rename_i snapshot initialization hi
    split
    · exact hfail
    · rename_i ho
      rcases σ.client.session.seed_cases symbol snapshot with
        ⟨s, obs, hseed, hs⟩ | ⟨refused, stats, d, hd, hseed⟩
      · rw [hseed]
        exact .activated hc hi (Bool.eq_false_iff.mpr ho) hs
      · rw [hseed]
        exact fail_called hc [refused] stats d hd
  · exact hfail

/-- **Inversion**: every step of a call is one of the constructors of `Called`. -/
theorem called {a : CallAct} (h : σ.step sid a = some (σ', obs)) : Called sid σ a σ' obs := by
  unfold step at h
  split at h
  case h_1 r hc =>
    split at h
    · rename_i hn
      obtain ⟨rfl, rfl⟩ := Machine.outcome h
      exact begin_called hc hn r
    · exact absurd h (by simp)
  case h_2 symbol filter attempt hc =>
    split at h
    · rename_i hl
      obtain ⟨rfl, rfl⟩ := Machine.outcome h
      exact .attempted hc hl
    · exact absurd h (by simp)
  case h_3 symbol filter attempt ok hc =>
    obtain ⟨rfl, rfl⟩ := Machine.outcome h
    exact .answered ok hc
  case h_4 symbol filter attempt hc =>
    obtain ⟨rfl, rfl⟩ := Machine.outcome h
    unfold retry
    split
    · rename_i hlt
      exact .slept hc hlt
    · obtain ⟨s, hs, hr⟩ := σ.reply_replied sid ("subscription unavailable for " ++ symbol)
      dsimp only
      rw [hs]
      exact .unavailable hc hr
  case h_5 symbol filter hc =>
    obtain ⟨rfl, rfl⟩ := Machine.outcome h
    exact .registered hc
  case h_6 symbol filter result hc =>
    split at h
    · rename_i hr
      obtain ⟨rfl, rfl⟩ := Machine.outcome h
      exact .read hc hr
    · exact absurd h (by simp)
  case h_7 symbol filter result hr hc =>
    obtain ⟨rfl, rfl⟩ := Machine.outcome h
    exact activate_called hc
  case h_8 symbol ok hc =>
    obtain ⟨rfl, rfl⟩ := Machine.outcome h
    exact .rolledBack hc
  case h_9 symbol ok hc =>
    obtain ⟨rfl, rfl⟩ := Machine.outcome h
    unfold removeDesiredChannelIfUnused
    split
    · rename_i hu
      exact .inUse hc hu
    · rename_i hu
      exact .unused hc (Bool.eq_false_iff.mpr hu)
  case h_10 symbol hc =>
    obtain ⟨rfl, rfl⟩ := Machine.outcome h
    unfold unsubscribe
    dsimp only
    split
    · rename_i hl
      exact .lastUnsubscribed hc hl
    · rename_i hl
      exact .unsubscribed hc (Bool.eq_false_iff.mpr hl)
  case h_11 order hc =>
    split at h
    · rename_i ho
      obtain ⟨rfl, rfl⟩ := Machine.outcome h
      exact .cleaned hc ho.2
    · exact absurd h (by simp)
  case h_12 result hc =>
    obtain ⟨rfl, rfl⟩ := Machine.outcome h
    cases result with
    | subscribe symbol ok => exact .finished hc (by simp)
    | unsubscribe symbol => exact .finished hc (by simp)
    | cleanup => exact .closing hc
  case h_13 symbol rest result hc =>
    split at h
    · rename_i hl
      obtain ⟨rfl, rfl⟩ := Machine.outcome h
      exact .released hc hl
    · exact absurd h (by simp)
  case h_14 rest result ok hc =>
    obtain ⟨rfl, rfl⟩ := Machine.outcome h
    exact .dropped ok hc
  case h_15 hc =>
    obtain ⟨rfl, rfl⟩ := Machine.outcome h
    exact .closed hc
  case h_16 => exact absurd h (by simp)

end Scope

/-! ### The whole gateway -/

/-- The gateway process. -/
structure Process where
  registry : Registry := {}
  channels : Channels := {}
  fanout : Channels.FanoutTask := .idle
  totalEventsDispatched : Nat := 0
  clients : SessionId → Client

/-- A step of the gateway. -/
inductive Act
  /-- `websocket_stream` creates the session, registers it and starts its tasks. -/
  | connect (sid : SessionId) (clientId : String) (policy : SlowConsumerPolicy)
      (mode : AggregationMode) (encoding : Encoding := .json)
  | call (sid : SessionId) (a : CallAct)
  | task (sid : SessionId) (a : TaskAct)
  /-- The receive loop answers a frame with an error. -/
  | error (sid : SessionId) (text : PyStr)
  /-- `dispatch_task.cancel()`, and the task ends. -/
  | cancelDispatch (sid : SessionId)
  /-- `session.aggregator.stop()`. -/
  | stopAggregator (sid : SessionId)
  | fanout (a : Channels.FanoutAct)
  /-- `fanout_loop` receives a message that parses as an event. -/
  | message (event : MarketEvent)

/-- A cancelled task ends unless an exception has ended it before. -/
def DispatchTask.cancel : DispatchTask → DispatchTask
  | .failed => .failed
  | _ => .cancelled

namespace Client

/-- The session as `websocket_stream` sets it up. -/
def connect (c : Client) (clientId : String) (policy : SlowConsumerPolicy)
    (mode : AggregationMode) (encoding : Encoding) : Client :=
  { c with
    session := {
      clientId := clientId
      policy := policy
      encoding := encoding
      aggregator := { mode := mode : AggregationBuffer }.start
      writer := .waiting }
    task := .waiting
    connected := true }

/-- The session with other state. -/
def withSession (c : Client) (s : ClientSession) : Client := { c with session := s }

/-- `session.aggregator.push(event)`. -/
def push (c : Client) (e : MarketEvent) : Client :=
  c.withSession { c.session with aggregator := c.session.aggregator.push e }

end Client

namespace Process

/-- The gateway at startup. -/
def initial (keyPrefix : String) : Process where
  channels := { keyPrefix := keyPrefix }
  clients := fun _ => { session := { clientId := "" } }

/-- What a call of `sid` works on. -/
def scope (g : Process) (sid : SessionId) : Scope := ⟨g.registry, g.channels, g.clients sid⟩

/-- The gateway after a step of a call of `sid`. -/
def withScope (g : Process) (sid : SessionId) (σ : Scope) : Process :=
  { g with
    registry := σ.registry
    channels := σ.channels
    clients := Function.update g.clients sid σ.client }

/-- The gateway with another state of one session. -/
def withClient (g : Process) (sid : SessionId) (c : Client) : Process :=
  { g with clients := Function.update g.clients sid c }

/-- `_fanout_event`. -/
def fanoutEvent (g : Process) (event : MarketEvent) : Process :=
  let sessions := g.registry.subscribers event.symbol
  { g with
    registry := g.registry.bufferEvent event
    totalEventsDispatched := g.totalEventsDispatched + sessions.card
    clients := fun sid =>
      if sid ∈ sessions then (g.clients sid).push event else g.clients sid }

/-- Run one step of the gateway. -/
def step (g : Process) : Act → Option (Process × List Obs)
  | .connect sid clientId policy mode encoding =>
    if (g.clients sid).connected then none
    else
      let g' := g.withClient sid ((g.clients sid).connect clientId policy mode encoding)
      some ({ g' with registry :=
        { g.registry with allSessions := g.registry.allSessions.set clientId sid } }, [])
  | .call sid a =>
    match (g.scope sid).step sid a with
    | some (σ, obs) => some (g.withScope sid σ, obs)
    | none => none
  | .task sid a =>
    match (g.clients sid).taskStep a with
    | some (p, obs) =>
      some (g.withClient sid { g.clients sid with toPipeline := p }, obs.map (.client sid))
    | none => none
  | .error sid text =>
    if (g.clients sid).connected ∧ (g.clients sid).call = .idle then
      let (s, obs) := (g.clients sid).session.enqueueError text
      some (g.withClient sid ((g.clients sid).withSession s), obs.map (.client sid))
    else none
  | .cancelDispatch sid =>
    let c := g.clients sid
    some (g.withClient sid { c with task := c.task.cancel }, [])
  | .stopAggregator sid =>
    let c := g.clients sid
    some (g.withClient sid
      (c.withSession { c.session with aggregator := c.session.aggregator.stop }), [])
  | .fanout a =>
    match g.channels.fanoutStep g.fanout a with
    | some (channels, fanout) => some ({ g with channels := channels, fanout := fanout }, [])
    | none => none
  | .message event =>
    if g.fanout = .listening then
      some (g.fanoutEvent event, [.received event (g.registry.subscribers event.symbol)])
    else none

end Process

end MarketData.Gateway
