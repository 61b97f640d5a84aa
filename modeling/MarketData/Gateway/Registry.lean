import Mathlib.Data.Finset.Basic
import Mathlib.Data.List.Sort
import MarketData.Lib.Dict
import MarketData.Models

/-!
# MarketData.Gateway.Registry

The state behind `subscriptions_lock` in `src/gateway/gateway.py`: who is subscribed to
a symbol (`subscriptions`), whose handshake for it is under way and what arrived in the
meantime (`initializing_subscriptions`), and the connected sessions (`all_sessions`).

No critical section of `subscriptions_lock` contains an `await`, so each is one function
here. Later modules never look at the dictionaries: they use the two views
`subscribers` and `initialization?`, and every operation has one equation for each.
-/

namespace MarketData.Gateway

/-- The identity of a `ClientSession` object. -/
abbrev SessionId := Nat

/-- `INITIALIZATION_BUFFER_MAX_SIZE`. -/
def initializationBufferMaxSize : Nat := 500

/-- `SubscriptionInitialization`. -/
structure SubscriptionInitialization where
  events : List MarketEvent := []
  overflowed : Bool := false
  deriving DecidableEq

namespace SubscriptionInitialization

/-- What `_fanout_event` does to each pending initialization of the event's symbol. -/
def buffer (i : SubscriptionInitialization) (event : MarketEvent) : SubscriptionInitialization :=
  if initializationBufferMaxSize ≤ i.events.length then { i with overflowed := true }
  else { i with events := i.events ++ [event] }

/-- Buffering either appends the event or gives the initialization up. -/
theorem buffer_cases (i : SubscriptionInitialization) (event : MarketEvent) :
    ((i.buffer event).events = i.events ∧ (i.buffer event).overflowed = true) ∨
    ((i.buffer event).events = i.events ++ [event] ∧
      (i.buffer event).overflowed = i.overflowed) := by
  unfold buffer
  split
  · exact Or.inl ⟨rfl, rfl⟩
  · exact Or.inr ⟨rfl, rfl⟩

/-- The events the activation pushes: beyond the snapshot, ordered by sequence number. -/
def released (i : SubscriptionInitialization) (snapshot : Option SnapshotData) :
    List MarketEvent :=
  (i.events.insertionSort (fun e e' => e.seq ≤ e'.seq)).filter
    (fun e => snapshot.all (fun s => decide (s.seq < e.seq)))

theorem mem_released {i : SubscriptionInitialization} {snapshot : Option SnapshotData}
    {e : MarketEvent} :
    e ∈ i.released snapshot ↔ e ∈ i.events ∧ ∀ s ∈ snapshot, s.seq < e.seq := by
  rw [released, List.mem_filter, List.mem_insertionSort]
  cases snapshot <;> simp

end SubscriptionInitialization

/-- The registries guarded by `subscriptions_lock`. -/
structure Registry where
  subscriptions : Dict PyStr (Finset SessionId) := .empty
  /-- `initializing_subscriptions`. -/
  initializing : Dict PyStr (Dict SessionId SubscriptionInitialization) := .empty
  allSessions : Dict String SessionId := .empty

namespace Registry

/-- `subscriptions.get(symbol, set())`. -/
def subscribers (r : Registry) (symbol : PyStr) : Finset SessionId :=
  (r.subscriptions.get? symbol).getD ∅

/-- `initializing_subscriptions.get(symbol, {})`. -/
def initializations (r : Registry) (symbol : PyStr) : Dict SessionId SubscriptionInitialization :=
  (r.initializing.get? symbol).getD .empty

/-- `initializing_subscriptions.get(symbol, {}).get(session)`. -/
def initialization? (r : Registry) (symbol : PyStr) (sid : SessionId) :
    Option SubscriptionInitialization :=
  (r.initializations symbol).get? sid

/-! ### The critical sections -/

/-- The registry half of `_fanout_event`: every pending initialization of the symbol
buffers the event. -/
def bufferEvent (r : Registry) (event : MarketEvent) : Registry :=
  match r.initializing.get? event.symbol with
  | none => r
  | some inits =>
    { r with initializing :=
        r.initializing.set event.symbol (inits.mapValues fun _ i => i.buffer event) }

/-- `initializing_subscriptions.setdefault(symbol, {})[session] = initialization`. -/
def beginInitialization (r : Registry) (symbol : PyStr) (sid : SessionId) : Registry :=
  { r with initializing :=
      r.initializing.set symbol ((r.initializations symbol).set sid {}) }

/-- Pop the session's initialization, and the symbol's dictionary once it is empty. -/
def endInitialization (r : Registry) (symbol : PyStr) (sid : SessionId) : Registry :=
  let inits := (r.initializations symbol).erase sid
  { r with initializing :=
      if inits.isEmpty then r.initializing.erase symbol else r.initializing.set symbol inits }

/-- `subscriptions.setdefault(symbol, set()).add(session)`. -/
def addSubscriber (r : Registry) (symbol : PyStr) (sid : SessionId) : Registry :=
  { r with subscriptions := r.subscriptions.set symbol (insert sid (r.subscribers symbol)) }

/-- Discard the session from the symbol's set, and the set once it is empty; the flag says
whether it was. -/
def discardSubscriber (r : Registry) (symbol : PyStr) (sid : SessionId) : Registry × Bool :=
  let sessions := (r.subscribers symbol).erase sid
  if sessions = ∅ then ({ r with subscriptions := r.subscriptions.erase symbol }, true)
  else ({ r with subscriptions := r.subscriptions.set symbol sessions }, false)

/-- `in_use` of `_remove_desired_channel_if_unused`. -/
def inUse (r : Registry) (symbol : PyStr) : Bool :=
  decide (r.subscribers symbol ≠ ∅) || !(r.initializations symbol).isEmpty

/-- The first loop of `_cleanup`: drop the session from every handshake; the symbols whose
last handshake it was and that nobody is subscribed to are to be given up. -/
def cancelInitializations (r : Registry) (sid : SessionId) : Registry × List PyStr :=
  let emptied := r.initializing.entries.filter (fun p => (p.2.erase sid).isEmpty)
  ({ r with initializing := r.initializing.filterMapValues fun _ inits =>
      if (inits.erase sid).isEmpty then none else some (inits.erase sid) },
    (emptied.map Prod.fst).filter (fun symbol => r.subscribers symbol = ∅))

/-- The second loop of `_cleanup`, over `session.subscriptions` in the order given. -/
def discardAll (r : Registry) (sid : SessionId) : List PyStr → Registry × List PyStr
  | [] => (r, [])
  | symbol :: rest =>
    let (r', last) := r.discardSubscriber symbol sid
    let (r'', symbols) := r'.discardAll sid rest
    (r'', if last then symbol :: symbols else symbols)

/-- The critical section of `_cleanup`, with `symbols_to_unsubscribe`. -/
def cleanup (r : Registry) (sid : SessionId) (clientId : String) (subscriptions : List PyStr) :
    Registry × List PyStr :=
  let (r', cancelled) := r.cancelInitializations sid
  let (r'', discarded) := r'.discardAll sid subscriptions
  ({ r'' with allSessions := r''.allSessions.erase clientId }, cancelled ++ discarded)

/-! ### Each operation, seen through the two views -/

variable (r : Registry) (symbol symbol' : PyStr) (sid sid' : SessionId)

@[simp] theorem subscribers_bufferEvent (e : MarketEvent) :
    (r.bufferEvent e).subscribers symbol = r.subscribers symbol := by
  unfold bufferEvent
  split <;> rfl

@[simp] theorem subscribers_beginInitialization :
    (r.beginInitialization symbol sid).subscribers symbol' = r.subscribers symbol' := rfl

@[simp] theorem subscribers_endInitialization :
    (r.endInitialization symbol sid).subscribers symbol' = r.subscribers symbol' := rfl

theorem subscribers_addSubscriber :
    (r.addSubscriber symbol sid).subscribers symbol' =
      if symbol = symbol' then insert sid (r.subscribers symbol') else r.subscribers symbol' := by
  unfold subscribers addSubscriber
  rw [Dict.get?_set]
  split
  · rename_i h
    rw [← h]
    rfl
  · rfl

theorem subscribers_discardSubscriber :
    (r.discardSubscriber symbol sid).1.subscribers symbol' =
      if symbol = symbol' then (r.subscribers symbol').erase sid else r.subscribers symbol' := by
  have hview : ∀ d : Dict PyStr (Finset SessionId),
      subscribers { r with subscriptions := d } symbol' = (d.get? symbol').getD ∅ := fun _ => rfl
  unfold discardSubscriber
  dsimp only
  by_cases hs : symbol = symbol'
  · subst hs
    by_cases he : (r.subscribers symbol).erase sid = ∅
    · rw [if_pos he, hview, Dict.get?_erase_self, if_pos rfl, he]
      rfl
    · rw [if_neg he, hview, Dict.get?_set_self, if_pos rfl]
      rfl
  · rw [if_neg hs]
    split
    · rw [hview, Dict.get?_erase_ne _ hs]
      rfl
    · rw [hview, Dict.get?_set_ne _ _ hs]
      rfl

/-- The flag of `discardSubscriber`: nobody is left. -/
theorem discardSubscriber_last :
    (r.discardSubscriber symbol sid).2 = true ↔
      (r.discardSubscriber symbol sid).1.subscribers symbol = ∅ := by
  rw [subscribers_discardSubscriber, if_pos rfl]
  unfold discardSubscriber
  dsimp only
  split <;> simp [*]

theorem initialization?_bufferEvent (e : MarketEvent) :
    (r.bufferEvent e).initialization? symbol sid =
      if e.symbol = symbol then (r.initialization? symbol sid).map (·.buffer e)
      else r.initialization? symbol sid := by
  unfold bufferEvent
  by_cases hs : e.symbol = symbol
  · subst hs
    rw [if_pos rfl]
    cases hi : r.initializing.get? e.symbol with
    | none => simp [initialization?, initializations, hi]
    | some inits => simp [initialization?, initializations, hi]
  · rw [if_neg hs]
    cases hi : r.initializing.get? e.symbol with
    | none => rfl
    | some inits => simp [initialization?, initializations, Dict.get?_set_ne _ _ hs]

theorem initialization?_beginInitialization :
    (r.beginInitialization symbol sid).initialization? symbol' sid' =
      if symbol = symbol' ∧ sid = sid' then some {} else r.initialization? symbol' sid' := by
  unfold initialization? initializations beginInitialization
  by_cases hs : symbol = symbol'
  · subst hs
    by_cases hi : sid = sid' <;> simp [Dict.get?_set, hi, initializations]
  · simp [Dict.get?_set, hs]

theorem initialization?_endInitialization :
    (r.endInitialization symbol sid).initialization? symbol' sid' =
      if symbol = symbol' ∧ sid = sid' then none else r.initialization? symbol' sid' := by
  have hview : ∀ d : Dict PyStr (Dict SessionId SubscriptionInitialization),
      initialization? { r with initializing := d } symbol' sid' =
        ((d.get? symbol').getD .empty).get? sid' := fun _ => rfl
  unfold endInitialization
  dsimp only
  rw [hview]
  by_cases hs : symbol = symbol'
  · subst hs
    have hleft : ((r.initializations symbol).erase sid).get? sid' =
        if symbol = symbol ∧ sid = sid' then none else r.initialization? symbol sid' := by
      rw [Dict.get?_erase]
      simp [initialization?]
    by_cases he : ((r.initializations symbol).erase sid).isEmpty
    · rw [if_pos he, Dict.get?_erase_self, ← hleft]
      exact (Dict.isEmpty_iff.mp he sid').symm
    · rw [if_neg he, Dict.get?_set_self]
      exact hleft
  · rw [if_neg (fun h : symbol = symbol' ∧ sid = sid' => hs h.1)]
    split
    · rw [Dict.get?_erase_ne _ hs]
      rfl
    · rw [Dict.get?_set_ne _ _ hs]
      rfl

@[simp] theorem initialization?_addSubscriber :
    (r.addSubscriber symbol sid).initialization? symbol' sid' = r.initialization? symbol' sid' :=
  rfl

@[simp] theorem initialization?_discardSubscriber :
    (r.discardSubscriber symbol sid).1.initialization? symbol' sid' =
      r.initialization? symbol' sid' := by
  unfold discardSubscriber
  dsimp only
  split <;> rfl

/-- A symbol is in use while somebody is subscribed or in a handshake. -/
theorem inUse_iff : r.inUse symbol = true ↔
    r.subscribers symbol ≠ ∅ ∨ ∃ sid, r.initialization? symbol sid ≠ none := by
  rw [inUse, Bool.or_eq_true, decide_eq_true_iff, Bool.not_eq_true', Dict.isEmpty_eq_false_iff]
  refine or_congr Iff.rfl (exists_congr fun sid => ?_)
  rw [initialization?, Option.ne_none_iff_exists']

@[simp] theorem subscribers_cancelInitializations :
    (r.cancelInitializations sid).1.subscribers symbol = r.subscribers symbol := rfl

theorem initialization?_cancelInitializations :
    (r.cancelInitializations sid).1.initialization? symbol sid' =
      if sid = sid' then none else r.initialization? symbol sid' := by
  unfold cancelInitializations initialization? initializations
  dsimp only
  rw [Dict.get?_filterMapValues]
  cases hi : r.initializing.get? symbol with
  | none => simp
  | some inits =>
      by_cases he : (inits.erase sid).isEmpty
      · have hnone := Dict.isEmpty_iff.mp he sid'
        rw [Dict.get?_erase] at hnone
        simpa [he] using hnone.symm
      · simp [he, Dict.get?_erase]

theorem subscribers_discardAll (symbols : List PyStr) :
    (r.discardAll sid symbols).1.subscribers symbol =
      if symbol ∈ symbols then (r.subscribers symbol).erase sid else r.subscribers symbol := by
  induction symbols generalizing r with
  | nil => simp [discardAll]
  | cons s rest ih =>
      rw [discardAll]
      dsimp only
      rw [ih, subscribers_discardSubscriber]
      by_cases hs : s = symbol
      · subst hs
        simp
      · simp [hs, Ne.symm hs]

@[simp] theorem initialization?_discardAll (symbols : List PyStr) :
    (r.discardAll sid symbols).1.initialization? symbol sid' = r.initialization? symbol sid' := by
  induction symbols generalizing r with
  | nil => rfl
  | cons s rest ih =>
      rw [discardAll]
      dsimp only
      rw [ih, initialization?_discardSubscriber]

/-- Every symbol that lost its last subscriber is to be given up. -/
theorem mem_discardAll {symbols : List PyStr} (hs : symbol ∈ symbols)
    (he : (r.discardAll sid symbols).1.subscribers symbol = ∅) :
    symbol ∈ (r.discardAll sid symbols).2 := by
  induction symbols generalizing r with
  | nil => simp at hs
  | cons s rest ih =>
      rw [discardAll] at he ⊢
      dsimp only at he ⊢
      by_cases hmem : symbol ∈ rest
      · have := ih _ hmem he
        split
        · exact List.mem_cons_of_mem _ this
        · exact this
      · obtain rfl : symbol = s := (List.mem_cons.mp hs).resolve_right hmem
        rw [subscribers_discardAll, if_neg hmem] at he
        rw [if_pos ((discardSubscriber_last r symbol sid).mpr he)]
        exact List.mem_cons_self

theorem subscribers_cleanup (clientId : String) (symbols : List PyStr) :
    (r.cleanup sid clientId symbols).1.subscribers symbol =
      if symbol ∈ symbols then (r.subscribers symbol).erase sid else r.subscribers symbol :=
  subscribers_discardAll (r.cancelInitializations sid).1 symbol sid symbols

theorem initialization?_cleanup (clientId : String) (symbols : List PyStr) :
    (r.cleanup sid clientId symbols).1.initialization? symbol sid' =
      if sid = sid' then none else r.initialization? symbol sid' :=
  (initialization?_discardAll (r.cancelInitializations sid).1 symbol sid sid' symbols).trans
    (initialization?_cancelInitializations r symbol sid sid')

theorem mem_cleanup (clientId : String) {symbols : List PyStr} (hs : symbol ∈ symbols)
    (he : (r.cleanup sid clientId symbols).1.subscribers symbol = ∅) :
    symbol ∈ (r.cleanup sid clientId symbols).2 :=
  List.mem_append_right _ (mem_discardAll (r.cancelInitializations sid).1 symbol sid hs he)

/-! ### The sessions that are connected -/

@[simp] theorem allSessions_bufferEvent (e : MarketEvent) :
    (r.bufferEvent e).allSessions = r.allSessions := by
  unfold bufferEvent
  split <;> rfl

@[simp] theorem allSessions_discardSubscriber :
    (r.discardSubscriber symbol sid).1.allSessions = r.allSessions := by
  unfold discardSubscriber
  dsimp only
  split <;> rfl

@[simp] theorem allSessions_discardAll (symbols : List PyStr) :
    (r.discardAll sid symbols).1.allSessions = r.allSessions := by
  induction symbols generalizing r with
  | nil => rfl
  | cons s rest ih =>
      rw [discardAll]
      dsimp only
      rw [ih, allSessions_discardSubscriber]

@[simp] theorem allSessions_cleanup (clientId : String) (symbols : List PyStr) :
    (r.cleanup sid clientId symbols).1.allSessions = r.allSessions.erase clientId :=
  congrArg (fun d => d.erase clientId)
    (allSessions_discardAll (r.cancelInitializations sid).1 sid symbols)

end Registry

end MarketData.Gateway
