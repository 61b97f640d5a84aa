import MarketData.Gateway.RegistryLaw

/-!
# MarketData.Gateway.FailedSubscribe

**A `_subscribe` that returns `False` leaves no trace.** It can fail at five points: on the
filter, on the channel, on the snapshot read, on an overflowed initialization buffer and on a
queue that refuses the snapshot. At none of them has it touched the session or
`subscriptions` (`Traceless`); it makes exactly one error reply; its initialization is gone
when it returns; and it gives the channel up again unless somebody is subscribed.

The engine is `Called.failing`: a step of a call that has not activated either activates, or
is traceless and stays on its way to returning `False`.
-/

namespace MarketData.Gateway

/-! ### Error replies -/

/-- An error reply, whether the queue took it or not. -/
def ClientObs.isErrorReply : ClientObs → Bool
  | .accepted (.error _) | .refused (.error _) => true
  | _ => false

/-- How many error replies session `sid` was given. -/
def errorReplies (sid : SessionId) (h : List Obs) : Nat :=
  (viewed sid h).countP ClientObs.isErrorReply

@[simp] theorem errorReplies_nil (sid : SessionId) : errorReplies sid [] = 0 := rfl

theorem errorReplies_append (sid : SessionId) (h h' : List Obs) :
    errorReplies sid (h ++ h') = errorReplies sid h + errorReplies sid h' := by
  rw [errorReplies, viewed_append, List.countP_append]
  rfl

theorem errorReplies_own (sid : SessionId) (o : List ClientObs) :
    errorReplies sid (o.map (.client sid)) = o.countP ClientObs.isErrorReply := by
  rw [errorReplies, viewed_own]

theorem errorReplies_of_viewed {sid : SessionId} {h : List Obs} (hv : viewed sid h = []) :
    errorReplies sid h = 0 := by
  rw [errorReplies, hv]
  rfl

theorem ClientObs.isErrorReply_enqueued (ok : Bool) (text : PyStr) :
    (ClientObs.enqueued ok (.error text)).isErrorReply = true := by
  cases ok <;> rfl

theorem Replied.errorReplies {sid : SessionId} {s s' : ClientSession} {os : List Obs} {text : PyStr}
    (h : Replied sid s text s' os) : errorReplies sid os = 1 := by
  obtain ⟨refused, stats, d, -⟩ := h
  have hrefused : (refused.map fun snapshot => ClientObs.refused (.snapshot snapshot)).countP
      ClientObs.isErrorReply = 0 := by
    refine List.countP_eq_zero.mpr fun o ho => ?_
    obtain ⟨snapshot, -, rfl⟩ := List.mem_map.mp ho
    exact Bool.false_ne_true
  rw [errorReplies_own, List.countP_append, hrefused, ClientSession.enqueueError_eq,
    List.countP_singleton, ClientObs.isErrorReply_enqueued]
  rfl

/-- The tasks of a session reply with no errors. -/
theorem Pipeline.taskStep_errorReplies {p p' : Pipeline} {a : TaskAct} {o : List ClientObs}
    (h : p.taskStep a = some (p', o)) : o.countP ClientObs.isErrorReply = 0 := by
  cases taskStepped h with
  | dispatched hw hget hr hd => cases hd <;> rfl
  | recovered hs ht hr hd => cases hd <;> rfl
  | read | raised | flushed | writerTook | writerSent | writerUnrecorded | writerFailed
  | writerLooped => rfl

/-- The receive loop replies only while no call is in progress. -/
theorem Stepped.errorReplies_of_busy {g g' : Process} {a : Act} {obs : List Obs}
    (h : Stepped g a g' obs) {sid : SessionId} (hbusy : (g.clients sid).call ≠ .idle)
    (hno : ∀ ca, a ≠ .call sid ca) : errorReplies sid obs = 0 := by
  cases h with
  | @call sid' ca σ _ hc =>
      have hs : sid ≠ sid' := by
        intro heq
        subst heq
        exact hno ca rfl
      exact errorReplies_of_viewed (hc.viewed_other hs)
  | @task sid' _ _ _ hp =>
      by_cases hs : sid = sid'
      · subst hs
        rw [errorReplies_own]
        exact Pipeline.taskStep_errorReplies hp
      · exact errorReplies_of_viewed (viewed_other hs _)
  | @replied sid' text hc =>
      have hs : sid ≠ sid' := by
        intro heq
        subst heq
        exact hbusy hc
      exact errorReplies_of_viewed (viewed_other hs _)
  | message hl =>
      rw [errorReplies, viewed, List.filterMap_cons, Obs.view]
      split
      · rfl
      · rename_i o hv
        split at hv
        · obtain rfl := Option.some.inj hv
          rfl
        · cases hv
  | connect | cancelled | stopped | fanout => rfl

/-! ### What a step leaves alone -/

/-- The queue gives up some of its oldest entries and takes the message or not. -/
theorem ClientSession.enqueue_items (s : ClientSession) (m : Message) :
    ∃ dropped added, dropped ++ (s.enqueue m).2.queue.items = s.queue.items ++ added ∧
      (added = [] ∨ added = [m]) := by
  have hfull : ∀ s : ClientSession, ∃ dropped added,
      dropped ++ (s.onQueueFull m).2.queue.items = s.queue.items ++ added ∧
        (added = [] ∨ added = [m]) := by
    intro s
    unfold onQueueFull
    split
    · cases hget : s.queue.getNowait with
      | none => exact ⟨[], [], by simp, Or.inl rfl⟩
      | some p =>
          obtain ⟨x, q⟩ := p
          obtain ⟨⟨rest, hitems⟩, rfl⟩ := BoundedQueue.getNowait_eq_some.mp hget
          dsimp only
          cases hput : s.queue.pop.putNowait m with
          | none => exact ⟨[x], [], by simp [hitems], Or.inl rfl⟩
          | some q' =>
              obtain ⟨-, hq'⟩ := BoundedQueue.putNowait_eq_some.mp hput
              exact ⟨[x], [m], by simp [hitems, hq'], Or.inr rfl⟩
    · split <;> exact ⟨[], [], by simp, Or.inl rfl⟩
  unfold enqueue
  split
  · rename_i q hput
    obtain ⟨-, hq⟩ := BoundedQueue.putNowait_eq_some.mp hput
    exact ⟨[], [m], by simp [hq], Or.inr rfl⟩
  · exact hfull _

/-- A step of a call on `symbol` that leaves no trace: the session's state and the registry of
subscriptions stay, the queue is given at most an error message, and the channels of the other
symbols are wanted or not as before. -/
structure Traceless (symbol : PyStr) (σ σ' : Scope) : Prop where
  subscriptions : σ'.client.session.subscriptions = σ.client.session.subscriptions
  filters : σ'.client.session.filters = σ.client.session.filters
  lastSeq : σ'.client.session.lastSeq = σ.client.session.lastSeq
  lastPrice : σ'.client.session.lastPrice = σ.client.session.lastPrice
  aggregator : σ'.client.session.aggregator = σ.client.session.aggregator
  registry : σ'.registry.subscriptions = σ.registry.subscriptions
  queue : ∃ dropped added,
    dropped ++ σ'.client.session.queue.items = σ.client.session.queue.items ++ added ∧
      (added = [] ∨ ∃ text, added = [.error text])
  active : ∀ symbol', symbol' ≠ symbol →
    (σ'.channels.Active symbol' ↔ σ.channels.Active symbol')

/-- A step that leaves the session alone. -/
theorem Traceless.of_session_eq {symbol : PyStr} {σ σ' : Scope}
    (hs : σ'.client.session = σ.client.session)
    (hr : σ'.registry.subscriptions = σ.registry.subscriptions)
    (ha : ∀ symbol', symbol' ≠ symbol →
      (σ'.channels.Active symbol' ↔ σ.channels.Active symbol')) : Traceless symbol σ σ' := by
  refine ⟨?_, ?_, ?_, ?_, ?_, hr, ⟨[], [], ?_, Or.inl rfl⟩, ha⟩
  all_goals rw [hs]
  simp

/-- An error reply. -/
theorem Traceless.of_replied {symbol : PyStr} {sid : SessionId} {σ : Scope} {s : ClientSession}
    {os : List Obs} {text : PyStr} (h : Replied sid σ.client.session text s os) (call : Call) :
    Traceless symbol σ ((σ.withSession s).goto call) := by
  obtain ⟨refused, stats, d, -⟩ := h
  obtain ⟨dropped, added, hq, hadded⟩ := ClientSession.enqueue_items
    { σ.client.session with stats := stats, disconnected := d } (.error text)
  obtain ⟨q, stats', d', heq⟩ := ClientSession.enqueue_fields
    { σ.client.session with stats := stats, disconnected := d } (.error text)
  refine ⟨?_, ?_, ?_, ?_, ?_, rfl, ⟨dropped, added, hq, hadded.imp_right fun h => ⟨text, h⟩⟩,
    fun _ _ => Iff.rfl⟩
  all_goals
    simp only [Scope.session_goto, Scope.session_withSession, ClientSession.enqueueError_eq]
    rw [heq]

/-! ### The course of a call that fails -/

/-- The call is a `_subscribe` of `symbol` that has not activated. -/
def Call.Failing (symbol : PyStr) : Call → Prop
  | .ensuring s _ _ | .confirming s _ _ | .sleeping s _ _ | .registering s _ | .reading s _
  | .activating s _ _ _ | .rollingBack s false | .checkingUnused s false => s = symbol
  | .releasing symbols result =>
    (symbols = [symbol] ∨ symbols = []) ∧ result = .subscribe symbol false
  | .dropping symbols result => symbols = [] ∧ result = .subscribe symbol false
  | _ => False

/-- How many error replies a failing call has made. -/
def Call.replies : Call → Nat
  | .rollingBack _ _ | .checkingUnused _ _ | .releasing _ _ | .dropping _ _ => 1
  | _ => 0

/-- What a failing call has settled about its channel: whether the symbol is used, and whether
the channel is wanted. -/
def Call.Settled (used active : Prop) : Call → Prop
  | .idle => active ↔ used
  | .releasing [] _ | .dropping _ _ => ¬ used ∧ ¬ active
  | .releasing _ _ => ¬ used
  | _ => used → active

theorem Call.failing_afterAttempt (symbol : PyStr) (filter : Option SubscriptionFilter)
    (attempt : Nat) (ok : Option Bool) :
    (Scope.afterAttempt symbol filter attempt ok).Failing symbol ∧
    (Scope.afterAttempt symbol filter attempt ok).replies = 0 := by
  rcases ok with - | - | - <;> exact ⟨rfl, rfl⟩

theorem Call.settled_afterAttempt {used active : Prop} (h : used → active) (symbol : PyStr)
    (filter : Option SubscriptionFilter) (attempt : Nat) (ok : Option Bool) :
    (Scope.afterAttempt symbol filter attempt ok).Settled used active := by
  rcases ok with - | - | - <;> exact h

/-- A failing call is in progress. -/
theorem Call.Failing.busy {symbol : PyStr} {call : Call} (h : call.Failing symbol) :
    call ≠ .idle := by
  intro heq
  rw [heq] at h
  exact h

/-- What a step of a failing call does: it runs on, or returns. -/
inductive Failed (sid : SessionId) (symbol : PyStr) (σ σ' : Scope) (obs : List Obs) : Prop
  | runs (hf : σ'.client.call.Failing symbol)
      (hreplies : σ.client.call.replies + errorReplies sid obs = σ'.client.call.replies)
      (hobs : ∀ o ∈ obs, ∃ x, o = .client sid x)
  | returns (hidle : σ'.client.call = .idle) (hreplies : σ.client.call.replies = 1)
      (hobs : obs = [.returned sid (.subscribe symbol false)])

theorem Replied.client {sid : SessionId} {s s' : ClientSession} {os : List Obs} {text : PyStr}
    (h : Replied sid s text s' os) : ∀ o ∈ os, ∃ x, o = .client sid x := by
  intro o ho
  rcases h.obs o ho with ⟨m, rfl⟩ | ⟨text, rfl⟩
  · exact ⟨_, rfl⟩
  · exact ⟨_, rfl⟩

/-- **A step of a failing call activates, or leaves no trace and stays on its way.** -/
theorem Called.failing {sid : SessionId} {symbol : PyStr} {σ σ' : Scope} {a : CallAct}
    {obs : List Obs} (h : Called sid σ a σ' obs) (hf : σ.client.call.Failing symbol) :
    (σ'.client.call = .rollingBack symbol true ∧
      ∃ snapshot, .activated sid symbol snapshot ∈ obs) ∨
    (Traceless symbol σ σ' ∧ Failed sid symbol σ σ' obs) := by
  have hsilent : ∀ o ∈ ([] : List Obs), ∃ x, o = .client sid x := by simp
  -- a step that stays away from the session and the channels
  have hruns : ∀ {r : Registry} {call : Call}, r.subscriptions = σ.registry.subscriptions →
      call.Failing symbol → σ.client.call.replies = call.replies →
      Traceless symbol σ ({ σ with registry := r }.goto call) ∧
        Failed sid symbol σ ({ σ with registry := r }.goto call) [] := by
    intro r call hr hf hreplies
    exact ⟨.of_session_eq rfl hr fun _ _ => Iff.rfl, .runs hf hreplies hsilent⟩
  cases h with
  | activated hc hi ho hs =>
      rw [hc] at hf
      cases hf
      exact Or.inl ⟨rfl, _, List.mem_append_right _ (List.mem_singleton.mpr rfl)⟩
  | @attempted symbol' filter attempt hc hl =>
      rw [hc] at hf
      cases hf
      obtain ⟨hf', hreplies⟩ := Call.failing_afterAttempt symbol filter attempt
        (σ.channels.subscribePubsubSymbol sid symbol).2
      refine Or.inr ⟨.of_session_eq rfl rfl fun symbol' hne => ?_,
        .runs hf' (by rw [hc]; exact hreplies.symm) hsilent⟩
      rw [Scope.channels_goto, Channels.active_subscribePubsubSymbol]
      exact or_iff_left (Ne.symm hne)
  | @answered symbol' filter attempt ok hc =>
      rw [hc] at hf
      cases hf
      obtain ⟨hf', hreplies⟩ := Call.failing_afterAttempt symbol filter attempt (some ok)
      refine Or.inr ⟨.of_session_eq rfl rfl fun symbol' _ => ?_,
        .runs hf' (by rw [hc]; exact hreplies.symm) hsilent⟩
      rw [Scope.channels_goto, Channels.active_subscribeAnswered]
  | slept hc hlt | read hc =>
      rw [hc] at hf
      exact Or.inr (hruns rfl hf (by rw [hc]; rfl))
  | registered hc =>
      rw [hc] at hf
      exact Or.inr (hruns rfl hf (by rw [hc]; rfl))
  | rolledBack hc =>
      rename_i ok
      rw [hc] at hf
      cases ok with
      | true => exact hf.elim
      | false => exact Or.inr (hruns rfl hf (by rw [hc]; rfl))
  | unavailable hc hs | failed hc hs =>
      rw [hc] at hf
      refine Or.inr ⟨.of_replied hs _, .runs hf ?_ hs.client⟩
      rw [hs.errorReplies, hc]
      rfl
  | inUse hc hu =>
      rename_i ok
      rw [hc] at hf
      cases ok with
      | true => exact hf.elim
      | false =>
          cases hf
          exact Or.inr ⟨.of_session_eq rfl rfl fun _ _ => Iff.rfl,
            .returns rfl (by rw [hc]; rfl) rfl⟩
  | unused hc hu =>
      rename_i ok
      rw [hc] at hf
      cases ok with
      | true => exact hf.elim
      | false =>
          cases hf
          exact Or.inr (hruns rfl ⟨Or.inl rfl, rfl⟩ (by rw [hc]; rfl))
  | @released symbol' rest result hc hl =>
      rw [hc] at hf
      obtain ⟨hsymbols, rfl⟩ := hf
      obtain ⟨rfl, rfl⟩ : symbol' = symbol ∧ rest = [] := by simpa using hsymbols
      refine Or.inr ⟨.of_session_eq rfl rfl fun symbol'' hne => ?_, .runs ?_ ?_ hsilent⟩
      · rw [Scope.channels_goto, Channels.active_unsubscribePubsubSymbol]
        exact and_iff_left (Ne.symm hne)
      · rw [Scope.call_goto]
        split
        · exact ⟨rfl, rfl⟩
        · exact ⟨Or.inr rfl, rfl⟩
      · rw [Scope.call_goto, hc]
        split <;> rfl
  | dropped ok hc =>
      rw [hc] at hf
      obtain ⟨rfl, rfl⟩ := hf
      exact Or.inr ⟨.of_session_eq rfl rfl fun _ _ => Iff.rfl,
        .runs ⟨Or.inr rfl, rfl⟩ (by rw [hc]; rfl) hsilent⟩
  | finished hc hr =>
      rw [hc] at hf
      obtain ⟨-, rfl⟩ := hf
      exact Or.inr ⟨.of_session_eq rfl rfl fun _ _ => Iff.rfl, .returns rfl (by rw [hc]; rfl) rfl⟩
  | closing hc =>
      rw [hc] at hf
      cases hf.2
  | parsed hc | rejected hc | overflowed hc | unsubscribeBegun hc | cleanupBegun hc
  | lastUnsubscribed hc | unsubscribed hc | cleaned hc | closed hc =>
      rw [hc] at hf
      exact hf.elim

/-- What the first step of `_subscribe` does: it goes on, rejects the filter, or raises. -/
theorem Called.subscribeBegun {sid : SessionId} {symbol : PyStr} {payload : Json}
    {σ σ' : Scope} {obs : List Obs}
    (h : Called sid σ (.request (.subscribe symbol payload)) σ' obs) :
    Traceless symbol σ σ' ∧
    (((σ'.client.call.Failing symbol ∧ σ'.client.call.replies = 0) ∧ obs = []) ∨
      (σ'.client.call = .idle ∧ ∃ os, obs = os ++ [.returned sid (.subscribe symbol false)] ∧
        errorReplies sid os = 1 ∧ ∀ o ∈ os, ∃ x, o = .client sid x) ∨
      (σ'.client.call = .idle ∧ obs = [.raised sid])) := by
  cases h with
  | parsed hc hn hp =>
      exact ⟨.of_session_eq rfl rfl fun _ _ => Iff.rfl, Or.inl ⟨⟨rfl, rfl⟩, rfl⟩⟩
  | rejected hc hn hs =>
      refine ⟨?_, Or.inr (Or.inl ⟨hc, _, rfl, hs.errorReplies, hs.client⟩)⟩
      obtain ⟨hsub, hfil, hseq, hprice, hagg, hreg, hq, hact⟩ :=
        @Traceless.of_replied symbol _ _ _ _ _ hs .idle
      exact ⟨hsub, hfil, hseq, hprice, hagg, hreg, hq, hact⟩
  | overflowed hc hn =>
      exact ⟨.of_session_eq rfl rfl fun _ _ => Iff.rfl, Or.inr (Or.inr ⟨hc, rfl⟩)⟩

/-- **A failing call settles its channel**: wanted while somebody is subscribed, and given up
when nobody is. -/
theorem Called.settled {sid : SessionId} {symbol : PyStr} {σ σ' : Scope} {a : CallAct}
    {obs : List Obs} (h : Called sid σ a σ' obs) (hf : σ.client.call.Failing symbol)
    (hno : σ'.client.call ≠ .rollingBack symbol true)
    (hinit : (∃ ok, σ.client.call = .checkingUnused symbol ok) →
      ∀ sid', σ.registry.initialization? symbol sid' = none)
    (hs : σ.client.call.Settled (σ.registry.subscribers symbol ≠ ∅) (σ.channels.Active symbol)) :
    σ'.client.call.Settled (σ.registry.subscribers symbol ≠ ∅) (σ'.channels.Active symbol) := by
  cases h with
  | attempted hc hl =>
      rw [hc] at hf
      cases hf
      refine Call.settled_afterAttempt (fun _ => ?_) ..
      rw [Scope.channels_goto, Channels.active_subscribePubsubSymbol]
      exact Or.inr rfl
  | answered ok hc =>
      rw [hc] at hs
      refine Call.settled_afterAttempt (fun hu => ?_) ..
      rw [Scope.channels_goto, Channels.active_subscribeAnswered]
      exact hs hu
  | activated hc hi ho hseed =>
      rw [hc] at hf
      cases hf
      exact absurd rfl hno
  | slept hc | registered hc | read hc | unavailable hc | failed hc | rolledBack hc =>
      rw [hc] at hs
      exact hs
  | inUse hc hu =>
      rename_i ok
      rw [hc] at hs hf
      cases ok with
      | true => exact hf.elim
      | false =>
          cases hf
          -- a symbol in use has a subscriber: no handshake is under way
          have hused : σ.registry.subscribers symbol ≠ ∅ := by
            rcases (Registry.inUse_iff ..).mp hu with hused | ⟨sid', hne⟩
            · exact hused
            · exact absurd (hinit ⟨_, hc⟩ sid') hne
          exact iff_of_true (hs hused) hused
  | unused hc hu =>
      rename_i ok
      rw [hc] at hf
      cases ok with
      | true => exact hf.elim
      | false =>
          cases hf
          intro hused
          have huse := (Registry.inUse_iff ..).mpr (Or.inl hused)
          rw [hu] at huse
          cases huse
  | @released symbol' rest result hc hl =>
      rw [hc] at hf hs
      obtain ⟨hsymbols, rfl⟩ := hf
      obtain ⟨rfl, rfl⟩ : symbol' = symbol ∧ rest = [] := by simpa using hsymbols
      have hgone : ¬ (σ.channels.unsubscribePubsubSymbol sid symbol').1.Active symbol' := by
        rw [Channels.active_unsubscribePubsubSymbol]
        exact fun h => h.2 rfl
      rw [Scope.call_goto, Scope.channels_goto]
      split
      · exact ⟨hs, hgone⟩
      · exact ⟨hs, hgone⟩
  | dropped ok hc =>
      rw [hc] at hf hs
      obtain ⟨rfl, rfl⟩ := hf
      exact hs
  | finished hc hr =>
      rw [hc] at hs
      exact iff_of_false hs.2 hs.1
  | closing hc =>
      rw [hc] at hf
      cases hf.2
  | parsed hc | rejected hc | overflowed hc | unsubscribeBegun hc | cleanupBegun hc
  | lastUnsubscribed hc | unsubscribed hc | cleaned hc | closed hc =>
      rw [hc] at hf
      exact hf.elim

/-! ### The other sessions -/

/-- The session's call is an operation on `symbol` that still has something to do for it. -/
def Client.Operates (symbol : PyStr) (c : Client) : Prop :=
  match c.call with
  | .ensuring s _ _ | .confirming s _ _ | .sleeping s _ _ | .registering s _ | .reading s _
  | .activating s _ _ _ | .rollingBack s _ | .checkingUnused s _ | .unsubscribing s => s = symbol
  | .cleaning => symbol ∈ c.session.subscriptions
  | .releasing symbols _ | .dropping symbols _ => symbol ∈ symbols
  | .idle | .closing => False

/-- No other operation on `symbol` overlaps a step. -/
def Alone (sid : SessionId) (symbol : PyStr) (g : Process) (_ : Act) : Prop :=
  ∀ sid', sid' ≠ sid → ¬ (g.clients sid').Operates symbol

/-- A call that registers an initialization operates on its symbol. -/
theorem Client.operates_of_registered {symbol : PyStr} {c : Client}
    (h : c.call.registered? = some symbol) : c.Operates symbol := by
  unfold Operates
  cases hcall : c.call with
  | rollingBack s ok =>
      rw [hcall] at h
      cases ok with
      | true => cases h
      | false => exact Option.some.inj h
  | reading | activating =>
      rw [hcall] at h
      exact Option.some.inj h
  | _ =>
      rw [hcall] at h
      cases h

/-- **A call that does not operate on a symbol leaves its subscribers and its channel alone.** -/
theorem Called.elsewhere {sid : SessionId} {symbol : PyStr} {σ σ' : Scope} {a : CallAct}
    {obs : List Obs} (h : Called sid σ a σ' obs) (hno : ¬ σ.client.Operates symbol) :
    σ'.registry.subscribers symbol = σ.registry.subscribers symbol ∧
    (σ'.channels.Active symbol ↔ σ.channels.Active symbol) := by
  unfold Client.Operates at hno
  cases h with
  | attempted hc hl =>
      rw [hc] at hno
      refine ⟨rfl, ?_⟩
      rw [Scope.channels_goto, Channels.active_subscribePubsubSymbol]
      exact or_iff_left hno
  | answered ok hc =>
      refine ⟨rfl, ?_⟩
      rw [Scope.channels_goto, Channels.active_subscribeAnswered]
  | activated hc hi ho hs =>
      rw [hc] at hno
      refine ⟨?_, Iff.rfl⟩
      rw [Registry.subscribers_addSubscriber, if_neg hno, Registry.subscribers_endInitialization]
  | lastUnsubscribed hc hl | unsubscribed hc hl =>
      rw [hc] at hno
      refine ⟨?_, Iff.rfl⟩
      rw [Scope.registry_goto, Scope.registry_withSession,
        Registry.subscribers_discardSubscriber, if_neg hno]
  | cleaned hc ho =>
      rw [hc] at hno
      refine ⟨?_, Iff.rfl⟩
      rw [Scope.registry_goto, Registry.subscribers_cleanup, if_neg]
      intro hmem
      refine hno ?_
      show symbol ∈ σ.client.session.subscriptions
      rw [← ho]
      exact List.mem_toFinset.mpr hmem
  | @released symbol' rest result hc hl =>
      rw [hc] at hno
      refine ⟨rfl, ?_⟩
      rw [Scope.channels_goto, Channels.active_unsubscribePubsubSymbol]
      refine and_iff_left ?_
      intro heq
      exact hno (heq ▸ List.mem_cons_self)
  | _ => exact ⟨rfl, Iff.rfl⟩

/-! ### The run of one call -/

/-- How far the one call of a run has come: it may still fail, it has failed, or it cannot
return `False` any more. -/
inductive Course (sid : SessionId) (symbol : PyStr) (g : Process) (h : List Obs) : Prop
  | failing (hf : (g.clients sid).call.Failing symbol)
      (hreplies : errorReplies sid h = (g.clients sid).call.replies)
      (hret : .returned sid (.subscribe symbol false) ∉ h)
      (hact : ∀ snapshot, .activated sid symbol snapshot ∉ h)
  | failed (hidle : (g.clients sid).call = .idle)
      (hsplit : ∃ h₁ h₂, h = h₁ ++ .returned sid (.subscribe symbol false) :: h₂ ∧
        errorReplies sid h₁ = 1 ∧ .returned sid (.subscribe symbol false) ∉ h₂)
      (hact : ∀ snapshot, .activated sid symbol snapshot ∉ h)
  | other (hc : (g.clients sid).call.result? = some (.subscribe symbol true) ∨
      (g.clients sid).call = .idle)
      (hret : .returned sid (.subscribe symbol false) ∉ h)

/-- What is observed in a session's name, other than what its tasks see. -/
def Obs.InNameOf (sid : SessionId) (symbol : PyStr) (o : Obs) : Prop :=
  o = .returned sid (.subscribe symbol false) ∨ ∃ snapshot, o = .activated sid symbol snapshot

/-- A call returns nothing but its result. -/
theorem Called.result_kept {sid : SessionId} {σ σ' : Scope} {a : CallAct} {obs : List Obs}
    {symbol : PyStr} (h : Called sid σ a σ' obs)
    (hr : σ.client.call.result? = some (.subscribe symbol true)) :
    (σ'.client.call.result? = some (.subscribe symbol true) ∨ σ'.client.call = .idle) ∧
    .returned sid (.subscribe symbol false) ∉ obs := by
  constructor
  · cases h with
    | rolledBack hc | unused hc | dropped ok hc =>
        rw [hc] at hr
        exact Or.inl hr
    | released hc hl =>
        rw [hc] at hr
        rw [Scope.call_goto]
        split
        · exact Or.inl hr
        · exact Or.inl hr
    | inUse hc | finished hc => exact Or.inr rfl
    | closing hc =>
        rw [hc] at hr
        cases hr
    | parsed hc | rejected hc | overflowed hc | unsubscribeBegun hc | cleanupBegun hc
    | attempted hc | answered ok hc | slept hc | unavailable hc | registered hc | read hc
    | failed hc | activated hc | lastUnsubscribed hc | unsubscribed hc | cleaned hc | closed hc =>
        rw [hc] at hr
        cases hr
  · intro hmem
    cases h.observed hmem with
    | returned hidle hres =>
        rcases hres with hres | ⟨hidle, -⟩
        · rw [hr] at hres
          cases hres
        · rw [hidle] at hr
          cases hr

/-- A session without a call makes no step of one unless it starts it. -/
theorem Called.not_idle {sid : SessionId} {σ σ' : Scope} {a : CallAct} {obs : List Obs}
    (h : Called sid σ a σ' obs) (hno : ∀ r, a ≠ .request r) : σ.client.call ≠ .idle := by
  intro hidle
  cases h with
  | parsed | rejected | overflowed | unsubscribeBegun | cleanupBegun => exact hno _ rfl
  | attempted hc | answered _ hc | slept hc | unavailable hc | registered hc | read hc
  | failed hc | activated hc | rolledBack hc | inUse hc | unused hc | lastUnsubscribed hc
  | unsubscribed hc | cleaned hc | released hc | dropped _ hc | finished hc | closing hc
  | closed hc => exact absurd (hidle.symm.trans hc) (fun h => by cases h)

/-- What the other steps do not say in the session's name. -/
theorem Stepped.not_inNameOf {g g' : Process} {a : Act} {obs : List Obs} (h : Stepped g a g' obs)
    {sid : SessionId} {symbol : PyStr} (hno : ∀ ca, a ≠ .call sid ca) :
    ∀ o ∈ obs, ¬ o.InNameOf sid symbol := by
  intro o ho hname
  rcases h.call_or_outside with ⟨sid', ca, σ, rfl, rfl, hc⟩ | ⟨hnone, -⟩
  · rcases hname with rfl | ⟨snapshot, rfl⟩
    · cases hc.observed ho
      exact hno ca rfl
    · cases hc.observed ho
      exact hno ca rfl
  · cases h with
    | call hc => exact hnone _ _ rfl
    | task hp =>
        obtain ⟨x, -, rfl⟩ := List.mem_map.mp ho
        rcases hname with hx | ⟨snapshot, hx⟩ <;> cases hx
    | replied hc =>
        obtain ⟨x, -, rfl⟩ := List.mem_map.mp ho
        rcases hname with hx | ⟨snapshot, hx⟩ <;> cases hx
    | message hl =>
        obtain rfl := List.mem_singleton.mp ho
        rcases hname with hx | ⟨snapshot, hx⟩ <;> cases hx
    | connect | cancelled | stopped | fanout => cases ho

namespace Course

variable {sid : SessionId} {symbol : PyStr} {g g' : Process} {h obs : List Obs}

/-- A step in which the session's call does not move. -/
theorem of_call_eq (hC : Course sid symbol g h)
    (hcall : (g'.clients sid).call = (g.clients sid).call)
    (hreplies : (g.clients sid).call ≠ .idle → errorReplies sid obs = 0)
    (hobs : ∀ o ∈ obs, ¬ o.InNameOf sid symbol) : Course sid symbol g' (h ++ obs) := by
  have hret : .returned sid (.subscribe symbol false) ∉ obs := fun hmem => hobs _ hmem (Or.inl rfl)
  have hact : ∀ snapshot, .activated sid symbol snapshot ∉ obs :=
    fun snapshot hmem => hobs _ hmem (Or.inr ⟨snapshot, rfl⟩)
  cases hC with
  | failing hf hr hret' hact' =>
      refine .failing (hcall ▸ hf) ?_ (fun hmem => ?_) (fun snapshot hmem => ?_)
      · rw [errorReplies_append, hr, hreplies hf.busy, hcall]
        rfl
      · exact (List.mem_append.mp hmem).elim hret' hret
      · exact (List.mem_append.mp hmem).elim (hact' snapshot) (hact snapshot)
  | failed hidle hsplit hact' =>
      obtain ⟨h₁, h₂, rfl, hone, hlast⟩ := hsplit
      refine .failed (hcall.trans hidle) ⟨h₁, h₂ ++ obs, by simp, hone, fun hmem => ?_⟩
        (fun snapshot hmem => ?_)
      · exact (List.mem_append.mp hmem).elim hlast hret
      · exact (List.mem_append.mp hmem).elim (hact' snapshot) (hact snapshot)
  | other hc hret' =>
      exact .other (hcall ▸ hc) fun hmem => (List.mem_append.mp hmem).elim hret' hret

/-- A step of the session's own call. -/
theorem of_called (hC : Course sid symbol g h) {ca : CallAct} {σ : Scope}
    (hca : ∀ r, ca ≠ .request r) (hc : Called sid (g.scope sid) ca σ obs)
    (hcall : (g'.clients sid).call = σ.client.call) : Course sid symbol g' (h ++ obs) := by
  cases hC with
  | failing hf hr hret hact =>
      rcases hc.failing hf with ⟨hact', snapshot, hmem⟩ | ⟨-, hfailed⟩
      · refine .other (Or.inl (by rw [hcall, hact']; rfl)) fun hmem' => ?_
        rcases List.mem_append.mp hmem' with hmem' | hmem'
        · exact hret hmem'
        · cases hc.observed hmem' with
          | returned hidle hres =>
              rw [hact'] at hidle
              cases hidle
      · cases hfailed with
        | runs hf' hreplies hobs =>
            have hnot : ∀ o ∈ obs, ¬ o.InNameOf sid symbol := by
              intro o ho hname
              obtain ⟨x, rfl⟩ := hobs o ho
              rcases hname with hx | ⟨snapshot, hx⟩ <;> cases hx
            refine .failing (hcall ▸ hf') ?_ (fun hmem => ?_) (fun snapshot hmem => ?_)
            · rw [errorReplies_append, hr, hcall]
              exact hreplies
            · exact (List.mem_append.mp hmem).elim hret fun h => hnot _ h (Or.inl rfl)
            · exact (List.mem_append.mp hmem).elim (hact snapshot) fun h =>
                hnot _ h (Or.inr ⟨snapshot, rfl⟩)
        | returns hidle hreplies hobs =>
            subst hobs
            refine .failed (hcall.trans hidle) ⟨h, [], rfl, hr.trans hreplies, by simp⟩ ?_
            intro snapshot hmem
            rcases List.mem_append.mp hmem with hmem | hmem
            · exact hact snapshot hmem
            · cases List.mem_singleton.mp hmem
  | failed hidle => exact absurd hidle (hc.not_idle hca)
  | other hres hret =>
      obtain ⟨hkept, hret'⟩ := hc.result_kept (hres.resolve_right (hc.not_idle hca))
      exact .other (hcall ▸ hkept) fun hmem => (List.mem_append.mp hmem).elim hret hret'

/-- **Every step that does not start another call keeps the course.** -/
theorem step (hC : Course sid symbol g h) {a : Act} (hstep : Stepped g a g' obs)
    (hno : ∀ r, a ≠ .call sid (.request r)) : Course sid symbol g' (h ++ obs) := by
  rcases hstep.call_or_outside with ⟨sid', ca, σ, rfl, rfl, hc⟩ | ⟨hnone, ho⟩
  · by_cases hs : sid = sid'
    · subst hs
      refine hC.of_called (fun r heq => hno r (congrArg _ heq)) hc ?_
      rw [Process.clients_withScope_self]
    · have hne : ∀ ca', Act.call sid' ca ≠ .call sid ca' := by
        intro ca' heq
        exact hs (Act.call.inj heq).1.symm
      refine hC.of_call_eq ?_ (fun hb => hstep.errorReplies_of_busy hb hne)
        (hstep.not_inNameOf hne)
      rw [Process.clients_withScope_ne g sid' σ hs]
  · exact hC.of_call_eq (ho.call sid) (fun hb => hstep.errorReplies_of_busy hb (hnone sid))
      (hstep.not_inNameOf (hnone sid))

end Course

/-! ### The whole call -/

@[simp] theorem Process.scope_withScope (g : Process) (sid : SessionId) (σ : Scope) :
    (g.withScope sid σ).scope sid = σ :=
  congrArg (fun c => (⟨σ.registry, σ.channels, c⟩ : Scope)) (g.clients_withScope_self sid σ)

/-- A step of the session's own call leaves no trace. -/
def LeavesNoTrace (sid : SessionId) (symbol : PyStr) (g : Process) (a : Act) : Prop :=
  ∀ ca g' o, a = .call sid ca → g.step a = some (g', o) →
    Traceless symbol (g.scope sid) (g'.scope sid)

/-- A step that starts no call of the session and activates none. -/
def StaysFailing (sid : SessionId) (symbol : PyStr) (g : Process) (a : Act) : Prop :=
  (∀ r, a ≠ .call sid (.request r)) ∧
    ∀ g' o, g.step a = some (g', o) → ∀ snapshot, .activated sid symbol snapshot ∉ o

/-- The call is failing, or over. -/
def Call.FailingOrOver (symbol : PyStr) (call : Call) : Prop := call.Failing symbol ∨ call = .idle

namespace StaysFailing

variable {sid : SessionId} {symbol : PyStr} {g g' : Process} {a : Act} {o : List Obs}

/-- The session's own step leaves no trace, and keeps its call failing until it is over. -/
theorem own (hC : StaysFailing sid symbol g a) {ca : CallAct} {σ : Scope} (ha : a = .call sid ca)
    (hs : g.step a = some (g', o)) (hcall : (g.clients sid).call.FailingOrOver symbol)
    (hc : Called sid (g.scope sid) ca σ o) :
    (g.clients sid).call.Failing symbol ∧ Traceless symbol (g.scope sid) σ ∧
      σ.client.call.FailingOrOver symbol ∧ σ.client.call ≠ .rollingBack symbol true := by
  have hf : (g.clients sid).call.Failing symbol :=
    hcall.resolve_right (hc.not_idle fun r heq => hC.1 r (by rw [ha, heq]))
  rcases hc.failing hf with ⟨-, snapshot, hmem⟩ | ⟨htrace, hfailed⟩
  · exact absurd hmem (hC.2 g' o hs snapshot)
  · refine ⟨hf, htrace, ?_, ?_⟩
    · cases hfailed with
      | runs hf' => exact Or.inl hf'
      | returns hidle => exact Or.inr hidle
    · intro heq
      cases hfailed with
      | runs hf' =>
          rw [heq] at hf'
          exact hf'
      | returns hidle =>
          rw [heq] at hidle
          cases hidle

theorem step (hC : StaysFailing sid symbol g a) (hs : g.step a = some (g', o))
    (hcall : (g.clients sid).call.FailingOrOver symbol) :
    (g'.clients sid).call.FailingOrOver symbol ∧ LeavesNoTrace sid symbol g a := by
  rcases (Process.stepped hs).call_or_outside with ⟨sid', ca, σ, ha, rfl, hc⟩ | ⟨hnone, ho⟩
  · by_cases hsid : sid = sid'
    · subst hsid
      obtain ⟨-, htrace, hover, -⟩ := hC.own ha hs hcall hc
      refine ⟨by rwa [Process.clients_withScope_self], fun ca' g'' o' _ hs' => ?_⟩
      obtain ⟨rfl, -⟩ : g.withScope sid σ = g'' ∧ o = o' := by simpa [hs] using hs'
      rwa [Process.scope_withScope]
    · refine ⟨by rwa [Process.clients_withScope_ne g sid' σ hsid], fun ca' _ _ ha' _ => ?_⟩
      exact absurd (Act.call.inj (ha.symm.trans ha')).1.symm hsid
  · exact ⟨by rwa [ho.call], fun ca' _ _ ha' _ => absurd ha' (hnone sid ca')⟩

/-- **Alone with its symbol, a failing call keeps settling the channel.** -/
theorem settled (hC : StaysFailing sid symbol g a) (halone : Alone sid symbol g a)
    (hI : RegistryLaw g) (hs : g.step a = some (g', o))
    (hcall : (g.clients sid).call.FailingOrOver symbol)
    (hset : (g.clients sid).call.Settled (g.registry.subscribers symbol ≠ ∅)
      (g.channels.Active symbol)) :
    g'.registry.subscribers symbol = g.registry.subscribers symbol ∧
    (g'.clients sid).call.Settled (g.registry.subscribers symbol ≠ ∅)
      (g'.channels.Active symbol) := by
  rcases (Process.stepped hs).call_or_outside with ⟨sid', ca, σ, ha, rfl, hc⟩ | ⟨hnone, ho⟩
  · by_cases hsid : sid = sid'
    · subst hsid
      obtain ⟨hf, htrace, -, hnot⟩ := hC.own ha hs hcall hc
      rw [Process.clients_withScope_self]
      refine ⟨congrArg (fun d => (Dict.get? d symbol).getD ∅) htrace.registry,
        hc.settled hf hnot (fun hcheck sid' => ?_) hset⟩
      -- nobody is initializing the symbol when it is checked for use
      obtain ⟨ok, hcheck⟩ := hcheck
      by_contra hne
      have hreg := ((hI.sessions sid').initializing symbol).mp hne
      by_cases hsid : sid' = sid
      · subst hsid
        rw [show (g.clients sid').call = _ from hcheck] at hreg
        cases hreg
      · exact halone sid' hsid (Client.operates_of_registered hreg)
    · obtain ⟨hsub, hact⟩ := hc.elsewhere (halone sid' (Ne.symm hsid))
      rw [Process.registry_withScope, Process.channels_withScope,
        Process.clients_withScope_ne g sid' σ hsid, hact]
      exact ⟨hsub, hset⟩
  · rw [ho.call, ho.active]
    exact ⟨ho.subscribers symbol, hset⟩

end StaysFailing

/-- **A failed subscribe leaves no trace.** Take any reachable state and any run of a
`_subscribe(session, symbol)` from it that ends with the call returning `False`. In each of its
own steps the call changes none of the session's subscriptions, filters, sequence and price
boundaries and aggregator, nor the registry of subscriptions, nor whether another symbol's
channel is wanted, and gives the outbound queue nothing but an error message; over the whole
call it makes one error reply. When it has returned the session has no initialization. And if
no other operation on the symbol overlaps, and its channel was wanted exactly while somebody
was subscribed, then it is wanted as before. -/
theorem failed_subscribe_traceless {keyPrefix : String} {g g' : Process}
    {acts₀ acts : List Act} {h₀ h : List Obs} {sid : SessionId} {symbol : PyStr} {payload : Json}
    (hr₀ : Machine.run Process.step (.initial keyPrefix) acts₀ = some (g, h₀))
    (hr : Machine.run Process.step g
      (.call sid (.request (.subscribe symbol payload)) :: acts) = some (g', h))
    (hone : ∀ r, .call sid (.request r) ∉ acts)
    (hret : h.getLast? = some (.returned sid (.subscribe symbol false))) :
    Machine.Along Process.step (LeavesNoTrace sid symbol) g
      (.call sid (.request (.subscribe symbol payload)) :: acts) ∧
    errorReplies sid h = 1 ∧
    (∀ symbol', g'.registry.initialization? symbol' sid = none) ∧
    (Machine.Along Process.step (Alone sid symbol) g
        (.call sid (.request (.subscribe symbol payload)) :: acts) →
      (g.channels.Active symbol ↔ g.registry.subscribers symbol ≠ ∅) →
      (g'.channels.Active symbol ↔ g.channels.Active symbol)) := by
  have hmem := List.mem_of_getLast? hret
  obtain ⟨g₁, o₁, h₁, hs, hr₁, rfl⟩ := Machine.run_cons.mp hr
  have hfirst : ∃ σ, g₁ = g.withScope sid σ ∧
      Called sid (g.scope sid) (.request (.subscribe symbol payload)) σ o₁ := by
    cases Process.stepped hs with
    | call hc => exact ⟨_, rfl, hc⟩
  obtain ⟨σ, rfl, hc⟩ := hfirst
  obtain ⟨htrace, hbegun⟩ := hc.subscribeBegun
  have hno : ∀ a ∈ acts, ∀ r, a ≠ .call sid (.request r) := fun a ha r heq => hone r (heq ▸ ha)
  -- the course of the call, from its first step on
  have hcourse : Course sid symbol (g.withScope sid σ) o₁ := by
    have hself := congrArg Client.call (g.clients_withScope_self sid σ)
    rcases hbegun with ⟨⟨hf, hreplies⟩, rfl⟩ | ⟨hidle, os, rfl, herror, hclient⟩ | ⟨hidle, rfl⟩
    · exact .failing (hself ▸ hf) (hself ▸ hreplies.symm) (by simp) (by simp)
    · refine .failed (hself.trans hidle) ⟨os, [], rfl, herror, by simp⟩ fun snapshot hmem => ?_
      rcases List.mem_append.mp hmem with hmem | hmem
      · obtain ⟨x, hx⟩ := hclient _ hmem
        cases hx
      · cases List.mem_singleton.mp hmem
    · exact .other (Or.inr (hself.trans hidle)) (by simp)
  have hend : Course sid symbol g' (o₁ ++ h₁) := by
    refine Machine.run_invariant_along (C := fun _ a => ∀ r, a ≠ Act.call sid (.request r))
      (I := fun g h => Course sid symbol g (o₁ ++ h)) ?_ ((List.append_nil o₁).symm ▸ hcourse)
      (Machine.along_of_forall hno _) hr₁
    intro g₂ a g₃ o h hC hI hs
    exact List.append_assoc .. ▸ hI.step (Process.stepped hs) hC
  have hover : (g'.clients sid).call = .idle ∧ errorReplies sid (o₁ ++ h₁) = 1 ∧
      ∀ snapshot, .activated sid symbol snapshot ∉ o₁ ++ h₁ := by
    cases hend with
    | failing hf hr' hret' => exact absurd hmem hret'
    | other hc' hret' => exact absurd hmem hret'
    | failed hidle hsplit hact =>
        obtain ⟨k₁, k₂, heq, herror, hlast⟩ := hsplit
        -- nothing is observed after the return
        obtain rfl : k₂ = [] := by
          rcases List.eq_nil_or_concat k₂ with hnil | ⟨k, x, rfl⟩
          · exact hnil
          · rw [List.concat_eq_append] at heq hlast
            rw [heq, ← List.cons_append, ← List.append_assoc, List.getLast?_concat] at hret
            obtain rfl := Option.some.inj hret
            exact absurd (List.mem_append_right k (List.mem_singleton.mpr rfl)) hlast
        refine ⟨hidle, ?_, hact⟩
        rw [heq, errorReplies_append, herror]
        rfl
  obtain ⟨hidle, herror, hact⟩ := hover
  have hstays : Machine.Along Process.step (StaysFailing sid symbol) (g.withScope sid σ) acts := by
    refine Machine.along_and.mpr ⟨Machine.along_of_forall hno _, ?_⟩
    refine (Machine.along_of_observed (p := fun x => ∀ snapshot, x ≠ .activated sid symbol snapshot)
      hr₁ fun x hx snapshot heq => ?_).mono fun s a hobs g' o hs snapshot hmem => ?_
    · exact hact snapshot (List.mem_append_right _ (heq ▸ hx))
    · exact hobs g' o hs _ hmem snapshot rfl
  have hcall : ((g.withScope sid σ).clients sid).call.FailingOrOver symbol := by
    rw [Process.clients_withScope_self]
    rcases hbegun with ⟨⟨hf, -⟩, -⟩ | ⟨hidle, -⟩ | ⟨hidle, -⟩
    · exact Or.inl hf
    · exact Or.inr hidle
    · exact Or.inr hidle
  have hlaw : RegistryLaw g := .run hr₀
  have hlaw' : RegistryLaw g' := Machine.run_preserves
    (fun _ _ _ _ hI hs => hI.step (Process.stepped hs)) hlaw hr
  refine ⟨⟨fun ca g₂ o _ hs' => ?_, ?_⟩, herror, fun symbol' => ?_, fun halone hbefore => ?_⟩
  · obtain ⟨rfl, -⟩ : g.withScope sid σ = g₂ ∧ o₁ = o := by simpa [hs] using hs'
    rwa [Process.scope_withScope]
  · simp only [hs]
    exact hstays.imp_of_run (fun _ _ _ _ hP hC hs => hC.step hs hP) hcall hr₁
  · by_contra hne
    have hreg := ((hlaw'.sessions sid).initializing symbol').mp hne
    rw [hidle] at hreg
    cases hreg
  · obtain ⟨-, halone⟩ := halone
    simp only [hs] at halone
    -- from the first step on, the symbol's subscribers stay and its channel is being settled
    have hsub : σ.registry.subscribers symbol = g.registry.subscribers symbol :=
      congrArg (fun d => (Dict.get? d symbol).getD ∅) htrace.registry
    have hset : σ.client.call.Settled (g.registry.subscribers symbol ≠ ∅)
        (σ.channels.Active symbol) := by
      have hact₁ : σ.channels.Active symbol ↔ g.channels.Active symbol := by
        cases hc <;> exact Iff.rfl
      rw [hact₁]
      cases hc with
      | parsed => exact hbefore.mpr
      | rejected hidle | overflowed hidle =>
          have hidle : (g.clients sid).call = .idle := hidle
          show (g.clients sid).call.Settled _ _
          rw [hidle]
          exact hbefore
    have hfinal := Machine.run_invariant_along
      (C := fun g a => StaysFailing sid symbol g a ∧ Alone sid symbol g a)
      (I := fun g₂ _ => RegistryLaw g₂ ∧ (g₂.clients sid).call.FailingOrOver symbol ∧
        g₂.registry.subscribers symbol = g.registry.subscribers symbol ∧
        (g₂.clients sid).call.Settled (g.registry.subscribers symbol ≠ ∅)
          (g₂.channels.Active symbol)) ?_
      ⟨hlaw.step (Process.stepped hs), hcall, hsub, by rwa [Process.clients_withScope_self]⟩
      (Machine.along_and.mpr ⟨hstays, halone⟩) hr₁
    · obtain ⟨-, -, -, hset⟩ := hfinal
      rw [hidle] at hset
      exact hset.trans hbefore.symm
    · intro g₂ a g₃ o _ hC hI hs
      obtain ⟨hlaw, hcall, hsub, hset⟩ := hI
      rw [← hsub] at hset ⊢
      obtain ⟨hsub', hset'⟩ := hC.1.settled hC.2 hlaw hs hcall hset
      exact ⟨hlaw.step (Process.stepped hs), (hC.1.step hs hcall).1, hsub', hset'⟩

/-- While only one session takes steps of a call, and nobody else has one, it is alone. -/
theorem Process.alone_of_callers {g g' : Process} {acts : List Act} {h : List Obs}
    {sid : SessionId} (hidle : ∀ sid', sid' ≠ sid → (g.clients sid').call = .idle)
    (hcallers : ∀ a ∈ acts, ∀ sid', sid' ≠ sid → a.caller? ≠ some sid')
    (hr : Machine.run step g acts = some (g', h)) (symbol : PyStr) :
    Machine.Along step (Alone sid symbol) g acts := by
  refine Machine.Along.imp_of_run (C := fun _ a => ∀ sid', sid' ≠ sid → Act.caller? a ≠ some sid')
    (P := fun g => ∀ sid', sid' ≠ sid → (g.clients sid').call = .idle) ?_ hidle
    (Machine.along_of_forall hcallers g) hr
  intro g₁ a g₂ o hidle hC hs
  refine ⟨fun sid' hne => ?_, fun sid' hne hop => ?_⟩
  · rcases (stepped hs).call_or_outside with ⟨sid'', ca, σ, rfl, rfl, -⟩ | ⟨-, ho⟩
    · have hs' : sid' ≠ sid'' := fun heq => hC sid' hne (congrArg some heq.symm)
      rw [clients_withScope_ne g₁ sid'' σ hs']
      exact hidle sid' hne
    · rw [ho.call]
      exact hidle sid' hne
  · rw [Client.Operates, hidle sid' hne] at hop
    exact hop

/-- Nobody is subscribed to the symbol; the channel is confirmed, and the snapshot read raises. -/
def readRaisesActs : List Act :=
  [.call 1 .go, .call 1 (.redis true), .call 1 .go, .call 1 (.read .raised), .call 1 .go,
    .call 1 .go, .call 1 .go, .call 1 .go, .call 1 (.redis true), .call 1 .go]

theorem failed_subscribe_traceless_read :
    ∃ g h₀ g' h, Machine.run Process.step (.initial "") openingActs = some (g, h₀) ∧
      Machine.run Process.step g (.call 1 (.request (.subscribe "B" .null)) :: readRaisesActs) =
        some (g', h) ∧
      errorReplies 1 h = 1 ∧ ¬ g.channels.Active "B" ∧
      (g'.channels.Active "B" ↔ g.channels.Active "B") := by
  have hrun : ∃ g h₀ g' h, Machine.run Process.step (.initial "") openingActs = some (g, h₀) ∧
      Machine.run Process.step g (.call 1 (.request (.subscribe "B" .null)) :: readRaisesActs) =
        some (g', h) ∧
      h.getLast? = some (.returned 1 (.subscribe "B" false)) ∧
      ¬ g.channels.Active "B" ∧ g.registry.subscribers "B" = ∅ ∧ (g.clients 0).call = .idle :=
    ⟨_, _, _, _, rfl, rfl, rfl, by decide, rfl, rfl⟩
  obtain ⟨g, h₀, g', h, hr₀, hr, hret, hact, hsub, hcall⟩ := hrun
  obtain ⟨-, herror, -, hsettled⟩ :=
    failed_subscribe_traceless hr₀ hr (by simp [readRaisesActs]) hret
  refine ⟨g, h₀, g', h, hr₀, hr, herror, hact, hsettled ?_ (iff_of_false hact ?_)⟩
  · refine Process.alone_of_callers (fun sid' hne => ?_) ?_ hr "B"
    · by_cases h0 : sid' = 0
      · subst h0
        exact hcall
      · refine Process.run_call_frame hr₀ ?_
        simpa [openingActs, Act.caller?] using Ne.symm h0
    · simp [readRaisesActs, Act.caller?, eq_comm]
  · simpa using hsub

end MarketData.Gateway
