import Mathlib.Data.List.DropRight
import MarketData.Gateway.FailedReads
import MarketData.Gateway.Outbound

/-!
# MarketData.Gateway.Baseline

**The baseline of conditional delivery.** `last_price[symbol]` is written in three places (a
snapshot on subscribe, a snapshot after a gap, a delivered incremental) and cleared in one
(`_unsubscribe`). The reference is the history of the session (`Entry`): what `enqueue` has
accepted, and what has been unsubscribed. After any run of the gateway the baseline is the bid of
the newest market message accepted since the last unsubscribe, and an event is withheld for its
spread or for its distance from exactly that bid (`baseline_law`): small moves cannot drift away
from what the client was last given.
-/

namespace MarketData.Gateway

/-! ### The filter over exact prices -/

/-- How far `bid` lies from `last`, in percent. -/
def changePct (last bid : ℚ) : ℚ := |(bid - last) / last| * 100

namespace ClientSession

variable {event : MarketEvent} {bid ask : ℚ}

theorem spreadOk_eq (hbid : event.bid = .finite bid) (hask : event.ask = .finite ask) (limit : ℚ) :
    spreadOk (some (.finite limit)) event = decide (ask - bid ≤ limit) := by
  rw [spreadOk, hbid, hask]
  show (!decide (limit < ask + -bid)) = decide (ask - bid ≤ limit)
  rw [← sub_eq_add_neg, ← decide_not, decide_eq_decide, not_lt]

theorem changeOk_eq (hbid : event.bid = .finite bid) (minimum last : ℚ) :
    changeOk (some (.finite minimum)) (some (.finite last)) event =
      decide (last = 0 ∨ minimum ≤ changePct last bid + percentEpsilon) := by
  rw [changeOk, hbid]
  by_cases hzero : last = 0
  · simp [PyFloat.isZero, hzero]
  · show (if decide (last = 0) = true then true
      else !decide (|(bid + -last) / last| * 100 + percentEpsilon < minimum)) = _
    rw [if_neg (by simp [hzero]), ← sub_eq_add_neg, ← decide_not, decide_eq_decide, not_lt]
    exact (or_iff_right hzero).symm

end ClientSession

/-- **Why a filter withholds a quote**, given the last bid delivered: its spread is too wide, or it
lies too close to that bid. -/
def Withholds (f : SubscriptionFilter) (newest : Option PyFloat) (bid ask : ℚ) : Prop :=
  (∃ limit, f.maxSpread = some (.finite limit) ∧ limit < ask - bid) ∨
  ∃ minimum last, f.minChangePct = some (.finite minimum) ∧ newest = some (.finite last) ∧
    last ≠ 0 ∧ changePct last bid + percentEpsilon < minimum

/-- **A quote meets a filter**, given the last bid delivered. -/
structure Meets (f : SubscriptionFilter) (newest : Option PyFloat) (bid ask : ℚ) : Prop where
  spread : ∀ limit, f.maxSpread = some (.finite limit) → ask - bid ≤ limit
  change : ∀ minimum last, f.minChangePct = some (.finite minimum) → newest = some (.finite last) →
    last ≠ 0 → minimum ≤ changePct last bid + percentEpsilon

theorem meets_of_not_withholds {f : SubscriptionFilter} {newest : Option PyFloat} {bid ask : ℚ}
    (h : ¬ Withholds f newest bid ask) : Meets f newest bid ask where
  spread limit hmax := not_lt.mp fun hlt => h (Or.inl ⟨limit, hmax, hlt⟩)
  change minimum last hmin hlast hzero :=
    not_lt.mp fun hlt => h (Or.inr ⟨minimum, last, hmin, hlast, hzero, hlt⟩)

/-- **The filter of a session withholds exactly the quotes it should.** -/
theorem ClientSession.shouldDeliver_eq_false_iff {s : ClientSession} {event : MarketEvent}
    {bid ask : ℚ} {f : SubscriptionFilter} (hf : s.filters.get? event.symbol = some f)
    (hfinite : f.Finite)
    (hlast : ∀ x ∈ s.lastPrice.get? event.symbol, ∃ q, x = PyFloat.finite q)
    (hbid : event.bid = .finite bid) (hask : event.ask = .finite ask) :
    s.shouldDeliver event = false ↔ Withholds f (s.lastPrice.get? event.symbol) bid ask := by
  have hspread : spreadOk f.maxSpread event = false ↔
      ∃ limit, f.maxSpread = some (.finite limit) ∧ limit < ask - bid := by
    cases hmax : f.maxSpread with
    | none => simp [spreadOk]
    | some limit =>
        obtain ⟨q, rfl⟩ := hfinite.maxSpread limit hmax
        simp only [spreadOk_eq hbid hask, decide_eq_false_iff_not, not_le, Option.some.injEq,
          PyFloat.finite.injEq, exists_eq_left']
  have hchange : changeOk f.minChangePct (s.lastPrice.get? event.symbol) event = false ↔
      ∃ minimum last, f.minChangePct = some (.finite minimum) ∧
        s.lastPrice.get? event.symbol = some (.finite last) ∧ last ≠ 0 ∧
        changePct last bid + percentEpsilon < minimum := by
    cases hmin : f.minChangePct with
    | none => simp [changeOk]
    | some minimum =>
        obtain ⟨p, rfl⟩ := hfinite.minChangePct minimum hmin
        cases hl : s.lastPrice.get? event.symbol with
        | none => simp [changeOk]
        | some last =>
            obtain ⟨l, rfl⟩ := hlast last hl
            simp [changeOk_eq hbid]
  rw [shouldDeliver, hf]
  show (spreadOk f.maxSpread event && changeOk f.minChangePct (s.lastPrice.get? event.symbol) event)
    = false ↔ _
  rw [Bool.and_eq_false_iff, hspread, hchange, Withholds]

/-! ### The history of a session -/

/-- The bid a message gives for `symbol`. -/
def Message.bid? (symbol : PyStr) : Message → Option PyFloat
  | .snapshot s => if s.symbol = symbol then some s.bid else none
  | .incremental e => if e.symbol = symbol then some e.bid else none
  | .error _ => none

/-- What bears on the baselines of a session. -/
inductive Entry
  /-- `enqueue` has accepted a message. -/
  | given (m : Message)
  /-- `_unsubscribe` has forgotten a symbol. -/
  | forgot (symbol : PyStr)
  deriving DecidableEq

/-- The bid an entry gives for `symbol`. -/
def Entry.bid? (symbol : PyStr) : Entry → Option PyFloat
  | .given m => m.bid? symbol
  | .forgot _ => none

/-- The bids given for `symbol` since it was last forgotten, oldest first. -/
def bidsSince (symbol : PyStr) (entries : List Entry) : List PyFloat :=
  (entries.rtakeWhile fun e => decide (e ≠ .forgot symbol)).filterMap (Entry.bid? symbol)

/-- The newest of them. -/
def newestBid (symbol : PyStr) (entries : List Entry) : Option PyFloat :=
  (bidsSince symbol entries).getLast?

theorem newestBid_forgot (symbol : PyStr) (entries : List Entry) :
    newestBid symbol (entries ++ [.forgot symbol]) = none := by
  rw [newestBid, bidsSince, List.rtakeWhile_concat_neg _ _ _ (by simp)]
  rfl

/-- An entry that does not forget the symbol counts if it gives a bid for it. -/
theorem newestBid_concat {symbol : PyStr} {e : Entry} (he : e ≠ .forgot symbol)
    (entries : List Entry) :
    newestBid symbol (entries ++ [e]) = (e.bid? symbol).or (newestBid symbol entries) := by
  rw [newestBid, bidsSince, List.rtakeWhile_concat_pos _ _ _ (by simp [he]), List.filterMap_append,
    List.getLast?_append, newestBid, bidsSince]
  cases h : e.bid? symbol <;> simp [h]

/-! ### What a step does to the baselines -/

/-- **What a step does to the baselines of a session**, with the entries it adds to its history. -/
inductive Rebased (s s' : ClientSession) (entries : List Entry) : Prop
  /-- Nothing of a market message. -/
  | kept (hl : s'.lastPrice = s.lastPrice)
      (hes : ∀ e ∈ entries, ∀ symbol, e ≠ .forgot symbol ∧ e.bid? symbol = none)
  /-- A market message is accepted. -/
  | given (m : Message) (symbol : PyStr) (bid : PyFloat) (hes : entries = [.given m])
      (hm : ∀ symbol', m.bid? symbol' = if symbol = symbol' then some bid else none)
      (hl : s'.lastPrice = s.lastPrice.set symbol bid)
  | forgot (symbol : PyStr) (hes : entries = [.forgot symbol])
      (hl : s'.lastPrice = s.lastPrice.erase symbol)

theorem newestBid_append_of_silent {symbol : PyStr} {entries : List Entry}
    (hes : ∀ e ∈ entries, e ≠ .forgot symbol ∧ e.bid? symbol = none) (before : List Entry) :
    newestBid symbol (before ++ entries) = newestBid symbol before := by
  induction entries generalizing before with
  | nil => rw [List.append_nil]
  | cons e entries ih =>
      obtain ⟨hne, hbid⟩ := hes e List.mem_cons_self
      rw [← List.singleton_append, ← List.append_assoc,
        ih (fun x hx => hes x (List.mem_cons_of_mem e hx)), newestBid_concat hne, hbid,
        Option.none_or]

/-- **A step keeps the baseline at the newest bid.** -/
theorem Rebased.newest {s s' : ClientSession} {before entries : List Entry}
    (h : Rebased s s' entries)
    (hI : ∀ symbol, s.lastPrice.get? symbol = newestBid symbol before) (symbol : PyStr) :
    s'.lastPrice.get? symbol = newestBid symbol (before ++ entries) := by
  cases h with
  | kept hl hes => rw [hl, hI, newestBid_append_of_silent fun e he => hes e he symbol]
  | given m symbol' bid hes hm hl =>
      rw [hl, hes, newestBid_concat (by simp), Dict.get?_set, hI]
      show _ = (m.bid? symbol).or _
      rw [hm]
      split <;> rfl
  | forgot symbol' hes hl =>
      rw [hl, hes, Dict.get?_erase]
      by_cases hs : symbol' = symbol
      · rw [if_pos hs, hs, newestBid_forgot]
      · have hne : Entry.forgot symbol' ≠ .forgot symbol := fun heq => hs (Entry.forgot.inj heq)
        rw [if_neg hs, newestBid_concat hne, hI]
        rfl

/-- The entries of what `enqueue` has accepted. -/
def givens (o : List ClientObs) : List Entry := (accepts o).map .given

/-- Accepted error replies give no bid. -/
theorem Rebased.of_errors {s s' : ClientSession} {o : List ClientObs}
    (hl : s'.lastPrice = s.lastPrice) (ho : ∀ m ∈ accepts o, ∃ text, m = .error text) :
    Rebased s s' (givens o) := by
  refine .kept hl fun e he symbol => ?_
  obtain ⟨m, hm, rfl⟩ := List.mem_map.mp he
  obtain ⟨text, rfl⟩ := ho m hm
  exact ⟨by simp, rfl⟩

theorem Rebased.of_nothing {s s' : ClientSession} {o : List ClientObs}
    (hl : s'.lastPrice = s.lastPrice) (ho : accepts o = []) : Rebased s s' (givens o) := by
  refine .of_errors hl ?_
  rw [ho]
  simp

/-- An accepted snapshot of `symbol` sets its baseline. -/
theorem Rebased.of_snapshot {s s' : ClientSession} {o : List ClientObs} {snapshot : SnapshotData}
    {symbol : PyStr} (hs : snapshot.symbol = symbol)
    (hl : s'.lastPrice = s.lastPrice.set symbol snapshot.bid)
    (ho : accepts o = [.snapshot snapshot]) : Rebased s s' (givens o) := by
  refine .given (.snapshot snapshot) symbol snapshot.bid (by rw [givens, ho]; rfl) ?_ hl
  intro symbol'
  rw [← hs]
  rfl

namespace Pipeline

variable {p p' : Pipeline} {o : List ClientObs}

theorem rebased_taskStep {a : TaskAct} (h : p.taskStep a = some (p', o)) :
    Rebased p.session p'.session (givens o) := by
  cases taskStepped h with
  | @dispatched event output r hw hget hr hd =>
      cases hd with
      | stale | gap | unlogged | withheld | refused => exact .of_nothing rfl rfl
      | accepted q stats d hn hd hq =>
          exact .given (.incremental event) event.symbol event.bid rfl (fun _ => rfl) rfl
  | recovered hs ht hr hd =>
      cases hd with
      | ignored | refused => exact .of_nothing rfl rfl
      | accepted q stats d hn hq => exact .of_snapshot hs rfl rfl
  | read | raised | flushed | writerTook | writerSent | writerUnrecorded | writerFailed
  | writerLooped =>
      exact .of_nothing rfl rfl

theorem rebased_step {a : Act} (h : p.step a = some (p', o)) :
    Rebased p.session p'.session (givens o) := by
  rcases step_cases h with ⟨t, rfl, ht⟩ | ⟨-, -, hl, -, ho⟩
  · exact rebased_taskStep ht
  · refine .of_errors hl fun m hm => ?_
    obtain ⟨x, hx, hxm⟩ := List.mem_filterMap.mp hm
    rcases ho x hx with ⟨e, rfl⟩ | ⟨ok, text, rfl⟩
    · cases hxm
    · cases ok with
      | true => exact ⟨text, (Option.some.inj hxm).symm⟩
      | false => cases hxm

end Pipeline

/-- An error reply, as the session sees it. -/
theorem Replied.mem_viewed {sid : SessionId} {s s' : ClientSession} {obs : List Obs} {text : PyStr}
    (h : Replied sid s text s' obs) {x : ClientObs} (hx : x ∈ viewed sid obs) :
    (∃ m, x = .refused m) ∨ ∃ text, x = .accepted (.error text) := by
  obtain ⟨y, hy, hyx⟩ := List.mem_filterMap.mp hx
  rcases h.obs y hy with ⟨m, rfl⟩ | ⟨text, rfl⟩
  · exact Or.inl ⟨m, by simpa [Obs.view] using hyx.symm⟩
  · exact Or.inr ⟨text, by simpa [Obs.view] using hyx.symm⟩

theorem Replied.accepts_errors {sid : SessionId} {s s' : ClientSession} {obs : List Obs}
    {text : PyStr} (h : Replied sid s text s' obs) :
    ∀ m ∈ accepts (viewed sid obs), ∃ text, m = .error text := by
  intro m hm
  obtain ⟨x, hx, hxm⟩ := List.mem_filterMap.mp hm
  rcases h.mem_viewed hx with ⟨m', rfl⟩ | ⟨text, rfl⟩
  · cases hxm
  · exact ⟨text, (Option.some.inj hxm).symm⟩

/-- The symbol a call forgets when it goes on. -/
def Call.forgets? : Call → Option PyStr
  | .unsubscribing symbol => some symbol
  | _ => none

/-- The symbol a step of a call forgets. -/
def CallAct.forgets? (c : Call) : CallAct → Option PyStr
  | .go => c.forgets?
  | _ => none

/-- What an activation accepts is what seeding accepts. -/
theorem accepts_activated (sid : SessionId) (symbol : PyStr) (snapshot : Option SnapshotData)
    (o : List ClientObs) (events : List MarketEvent) :
    accepts (viewed sid ((o ++ events.map ClientObs.pushed).map (.client sid) ++
      [.activated sid symbol snapshot])) = accepts o := by
  rw [viewed_activation, accepts_append, accepts_pushed, List.append_nil]

theorem Called.rebased {sid : SessionId} {σ σ' : Scope} {a : CallAct} {obs : List Obs}
    (h : Called sid σ a σ' obs) :
    Rebased σ.client.session σ'.client.session
      (givens (viewed sid obs) ++ (a.forgets? σ.client.call).toList.map .forgot) := by
  have hquiet : a.forgets? σ.client.call = none →
      Rebased σ.client.session σ'.client.session (givens (viewed sid obs)) →
      Rebased σ.client.session σ'.client.session
        (givens (viewed sid obs) ++ (a.forgets? σ.client.call).toList.map .forgot) := by
    intro hnone hr
    rw [hnone]
    simpa using hr
  cases h with
  | lastUnsubscribed hc hl =>
      rw [CallAct.forgets?, hc]
      exact .forgot _ rfl rfl
  | unsubscribed hc hl =>
      rw [CallAct.forgets?, hc]
      exact .forgot _ rfl rfl
  | rejected hc hn hs =>
      refine hquiet rfl (.of_errors ?_ ?_)
      · obtain ⟨q, stats, d, heq⟩ := hs.session
        rw [Scope.session_withSession, heq]
      · rw [viewed_returned]
        exact hs.accepts_errors
  | unavailable hc hs =>
      refine hquiet (by rw [CallAct.forgets?, hc]; rfl) (.of_errors ?_ hs.accepts_errors)
      obtain ⟨q, stats, d, rfl⟩ := hs.session
      rfl
  | failed hc hs =>
      refine hquiet (by rw [CallAct.forgets?, hc]; rfl) (.of_errors ?_ hs.accepts_errors)
      obtain ⟨q, stats, d, rfl⟩ := hs.session
      rfl
  | @activated symbol filter snapshot hsym i s o hc hi ho hs =>
      refine hquiet (by rw [CallAct.forgets?, hc]; rfl) ?_
      cases hs with
      | absent => exact .of_nothing rfl (accepts_activated ..)
      | accepted snapshot q stats d hok hq =>
          exact .of_snapshot hsym rfl (accepts_activated ..)
  | closing hc => exact hquiet (by rw [CallAct.forgets?, hc]; rfl) (.of_nothing rfl rfl)
  | parsed | overflowed | unsubscribeBegun | cleanupBegun | answered | read | cleaned | dropped =>
      exact hquiet rfl (.of_nothing rfl rfl)
  | attempted hc | slept hc | registered hc | rolledBack hc | inUse hc | unused hc | released hc
  | finished hc | closed hc =>
      exact hquiet (by rw [CallAct.forgets?, hc]; rfl) (.of_nothing rfl rfl)

/-! ### The filters of a session -/

/-- The filter a handshake is going to install. -/
def Call.filter? : Call → Option SubscriptionFilter
  | .ensuring _ filter _ | .confirming _ filter _ | .sleeping _ filter _ | .registering _ filter
  | .reading _ filter | .activating _ filter _ _ => filter
  | _ => none

theorem Call.filter?_afterAttempt (symbol : PyStr) (filter : Option SubscriptionFilter)
    (attempt : Nat) (ok : Option Bool) :
    (Scope.afterAttempt symbol filter attempt ok).filter? = filter := by
  rcases ok with - | - | - <;> rfl

/-- The filters of a client, and the one its handshake is going to install, are finite. -/
structure FiltersFinite (c : Client) : Prop where
  installed : ∀ symbol f, c.session.filters.get? symbol = some f → f.Finite
  pending : ∀ f ∈ c.call.filter?, f.Finite

theorem Called.filtersFinite {sid : SessionId} {σ σ' : Scope} {a : CallAct} {obs : List Obs}
    (h : Called sid σ a σ' obs) (hI : FiltersFinite σ.client) : FiltersFinite σ'.client := by
  have hnone : ∀ {c : Client}, c.session.filters = σ.client.session.filters →
      c.call.filter? = none → FiltersFinite c := by
    intro c hf hc
    refine ⟨hf ▸ hI.installed, ?_⟩
    rw [hc]
    simp
  have hsame : ∀ {c : Client}, c.session.filters = σ.client.session.filters →
      c.call.filter? = σ.client.call.filter? → FiltersFinite c :=
    fun hf hc => ⟨hf ▸ hI.installed, hc ▸ hI.pending⟩
  have hreplied : ∀ {s : ClientSession} {text : PyStr} {call : Call},
      Replied sid σ.client.session text s obs → call.filter? = none →
        FiltersFinite { σ.client with session := s, call := call } := by
    intro s text call hs hc
    obtain ⟨q, stats, d, rfl⟩ := hs.session
    exact hnone rfl hc
  cases h with
  | parsed hc hn hp => exact ⟨hI.installed, parseSubscriptionFilter_finite hp⟩
  | attempted hc | answered ok hc =>
      exact hsame rfl (by rw [Scope.call_goto, Call.filter?_afterAttempt, hc]; rfl)
  | slept hc | registered hc | read hc => exact hsame rfl (by rw [Scope.call_goto, hc]; rfl)
  | rejected hc hn hs =>
      obtain ⟨q, stats, d, rfl⟩ := hs.session
      exact hsame rfl rfl
  | overflowed => exact hI
  | unavailable hc hs | failed hc hs => exact hreplied hs rfl
  | @activated symbol filter snapshot _ i s o hc hi ho hs =>
      have hf : s.filters = σ.client.session.filters := by cases hs <;> rfl
      refine ⟨?_, by simp [Call.filter?]⟩
      have hpending := hI.pending
      rw [hc] at hpending
      cases filter with
      | none =>
          show ∀ k f, (s.filters.erase symbol).get? k = some f → f.Finite
          rw [hf]
          exact Dict.forall_erase hI.installed
      | some f =>
          show ∀ k x, (s.filters.set symbol f).get? k = some x → x.Finite
          rw [hf]
          exact Dict.forall_set hI.installed (hpending f rfl)
  | lastUnsubscribed | unsubscribed =>
      exact ⟨Dict.forall_erase hI.installed, by simp [Call.filter?]⟩
  | released hc =>
      refine hnone rfl ?_
      rw [Scope.call_goto]
      split <;> rfl
  | _ => exact hnone rfl rfl

/-! ### One session in the gateway -/

/-- The symbol a step of the gateway makes `sid` forget. -/
def Act.forgets? (sid : SessionId) (g : Process) : Act → Option PyStr
  | .call sid' a => if sid' = sid then a.forgets? (g.clients sid).call else none
  | _ => none

/-- The entries a step of the gateway adds to the history of `sid`. -/
def entriesOf (sid : SessionId) (g : Process) (a : Act) : List Entry :=
  match g.step a with
  | none => []
  | some (_, obs) => givens (viewed sid obs) ++ (a.forgets? sid g).toList.map .forgot

/-- **The baselines of a client against its history.** -/
structure Based (c : Client) (entries : List Entry) : Prop where
  newest : ∀ symbol, c.session.lastPrice.get? symbol = newestBid symbol entries
  filters : FiltersFinite c
  /-- Before it is connected there is nothing. -/
  absent : c.connected = false →
    ¬ c.task.Running ∧ ∀ symbol, c.session.lastPrice.get? symbol = none

/-- A loop that does not run stays so, and touches no baseline. -/
theorem Pipeline.step_of_not_running {p p' : Pipeline} {a : Pipeline.Act} {o : List ClientObs}
    (hrun : ¬ p.task.Running) (h : p.step a = some (p', o)) :
    ¬ p'.task.Running ∧ p'.session.lastPrice = p.session.lastPrice := by
  rcases step_cases h with ⟨t, -, ht⟩ | ⟨-, -, hl, htask, -⟩
  · cases taskStepped ht with
    | dispatched hw => exact absurd (hw ▸ trivial) hrun
    | recovered hs hw | raised hs hw => exact absurd (hw ▸ trivial) hrun
    | read hw => exact absurd (hw ▸ trivial) hrun
    | flushed | writerTook | writerSent | writerUnrecorded | writerFailed | writerLooped =>
        exact ⟨hrun, rfl⟩
  · exact ⟨htask ▸ hrun, hl⟩

namespace Based

theorem clientStepped {c c' : Client} {o : List ClientObs} {entries : List Entry}
    (hI : Based c entries) (h : ClientStepped c c' o) : Based c' (entries ++ givens o) := by
  have hnothing : entries ++ givens [] = entries := List.append_nil entries
  cases h with
  | idle =>
      rw [hnothing]
      exact hI
  | @pipeline a p _ hp =>
      refine ⟨(Pipeline.rebased_step hp).newest hI.newest,
        ⟨(Pipeline.step_settings hp).filters ▸ hI.filters.installed, hI.filters.pending⟩,
        fun hn => ?_⟩
      obtain ⟨hrun, hnone⟩ := hI.absent hn
      obtain ⟨hrun', hl⟩ := Pipeline.step_of_not_running hrun hp
      exact ⟨hrun', hl ▸ hnone⟩
  | connected hn =>
      -- the new session has no baseline, and neither had the client before it
      rw [hnothing]
      refine ⟨fun symbol => ?_, ⟨by simp [Client.connect], hI.filters.pending⟩, ?_⟩
      · rw [← hI.newest, (hI.absent hn).2]
        rfl
      · intro hf
        cases hf
  | cancelled =>
      rw [hnothing]
      refine ⟨hI.newest, ⟨hI.filters.installed, hI.filters.pending⟩, fun hn => ?_⟩
      obtain ⟨hrun, hnone⟩ := hI.absent hn
      refine ⟨?_, hnone⟩
      show ¬ c.task.cancel.Running
      cases c.task <;> exact id
  | stopped =>
      rw [hnothing]
      exact ⟨hI.newest, ⟨hI.filters.installed, hI.filters.pending⟩, hI.absent⟩

theorem called {sid : SessionId} {σ σ' : Scope} {a : CallAct} {obs : List Obs}
    {entries : List Entry} (hI : Based σ.client entries) (hH : Handshake sid σ.registry σ.client)
    (h : Called sid σ a σ' obs) :
    Based σ'.client (entries ++
      (givens (viewed sid obs) ++ (a.forgets? σ.client.call).toList.map .forgot)) where
  newest := h.rebased.newest hI.newest
  filters := h.filtersFinite hI.filters
  absent hn := absurd ((hH.connected_of_called h).symm.trans hn) (by simp)

/-- **Any step of the gateway keeps the baselines at the newest bids.** -/
theorem step {sid : SessionId} {g g' : Process} {a : Act} {obs : List Obs} {entries : List Entry}
    (hI : Based (g.clients sid) entries) (hH : Handshakes g) (hs : g.step a = some (g', obs)) :
    Based (g'.clients sid) (entries ++ entriesOf sid g a) := by
  simp only [entriesOf, hs]
  have hstepped := Process.stepped hs
  by_cases hown : ∃ ca, a = .call sid ca
  · obtain ⟨ca, rfl⟩ := hown
    cases hstepped with
    | call hc =>
        simp only [Act.forgets?, Process.clients_withScope_self]
        exact hI.called (hH sid) hc
  · rcases hstepped.client sid with ⟨ca, σ, rfl, -⟩ | hclient
    · exact absurd ⟨ca, rfl⟩ hown
    · have hforgets : a.forgets? sid g = none := by
        cases a with
        | call sid' ca => exact if_neg fun heq => hown ⟨ca, by rw [heq]⟩
        | _ => rfl
      rw [hforgets]
      show Based (g'.clients sid) (entries ++ (givens (viewed sid obs) ++ []))
      rw [List.append_nil]
      exact hI.clientStepped hclient

theorem initial (keyPrefix : String) (sid : SessionId) :
    Based ((Process.initial keyPrefix).clients sid) [] where
  newest _ := rfl
  filters := ⟨by simp [Process.initial], by simp [Process.initial, Call.filter?]⟩
  absent _ := ⟨id, fun _ => rfl⟩

end Based

/-! ### What the loop decides -/

/-- A step's observations of an in-sequence event follow `should_deliver`. -/
structure Decided (s : ClientSession) (o : List ClientObs) : Prop where
  withheld : ∀ event, .withheld event ∈ o → s.shouldDeliver event = false
  accepted : ∀ event, .accepted (.incremental event) ∈ o → s.shouldDeliver event = true

theorem Decided.nil (s : ClientSession) : Decided s [] := ⟨by simp, by simp⟩

theorem Pipeline.decided_step {p p' : Pipeline} {a : Pipeline.Act} {o : List ClientObs}
    (h : p.step a = some (p', o)) : Decided p.session o := by
  rcases step_cases h with ⟨t, -, ht⟩ | ⟨-, -, -, -, ho⟩
  · cases taskStepped ht with
    | @dispatched event output r hw hget hr hd =>
        cases hd with
        | stale | gap | unlogged | refused => exact ⟨by simp, by simp⟩
        | withheld hn hd =>
            refine ⟨fun event' hmem => ?_, by simp⟩
            obtain rfl : event' = event := by simpa using hmem
            exact hd
        | accepted q stats d hn hd hq =>
            refine ⟨by simp, fun event' hmem => ?_⟩
            obtain rfl : event' = event := by simpa using hmem
            exact hd
    | recovered hs ht hr hd => cases hd <;> exact ⟨by simp, by simp⟩
    | read | raised | flushed | writerTook | writerSent | writerUnrecorded | writerFailed
    | writerLooped =>
        exact ⟨by simp, by simp⟩
  · refine ⟨fun event hmem => ?_, fun event hmem => ?_⟩ <;>
      · rcases ho _ hmem with ⟨e, he⟩ | ⟨ok, text, he⟩
        · cases he
        · cases ok <;> cases he

/-- A call decides about no event. -/
theorem Called.decided {sid : SessionId} {σ σ' : Scope} {a : CallAct} {obs : List Obs}
    (h : Called sid σ a σ' obs) : Decided σ.client.session (viewed sid obs) := by
  have hreplied : ∀ {s : ClientSession} {text : PyStr} {os : List Obs},
      Replied sid σ.client.session text s os → Decided σ.client.session (viewed sid os) := by
    intro s text os hs
    refine ⟨fun event hmem => ?_, fun event hmem => ?_⟩ <;>
      · rcases hs.mem_viewed hmem with ⟨m, hm⟩ | ⟨text, hm⟩ <;> cases hm
  cases h with
  | rejected hc hn hs =>
      rw [viewed_returned]
      exact hreplied hs
  | unavailable hc hs | failed hc hs => exact hreplied hs
  | @activated symbol filter snapshot _ _ s o hc hi ho hs =>
      rw [viewed_activation]
      cases hs <;> exact ⟨by simp, by simp⟩
  | _ => exact .nil _

/-- **Whatever a session withholds or delivers, its `should_deliver` has decided.** -/
theorem Stepped.decided {g g' : Process} {a : Act} {obs : List Obs} (h : Stepped g a g' obs)
    (sid : SessionId) : Decided (g.clients sid).session (viewed sid obs) := by
  rcases h.client sid with ⟨ca, σ, rfl, rfl, hc⟩ | hc
  · exact hc.decided
  · generalize viewed sid obs = o at hc ⊢
    generalize g'.clients sid = c' at hc
    cases hc with
    | pipeline hp => exact Pipeline.decided_step hp
    | idle | connected | cancelled | stopped => exact .nil _

theorem mem_viewed_of_client {sid : SessionId} {o : ClientObs} {obs : List Obs}
    (h : .client sid o ∈ obs) : o ∈ viewed sid obs :=
  List.mem_filterMap.mpr ⟨.client sid o, h, if_pos rfl⟩

/-! ### A whole run -/

/-- The history of a session over a run of the gateway. -/
def historyOf (sid : SessionId) (keyPrefix : String) (acts : List Act) : List Entry :=
  Machine.labels Process.step (entriesOf sid) (.initial keyPrefix) acts

theorem based_of_run {keyPrefix : String} {acts : List Act} {g : Process} {h : List Obs}
    (hr : Machine.run Process.step (.initial keyPrefix) acts = some (g, h)) (sid : SessionId) :
    Based (g.clients sid) (historyOf sid keyPrefix acts) := by
  refine (Machine.run_invariant_labels
    (I := fun g entries => Handshakes g ∧ Based (g.clients sid) entries) ?_
    ⟨.initial keyPrefix, .initial keyPrefix sid⟩ hr).2
  intro g₁ a g₂ o entries hI hs
  exact ⟨hI.1.step (Process.stepped hs), hI.2.step hI.1 hs⟩

/-- **The baseline is the newest bid given, and decides against drift.** After any run of the
gateway, under either policy, the baseline of a symbol exists exactly if a market message of the
symbol has been accepted since the session last unsubscribed from it, and is the bid of the newest
one. Over exact prices, an event the next step withholds has too wide a spread for the filter or
lies too close to that bid, which is not zero; and an event it delivers meets the filter. -/
theorem baseline_law {keyPrefix : String} {acts : List Act} {g : Process} {h : List Obs}
    (hr : Machine.run Process.step (.initial keyPrefix) acts = some (g, h)) (sid : SessionId)
    (symbol : PyStr) :
    (symbol ∈ (g.clients sid).session.lastPrice ↔
      bidsSince symbol (historyOf sid keyPrefix acts) ≠ []) ∧
    (g.clients sid).session.lastPrice.get? symbol =
      (bidsSince symbol (historyOf sid keyPrefix acts)).getLast? ∧
    (∀ f, (g.clients sid).session.filters.get? symbol = some f → f.Finite) ∧
    ∀ a g' obs event bid ask, g.step a = some (g', obs) → event.symbol = symbol →
      event.bid = .finite bid → event.ask = .finite ask →
      (∀ x ∈ newestBid symbol (historyOf sid keyPrefix acts), ∃ q, x = .finite q) →
      (.client sid (.withheld event) ∈ obs →
        ∃ f, (g.clients sid).session.filters.get? symbol = some f ∧
          Withholds f (newestBid symbol (historyOf sid keyPrefix acts)) bid ask) ∧
      (.client sid (.accepted (.incremental event)) ∈ obs →
        ∀ f, (g.clients sid).session.filters.get? symbol = some f →
          Meets f (newestBid symbol (historyOf sid keyPrefix acts)) bid ask) := by
  have hI := based_of_run hr sid
  refine ⟨?_, hI.newest symbol, hI.filters.installed symbol, ?_⟩
  · rw [Dict.mem_def, hI.newest symbol, newestBid, List.getLast?_isSome]
  · intro a g' obs event bid ask hs hsym hbid hask hexact
    subst hsym
    rw [← hI.newest] at hexact ⊢
    have hd := (Process.stepped hs).decided sid
    refine ⟨fun hmem => ?_, fun hmem f hf => ?_⟩
    · have hwithheld := hd.withheld event (mem_viewed_of_client hmem)
      cases hf : (g.clients sid).session.filters.get? event.symbol with
      | none =>
          rw [ClientSession.shouldDeliver, hf] at hwithheld
          cases hwithheld
      | some f =>
          refine ⟨f, rfl, ?_⟩
          exact (ClientSession.shouldDeliver_eq_false_iff hf (hI.filters.installed _ f hf) hexact
            hbid hask).mp hwithheld
    · have haccepted := hd.accepted event (mem_viewed_of_client hmem)
      refine meets_of_not_withholds fun hwithholds => ?_
      rw [(ClientSession.shouldDeliver_eq_false_iff hf (hI.filters.installed _ f hf) hexact
        hbid hask).mpr hwithholds] at haccepted
      cases haccepted

/-- A subscription to changes of 50% or more; the first quote is delivered, the second one waits. -/
def conditionalActs : List Act :=
  [.connect 0 "c0" .dropOldest .raw,
    .call 0 (.request (.subscribe "A" (.obj [("min_change_pct", .float (.finite 50))]))),
    .call 0 .go, .fanout .demanded, .fanout .connect, .fanout (.subscribed true),
    .call 0 .go, .call 0 .go, .call 0 .go, .call 0 (.read (.value none)),
    .call 0 .go, .call 0 .go, .call 0 .go,
    .message (.quote "A" 5), .task 0 .take, .message (.quote "A" 6)]

theorem baseline_law_conditional :
    ∃ g h g' obs, Machine.run Process.step (.initial "") conditionalActs = some (g, h) ∧
      g.step (.task 0 .take) = some (g', obs) ∧
      .client 0 (.withheld (.quote "A" 6)) ∈ obs ∧
      (g.clients 0).session.lastPrice.get? "A" = some (.finite 100) ∧
      ∃ f, (g.clients 0).session.filters.get? "A" = some f ∧
        Withholds f (some (.finite 100)) 100 101 := by
  have hsome : (Machine.run Process.step (.initial "") conditionalActs).isSome := by decide +kernel
  have hlast : (Machine.run Process.step (.initial "") conditionalActs).map
      (fun r => (r.1.clients 0).session.lastPrice.get? "A") = some (some (.finite 100)) := by
    decide +kernel
  have hnext : (Machine.run Process.step (.initial "") conditionalActs).map
      (fun r => (r.1.step (.task 0 .take)).map Prod.snd) =
        some (some [.client 0 (.handled (.quote "A" 6)),
          .client 0 (.withheld (.quote "A" 6))]) := by
    decide +kernel
  obtain ⟨⟨g, h⟩, hr⟩ := Option.isSome_iff_exists.mp hsome
  rw [hr, Option.map_some, Option.some.injEq] at hlast hnext
  obtain ⟨⟨g', obs⟩, hs, rfl⟩ := Option.map_eq_some_iff.mp hnext
  obtain ⟨-, hnewest, -, hdecides⟩ := baseline_law hr 0 "A"
  have hbid : newestBid "A" (historyOf 0 "" conditionalActs) = some (.finite 100) :=
    hnewest.symm.trans hlast
  have hmem : Obs.client 0 (.withheld (.quote "A" 6)) ∈
      [Obs.client 0 (.handled (.quote "A" 6)), .client 0 (.withheld (.quote "A" 6))] := by simp
  refine ⟨g, h, g', _, hr, hs, hmem, hlast, ?_⟩
  have hexact : ∀ x ∈ newestBid "A" (historyOf 0 "" conditionalActs),
      ∃ q, x = PyFloat.finite q := by
    intro x hx
    rw [hbid] at hx
    exact ⟨100, (Option.some.inj hx).symm⟩
  have hwithholds := (hdecides _ _ _ _ 100 101 hs rfl rfl rfl hexact).1 hmem
  rwa [hbid] at hwithholds

end MarketData.Gateway
