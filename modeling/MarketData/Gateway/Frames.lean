import MarketData.Codec
import MarketData.Gateway.Connection

/-!
# MarketData.Gateway.Frames

**What the receive loop makes of a client's frame.** `websocket_stream` decodes the text, looks at
`action` and `symbol`, and calls `_subscribe` or `_unsubscribe` or answers with an error. It
guards one step of this, `json.loads`, and for one exception, `JSONDecodeError`.

The rest is unguarded. JSON that is no object has no `get`, a symbol that is no text has no
`upper`, and a filter with an integer that no double holds makes `_subscribe` raise
`OverflowError`. Each of them leaves the receive loop, and the connection is torn down with all
its subscriptions.

What a frame is answered with can do the same. An error reply echoes the action or the symbol, and
`msgpack.packb` raises on a surrogate in it; the snapshot that answers a subscription may hold an
integer that is not written out. The writer takes the exception for a failed send and disconnects.
No other frame does any harm (`frames_survive_iff`).
-/

namespace MarketData.Gateway

/-! ### The filter of a subscribe frame -/

/-- The parser accepts exactly the grammar, fails with `ValueError` only, and `_subscribe` answers
every other value with an error reply and does nothing else. -/
structure FilterExact (payload : Json) : Prop where
  accepts : ∀ filter, parseSubscriptionFilter payload = .ok filter ↔ FilterGrammar payload filter
  fails : ∀ e, parseSubscriptionFilter payload = .error e → ∃ text, e = .valueError text
  replies : (∀ filter, ¬ FilterGrammar payload filter) → ∃ text, ∀ (σ : Scope) sid symbol,
    σ.begin sid (.subscribe symbol payload) =
      ((σ.reply sid text).1, (σ.reply sid text).2 ++ [.returned sid (.subscribe symbol false)])

/-- Without an overflow the parser fails with `ValueError` only. -/
theorem valueError_of_not_overflows {payload : Json} (hsmall : ¬ Overflows payload) {e : PyError}
    (hp : parseSubscriptionFilter payload = .error e) : ∃ text, e = .valueError text := by
  have hout := parseSubscriptionFilter_outcome payload
  rw [hp] at hout
  cases hout with
  | rejected _ _ _ text => exact ⟨text, rfl⟩
  | overflowed hover => exact absurd hover hsmall

/-- A value that the parser rejects is answered with an error reply, and with nothing else. -/
theorem begin_rejected {payload : Json} {text : String}
    (hp : parseSubscriptionFilter payload = .error (.valueError text)) (σ : Scope) (sid : SessionId)
    (symbol : PyStr) : σ.begin sid (.subscribe symbol payload) =
      ((σ.reply sid text).1,
        (σ.reply sid text).2 ++ [.returned sid (.subscribe symbol false)]) := by
  simp only [Scope.begin, hp]

/-- **The filter parser is exact where no integer overflows or is rounded.** -/
theorem filter_grammar_iff (payload : Json) :
    FilterExact payload ↔ ¬ Overflows payload ∧ ¬ RoundsOff payload := by
  have hout := parseSubscriptionFilter_outcome payload
  constructor
  · intro h
    constructor
    · intro hover
      obtain ⟨text, htext⟩ := h.fails _ (parseSubscriptionFilter_overflow.mpr hover)
      cases htext
    · intro hround
      cases hp : parseSubscriptionFilter payload with
      | ok f => exact hround.not_grammar f ((h.accepts f).mp hp)
      | error e =>
          rw [hp] at hout
          cases hout with
          | rejected _ _ hno => exact hno hround
          | overflowed hover =>
              obtain ⟨text, htext⟩ := h.fails _ hp
              cases htext
  · rintro ⟨hsmall, hround⟩
    generalize hp : parseSubscriptionFilter payload = r at hout
    cases hout with
    | overflowed hover => exact absurd hover hsmall
    | @accepted f hread =>
        have hf : FilterGrammar payload f := hread.grammar.resolve_right hround
        refine ⟨fun f' => ?_, fun e he => ?_, fun hno => absurd hf (hno f)⟩
        · rw [hp, Except.ok.injEq]
          exact ⟨fun heq => heq ▸ hf, fun hf' => hf.unique hf'⟩
        · cases hp.symm.trans he
    | rejected hno _ _ text =>
        refine ⟨fun f => ?_, fun e he => ?_, fun _ => ⟨text, begin_rejected hp⟩⟩
        · rw [hp]
          exact iff_of_false (by simp) (hno f)
        · exact ⟨text, (Except.error.inj (hp.symm.trans he)).symm⟩

-- the nearest double to 2 ^ 53 + 1 is 2 ^ 53
example : parseSubscriptionFilter (.obj [("min_change_pct", .int 9007199254740993)]) =
    .ok (some { minChangePct := some (.finite 9007199254740992) }) := by
  decide +kernel

/-- A filter that asks for moves of at least 10 ^ 400 per cent. -/
def hugeFilter : Json := .obj [("min_change_pct", .int (10 ^ 400))]

theorem hugeFilter_overflows : Overflows hugeFilter := by
  refine ⟨_, rfl, Or.inl ⟨10 ^ 400, rfl, ?_⟩⟩
  decide +kernel

/-- **The parser fails with `OverflowError`**, and so does `_subscribe`. -/
theorem huge_filter_raises :
    parseSubscriptionFilter hugeFilter = .error .overflowError ∧
    (∀ (σ : Scope) sid symbol, σ.begin sid (.subscribe symbol hugeFilter) = (σ, [.raised sid])) ∧
    ¬ FilterExact hugeFilter := by
  have hparse := parseSubscriptionFilter_overflow.mpr hugeFilter_overflows
  refine ⟨hparse, fun σ sid symbol => ?_, fun h => ?_⟩
  · simp only [Scope.begin, hparse]
  · obtain ⟨text, htext⟩ := h.fails _ hparse
    cases htext

/-! ### Reading a frame -/

/-- The text of frames, with what Python makes of it. -/
structure FrameText (ρ : Type) extends JsonText ρ where
  /-- The exception of a failing `json.loads` is a `JSONDecodeError`. It is a `ValueError` for an
  integer with too many digits, and a `RecursionError` for values nested too deep. -/
  isDecodeError : ρ → Bool
  /-- `str.upper`. -/
  upper : PyStr → PyStr
  /-- `f"{value}"` of a decoded value; `none` is a `RecursionError`. -/
  format : Json → Option PyStr

/-- What the receive loop does about a frame. -/
inductive Command
  | reply (text : PyStr)
  | subscribe (symbol : PyStr) (filterPayload : Json)
  | unsubscribe (symbol : PyStr)

/-- The error replies of a subscription, once its filter is parsed. -/
def subscribeErrors (symbol : PyStr) : List PyStr :=
  ["subscription unavailable for " ++ symbol, "subscription failed for " ++ symbol]

/-- The error replies that a command can lead to. -/
def Command.replies : Command → List PyStr
  | .reply text => [text]
  | .subscribe symbol payload =>
    match parseSubscriptionFilter payload with
    | .ok _ => subscribeErrors symbol
    | .error (.valueError text) => [(text : PyStr)]
    | .error .overflowError => []
  | .unsubscribe _ => []

/-- What leaves the receive loop before it does anything. -/
inductive FrameError
  /-- Of `json.loads`, other than `JSONDecodeError`. -/
  | loads
  /-- `AttributeError`: the value has no `get`, or the symbol no `upper`. -/
  | attribute
  /-- `RecursionError`, of writing out the action. -/
  | recursion

section Reading

variable {ρ : Type} (t : FrameText ρ)

/-- `msg.get("action")`. -/
def actionField (msg : List (PyStr × Json)) : Json := (Json.field? "action" msg).getD .null

/-- `msg.get("symbol", "")`. -/
def symbolField (msg : List (PyStr × Json)) : Json := (Json.field? "symbol" msg).getD (.str "")

/-- `msg.get("filter")`. -/
def filterField (msg : List (PyStr × Json)) : Json := (Json.field? "filter" msg).getD .null

/-- The body of the receive loop, up to the call or the reply. -/
def readFrame (raw : ρ) : Except FrameError Command :=
  match t.loads raw with
  | none => if t.isDecodeError raw then .ok (.reply "invalid json") else .error .loads
  | some (.obj msg) =>
    match symbolField msg with
    | .str symbol =>
      if t.upper symbol = ("" : String) then .ok (.reply "symbol required")
      else
        match actionField msg with
        | .str ⟨"subscribe", []⟩ => .ok (.subscribe (t.upper symbol) (filterField msg))
        | .str ⟨"unsubscribe", []⟩ => .ok (.unsubscribe (t.upper symbol))
        | action =>
          match t.format action with
          | some text => .ok (.reply ("unknown action: " ++ text))
          | none => .error .recursion
    | _ => .error .attribute
  | some _ => .error .attribute

/-- The frame is an object with a symbol. -/
structure Asks (raw : ρ) (msg : List (PyStr × Json)) (symbol : PyStr) : Prop where
  loads : t.loads raw = some (.obj msg)
  named : symbolField msg = .str symbol
  nonempty : t.upper symbol ≠ ("" : String)

/-- A frame that the receive loop can handle, for a client with this encoding. -/
structure FrameSafe (encoding : Encoding) (raw : ρ) : Prop where
  loads : t.loads raw = none → t.isDecodeError raw = true
  object : ∀ v, t.loads raw = some v → ∃ msg, v = .obj msg
  symbol : ∀ msg, t.loads raw = some (.obj msg) → ∃ symbol, symbolField msg = .str symbol
  filter : ∀ msg symbol, Asks t raw msg symbol → actionField msg = .str "subscribe" →
    ¬ Overflows (filterField msg)
  /-- A subscription that fails echoes its symbol. -/
  symbolText : ∀ msg symbol, Asks t raw msg symbol → actionField msg = .str "subscribe" →
    ∀ filter, parseSubscriptionFilter (filterField msg) = .ok filter →
      encoding.takesText (t.upper symbol) = true
  /-- An unknown action is echoed. -/
  actionText : ∀ msg symbol, Asks t raw msg symbol → actionField msg ≠ .str "subscribe" →
    actionField msg ≠ .str "unsubscribe" →
      ∃ text, t.format (actionField msg) = some text ∧ encoding.takesText text = true

variable {t} {encoding : Encoding} {raw : ρ}

/-- **What the body of the loop reads**, by what the frame holds. -/
inductive FrameOutcome (t : FrameText ρ) (raw : ρ) : Except FrameError Command → Prop
  | undecoded (hl : t.loads raw = none) (hd : t.isDecodeError raw = true) :
      FrameOutcome t raw (.ok (.reply "invalid json"))
  | raised (hl : t.loads raw = none) (hd : t.isDecodeError raw ≠ true) :
      FrameOutcome t raw (.error .loads)
  | noObject {v : Json} (hl : t.loads raw = some v) (hno : ∀ msg, v ≠ .obj msg) :
      FrameOutcome t raw (.error .attribute)
  | noSymbol {msg : List (PyStr × Json)} (hl : t.loads raw = some (.obj msg))
      (hno : ∀ symbol, symbolField msg ≠ .str symbol) : FrameOutcome t raw (.error .attribute)
  | empty {msg : List (PyStr × Json)} {symbol : PyStr} (hl : t.loads raw = some (.obj msg))
      (hs : symbolField msg = .str symbol) (hu : t.upper symbol = ("" : String)) :
      FrameOutcome t raw (.ok (.reply "symbol required"))
  | unknown {msg : List (PyStr × Json)} {symbol text : PyStr} (hasks : Asks t raw msg symbol)
      (hsub : actionField msg ≠ .str "subscribe") (hunsub : actionField msg ≠ .str "unsubscribe")
      (hf : t.format (actionField msg) = some text) :
      FrameOutcome t raw (.ok (.reply ("unknown action: " ++ text)))
  | unwritten {msg : List (PyStr × Json)} {symbol : PyStr} (hasks : Asks t raw msg symbol)
      (hsub : actionField msg ≠ .str "subscribe") (hunsub : actionField msg ≠ .str "unsubscribe")
      (hf : t.format (actionField msg) = none) : FrameOutcome t raw (.error .recursion)
  | subscribe {msg : List (PyStr × Json)} {symbol : PyStr} (hasks : Asks t raw msg symbol)
      (ha : actionField msg = .str "subscribe") :
      FrameOutcome t raw (.ok (.subscribe (t.upper symbol) (filterField msg)))
  | unsubscribe {msg : List (PyStr × Json)} {symbol : PyStr} (hasks : Asks t raw msg symbol)
      (ha : actionField msg = .str "unsubscribe") :
      FrameOutcome t raw (.ok (.unsubscribe (t.upper symbol)))

theorem readFrame_outcome (t : FrameText ρ) (raw : ρ) : FrameOutcome t raw (readFrame t raw) := by
  unfold readFrame
  split
  · rename_i hl
    split
    · rename_i hd
      exact .undecoded hl hd
    · rename_i hd
      exact .raised hl hd
  · rename_i msg hl
    split
    · rename_i symbol hs
      split
      · rename_i hu
        exact .empty hl hs hu
      · rename_i hu
        split
        · rename_i ha
          exact .subscribe ⟨hl, hs, hu⟩ ha
        · rename_i ha
          exact .unsubscribe ⟨hl, hs, hu⟩ ha
        · rename_i hsub hunsub
          split
          · rename_i text hf
            exact .unknown ⟨hl, hs, hu⟩ hsub hunsub hf
          · rename_i hf
            exact .unwritten ⟨hl, hs, hu⟩ hsub hunsub hf
    · rename_i hno
      exact .noSymbol hl hno
  · rename_i hno hl
    exact .noObject hl hno

/-- A frame holds one object and one symbol. -/
theorem Asks.unique {msg msg' : List (PyStr × Json)} {symbol symbol' : PyStr}
    (h : Asks t raw msg symbol) (h' : Asks t raw msg' symbol') : msg = msg' ∧ symbol = symbol' := by
  obtain rfl := Json.obj.inj (Option.some.inj (h.loads.symm.trans h'.loads))
  exact ⟨rfl, Json.str.inj (h.named.symm.trans h'.named)⟩

/-- The part of `FrameSafe` that a frame with a symbol meets. -/
theorem FrameSafe.of_asks {msg : List (PyStr × Json)} {symbol : PyStr} (h : Asks t raw msg symbol)
    (hfilter : actionField msg = .str "subscribe" → ¬ Overflows (filterField msg))
    (hsymbol : actionField msg = .str "subscribe" →
      ∀ filter, parseSubscriptionFilter (filterField msg) = .ok filter →
        encoding.takesText (t.upper symbol) = true)
    (haction : actionField msg ≠ .str "subscribe" → actionField msg ≠ .str "unsubscribe" →
      ∃ text, t.format (actionField msg) = some text ∧ encoding.takesText text = true) :
    FrameSafe t encoding raw := by
  have hl := h.loads
  refine ⟨by simp [hl], by simp [hl], ?_, ?_, ?_, ?_⟩
  · intro msg' hl'
    obtain rfl := Json.obj.inj (Option.some.inj (hl.symm.trans hl'))
    exact ⟨symbol, h.named⟩
  all_goals
    intro msg' symbol' h'
    obtain ⟨rfl, rfl⟩ := h.unique h'
    assumption

/-- A frame without a symbol asks for nothing. -/
theorem FrameSafe.of_not_asks (hloads : t.loads raw = none → t.isDecodeError raw = true)
    (hobject : ∀ v, t.loads raw = some v → ∃ msg, v = .obj msg)
    (hsymbol : ∀ msg, t.loads raw = some (.obj msg) → ∃ symbol, symbolField msg = .str symbol)
    (hno : ∀ msg symbol, ¬ Asks t raw msg symbol) : FrameSafe t encoding raw :=
  ⟨hloads, hobject, hsymbol, fun _ _ h => absurd h (hno _ _), fun _ _ h => absurd h (hno _ _),
    fun _ _ h => absurd h (hno _ _)⟩

/-- Every reply that the command can lead to can be written out. -/
def Command.Writable (encoding : Encoding) (cmd : Command) : Prop :=
  ∀ text ∈ cmd.replies, encoding.takesText text = true

theorem takesText_subscribeErrors {symbol : PyStr} :
    (∀ text ∈ subscribeErrors symbol, encoding.takesText text = true) ↔
      encoding.takesText symbol = true := by
  simp [subscribeErrors, Encoding.takesText_coe_append]

/-- **A frame is safe if and only if it is read without an exception, its filter, where it
subscribes, does not overflow, and the replies it can lead to can be written out.** -/
theorem frameSafe_iff : FrameSafe t encoding raw ↔ ∃ cmd, readFrame t raw = .ok cmd ∧
    (∀ symbol payload, cmd = .subscribe symbol payload → ¬ Overflows payload) ∧
    cmd.Writable encoding := by
  have hout := readFrame_outcome t raw
  generalize readFrame t raw = r at hout ⊢
  have hreply : ∀ {text : PyStr}, encoding.takesText text = true →
      (Command.reply text).Writable encoding := by
    intro text htext text' hmem
    rw [List.mem_singleton.mp hmem]
    exact htext
  cases hout with
  | undecoded hl hd =>
      refine iff_of_true (.of_not_asks (fun _ => hd) (by simp [hl]) (by simp [hl]) ?_)
        ⟨_, rfl, by simp, hreply (encoding.takesText_coe _)⟩
      intro msg symbol h
      cases hl.symm.trans h.loads
  | raised hl hd => exact iff_of_false (fun h => hd (h.loads hl)) (by simp)
  | @noObject v hl hno =>
      refine iff_of_false (fun h => ?_) (by simp)
      obtain ⟨msg, hmsg⟩ := h.object v hl
      exact hno msg hmsg
  | @noSymbol msg hl hno =>
      refine iff_of_false (fun h => ?_) (by simp)
      obtain ⟨symbol, hs⟩ := h.symbol msg hl
      exact hno symbol hs
  | @empty msg symbol hl hs hu =>
      refine iff_of_true (.of_not_asks (by simp [hl]) (by simp [hl]) ?_ ?_)
        ⟨_, rfl, by simp, hreply (encoding.takesText_coe _)⟩
      · intro msg' hl'
        obtain rfl := Json.obj.inj (Option.some.inj (hl.symm.trans hl'))
        exact ⟨symbol, hs⟩
      · intro msg' symbol' h
        obtain rfl := Json.obj.inj (Option.some.inj (hl.symm.trans h.loads))
        obtain rfl := Json.str.inj (hs.symm.trans h.named)
        exact h.nonempty hu
  | @unknown msg symbol text hasks hsub hunsub hf =>
      constructor
      · intro h
        obtain ⟨text', hf', htext⟩ := h.actionText _ _ hasks hsub hunsub
        obtain rfl := Option.some.inj (hf.symm.trans hf')
        exact ⟨_, rfl, by simp, hreply ((encoding.takesText_coe_append _ _).trans htext)⟩
      · rintro ⟨cmd, hcmd, -, hwritable⟩
        obtain rfl := Except.ok.inj hcmd
        have htext := hwritable _ List.mem_cons_self
        rw [Encoding.takesText_coe_append] at htext
        exact .of_asks hasks (fun ha => absurd ha hsub) (fun ha => absurd ha hsub)
          fun _ _ => ⟨text, hf, htext⟩
  | unwritten hasks hsub hunsub hf =>
      refine iff_of_false (fun h => ?_) (by simp)
      obtain ⟨text, hf', -⟩ := h.actionText _ _ hasks hsub hunsub
      cases hf.symm.trans hf'
  | unsubscribe hasks ha =>
      refine iff_of_true (.of_asks hasks ?_ ?_ fun _ hunsub => absurd ha hunsub)
        ⟨_, rfl, by simp, fun text htext => absurd htext List.not_mem_nil⟩
      all_goals
        intro hsub
        exact absurd (ha.symm.trans hsub) (by simp)
  | @subscribe msg symbol hasks ha =>
      -- a filter that does not overflow is parsed, or refused with a text of its own
      have hiff : ¬ Overflows (filterField msg) →
          ((Command.subscribe (t.upper symbol) (filterField msg)).Writable encoding ↔
            ∀ filter, parseSubscriptionFilter (filterField msg) = .ok filter →
              encoding.takesText (t.upper symbol) = true) := by
        intro hsmall
        rw [Command.Writable, Command.replies]
        cases hp : parseSubscriptionFilter (filterField msg) with
        | ok filter =>
            rw [takesText_subscribeErrors]
            exact ⟨fun h _ _ => h, fun h => h filter rfl⟩
        | error e =>
            obtain ⟨text, rfl⟩ := valueError_of_not_overflows hsmall hp
            simp [encoding.takesText_coe]
      constructor
      · intro h
        have hsmall := h.filter _ _ hasks ha
        refine ⟨_, rfl, fun symbol' payload heq => ?_, ?_⟩
        · obtain ⟨-, rfl⟩ := Command.subscribe.inj heq
          exact hsmall
        · exact (hiff hsmall).mpr (h.symbolText _ _ hasks ha)
      · rintro ⟨cmd, hcmd, hsmall, hwritable⟩
        obtain rfl := Except.ok.inj hcmd
        have hsmall := hsmall _ _ rfl
        exact .of_asks hasks (fun _ => hsmall) (fun _ => (hiff hsmall).mp hwritable)
          fun hsub _ => absurd ha hsub

end Reading

/-! ### A reply reaches the client -/

/-- The writer gets the message out: while it sends it, the send can succeed, and nothing of it
disconnects the session. -/
def Sendable (encoding : Encoding) (m : Message) : Prop :=
  ∀ p : Pipeline, p.session.encoding = encoding → p.session.writer = .sending m →
    ∃ p', p.taskStep .writerSent = some (p', [.sent m]) ∧
      p'.session.disconnected = p.session.disconnected

/-- **The writer gets out exactly the messages that neither their send nor their record raises
for.** -/
theorem sendable_iff {encoding : Encoding} {m : Message} :
    Sendable encoding m ↔ m.GoesOut encoding := by
  constructor
  · intro h
    obtain ⟨p, hp, hd⟩ := h
      { session := { clientId := "", encoding := encoding, writer := .sending m }
        task := .notStarted } rfl rfl
    cases Pipeline.taskStepped hp with
    | writerSent hw hm hrecord => exact ⟨hm, hrecord⟩
    | writerUnrecorded => cases hd
  · rintro ⟨hm, hrecord⟩ p rfl hw
    refine ⟨⟨({ p.session with stats :=
      { p.session.stats with sent := p.session.stats.sent + 1 } } : ClientSession).writerLoop,
      p.task⟩, ?_, rfl⟩
    simp only [Pipeline.taskStep, hw, if_pos hm, hrecord]
    rfl

/-- **An error reply goes out if and only if its text can be written out.** -/
theorem goesOut_error_iff {encoding : Encoding} {text : PyStr} :
    (Message.error text).GoesOut encoding ↔ encoding.takesText text = true := by
  simp [Message.GoesOut, Message.encodable, Message.ints, Message.texts, Message.unrecordable,
    Message.eventTs?]

/-! ### What a call leaves alone -/

/-- The symbol that a call is about. -/
def Call.symbol? : Call → Option PyStr
  | .ensuring symbol _ _ | .confirming symbol _ _ | .sleeping symbol _ _ | .registering symbol _
  | .reading symbol _ | .activating symbol _ _ _ | .rollingBack symbol _ | .checkingUnused symbol _
  | .unsubscribing symbol => some symbol
  | .releasing _ (.subscribe symbol _) | .releasing _ (.unsubscribe symbol)
  | .dropping _ (.subscribe symbol _) | .dropping _ (.unsubscribe symbol) => some symbol
  | _ => none

/-- The session is registered and connected as before, and so are its subscriptions but for one
symbol. -/
structure Undisturbed (sid : SessionId) (symbol? : Option PyStr) (r r' : Registry)
    (s s' : ClientSession) : Prop where
  registered : r'.allSessions = r.allSessions
  disconnected : s'.disconnected = s.disconnected
  subscribers : ∀ symbol, symbol? ≠ some symbol →
    (sid ∈ r'.subscribers symbol ↔ sid ∈ r.subscribers symbol)
  subscriptions : ∀ symbol, symbol? ≠ some symbol →
    (symbol ∈ s'.subscriptions ↔ symbol ∈ s.subscriptions)
  filters : ∀ symbol, symbol? ≠ some symbol → s'.filters.get? symbol = s.filters.get? symbol
  lastSeq : ∀ symbol, symbol? ≠ some symbol → s'.lastSeq.get? symbol = s.lastSeq.get? symbol
  lastPrice : ∀ symbol, symbol? ≠ some symbol → s'.lastPrice.get? symbol = s.lastPrice.get? symbol

theorem Undisturbed.of_eq {sid : SessionId} {symbol? : Option PyStr} {r r' : Registry}
    {s s' : ClientSession} (hr : r'.allSessions = r.allSessions)
    (hd : s'.disconnected = s.disconnected) (hsub : r'.subscriptions = r.subscriptions)
    (hs : s'.subscriptions = s.subscriptions) (hf : s'.filters = s.filters)
    (hseq : s'.lastSeq = s.lastSeq) (hprice : s'.lastPrice = s.lastPrice) :
    Undisturbed sid symbol? r r' s s' := by
  refine ⟨hr, hd, fun symbol _ => ?_, fun _ _ => by rw [hs], fun _ _ => by rw [hf],
    fun _ _ => by rw [hseq], fun _ _ => by rw [hprice]⟩
  rw [Registry.subscribers, Registry.subscribers, hsub]

/-- An error reply. -/
theorem Replied.undisturbed {sid : SessionId} {s s' : ClientSession} {text : PyStr}
    {obs : List Obs} (h : Replied sid s text s' obs) (hp : s.policy = .dropOldest)
    (symbol? : Option PyStr) (r : Registry) : Undisturbed sid symbol? r r s s' := by
  have hd := h.disconnected hp
  obtain ⟨q, stats, d, rfl⟩ := h.session
  exact .of_eq rfl hd rfl rfl rfl rfl rfl

/-- A subscription changes the filter of its symbol only. -/
theorem filters_subscribed (s : ClientSession) (filter : Option SubscriptionFilter)
    {symbol symbol' : PyStr} (hs : symbol ≠ symbol') :
    (s.subscribed symbol filter).filters.get? symbol' = s.filters.get? symbol' := by
  cases filter with
  | none => exact Dict.get?_erase_ne _ hs
  | some f => exact Dict.get?_set_ne _ _ hs

/-- The end of a handshake. -/
theorem Seeded.undisturbed {s s' : ClientSession} {symbol : PyStr}
    {snapshot : Option SnapshotData} {obs : List ClientObs} (h : Seeded s symbol snapshot s' obs)
    (hp : s.policy = .dropOldest) (sid : SessionId) (r : Registry) (events : List MarketEvent)
    (filter : Option SubscriptionFilter) :
    Undisturbed sid (some symbol) r ((r.endInitialization symbol sid).addSubscriber symbol sid) s
      ((s'.pushAll events).subscribed symbol filter) := by
  have hne : ∀ {symbol'}, some symbol ≠ some symbol' → symbol ≠ symbol' := fun h heq =>
    h (congrArg some heq)
  refine ⟨rfl, ?_, fun symbol' hs => ?_, fun symbol' hs => ?_, fun symbol' hs => ?_,
    fun symbol' hs => ?_, fun symbol' hs => ?_⟩
  · show s'.disconnected = s.disconnected
    cases h with
    | absent => rfl
    | accepted snapshot q stats d hok hq hd => exact hd hp
  · rw [Registry.subscribers_addSubscriber, if_neg (hne hs)]
    rfl
  · cases h <;> exact Finset.mem_insert.trans (or_iff_right (hne hs).symm)
  · cases h <;> exact filters_subscribed _ filter (hne hs)
  · cases h with
    | absent => rfl
    | accepted => exact Dict.get?_set_ne _ _ (hne hs)
  · cases h with
    | absent => rfl
    | accepted => exact Dict.get?_set_ne _ _ (hne hs)

/-- What `_unsubscribe` removes. -/
theorem undisturbed_forget (sid : SessionId) (r : Registry) (s : ClientSession) (symbol : PyStr) :
    Undisturbed sid (some symbol) r (r.discardSubscriber symbol sid).1 s (s.forget symbol) := by
  have hne : ∀ {symbol'}, some symbol ≠ some symbol' → symbol ≠ symbol' := fun h heq =>
    h (congrArg some heq)
  refine ⟨Registry.allSessions_discardSubscriber .., rfl, fun symbol' hs => ?_,
    fun symbol' hs => ?_, fun symbol' hs => ?_, fun symbol' hs => ?_, fun symbol' hs => ?_⟩
  · rw [Registry.subscribers_discardSubscriber, if_neg (hne hs)]
  · exact Finset.mem_erase.trans (and_iff_right (hne hs).symm)
  all_goals exact Dict.get?_erase_ne _ (hne hs)

/-- **A call leaves the session registered and its other subscriptions alone**, unless it is
`_cleanup`. -/
theorem Called.undisturbed {sid : SessionId} {σ σ' : Scope} {a : CallAct} {obs : List Obs}
    (h : Called sid σ a σ' obs) (hn : σ.client.call.inCleanup = false)
    (hp : σ.client.session.policy = .dropOldest) :
    Undisturbed sid σ.client.call.symbol? σ.registry σ'.registry σ.client.session
      σ'.client.session := by
  cases h with
  | rejected hc hn hs | unavailable hc hs | failed hc hs => exact hs.undisturbed hp _ _
  | activated hc hi ho hs =>
      rw [hc]
      exact hs.undisturbed hp sid σ.registry _ _
  | lastUnsubscribed hc | unsubscribed hc =>
      rw [hc]
      exact undisturbed_forget sid σ.registry σ.client.session _
  | cleaned hc | closing hc =>
      rw [hc] at hn
      cases hn
  | _ => exact .of_eq rfl rfl rfl rfl rfl rfl rfl

/-! ### What a call answers with -/

/-- The snapshot with which the next step of a handshake answers it. -/
def Scope.answer? (σ : Scope) (sid : SessionId) : Option SnapshotData :=
  match σ.client.call with
  | .activating symbol _ (.value snapshot) _ =>
    match σ.registry.initialization? symbol sid with
    | some initialization => if initialization.overflowed then none else snapshot
    | none => none
  | _ => none

/-- A handshake puts its snapshot on the queue. -/
theorem Seeded.accepted_mem {s s' : ClientSession} {symbol : PyStr}
    {snapshot : Option SnapshotData} {obs : List ClientObs} (h : Seeded s symbol snapshot s' obs)
    {m : Message} (hm : .accepted m ∈ obs) : ∃ x ∈ snapshot, m = .snapshot x := by
  cases h with
  | absent => cases hm
  | accepted x => exact ⟨x, rfl, ClientObs.accepted.inj (List.mem_singleton.mp hm)⟩

/-- **What a call puts on the queue** is an error of its subscription, or the answer to its
handshake. -/
theorem Called.accepted_mem {sid : SessionId} {σ σ' : Scope} {a : CallAct} {obs : List Obs}
    (h : Called sid σ a σ' obs) (ha : a.Continues = true) {m : Message}
    (hm : .client sid (.accepted m) ∈ obs) :
    (∃ symbol ∈ σ.client.call.subscribes?, ∃ text ∈ subscribeErrors symbol, m = .error text) ∨
    a = .go ∧ ∃ snapshot ∈ σ.answer? sid, m = .snapshot snapshot := by
  cases h with
  | rejected | overflowed => cases ha
  | @unavailable symbol _ _ _ _ hc hs =>
      rw [hc]
      exact Or.inl ⟨symbol, rfl, _, List.mem_cons_self, hs.accepted_eq hm⟩
  | @failed symbol _ _ _ _ _ hc hs =>
      rw [hc]
      exact Or.inl ⟨symbol, rfl, _, List.mem_cons_of_mem _ List.mem_cons_self, hs.accepted_eq hm⟩
  | @activated symbol filter snapshot _ i s os hc hi hover hs =>
      have hanswer : σ.answer? sid = snapshot := by
        simp only [Scope.answer?, hc, hi, hover, Bool.false_eq_true, if_false]
      rcases List.mem_append.mp hm with hm | hm
      · obtain ⟨o, ho, heq⟩ := List.mem_map.mp hm
        obtain rfl := (Obs.client.inj heq).2
        rcases List.mem_append.mp ho with ho | ho
        · rw [hanswer]
          exact Or.inr ⟨rfl, hs.accepted_mem ho⟩
        · obtain ⟨e, -, heq⟩ := List.mem_map.mp ho
          cases heq
      · cases List.mem_singleton.mp hm
  | inUse | unsubscribed | finished | closing | closed => cases List.mem_singleton.mp hm
  | _ => cases hm

theorem Scope.not_inCleanup_of_answer {σ : Scope} {sid : SessionId} {snapshot : SnapshotData}
    (hanswer : σ.answer? sid = some snapshot) : σ.client.call.inCleanup = false := by
  unfold answer? at hanswer
  split at hanswer
  · rename_i hc
    rw [hc]
    rfl
  · cases hanswer

/-- **A handshake that has a snapshot to answer with puts it on the queue.** -/
theorem Scope.answered {sid : SessionId} {σ σ' : Scope} {obs : List Obs} {snapshot : SnapshotData}
    (hs : σ.step sid .go = some (σ', obs)) (hanswer : σ.answer? sid = some snapshot)
    (hp : σ.client.session.policy = .dropOldest) :
    .client sid (.accepted (.snapshot snapshot)) ∈ obs := by
  unfold answer? at hanswer
  split at hanswer
  · rename_i symbol filter read h hc
    split at hanswer
    · rename_i initialization hi
      split at hanswer
      · cases hanswer
      · rename_i hover
        obtain rfl : read = some snapshot := hanswer
        simp only [step, hc] at hs
        obtain ⟨-, rfl⟩ := Prod.mk.inj (Option.some.inj hs)
        obtain ⟨stats, heq⟩ := ClientSession.enqueue_dropOldest_eq hp (.snapshot snapshot)
        simp only [hi, if_neg hover, ClientSession.seed, heq]
        simp
    · cases hanswer
  · cases hanswer

/-- A call goes on with its own subscription, or with none. -/
theorem Called.subscribes? {sid : SessionId} {σ σ' : Scope} {a : CallAct} {obs : List Obs}
    (h : Called sid σ a σ' obs) (ha : a.Continues = true) :
    σ'.client.call.subscribes? = none ∨
      σ'.client.call.subscribes? = σ.client.call.subscribes? := by
  have hattempt : ∀ symbol filter attempt ok,
      (Scope.afterAttempt symbol filter attempt ok).subscribes? = some symbol := by
    intro symbol filter attempt ok
    rcases ok with - | - | - <;> rfl
  cases h with
  | parsed | rejected | overflowed | unsubscribeBegun | cleanupBegun => cases ha
  | attempted hc | answered ok hc =>
      rw [hc]
      exact Or.inr (hattempt _ _ _ _)
  | slept hc | registered hc | read hc =>
      rw [hc]
      exact Or.inr rfl
  | released hc =>
      rw [Scope.call_goto]
      split <;> exact Or.inl rfl
  | _ => exact Or.inl rfl

/-- A call leaves the policy and the encoding of its session alone. -/
theorem Called.settings {sid : SessionId} {σ σ' : Scope} {a : CallAct} {obs : List Obs}
    (h : Called sid σ a σ' obs) : σ'.client.session.policy = σ.client.session.policy ∧
      σ'.client.session.encoding = σ.client.session.encoding := by
  cases h with
  | rejected hc hn hs | unavailable hc hs | failed hc hs =>
      obtain ⟨_, _, _, rfl⟩ := hs.session
      exact ⟨rfl, rfl⟩
  | activated hc hi ho hs => cases hs <;> exact ⟨rfl, rfl⟩
  | _ => exact ⟨rfl, rfl⟩

/-- What the receive loop relies on: a DROP_OLDEST session, whose call echoes what can be written
out. -/
structure Answers (c : Client) : Prop where
  connected : c.connected = true
  policy : c.session.policy = .dropOldest
  writable : ∀ symbol ∈ c.call.subscribes?, c.session.encoding.takesText symbol = true

/-- No subscription of `sid` is started whose errors its client cannot be sent. -/
def Act.Echoes (sid : SessionId) (encoding : Encoding) (a : Act) : Prop :=
  ∀ symbol payload, a = .call sid (.request (.subscribe symbol payload)) →
    (Command.subscribe symbol payload).Writable encoding

/-- **Every step of the gateway keeps it.** -/
theorem Answers.step {g g' : Process} {a : Act} {obs : List Obs} {sid : SessionId}
    (hA : Answers (g.clients sid)) (h : Stepped g a g' obs)
    (ha : a.Echoes sid (g.clients sid).session.encoding) :
    Answers (g'.clients sid) ∧
      (g'.clients sid).session.encoding = (g.clients sid).session.encoding := by
  rcases h.client sid with ⟨ca, σ, rfl, rfl, hc⟩ | hstep
  · rw [Process.clients_withScope_self]
    obtain ⟨-, hon, -, -⟩ := hc.identity
    obtain ⟨hpolicy, hencoding⟩ := hc.settings
    refine ⟨⟨hon.trans hA.connected, hpolicy.trans hA.policy, fun symbol hsymbol => ?_⟩, hencoding⟩
    rw [hencoding]
    by_cases hcont : ca.Continues = true
    · rcases hc.subscribes? hcont with hnone | hsame
      · rw [hnone] at hsymbol
        cases hsymbol
      · exact hA.writable symbol (hsame ▸ hsymbol)
    · cases hc with
      | @parsed symbol' payload filter hidle hon hp =>
          obtain rfl : symbol' = symbol := Option.some.inj hsymbol
          have hwritable := ha symbol' payload rfl
          rw [Command.Writable, Command.replies, hp] at hwritable
          exact takesText_subscribeErrors.mp hwritable
      | rejected | overflowed => exact hA.writable symbol hsymbol
      | unsubscribeBegun | cleanupBegun => cases hsymbol
      | _ => exact absurd rfl hcont
  · obtain ⟨hset, hcall, hon⟩ := hstep.settings hA.connected
    refine ⟨⟨hon.trans hA.connected, hset.policy.trans hA.policy, fun symbol hsymbol => ?_⟩,
      hset.encoding⟩
    rw [hset.encoding]
    exact hA.writable symbol (hcall ▸ hsymbol)

/-- **So does a run.** -/
theorem Answers.run {g g' : Process} {acts : List Act} {obs : List Obs} {sid : SessionId}
    (hA : Answers (g.clients sid)) (hr : Machine.run Process.step g acts = some (g', obs))
    (hacts : ∀ a ∈ acts, a.Echoes sid (g.clients sid).session.encoding) :
    Answers (g'.clients sid) := by
  refine (Machine.run_invariant_along (I := fun g' _ => Answers (g'.clients sid) ∧
    (g'.clients sid).session.encoding = (g.clients sid).session.encoding)
    (fun g₁ a g₂ o _ ha hI hs => ?_) ⟨hA, rfl⟩ (Machine.along_of_forall hacts g) hr).1
  rw [← hI.2] at ha
  obtain ⟨hA', hencoding⟩ := hI.1.step (Process.stepped hs) ha
  exact ⟨hA', hencoding.trans hI.2⟩

/-! ### A call comes to its end -/

/-- How many steps a call other than `_cleanup` has at most to go. -/
def Call.remaining : Call → Nat
  | .idle => 0
  | .ensuring _ _ attempt => 3 * (Scope.ensureAttempts - attempt) + 11
  | .confirming _ _ attempt => 3 * (Scope.ensureAttempts - attempt) + 10
  | .sleeping _ _ attempt => 3 * (Scope.ensureAttempts - attempt) + 9
  | .registering _ _ => 8
  | .reading _ _ => 7
  | .activating _ _ _ _ => 6
  | .rollingBack _ _ => 5
  | .checkingUnused _ _ => 4
  | .unsubscribing _ => 4
  | .releasing symbols _ => 2 * symbols.length + 1
  | .dropping symbols _ => 2 * symbols.length + 2
  | .cleaning | .closing => 0

/-- **Every step brings a call closer to its return.** -/
theorem Called.remaining_lt {sid : SessionId} {σ σ' : Scope} {a : CallAct} {obs : List Obs}
    (h : Called sid σ a σ' obs) (ha : a.Continues = true)
    (hn : σ.client.call.inCleanup = false) :
    σ'.client.call.remaining < σ.client.call.remaining := by
  have hattempt : ∀ symbol filter attempt ok,
      (Scope.afterAttempt symbol filter attempt ok).remaining <
        3 * (Scope.ensureAttempts - attempt) + 11 := by
    intro symbol filter attempt ok
    rcases ok with - | - | - <;> simp only [Scope.afterAttempt, Call.remaining] <;> omega
  cases h with
  | parsed | rejected | overflowed | unsubscribeBegun | cleanupBegun => cases ha
  | cleaned hc | closing hc | closed hc =>
      rw [hc] at hn
      cases hn
  | attempted hc hl =>
      rw [hc]
      exact hattempt _ _ _ _
  | answered ok hc =>
      rw [hc]
      cases ok <;> simp only [Scope.call_goto, Scope.afterAttempt, Call.remaining] <;> omega
  | slept hc hlt =>
      rw [hc]
      simp only [Scope.call_goto, Call.remaining]
      omega
  | released hc hl =>
      rw [hc, Scope.call_goto]
      split <;> simp only [Call.remaining, List.length_cons] <;> omega
  | unavailable hc | registered hc | read hc | failed hc | activated hc | rolledBack hc | inUse hc
  | unused hc | lastUnsubscribed hc | unsubscribed hc | dropped ok hc | finished hc =>
      rw [hc]
      simp only [Scope.call_goto, Call.remaining, List.length_cons, List.length_nil]
      omega

/-! ### Handling a frame -/

/-- The step of the server that a command leads to. -/
def Command.act (sid : SessionId) : Command → ServerAct
  | .reply text => .reply sid text
  | .subscribe symbol payload => .subscribe sid symbol payload
  | .unsubscribe symbol => .unsubscribe sid symbol

/-- A step of the server, with the frames as clients send them. -/
inductive FrameAct (ρ : Type)
  | frame (sid : SessionId) (raw : ρ)
  /-- A step that starts on no frame. -/
  | other (a : ServerAct)

/-- The step is how the server starts on a frame. -/
def ServerAct.ofFrame : ServerAct → Bool
  | .reply _ _ | .subscribe _ _ _ | .unsubscribe _ _ => true
  | _ => false

theorem Command.ofFrame_act (cmd : Command) (sid : SessionId) : (cmd.act sid).ofFrame = true := by
  cases cmd <;> rfl

theorem Command.act_ne_leave {cmd : Command} {sid sid' : SessionId} :
    cmd.act sid ≠ .leave sid' := by
  cases cmd <;> simp [Command.act]

theorem Command.act_inj {cmd cmd' : Command} {sid sid' : SessionId}
    (h : cmd.act sid = cmd'.act sid') : sid = sid' ∧ cmd = cmd' := by
  cases cmd <;> cases cmd' <;> simp_all [Command.act]

/-- Run one step of the server. -/
def Server.frameStep {ρ : Type} (t : FrameText ρ) (s : Server) :
    FrameAct ρ → Option (Server × List Obs)
  | .frame sid raw =>
    match readFrame t raw with
    | .ok cmd => s.step (cmd.act sid)
    -- the exception leaves the loop for the `finally` block
    | .error _ => s.step (.leave sid)
  | .other a => if a.ofFrame then none else s.step a

/-- What a frame has led to: the call it asks for, or an error reply. -/
inductive FrameHandled (sid : SessionId) (g : Process) (obs : List Obs) : Command → Prop
  | replied {text : PyStr} (ok : Bool) (hc : (g.clients sid).call = .idle)
      (ho : .client sid (.enqueued ok (.error text)) ∈ obs) : FrameHandled sid g obs (.reply text)
  | subscribing {symbol : PyStr} {payload : Json} {filter : Option SubscriptionFilter}
      (hp : parseSubscriptionFilter payload = .ok filter)
      (hc : (g.clients sid).call = .ensuring symbol filter 0) :
      FrameHandled sid g obs (.subscribe symbol payload)
  | rejected {symbol : PyStr} {text : String} {payload : Json} (ok : Bool)
      (hp : parseSubscriptionFilter payload = .error (.valueError text))
      (hc : (g.clients sid).call = .idle)
      (ho : .client sid (.enqueued ok (.error text)) ∈ obs) :
      FrameHandled sid g obs (.subscribe symbol payload)
  | unsubscribing {symbol : PyStr} (hc : (g.clients sid).call = .unsubscribing symbol) :
      FrameHandled sid g obs (.unsubscribe symbol)

/-- What a step has to be to a session in its receive loop, unless the client leaves. -/
structure LoopGoesOn {ρ : Type} (t : FrameText ρ) (sid : SessionId) (s s' : Server)
    (a : FrameAct ρ) (obs : List Obs) : Prop where
  serving : s'.handlers sid = .serving
  /-- A frame is answered or acted upon, each of its replies reaches the client, and nothing else
  happens to the session. -/
  frame : ∀ raw, a = .frame sid raw →
    (∃ cmd, readFrame t raw = .ok cmd ∧ FrameHandled sid s'.gateway obs cmd ∧
      ∀ text ∈ cmd.replies, Sendable (s.gateway.clients sid).session.encoding (.error text)) ∧
    Undisturbed sid none s.gateway.registry s'.gateway.registry (s.gateway.clients sid).session
      (s'.gateway.clients sid).session
  /-- The call of a frame comes to its end, touches no other subscription, and what it puts on the
  queue reaches the client. -/
  call : ∀ ca, a = .other (.call sid ca) →
    (s'.gateway.clients sid).call.remaining < (s.gateway.clients sid).call.remaining ∧
    Undisturbed sid (s.gateway.clients sid).call.symbol? s.gateway.registry s'.gateway.registry
      (s.gateway.clients sid).session (s'.gateway.clients sid).session ∧
    ∀ m, .client sid (.accepted m) ∈ obs →
      Sendable (s.gateway.clients sid).session.encoding m

/-- Only the start of a call raises. -/
theorem Called.raised_own {sid : SessionId} {σ σ' : Scope} {a : CallAct} {obs : List Obs}
    (h : Called sid σ a σ' obs) (hmem : .raised sid ∈ obs) : a.Continues = false := by
  cases h with
  | rejected | overflowed => rfl
  | unavailable hc hs | failed hc hs =>
      rcases hs.obs _ hmem with ⟨m, ho⟩ | ⟨text, ho⟩ <;> cases ho
  | activated hc hi ho hs =>
      rcases List.mem_append.mp hmem with hmem | hmem
      · obtain ⟨o, -, ho⟩ := List.mem_map.mp hmem
        cases ho
      · cases List.mem_singleton.mp hmem
  | inUse | unsubscribed | finished | closing | closed => cases List.mem_singleton.mp hmem
  | _ => cases hmem

theorem Stepped.raised_own {g g' : Process} {obs : List Obs} {sid : SessionId} {ca : CallAct}
    (h : Stepped g (.call sid ca) g' obs) (hmem : .raised sid ∈ obs) : ca.Continues = false := by
  cases h with
  | call hc => exact hc.raised_own hmem

theorem Stepped.client_called {g g' : Process} {obs : List Obs} {sid : SessionId} {ca : CallAct}
    (h : Stepped g (.call sid ca) g' obs) :
    ∃ σ, g'.clients sid = σ.client ∧ g'.registry = σ.registry ∧
      Called sid (g.scope sid) ca σ obs := by
  cases h with
  | call hc => exact ⟨_, Process.clients_withScope_self .., rfl, hc⟩

/-- A session connects once. -/
theorem Stepped.client_connect {g g' : Process} {obs : List Obs} {sid : SessionId}
    {clientId : String} {policy : SlowConsumerPolicy} {mode : AggregationMode}
    {encoding : Encoding} (h : Stepped g (.connect sid clientId policy mode encoding) g' obs) :
    (g.clients sid).connected = false ∧
      g'.clients sid = (g.clients sid).connect clientId policy mode encoding := by
  cases h with
  | connect hc => exact ⟨hc, g.clients_withClient_self sid _⟩

/-- An error reply of the receive loop. -/
theorem Stepped.client_replied {g g' : Process} {obs : List Obs} {sid : SessionId} {text : PyStr}
    (h : Stepped g (.error sid text) g' obs) :
    g'.clients sid = (g.clients sid).withSession ((g.clients sid).session.enqueueError text).1 ∧
    g'.registry = g.registry ∧
    obs = ((g.clients sid).session.enqueueError text).2.map (.client sid) ∧
    (g.clients sid).call = .idle := by
  cases h with
  | replied hc => exact ⟨Process.clients_withClient_self .., rfl, rfl, hc⟩

namespace Server

variable {s s' : Server} {sid : SessionId} {o : List Obs}

/-- The receive loop starts a call of `_subscribe` or `_unsubscribe`. -/
theorem of_request {r : Request}
    (hs : s.exec sid [.call sid (.request r)] (afterCall sid) = some (s', o)) :
    s'.gateway.clients sid = ((s.gateway.scope sid).begin sid r).1.client ∧
    s'.gateway.registry = ((s.gateway.scope sid).begin sid r).1.registry ∧
    o = ((s.gateway.scope sid).begin sid r).2 ∧ (s.gateway.clients sid).call = .idle ∧
    s'.handlers sid = if .raised sid ∈ o then .leaving else .serving := by
  obtain ⟨hr, hself, -⟩ := of_exec hs
  have hstep := Machine.run_singleton.mp hr
  simp only [Process.step, Scope.step] at hstep
  split at hstep
  · rename_i σ obs hσ
    split at hσ
    · rename_i r' hc hreq
      obtain rfl := CallAct.request.inj hreq
      split at hσ
      · obtain ⟨rfl, rfl⟩ := Prod.mk.inj (Option.some.inj hσ)
        obtain ⟨hg, rfl⟩ := Machine.outcome hstep
        refine ⟨?_, ?_, rfl, hc, hself⟩
        · rw [hg]
          exact Process.clients_withScope_self ..
        · rw [hg]
          rfl
      · cases hσ
    all_goals first
      | (rename_i hreq
         cases hreq)
      | cases hσ
  · cases hstep

/-- A frame is started on in the receive loop only. -/
theorem serving_of_act {cmd : Command} (hs : s.step (cmd.act sid) = some (s', o)) :
    s.handlers sid = .serving := by
  cases cmd with
  | reply =>
      cases stepped hs with
      | replied hserving => exact hserving
  | subscribe =>
      cases stepped hs with
      | subscribed hserving => exact hserving
  | unsubscribe =>
      cases stepped hs with
      | unsubscribed hserving => exact hserving

/-- **A frame that is read without an exception is handled.** -/
theorem handled {cmd : Command} (hs : s.step (cmd.act sid) = some (s', o))
    (hA : Answers (s.gateway.clients sid))
    (hsmall : ∀ symbol payload, cmd = .subscribe symbol payload → ¬ Overflows payload) :
    s'.handlers sid = .serving ∧ FrameHandled sid s'.gateway o cmd ∧
    Undisturbed sid none s.gateway.registry s'.gateway.registry (s.gateway.clients sid).session
      (s'.gateway.clients sid).session := by
  have hserving := serving_of_act hs
  cases cmd with
  | reply text =>
      simp only [Command.act, step, if_pos hserving] at hs
      obtain ⟨hr, hself, -⟩ := of_exec hs
      obtain ⟨hclient, hreg, rfl, hc⟩ :=
        (Process.stepped (Machine.run_singleton.mp hr)).client_replied
      have hreply := @Replied.mk sid (s.gateway.clients sid).session text []
        (s.gateway.clients sid).session.stats (s.gateway.clients sid).session.disconnected
        fun _ => rfl
      refine ⟨hself, .replied _ ?_ (List.mem_singleton.mpr rfl), ?_⟩
      · rw [hclient]
        exact hc
      · rw [hclient, hreg]
        exact hreply.undisturbed hA.policy none _
  | unsubscribe symbol =>
      simp only [Command.act, step, if_pos hserving] at hs
      obtain ⟨hclient, hreg, rfl, hc, hself⟩ := of_request hs
      refine ⟨hself, .unsubscribing (by rw [hclient]; rfl), ?_⟩
      rw [hclient, hreg]
      exact .of_eq rfl rfl rfl rfl rfl rfl rfl
  | subscribe symbol payload =>
      simp only [Command.act, step, if_pos hserving] at hs
      obtain ⟨hclient, hreg, rfl, hc, hself⟩ := of_request hs
      cases hp : parseSubscriptionFilter payload with
      | ok filter =>
          have hbegin : (s.gateway.scope sid).begin sid (.subscribe symbol payload) =
              ((s.gateway.scope sid).goto (.ensuring symbol filter 0), []) := by
            simp only [Scope.begin, hp]
          rw [hbegin] at hclient hreg hself ⊢
          refine ⟨hself, .subscribing hp (by rw [hclient]; rfl), ?_⟩
          rw [hclient, hreg]
          exact .of_eq rfl rfl rfl rfl rfl rfl rfl
      | error e =>
          obtain ⟨text, rfl⟩ := valueError_of_not_overflows (hsmall symbol payload rfl) hp
          have hbegin := begin_rejected hp (s.gateway.scope sid) sid symbol
          obtain ⟨s₁, heq, hreply⟩ := (s.gateway.scope sid).reply_replied sid text
          rw [hbegin] at hclient hreg hself ⊢
          refine ⟨hself, .rejected _ hp ?_
            (List.mem_append_left _ (List.mem_singleton.mpr rfl)), ?_⟩
          · rw [hclient]
            exact hc
          · rw [hclient, hreg, heq]
            exact hreply.undisturbed hA.policy none _

/-- **A filter that overflows ends the receive loop.** -/
theorem leaving_of_overflow {symbol : PyStr} {payload : Json} (hover : Overflows payload)
    (hs : s.step (.subscribe sid symbol payload) = some (s', o)) : s'.handlers sid = .leaving := by
  have hserving := @serving_of_act s s' sid o (.subscribe symbol payload) hs
  simp only [step, if_pos hserving] at hs
  obtain ⟨-, -, rfl, -, hself⟩ := of_request hs
  have hbegin : (s.gateway.scope sid).begin sid (.subscribe symbol payload) =
      (s.gateway.scope sid, [.raised sid]) := by
    simp only [Scope.begin, parseSubscriptionFilter_overflow.mpr hover]
  rw [hbegin] at hself
  exact hself.trans (if_pos List.mem_cons_self)

theorem leaving_of_leave (hs : s.step (.leave sid) = some (s', o)) :
    s.handlers sid = .serving ∧ s'.handlers sid = .leaving := by
  cases stepped hs with
  | left hserving hidle hs => exact ⟨hserving, (of_exec hs).2.1⟩

/-- Any step but a frame of its own or its own leaving keeps a session in its receive loop. -/
theorem serving_of_other {a : ServerAct} (hs : s.step a = some (s', o))
    (hserving : s.handlers sid = .serving) (ha : ∀ cmd : Command, a ≠ cmd.act sid)
    (hleave : a ≠ .leave sid) : s'.handlers sid = .serving := by
  -- the handlers of other sessions stay where they are
  have hother : ∀ {sid' acts next}, s.exec sid' acts next = some (s', o) → sid ≠ sid' →
      s'.handlers sid = .serving := fun hs hne => ((of_exec hs).2.2 sid hne).trans hserving
  have hne : ∀ {sid' handler}, s.handlers sid' = handler → handler ≠ .serving → sid ≠ sid' := by
    intro sid' handler hh hnot heq
    rw [← heq, hserving] at hh
    exact hnot hh.symm
  cases stepped hs with
  | task hs => rwa [(of_background hs).2]
  | fanout hs => rwa [(of_background hs).2]
  | message hs => rwa [(of_background hs).2]
  | @replied sid' text _ _ hh hs =>
      refine hother hs fun heq => ha (.reply text) ?_
      rw [heq, Command.act]
  | @subscribed sid' symbol payload _ _ hh hs =>
      refine hother hs fun heq => ha (.subscribe symbol payload) ?_
      rw [heq, Command.act]
  | @unsubscribed sid' symbol _ _ hh hs =>
      refine hother hs fun heq => ha (.unsubscribe symbol) ?_
      rw [heq, Command.act]
  | connected habsent hs => exact hother hs (hne habsent (by simp))
  | left hh hidle hs =>
      refine hother hs fun heq => hleave ?_
      rw [heq]
  | cancelled hleaving hs => exact hother hs (hne hleaving (by simp))
  | leaked hcancelling ht hs => exact hother hs (hne hcancelling (by simp))
  | tornDown hcancelling ht hs => exact hother hs (hne hcancelling (by simp))
  | cleaned hcont hcleaning hs => exact hother hs (hne hcleaning (by simp))
  | @called sid' ca _ _ hcont hh hs =>
      by_cases hsid : sid = sid'
      · subst hsid
        obtain ⟨hr, hself, -⟩ := of_exec hs
        rw [hself, afterCall]
        refine if_neg fun hraised => ?_
        rw [(Process.stepped (Machine.run_singleton.mp hr)).raised_own hraised] at hcont
        cases hcont
      · exact hother hs hsid

/-- A step of the call that a frame has led to. -/
theorem of_call {ca : CallAct} (hs : s.step (.call sid ca) = some (s', o))
    (hserving : s.handlers sid = .serving) : ca.Continues = true ∧
      ∃ σ, s'.gateway.clients sid = σ.client ∧ s'.gateway.registry = σ.registry ∧
        Called sid (s.gateway.scope sid) ca σ o := by
  cases stepped hs with
  | cleaned hcont hcleaning =>
      rw [hserving] at hcleaning
      cases hcleaning
  | called hcont hh hs =>
      obtain ⟨hr, -, -⟩ := of_exec hs
      exact ⟨hcont, (Process.stepped (Machine.run_singleton.mp hr)).client_called⟩

/-- A call that a frame has led to comes to its end. -/
theorem remaining_lt_of_call {ca : CallAct} (hs : s.step (.call sid ca) = some (s', o))
    (hserving : s.handlers sid = .serving)
    (hn : (s.gateway.clients sid).call.inCleanup = false) :
    (s'.gateway.clients sid).call.remaining < (s.gateway.clients sid).call.remaining := by
  obtain ⟨hcont, σ, hclient, -, hc⟩ := of_call hs hserving
  rw [hclient]
  exact hc.remaining_lt hcont hn

/-! ### A session in its receive loop -/

/-- A session in its receive loop can be answered. -/
def Answering (s : Server) (sid : SessionId) : Prop :=
  s.handlers sid = .serving → Answers (s.gateway.clients sid)

/-- **Every step of the server keeps it**, if it starts no subscription whose errors the client
cannot be sent. -/
theorem Answering.step {a : ServerAct} (hA : s.Answering sid) (hI : Handshakes s.gateway)
    (hs : s.step a = some (s', o))
    (ha : ∀ symbol payload, a = .subscribe sid symbol payload →
      (Command.subscribe symbol payload).Writable (s.gateway.clients sid).session.encoding) :
    s'.Answering sid := by
  intro hserving'
  by_cases hserving : s.handlers sid = .serving
  · have hrun : ∀ {acts}, Machine.run Process.step s.gateway acts = some (s'.gateway, o) →
        (∀ symbol payload, .call sid (.request (.subscribe symbol payload)) ∈ acts →
          (Command.subscribe symbol payload).Writable (s.gateway.clients sid).session.encoding) →
        Answers (s'.gateway.clients sid) := by
      intro acts hr hacts
      refine (hA hserving).run hr fun b hb symbol payload heq => hacts symbol payload ?_
      rw [← heq]
      exact hb
    cases stepped hs with
    | task hs | fanout hs | message hs =>
        exact hrun (Machine.run_singleton.mpr (of_background hs).1) (by simp)
    | @subscribed sid' symbol' payload' _ _ hh hs =>
        refine hrun (of_exec hs).1 fun symbol payload hmem => ha symbol payload ?_
        have heq := List.mem_singleton.mp hmem
        cases heq
        rfl
    | @called sid' ca _ _ hcont hh hs | @cleaned sid' ca _ _ hcont hh hs =>
        refine hrun (of_exec hs).1 fun symbol payload hmem => ?_
        have heq := List.mem_singleton.mp hmem
        cases heq
        cases hcont
    | connected _ hs | replied _ hs | unsubscribed _ hs | left _ _ hs | cancelled _ hs
    | leaked _ _ hs | tornDown _ _ hs => exact hrun (of_exec hs).1 (by simp)
  · -- only connecting puts a session into its receive loop
    have hnot : ∀ {sid' acts next}, s.exec sid' acts next = some (s', o) →
        s.handlers sid' = .serving → Answers (s'.gateway.clients sid) := by
      intro sid' acts next hs hh
      by_cases hsid : sid = sid'
      · exact absurd (hsid ▸ hh) hserving
      · exact absurd (((of_exec hs).2.2 sid hsid).symm.trans hserving') hserving
    have hnext : ∀ {sid' acts next}, s.exec sid' acts next = some (s', o) →
        next s'.gateway o ≠ .serving → Answers (s'.gateway.clients sid) := by
      intro sid' acts next hs hne
      by_cases hsid : sid = sid'
      · subst hsid
        exact absurd ((of_exec hs).2.1.symm.trans hserving') hne
      · exact absurd (((of_exec hs).2.2 sid hsid).symm.trans hserving') hserving
    cases stepped hs with
    | task hs | fanout hs | message hs =>
        rw [(of_background hs).2] at hserving'
        exact absurd hserving' hserving
    | @connected sid' clientId mode encoding _ _ hh hs =>
        obtain ⟨hr, -, hother⟩ := of_exec hs
        by_cases hsid : sid = sid'
        · subst hsid
          obtain ⟨hoff, hclient⟩ := (Process.stepped (Machine.run_singleton.mp hr)).client_connect
          rw [hclient]
          refine ⟨rfl, rfl, fun symbol hsymbol => ?_⟩
          replace hsymbol : symbol ∈ (s.gateway.clients sid).call.subscribes? := hsymbol
          rw [((hI sid).absent hoff).1] at hsymbol
          cases hsymbol
        · exact absurd ((hother sid hsid).symm.trans hserving') hserving
    | replied hh hs | subscribed hh hs | unsubscribed hh hs | called _ hh hs | left hh _ hs =>
        exact hnot hs hh
    | cleaned _ _ hs =>
        refine hnext hs ?_
        rw [afterCleanup]
        split <;> simp
    | cancelled _ hs | leaked _ _ hs | tornDown _ _ hs => exact hnext hs (by simp)

end Server

/-! ### Every frame of every run -/

section Run

variable {ρ : Type} {t : FrameText ρ}

/-- A step of the run is nothing to the receive loop of the session that it should not be. -/
def FrameSurvives (t : FrameText ρ) (sid : SessionId) (s : Server) (a : FrameAct ρ) : Prop :=
  ∀ s' o, s.frameStep t a = some (s', o) → s.handlers sid = .serving →
    a ≠ .other (.leave sid) → LoopGoesOn t sid s s' a o

/-- The snapshot with which a step of the session's call answers its handshake. -/
def Server.answer? (s : Server) (sid : SessionId) : FrameAct ρ → Option SnapshotData
  | .other (.call sid' .go) => if sid' = sid then (s.gateway.scope sid).answer? sid else none
  | _ => none

/-- A frame of the session is safe for its client, and so is the snapshot that answers one. -/
structure StepSafe (t : FrameText ρ) (sid : SessionId) (s : Server) (a : FrameAct ρ) : Prop where
  frame : ∀ raw, a = .frame sid raw → FrameSafe t (s.gateway.clients sid).session.encoding raw
  answer : ∀ snapshot ∈ s.answer? sid a,
    (Message.snapshot snapshot).GoesOut (s.gateway.clients sid).session.encoding

/-- The step of the server that a step with frames is. -/
theorem Server.of_frameStep {s s' : Server} {a : FrameAct ρ} {o : List Obs}
    (hs : s.frameStep t a = some (s', o)) : ∃ b, s.step b = some (s', o) ∧
      ∀ sid cmd, b = cmd.act sid → ∃ raw, a = .frame sid raw ∧ readFrame t raw = .ok cmd := by
  cases a with
  | frame sid raw =>
      simp only [frameStep] at hs
      split at hs
      · rename_i cmd hread
        refine ⟨_, hs, fun sid' cmd' heq => ⟨raw, ?_, ?_⟩⟩
        · rw [(Command.act_inj heq).1]
        · rw [hread, (Command.act_inj heq).2]
      · exact ⟨_, hs, fun sid' cmd' heq => absurd heq.symm Command.act_ne_leave⟩
  | other a =>
      simp only [frameStep] at hs
      split at hs
      · cases hs
      · rename_i hframe
        refine ⟨a, hs, fun sid cmd heq => absurd ?_ hframe⟩
        rw [heq]
        exact cmd.ofFrame_act sid

/-- What is known of the server while the session's frames are safe. -/
structure Survives (sid : SessionId) (s : Server) (h : List Obs) : Prop where
  lives : Lives s h
  answering : s.Answering sid

theorem Survives.step {s s' : Server} {h o : List Obs} {sid : SessionId} {a : FrameAct ρ}
    (hI : Survives sid s h) (hsafe : StepSafe t sid s a) (hs : s.frameStep t a = some (s', o)) :
    Survives sid s' (h ++ o) := by
  obtain ⟨b, hb, hframe⟩ := Server.of_frameStep hs
  refine ⟨hI.lives.step hb, hI.answering.step hI.lives.handshakes hb ?_⟩
  intro symbol payload heq
  obtain ⟨raw, ha, hread⟩ := hframe sid (.subscribe symbol payload) heq
  obtain ⟨cmd, hread', -, hwritable⟩ := frameSafe_iff.mp (hsafe.frame raw ha)
  obtain rfl := Except.ok.inj (hread.symm.trans hread')
  exact hwritable

/-- **A frame that the receive loop handles is safe.** -/
theorem FrameSurvives.frameSafe {s s' : Server} {o : List Obs} {sid : SessionId} {raw : ρ}
    (hsurvives : FrameSurvives t sid s (.frame sid raw))
    (hs : s.frameStep t (.frame sid raw) = some (s', o)) :
    FrameSafe t (s.gateway.clients sid).session.encoding raw := by
  have hgoes := hsurvives s' o hs
  simp only [Server.frameStep] at hs
  rw [frameSafe_iff]
  cases hr : readFrame t raw with
  | error e =>
      simp only [hr] at hs
      obtain ⟨hserving, hleaving⟩ := Server.leaving_of_leave hs
      cases hleaving.symm.trans (hgoes hserving (by simp)).serving
  | ok cmd =>
      simp only [hr] at hs
      have hgoes := hgoes (Server.serving_of_act hs) (by simp)
      obtain ⟨⟨cmd', hr', -, hsent⟩, -⟩ := hgoes.frame raw rfl
      obtain rfl := Except.ok.inj (hr.symm.trans hr')
      refine ⟨cmd, rfl, fun symbol payload hcmd hover => ?_, fun text htext => ?_⟩
      · subst hcmd
        cases (Server.leaving_of_overflow hover hs).symm.trans hgoes.serving
      · exact goesOut_error_iff.mp (sendable_iff.mp (hsent text htext))

/-- A step that answers a handshake is one of the session's call, in its receive loop. -/
theorem Server.of_answer {s s' : Server} {h o : List Obs} {sid : SessionId} {a : FrameAct ρ}
    (hI : Lives s h) (hs : s.frameStep t a = some (s', o)) {snapshot : SnapshotData}
    (hanswer : s.answer? sid a = some snapshot) :
    a = .other (.call sid .go) ∧ s.handlers sid = .serving ∧
      (s.gateway.scope sid).answer? sid = some snapshot ∧
      ∃ σ, (s.gateway.scope sid).step sid .go = some (σ, o) := by
  unfold Server.answer? at hanswer
  split at hanswer
  · rename_i sid'
    split at hanswer
    · rename_i hsid
      subst hsid
      refine ⟨rfl, ?_⟩
      simp only [Server.frameStep, ServerAct.ofFrame, Bool.false_eq_true, if_false] at hs
      cases Server.stepped hs with
      | cleaned hcont hcleaning hs =>
          have hL := hI.lifecycle sid'
          rw [hcleaning] at hL
          cases hL with
          | cleaning hcall =>
              exact absurd ((Scope.not_inCleanup_of_answer hanswer).symm.trans hcall) (by simp)
      | called hcont hserving hs =>
          obtain ⟨hr, -, -⟩ := Server.of_exec hs
          have hstep := Machine.run_singleton.mp hr
          simp only [Process.step] at hstep
          split at hstep
          · rename_i σ obs hσ
            obtain ⟨-, rfl⟩ := Machine.outcome hstep
            exact ⟨hserving, hanswer, σ, hσ⟩
          · cases hstep
    · cases hanswer
  · cases hanswer

/-- **With a handshake that is answered, the answer goes out.** -/
theorem FrameSurvives.stepSafe {s s' : Server} {h o : List Obs} {sid : SessionId} {a : FrameAct ρ}
    (hsurvives : FrameSurvives t sid s a) (hI : Survives sid s h)
    (hs : s.frameStep t a = some (s', o)) : StepSafe t sid s a := by
  refine ⟨?_, fun snapshot hsnapshot => ?_⟩
  · rintro raw rfl
    exact hsurvives.frameSafe hs
  · obtain ⟨rfl, hserving, hanswer, σ, hσ⟩ := Server.of_answer hI.lives hs hsnapshot
    have hgoes := hsurvives s' o hs hserving (by simp)
    obtain ⟨-, -, hsent⟩ := hgoes.call .go rfl
    have hA := hI.answering hserving
    exact sendable_iff.mp (hsent _ (Scope.answered hσ hanswer hA.policy))

/-- **One step**: with a safe step the receive loop goes on. -/
theorem Survives.frameSurvives {s : Server} {h : List Obs} {sid : SessionId} {a : FrameAct ρ}
    (hI : Survives sid s h) (hsafe : StepSafe t sid s a) : FrameSurvives t sid s a := by
  intro s' o hs hserving hleave
  have hA := hI.answering hserving
  cases a with
  | other a =>
      simp only [Server.frameStep] at hs
      split at hs
      · cases hs
      · rename_i hframe
        refine ⟨Server.serving_of_other hs hserving ?_ ?_, ?_, ?_⟩
        · rintro cmd rfl
          exact hframe (cmd.ofFrame_act sid)
        · rintro rfl
          exact hleave rfl
        · intro raw ha
          cases ha
        · intro ca ha
          obtain rfl := FrameAct.other.inj ha
          have hL := hI.lives.lifecycle sid
          rw [hserving] at hL
          cases hL with
          | serving hcall hcl =>
              obtain ⟨hcont, σ, hclient, hreg, hc⟩ := Server.of_call hs hserving
              refine ⟨Server.remaining_lt_of_call hs hserving hcall, ?_, fun m hm => ?_⟩
              · rw [hclient, hreg]
                exact hc.undisturbed hcall hA.policy
              · rw [sendable_iff]
                rcases hc.accepted_mem hcont hm with
                  ⟨symbol, hsymbol, text, htext, rfl⟩ | ⟨rfl, snapshot, hanswer, rfl⟩
                · have hwritable := takesText_subscribeErrors.mpr (hA.writable symbol hsymbol)
                  exact goesOut_error_iff.mpr (hwritable text htext)
                · refine hsafe.answer snapshot ?_
                  rw [Server.answer?, if_pos rfl]
                  exact hanswer
  | frame sid' raw =>
      by_cases hsid : sid' = sid
      · subst hsid
        obtain ⟨cmd, hread, hsmall, hwritable⟩ := frameSafe_iff.mp (hsafe.frame raw rfl)
        simp only [Server.frameStep, hread] at hs
        obtain ⟨hgoes, hhandled, hundisturbed⟩ := Server.handled hs hA hsmall
        refine ⟨hgoes, ?_, ?_⟩
        · intro raw' ha
          obtain ⟨-, rfl⟩ := FrameAct.frame.inj ha
          exact ⟨⟨cmd, hread, hhandled, fun text htext =>
            sendable_iff.mpr (goesOut_error_iff.mpr (hwritable text htext))⟩, hundisturbed⟩
        · intro ca ha
          cases ha
      · simp only [Server.frameStep] at hs
        refine ⟨?_, ?_, ?_⟩
        · split at hs
          · exact Server.serving_of_other hs hserving (fun cmd' h => hsid (Command.act_inj h).1)
              (fun h => Command.act_ne_leave h)
          · refine Server.serving_of_other hs hserving
              (fun cmd' h => Command.act_ne_leave h.symm) ?_
            rintro h
            exact hsid (ServerAct.leave.inj h)
        · intro raw' ha
          obtain ⟨rfl, -⟩ := FrameAct.frame.inj ha
          exact absurd rfl hsid
        · intro ca ha
          cases ha

theorem Survives.initial (keyPrefix : String) (sid : SessionId) :
    Survives sid (.initial keyPrefix) [] :=
  ⟨.initial keyPrefix, fun hserving => nomatch hserving⟩

/-- **A frame takes down its connection exactly if it is not safe.** In every run of the server:
each frame of a session is answered with an error or starts the call it asks for, what it is
answered with reaches the client, the call comes to its end and touches no other subscription, and
the receive loop goes on until the client leaves, if and only if all of the session's frames are
safe, and so are the snapshots that answer them. -/
theorem frames_survive_iff {keyPrefix : String} {acts : List (FrameAct ρ)} {s : Server}
    {h : List Obs} (hr : Machine.run (Server.frameStep t) (.initial keyPrefix) acts = some (s, h))
    (sid : SessionId) :
    Machine.Along (Server.frameStep t) (FrameSurvives t sid) (.initial keyPrefix) acts ↔
      Machine.Along (Server.frameStep t) (StepSafe t sid) (.initial keyPrefix) acts := by
  have h0 : ∃ h, Survives sid (.initial keyPrefix) h := ⟨[], .initial keyPrefix sid⟩
  constructor
  · intro hsurvives
    refine Machine.Along.imp_of_run (P := fun s => ∃ h, Survives sid s h) ?_ h0 hsurvives hr
    rintro s a s' o ⟨h, hI⟩ hC hs
    have hsafe := hC.stepSafe hI hs
    exact ⟨⟨h ++ o, hI.step hsafe hs⟩, hsafe⟩
  · intro hsafe
    refine Machine.Along.imp_of_run (P := fun s => ∃ h, Survives sid s h) ?_ h0 hsafe hr
    rintro s a s' o ⟨h, hI⟩ hC hs
    exact ⟨⟨h ++ o, hI.step hC hs⟩, hI.frameSurvives hC⟩

end Run

/-- Frames as decoded values. -/
def FrameText.values : FrameText Json where
  toJsonText := .values
  isDecodeError _ := true
  upper symbol := symbol
  format
    | .str text => some text
    | _ => some ""

/-- Subscribe to "A". -/
def subscribeFrame : Json := .obj [("action", .str "subscribe"), ("symbol", .str "A")]

/-- A client connects, subscribes, and is answered. -/
def frameActs : List (FrameAct Json) :=
  [.other (.connect 0 "c0" .raw), .frame 0 subscribeFrame, .other (.call 0 .go),
    .other (.fanout .demanded), .other (.fanout .connect), .other (.fanout (.subscribed true)),
    .other (.call 0 .go), .other (.call 0 .go), .other (.call 0 .go),
    .other (.call 0 (.read (.value (some (.fromEvent (.quote "A" 5)))))), .other (.call 0 .go),
    .other (.call 0 .go), .other (.call 0 .go)]

theorem frames_survive_subscribe :
    Machine.Along (Server.frameStep .values) (FrameSurvives .values 0) (.initial "") frameActs := by
  have hrun : ∃ s h, Machine.run (Server.frameStep .values) (.initial "") frameActs = some (s, h) :=
    ⟨_, _, rfl⟩
  obtain ⟨s, h, hr⟩ := hrun
  have hanswer : Machine.Along (Server.frameStep .values)
      (fun s a => ∀ snapshot ∈ s.answer? 0 a,
        (Message.snapshot snapshot).GoesOut (s.gateway.clients 0).session.encoding)
      (.initial "") frameActs := by
    decide +kernel
  have hframe : Machine.Along (Server.frameStep .values)
      (fun _ a => ∀ raw, a = .frame 0 raw → raw = subscribeFrame) (.initial "") frameActs := by
    refine Machine.along_of_forall ?_ _
    rintro a ha raw rfl
    simpa [frameActs] using ha
  refine (frames_survive_iff hr 0).mpr
    ((Machine.along_and.mpr ⟨hframe, hanswer⟩).mono fun s a hC => ⟨?_, hC.2⟩)
  rintro raw rfl
  obtain rfl := hC.1 raw rfl
  refine frameSafe_iff.mpr ⟨.subscribe "A" .null, rfl, ?_, ?_⟩
  · intro symbol payload heq
    obtain ⟨-, rfl⟩ := Command.subscribe.inj heq
    simp [Overflows]
  · exact takesText_subscribeErrors.mpr (Encoding.takesText_coe _ "A")

/-- The JSON text `{"action": "\ud800", "symbol": "A"}`. -/
def surrogateFrame : Json := .obj [("action", .str ⟨"", [(0, "")]⟩), ("symbol", .str "A")]

-- `json.dumps` escapes the echo, `msgpack.packb` raises on it
example (encoding : Encoding) :
    FrameSafe .values encoding surrogateFrame ↔ encoding = .json := by
  have hread : readFrame .values surrogateFrame =
      .ok (.reply ⟨"unknown action: ", [(0, "")]⟩) := rfl
  rw [frameSafe_iff, hread]
  cases encoding <;> simp [Command.Writable, Command.replies, Encoding.takesText, PyStr.encodable]

-- a snapshot with a sequence number of 65 bits
example (encoding : Encoding) :
    (Message.snapshot (.fromEvent (.quote "A" (2 ^ 64)))).GoesOut encoding ↔ encoding = .json := by
  cases encoding <;> decide +kernel

/-- A client that has subscribed sends the JSON text `1`. -/
def numberFrameActs : List (FrameAct Json) := frameActs ++ [.frame 0 (.int 1)]

/-- **A frame that is a number takes down the connection**: the loop is left, with no reply. -/
theorem number_frame_kills :
    (∃ s h, Machine.run (Server.frameStep .values) (.initial "") numberFrameActs = some (s, h) ∧
      s.handlers 0 = .leaving ∧ s.gateway.registry.subscribers "A" = {0}) ∧
    ¬ Machine.Along (Server.frameStep .values) (FrameSurvives .values 0) (.initial "")
      numberFrameActs := by
  have hrun : ∃ s h, Machine.run (Server.frameStep .values) (.initial "") numberFrameActs =
      some (s, h) ∧ s.handlers 0 = .leaving ∧ s.gateway.registry.subscribers "A" = {0} :=
    ⟨_, _, rfl, rfl, rfl⟩
  refine ⟨hrun, fun halong => ?_⟩
  obtain ⟨s', h', hr, hleaving, -⟩ := hrun
  obtain ⟨s, h, o, hr₁, hr₂, -⟩ := Machine.run_append.mp hr
  have hs := Machine.run_singleton.mp hr₂
  have hserving : s.handlers 0 = .serving := (Server.leaving_of_leave hs).1
  have hsurvives := ((Machine.along_append hr₁).mp halong).2.1
  cases hleaving.symm.trans (hsurvives s' o hs hserving (by simp)).serving

end MarketData.Gateway
