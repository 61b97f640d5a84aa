import MarketData.Gateway.Interleaving
import MarketData.Storage.Admission

/-!
# MarketData.Gateway.Payloads

**What `fanout_loop` makes of a message's payload.** `_parse_pubsub_event` catches every exception
of its `try` block and returns `None`, and the loop goes on to the next message.

Two steps are outside of that block. Bytes are decoded before it, so bytes that are no UTF-8 raise
out of the function. And the symbol is any JSON value: one that is a list or an object is parsed
like every other, and cannot be looked up in `subscriptions` afterwards. Both exceptions end the
loop's connection, and the loop reconnects (`payloads_handled_iff`).
-/

namespace MarketData.Gateway

/-- The `data` of a Pub/Sub message. -/
inductive Payload
  | bytes (data : ByteArray)
  | text (data : String)

/-- What leaves the loop's body. -/
inductive PayloadError
  /-- `UnicodeDecodeError`, of `data.decode()`. -/
  | decode
  /-- `TypeError`, of the lookup of a list or an object. -/
  | unhashable

/-- Values that a dictionary can be asked for. -/
def hashable : Json → Bool
  | .arr _ | .obj _ => false
  | _ => true

section Loop

variable (t : JsonText String)

/-- `_parse_pubsub_event`, with the decoding of bytes. -/
def parsePubsubPayload : Payload → Except PayloadError (Option (MarketEventOf Json))
  | .bytes data =>
    match String.fromUTF8? data with
    | some text => .ok (parsePubsubEvent t text)
    | none => .error .decode
  | .text text => .ok (parsePubsubEvent t text)

/-- The event under its text symbol. -/
def withSymbol (event : MarketEventOf Json) (symbol : PyStr) : MarketEvent where
  symbol := symbol
  bid := event.bid
  ask := event.ask
  bidSize := event.bidSize
  askSize := event.askSize
  eventTs := event.eventTs
  serverTs := event.serverTs
  seq := event.seq
  type := event.type
  lastPrice := event.lastPrice
  lastSize := event.lastSize

/-- `_fanout_event` of an event as it was parsed. The keys of both dictionaries are strings, so
another value finds nothing there. -/
def Process.fanoutParsed (g : Process) (event : MarketEventOf Json) :
    Except PayloadError (Process × List Obs) :=
  match event.symbol with
  | .str symbol =>
    .ok (g.fanoutEvent (withSymbol event symbol),
      [.received (withSymbol event symbol) (g.registry.subscribers symbol)])
  | .arr _ | .obj _ => .error .unhashable
  | _ => .ok (g, [])

/-- The body of the loop over `pubsub.listen()`. -/
def Process.receive (g : Process) (data : Payload) : Except PayloadError (Process × List Obs) :=
  match parsePubsubPayload t data with
  | .error e => .error e
  | .ok none => .ok (g, [])
  | .ok (some event) => g.fanoutParsed event

/-- A step of the gateway, with messages as they come from Redis. -/
inductive PayloadAct
  | payload (data : Payload)
  /-- A step that no message starts. -/
  | other (a : Act)

/-- Run one step of the gateway. -/
def Process.payloadStep (g : Process) : PayloadAct → Option (Process × List Obs)
  | .payload data =>
    if g.fanout = .listening then
      match g.receive t data with
      | .ok out => some out
      | .error _ => g.step (.fanout .broken)
    else none
  | .other (.message _) => none
  | .other a => g.step a

/-! ### Which payloads do harm -/

/-- The text is an event in all but its symbol, which no dictionary can be asked for. -/
structure Unhashable (text : String) (d : List (PyStr × Json)) : Prop where
  loads : t.loads text = some (.obj d)
  symbol : ∃ v, Json.field? "symbol" d = some v ∧ hashable v = false
  readable : Readable t d
  serverTs : (serverTsField t d).isSome

/-- Bytes are UTF-8, and the text holds no such event. -/
def Harmless : Payload → Prop
  | .bytes data => ∃ h : data.IsValidUTF8, ∀ d, ¬ Unhashable t (.fromUTF8 data h) d
  | .text text => ∀ d, ¬ Unhashable t text d

/-- What has to happen to a message. -/
structure PayloadHandled (g : Process) (data : Payload) (g' : Process) (obs : List Obs) : Prop where
  parsed : ∃ event?, parsePubsubPayload t data = .ok event?
  skipped : parsePubsubPayload t data = .ok none → g' = g ∧ obs = []
  fanned : ∀ event, parsePubsubPayload t data = .ok (some event) →
    g.fanoutParsed event = .ok (g', obs)
  /-- The loop awaits the next message, on the same connection. -/
  listening : g'.fanout = .listening
  channels : g'.channels = g.channels

variable {t}

/-- A text gives an event that `_fanout_event` cannot look up exactly if it is as `Unhashable`
says. -/
theorem parsed_unhashable_iff {text : String} :
    (∃ event, parsePubsubEvent t text = some event ∧ hashable event.symbol = false) ↔
      ∃ d, Unhashable t text d := by
  constructor
  · rintro ⟨event, hparse, hsymbol⟩
    obtain ⟨d, hloads, hreads, hserver⟩ := parseEventWith_eq_some.mp hparse
    refine ⟨d, hloads, ⟨_, hreads.symbol, hsymbol⟩, ⟨_, hreads⟩, ?_⟩
    rw [hserver, Option.isSome_some]
  · rintro ⟨d, hloads, ⟨v, hv, hsymbol⟩, ⟨event, hreads⟩, hserver⟩
    obtain ⟨n, hn⟩ := Option.isSome_iff_exists.mp hserver
    refine ⟨_, parseEventWith_eq_some.mpr ⟨d, hloads, hreads.setServerTs n, hn⟩, ?_⟩
    obtain rfl := Option.some.inj (hv.symm.trans hreads.symbol)
    exact hsymbol

/-- **What the parser makes of a payload that does no harm**: an event whose symbol can be looked
up, or nothing. -/
theorem harmless_iff {data : Payload} :
    Harmless t data ↔ ∃ event?, parsePubsubPayload t data = .ok event? ∧
      ∀ event, event? = some event → hashable event.symbol = true := by
  have htext : ∀ text, (∀ d, ¬ Unhashable t text d) ↔
      ∀ event, parsePubsubEvent t text = some event → hashable event.symbol = true := by
    intro text
    rw [← not_exists, ← parsed_unhashable_iff, not_exists]
    refine forall_congr' fun event => ?_
    rw [not_and, Bool.not_eq_false]
  cases data with
  | text text =>
      rw [Harmless, htext]
      simp [parsePubsubPayload]
  | bytes data =>
      rw [Harmless, parsePubsubPayload, String.fromUTF8?]
      by_cases hvalid : data.IsValidUTF8
      · simp only [hvalid, exists_true_left, htext]
        simp
      · simp [hvalid]

/-- A symbol that can be looked up is looked up. -/
theorem Process.fanoutParsed_isOk (g : Process) (event : MarketEventOf Json) :
    (∃ out, g.fanoutParsed event = .ok out) ↔ hashable event.symbol = true := by
  unfold fanoutParsed
  cases event.symbol <;> simp [hashable]

/-- `_fanout_event` leaves the loop and its connection alone. -/
theorem Process.fanoutParsed_frame {g g' : Process} {event : MarketEventOf Json} {obs : List Obs}
    (h : g.fanoutParsed event = .ok (g', obs)) :
    g'.fanout = g.fanout ∧ g'.channels = g.channels := by
  unfold fanoutParsed at h
  split at h
  · cases h
    exact ⟨rfl, rfl⟩
  · cases h
  · cases h
  · cases h
    exact ⟨rfl, rfl⟩

/-- **One message**: it is handled exactly if its payload does no harm. -/
theorem payloadHandled_iff {g g' : Process} {data : Payload} {obs : List Obs}
    (hs : g.payloadStep t (.payload data) = some (g', obs)) :
    PayloadHandled t g data g' obs ↔ Harmless t data := by
  simp only [Process.payloadStep] at hs
  split at hs
  · rename_i hlistening
    constructor
    · intro h
      obtain ⟨event?, hparse⟩ := h.parsed
      refine harmless_iff.mpr ⟨event?, hparse, ?_⟩
      rintro event rfl
      exact (g.fanoutParsed_isOk event).mp ⟨_, h.fanned event hparse⟩
    · intro h
      obtain ⟨event?, hparse, hhash⟩ := harmless_iff.mp h
      cases event? with
      | none =>
          simp only [Process.receive, hparse] at hs
          obtain ⟨rfl, rfl⟩ := Machine.outcome hs
          exact ⟨⟨_, hparse⟩, fun _ => ⟨rfl, rfl⟩, by simp [hparse], hlistening, rfl⟩
      | some event =>
          obtain ⟨⟨g₁, o⟩, hout⟩ := (g.fanoutParsed_isOk event).mpr (hhash event rfl)
          simp only [Process.receive, hparse, hout] at hs
          obtain ⟨rfl, rfl⟩ := Machine.outcome hs
          obtain ⟨hfanout, hchannels⟩ := Process.fanoutParsed_frame hout
          refine ⟨⟨_, hparse⟩, by simp [hparse], ?_, hfanout.trans hlistening, hchannels⟩
          intro event' hparse'
          obtain rfl := Option.some.inj (Except.ok.inj (hparse.symm.trans hparse'))
          exact hout
  · cases hs

/-- A payload that does harm ends the connection. -/
theorem broken_of_not_harmless {g : Process} {data : Payload} (hg : g.fanout = .listening)
    (h : ¬ Harmless t data) :
    g.payloadStep t (.payload data) = some ({ g with fanout := .retrying }, []) := by
  have hbroken : g.step (.fanout .broken) = some ({ g with fanout := .retrying }, []) := by
    simp only [Process.step, hg, Channels.fanoutStep]
  simp only [Process.payloadStep, if_pos hg]
  cases hr : g.receive t data with
  | error e => exact hbroken
  | ok out =>
      refine absurd (harmless_iff.mpr ?_) h
      unfold Process.receive at hr
      split at hr
      · cases hr
      · rename_i hparse
        exact ⟨none, hparse, by simp⟩
      · rename_i event hparse
        refine ⟨_, hparse, fun event' heq => ?_⟩
        obtain rfl := Option.some.inj heq
        exact (g.fanoutParsed_isOk event).mp ⟨out, hr⟩

variable (t)

/-- A message of the run is handled. -/
def PayloadSurvives (g : Process) (a : PayloadAct) : Prop :=
  ∀ data, a = .payload data → ∀ g' obs, g.payloadStep t a = some (g', obs) →
    PayloadHandled t g data g' obs

/-- The message that the loop receives does no harm. -/
def ReceivesHarmless (g : Process) (a : PayloadAct) : Prop :=
  ∀ data, a = .payload data → g.fanout = .listening → Harmless t data

theorem payloadSurvives_iff (g : Process) (a : PayloadAct) :
    PayloadSurvives t g a ↔ ReceivesHarmless t g a := by
  constructor
  · rintro h data rfl hg
    refine Classical.byContradiction fun hharm => hharm ?_
    have hs := broken_of_not_harmless hg hharm
    exact (payloadHandled_iff hs).mp (h data rfl _ _ hs)
  · rintro h data rfl g' obs hs
    refine (payloadHandled_iff hs).mpr (h data rfl ?_)
    simp only [Process.payloadStep] at hs
    split at hs
    · assumption
    · cases hs

/-- **Payloads are skipped or fanned out exactly if none of them does harm.** In every run of the
gateway: each message that the loop receives is parsed without an exception, is skipped or fanned
out as the event it holds, and leaves the loop listening on the same connection, if and only if
all payloads received are UTF-8 and none holds an event under a list or an object. -/
theorem payloads_handled_iff (keyPrefix : String) (acts : List PayloadAct) :
    Machine.Along (Process.payloadStep t) (PayloadSurvives t) (.initial keyPrefix) acts ↔
      Machine.Along (Process.payloadStep t) (ReceivesHarmless t) (.initial keyPrefix) acts := by
  have heq : PayloadSurvives t = ReceivesHarmless t := by
    funext g a
    exact propext (payloadSurvives_iff t g a)
  rw [heq]

end Loop

/-- The loop connects for a session that subscribes. -/
def listeningActs : List PayloadAct :=
  [.other (.connect 0 "c0" .dropOldest .raw), .other (.call 0 (.request (.subscribe "A" .null))),
    .other (.call 0 .go), .other (.fanout .demanded), .other (.fanout .connect),
    .other (.fanout (.subscribed true))]

/-- A byte that no UTF-8 text holds. -/
def badByte : ByteArray := ⟨#[0xFF]⟩

theorem not_isValidUTF8_badByte : ¬ badByte.IsValidUTF8 := by
  intro h
  have hfirst := h.isUTF8FirstByte_getElem_zero (by decide)
  revert hfirst
  decide

/-- **A byte takes down the connection.** It is no text, the parser raises, and the loop goes to
reconnect. -/
theorem bad_byte_breaks :
    (∀ t : JsonText String, parsePubsubPayload t (.bytes badByte) = .error .decode) ∧
    (∀ (t : JsonText String) (g : Process), g.fanout = .listening →
      g.payloadStep t (.payload (.bytes badByte)) = some ({ g with fanout := .retrying }, [])) ∧
    ∀ t : JsonText String, ¬ Machine.Along (Process.payloadStep t) (PayloadSurvives t)
      (.initial "") (listeningActs ++ [.payload (.bytes badByte)]) := by
  have hharm : ∀ t : JsonText String, ¬ Harmless t (.bytes badByte) := by
    rintro t ⟨hvalid, -⟩
    exact not_isValidUTF8_badByte hvalid
  refine ⟨fun t => ?_, fun t g hg => broken_of_not_harmless hg (hharm t), fun t halong => ?_⟩
  · simp only [parsePubsubPayload, String.fromUTF8?, dif_neg not_isValidUTF8_badByte]
  · have hrun : ∃ g, Machine.run (Process.payloadStep t) (.initial "") listeningActs =
        some (g, []) ∧ g.fanout = .listening := ⟨_, rfl, rfl⟩
    obtain ⟨g, hr, hg⟩ := hrun
    have hsurvives := ((Machine.along_append hr).mp halong).2.1
    exact hharm t ((payloadSurvives_iff t g _).mp hsurvives _ rfl hg)

end MarketData.Gateway
