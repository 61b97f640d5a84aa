import Mathlib.Data.Rat.Encodable
import MarketData.Engine.Store
import MarketData.Lib.Decimal

/-!
# MarketData.Engine.SnapshotStore

**Snapshots as they lie in Redis.** `SnapshotStore.update` writes six fields of text into the hash
under `{prefix}snapshot:{symbol}`, and `get` decodes them. Any number of stores share one Redis,
each under the prefix that its namespace gives it.

Elsewhere the store is a dictionary of snapshots. Here each prefix gets such a dictionary
(`Represents`), and an update through one store leaves the dictionaries of the others alone: the
symbol is what follows the last colon of a key, so two keys are equal only for the same prefix and
symbol (`snapshotKey_inj`).
-/

namespace MarketData.Redis

-- equality of bytes is core's, whatever else declares one
local instance decidableEqBytes : DecidableEq ByteArray := ByteArray.instDecidableEq

/-- One Redis, with the hashes under its keys. -/
abbrev Database := Dict ByteArray (Dict ByteArray ByteArray)

/-- Text as it is sent. -/
def encode (text : String) : ByteArray := text.toUTF8

/-- `HSET`, with the text of keys, fields and values encoded. -/
def Database.hset (r : Database) (key : String) (mapping : List (String × String)) : Database :=
  r.set (encode key) (mapping.foldl (fun hash p => hash.set (encode p.1) (encode p.2))
    ((r.get? (encode key)).getD .empty))

/-- `HGETALL`. -/
def Database.hgetall (r : Database) (key : String) : Dict ByteArray ByteArray :=
  (r.get? (encode key)).getD .empty

/-- Python's text of floats. -/
structure FloatText where
  /-- `str(x)`. -/
  str : PyFloat → String
  /-- `float(data)` of bytes; `none` is `ValueError`. -/
  float : ByteArray → Option PyFloat
  /-- Finite floats survive. -/
  exact : ∀ x, x.isFinite = true → float (encode (str x)) = some x

/-- `int(data)` of bytes. -/
def int (data : ByteArray) : Option Int := do
  let text ← String.fromUTF8? data
  Decimal.ofText text.toList

/-- A `SnapshotStore`. -/
structure SnapshotStore where
  /-- `self._prefix`. -/
  keyPrefix : String
  deriving DecidableEq

namespace SnapshotStore

/-- `text.strip(":")`. -/
def stripColons (text : String) : String :=
  .ofList ((text.toList.dropWhile (· = ':')).rdropWhile (· = ':'))

/-- `__init__`, with the argument `namespace` and the environment's `MARKET_DATA_NAMESPACE`. -/
def init (ns env : Option String) : SnapshotStore :=
  let ns := ns.getD (env.getD "")
  { keyPrefix := if ns = "" then "" else stripColons ns ++ ":" }

def snapshotKey (s : SnapshotStore) (symbol : String) : String :=
  s.keyPrefix ++ "snapshot:" ++ symbol

variable (t : FloatText)

/-- The `mapping` of an update; `none` is an exception. -/
def mapping (event : MarketEventOf String) : Option (List (String × String)) := do
  let bidSize ← Decimal.text event.bidSize
  let askSize ← Decimal.text event.askSize
  let seq ← Decimal.text event.seq
  let ts ← Decimal.text event.serverTs
  return [("bid", t.str event.bid), ("ask", t.str event.ask), ("bid_size", bidSize),
    ("ask_size", askSize), ("seq", seq), ("ts", ts)]

/-- `update`, a transaction; `none` is an exception, before anything is written. -/
def update (s : SnapshotStore) (r : Database) (event : MarketEventOf String) : Option Database :=
  (mapping t event).map (r.hset (s.snapshotKey event.symbol))

/-- `SnapshotData.from_redis`; `none` is an exception. -/
def fromRedis (symbol : String) (data : Dict ByteArray ByteArray) :
    Option (SnapshotDataOf String) := do
  let bid ← t.float (← data.get? (encode "bid"))
  let ask ← t.float (← data.get? (encode "ask"))
  let bidSize ← int (← data.get? (encode "bid_size"))
  let askSize ← int (← data.get? (encode "ask_size"))
  let seq ← int (← data.get? (encode "seq"))
  let ts ← int (← data.get? (encode "ts"))
  return { symbol, bid, ask, bidSize, askSize, seq, ts }

/-- `get`; the outer `none` is an exception. -/
def get (s : SnapshotStore) (r : Database) (symbol : String) :
    Option (Option (SnapshotDataOf String)) :=
  let data := r.hgetall (s.snapshotKey symbol)
  if data.isEmpty then some none else (fromRedis t symbol data).map some

end SnapshotStore

/-! ### Keys -/

theorem encode_inj {s t : String} : encode s = encode t ↔ s = t := String.toByteArray_inj

/-- A separator that the rest does not hold. -/
theorem append_cons_inj_of_notMem {α : Type} {c : α} {l l' a a' : List α} (h : c ∉ a) (h' : c ∉ a')
    (heq : l ++ c :: a = l' ++ c :: a') : l = l' ∧ a = a' := by
  rcases List.append_eq_append_iff.mp heq with ⟨m, hl, hm⟩ | ⟨m, hl, hm⟩
  · cases m with
    | nil => exact ⟨by simpa using hl.symm, (List.cons.inj hm).2⟩
    | cons x m =>
        obtain ⟨-, rfl⟩ := List.cons.inj hm
        exact absurd (by simp) h
  · cases m with
    | nil => exact ⟨by simpa using hl, (List.cons.inj hm).2.symm⟩
    | cons x m =>
        obtain ⟨-, rfl⟩ := List.cons.inj hm
        exact absurd (by simp) h'

/-- The part of a symbol in a key: there is no colon in it. -/
def Plain (symbol : String) : Prop := ':' ∉ symbol.toList

/-- **Keys are equal only for the same prefix and symbol.** -/
theorem SnapshotStore.snapshotKey_inj {s s' : SnapshotStore} {symbol symbol' : String}
    (h : Plain symbol) (h' : Plain symbol')
    (heq : s.snapshotKey symbol = s'.snapshotKey symbol') :
    s = s' ∧ symbol = symbol' := by
  have hlist := congrArg String.toList heq
  have hkey : ∀ p symbol : String, (p ++ "snapshot:" ++ symbol).toList =
      (p.toList ++ "snapshot".toList) ++ ':' :: symbol.toList := by
    intro p symbol
    simp
  rw [snapshotKey, snapshotKey, hkey, hkey] at hlist
  obtain ⟨hstart, hsymbol⟩ := append_cons_inj_of_notMem h h' hlist
  have hstore : s.keyPrefix = s'.keyPrefix :=
    String.toList_inj.mp (List.append_cancel_right hstart)
  exact ⟨congrArg SnapshotStore.mk hstore, String.toList_inj.mp hsymbol⟩

/-! ### What is written is read back -/

theorem fromUTF8?_encode (text : String) : String.fromUTF8? (encode text) = some text := by
  rw [encode, String.toUTF8_eq_toByteArray, String.fromUTF8?, dif_pos text.isValidUTF8]
  rfl

theorem int_text {n : Int} {text : String} (h : Decimal.text n = some text) :
    int (encode text) = some n := by
  rw [int, fromUTF8?_encode]
  exact Decimal.ofText_text h

theorem hgetall_hset (r : Database) (key key' : String) (mapping : List (String × String)) :
    (r.hset key mapping).hgetall key' =
      if key = key' then
        mapping.foldl (fun hash p => hash.set (encode p.1) (encode p.2)) (r.hgetall key)
      else r.hgetall key' := by
  unfold Database.hset Database.hgetall
  rw [Dict.get?_set]
  by_cases hkey : key = key'
  · rw [if_pos hkey, if_pos (congrArg encode hkey), Option.getD_some]
  · rw [if_neg hkey, if_neg (mt encode_inj.mp hkey)]

section Stores

variable {t : FloatText}

/-- **The fields of an update are decoded to its snapshot**, whatever else the hash holds. -/
theorem fromRedis_mapping {event : MarketEventOf String} {mapping : List (String × String)}
    (hbid : event.bid.isFinite = true) (hask : event.ask.isFinite = true)
    (hm : SnapshotStore.mapping t event = some mapping) (hash : Dict ByteArray ByteArray) :
    SnapshotStore.fromRedis t event.symbol
      (mapping.foldl (fun hash p => hash.set (encode p.1) (encode p.2)) hash) =
        some (.fromEvent event) := by
  obtain ⟨bidSize, hbidSize, hm⟩ := Option.bind_eq_some_iff.mp hm
  obtain ⟨askSize, haskSize, hm⟩ := Option.bind_eq_some_iff.mp hm
  obtain ⟨seq, hseq, hm⟩ := Option.bind_eq_some_iff.mp hm
  obtain ⟨ts, hts, hm⟩ := Option.bind_eq_some_iff.mp hm
  obtain rfl := Option.some.inj hm
  simp only [SnapshotStore.fromRedis, List.foldl_cons, List.foldl_nil, Dict.get?_set, encode_inj]
  simp [t.exact _ hbid, t.exact _ hask, int_text hbidSize, int_text haskSize, int_text hseq,
    int_text hts, SnapshotDataOf.fromEvent]

/-- What can be decoded is no empty hash. -/
theorem isEmpty_of_fromRedis {symbol : String} {data : Dict ByteArray ByteArray}
    {snapshot : SnapshotDataOf String} (h : SnapshotStore.fromRedis t symbol data = some snapshot) :
    data.isEmpty = false := by
  obtain ⟨bid, hbid, -⟩ := Option.bind_eq_some_iff.mp h
  exact Dict.isEmpty_eq_false_iff.mpr ⟨_, bid, hbid⟩

/-! ### A dictionary for each store -/

/-- Through each store, the database reads as this dictionary. -/
def Represents (t : FloatText) (r : Database)
    (d : SnapshotStore → Dict String (SnapshotDataOf String)) : Prop :=
  ∀ s symbol, Plain symbol → s.get t r symbol = some ((d s).get? symbol)

theorem represents_empty : Represents t .empty fun _ => .empty := fun _ _ _ => rfl

/-- **An update is one of its own store's dictionary**, and of no other's. -/
theorem Represents.update {r r' : Database}
    {d : SnapshotStore → Dict String (SnapshotDataOf String)} {s : SnapshotStore}
    {event : MarketEventOf String} (h : Represents t r d) (hplain : Plain event.symbol)
    (hbid : event.bid.isFinite = true) (hask : event.ask.isFinite = true)
    (hu : s.update t r event = some r') :
    Represents t r' (Function.update d s (MarketData.SnapshotStore.update (d s) event)) := by
  intro s' symbol hsymbol
  obtain ⟨mapping, hm, rfl⟩ := Option.map_eq_some_iff.mp hu
  unfold SnapshotStore.get
  simp only [hgetall_hset]
  by_cases hkey : s.snapshotKey event.symbol = s'.snapshotKey symbol
  · obtain ⟨rfl, rfl⟩ := SnapshotStore.snapshotKey_inj hplain hsymbol hkey
    have hread := fromRedis_mapping hbid hask hm (r.hgetall (s.snapshotKey event.symbol))
    rw [if_pos rfl, isEmpty_of_fromRedis hread, hread, Function.update_self,
      MarketData.SnapshotStore.get?_update, if_pos rfl]
    rfl
  · rw [if_neg hkey]
    refine (h s' symbol hsymbol).trans (congrArg some ?_)
    by_cases hs : s' = s
    · subst hs
      rw [Function.update_self, MarketData.SnapshotStore.get?_update, if_neg]
      rintro rfl
      exact hkey rfl
    · rw [Function.update_of_ne hs]

/-! ### Every sequence of updates -/

/-- A call of `update`. -/
structure Update where
  store : SnapshotStore
  event : MarketEventOf String

/-- The call returns. -/
def Update.Returns (t : FloatText) (u : Update) : Prop :=
  (SnapshotStore.mapping t u.event).isSome

instance (u : Update) : Decidable (u.Returns t) := inferInstanceAs (Decidable (_ = true))

/-- The database after a call, which leaves it as it is when it raises. -/
def Update.run (t : FloatText) (r : Database) (u : Update) : Database :=
  (u.store.update t r u.event).getD r

/-- The database after the calls. -/
def Update.runAll (t : FloatText) (us : List Update) : Database := us.foldl (Update.run t) .empty

/-- The last event of the symbol that was updated through the store. -/
def lastUpdate (t : FloatText) (s : SnapshotStore) (symbol : String) (us : List Update) :
    Option (MarketEventOf String) :=
  us.foldl (fun last u =>
    if u.store = s ∧ u.event.symbol = symbol ∧ u.Returns t then some u.event else last) none

/-- The store's dictionary after the calls. -/
def snapshotsOf (t : FloatText) (s : SnapshotStore) (us : List Update) :
    Dict String (SnapshotDataOf String) :=
  us.foldl (fun d u =>
    if u.store = s ∧ u.Returns t then MarketData.SnapshotStore.update d u.event else d) .empty

theorem get?_snapshotsOf (s : SnapshotStore) (symbol : String) (us : List Update) :
    (snapshotsOf t s us).get? symbol = (lastUpdate t s symbol us).map .fromEvent := by
  induction us using List.reverseRecOn with
  | nil => rfl
  | append_singleton us u ih =>
      simp only [snapshotsOf, lastUpdate, List.foldl_append, List.foldl_cons,
        List.foldl_nil] at ih ⊢
      by_cases hu : u.store = s ∧ u.Returns t
      · rw [if_pos hu, MarketData.SnapshotStore.get?_update]
        by_cases hsymbol : u.event.symbol = symbol
        · rw [if_pos hsymbol, if_pos ⟨hu.1, hsymbol, hu.2⟩, Option.map_some]
        · rw [if_neg hsymbol, if_neg fun h => hsymbol h.2.1]
          exact ih
      · rw [if_neg hu, if_neg fun h => hu ⟨h.1, h.2.2⟩]
        exact ih

theorem represents_runAll {us : List Update} (hplain : ∀ u ∈ us, Plain u.event.symbol)
    (hbid : ∀ u ∈ us, u.event.bid.isFinite = true)
    (hask : ∀ u ∈ us, u.event.ask.isFinite = true) :
    Represents t (Update.runAll t us) fun s => snapshotsOf t s us := by
  induction us using List.reverseRecOn with
  | nil => exact represents_empty
  | append_singleton us u ih =>
      have hlast : u ∈ us ++ [u] := by simp
      have ih' := ih (fun v hv => hplain v (List.mem_append_left _ hv))
        (fun v hv => hbid v (List.mem_append_left _ hv))
        (fun v hv => hask v (List.mem_append_left _ hv))
      simp only [Update.runAll, snapshotsOf, List.foldl_append, List.foldl_cons,
        List.foldl_nil] at ih' ⊢
      cases hu : u.store.update t (us.foldl (Update.run t) .empty) u.event with
      | none =>
          have hnot : ¬ u.Returns t := by
            rw [Update.Returns, Option.map_eq_none_iff.mp hu]
            exact Bool.false_ne_true
          simp only [Update.run, hu, Option.getD_none, hnot, and_false, if_false]
          exact ih'
      | some r =>
          have hreturns : u.Returns t := by
            obtain ⟨mapping, hm, -⟩ := Option.map_eq_some_iff.mp hu
            rw [Update.Returns, hm]
            rfl
          have hstep := ih'.update (hplain u hlast) (hbid u hlast) (hask u hlast) hu
          simp only [Update.run, hu, Option.getD_some, hreturns, and_true]
          intro s symbol hsymbol
          refine (hstep s symbol hsymbol).trans (congrArg
            (fun d : Dict String (SnapshotDataOf String) => some (d.get? symbol)) ?_)
          by_cases hs : u.store = s
          · subst hs
            exact (Function.update_self ..).trans (if_pos rfl).symm
          · exact (Function.update_of_ne (Ne.symm hs) ..).trans (if_neg hs).symm

/-- **A store reads back the last write of its own prefix.** After any sequence of updates through
any stores, of symbols without a colon and with finite prices: `get` of a symbol through a store
returns the snapshot of the last event of that symbol updated through a store with the same prefix,
and `None` if there is none. -/
theorem get_last_update (t : FloatText) {us : List Update}
    (hplain : ∀ u ∈ us, Plain u.event.symbol) (hbid : ∀ u ∈ us, u.event.bid.isFinite = true)
    (hask : ∀ u ∈ us, u.event.ask.isFinite = true) (s : SnapshotStore) {symbol : String}
    (hsymbol : Plain symbol) :
    s.get t (Update.runAll t us) symbol = some ((lastUpdate t s symbol us).map .fromEvent) := by
  rw [represents_runAll hplain hbid hask s symbol hsymbol, get?_snapshotsOf]

end Stores

/-! ### Namespaces -/

/-- **Two namespaces have the same prefix** exactly if they are equal up to the colons around them,
and both or neither are empty. -/
theorem init_eq_iff (ns ns' : String) :
    SnapshotStore.init (some ns) none = SnapshotStore.init (some ns') none ↔
      SnapshotStore.stripColons ns = SnapshotStore.stripColons ns' ∧ (ns = "" ↔ ns' = "") := by
  have hne : ∀ text : String, "" ≠ text ++ ":" := by
    intro text heq
    have hlist := congrArg String.toList heq
    simp at hlist
  simp only [SnapshotStore.init, Option.getD_some, SnapshotStore.mk.injEq]
  by_cases h : ns = ""
  · by_cases h' : ns' = ""
    · simp [h, h']
    · rw [if_pos h, if_neg h']
      exact iff_of_false (hne _) fun hiff => h' (hiff.2.mp h)
  · by_cases h' : ns' = ""
    · rw [if_neg h, if_pos h']
      exact iff_of_false (hne _).symm fun hiff => h (hiff.2.mpr h')
    · rw [if_neg h, if_neg h']
      constructor
      · intro heq
        have hlist := congrArg String.toList heq
        rw [String.toList_append, String.toList_append] at hlist
        exact ⟨String.toList_inj.mp (List.append_cancel_right hlist), iff_of_false h h'⟩
      · intro heq
        rw [heq.1]

/-- The prices 100 and 101 as Python writes them, every other by its number. -/
def FloatText.numbered : FloatText where
  str
    | .finite q =>
      if q = 100 then "100.0" else if q = 101 then "101.0" else "#" ++ (Encodable.encode q).repr
    | _ => "nan"
  float data :=
    (String.fromUTF8? data).bind fun text =>
      if text = "100.0" then some (.finite 100)
      else if text = "101.0" then some (.finite 101)
      else (Encodable.decode (Nat.ofDigitChars 10 text.toList.tail 0)).map .finite
  exact x hx := by
    cases x with
    | inf | nan => cases hx
    | finite q =>
        rw [fromUTF8?_encode, Option.bind_some]
        by_cases h100 : q = 100
        · simp [h100]
        · by_cases h101 : q = 101
          · simp [h101]
          · have hne : ∀ digits text : String, text.toList.head? ≠ some '#' →
                "#" ++ digits ≠ text := by
              rintro digits text hhead rfl
              simp at hhead
            simp only [if_neg h100, if_neg h101]
            rw [if_neg (hne _ _ (by decide)), if_neg (hne _ _ (by decide))]
            simp [Nat.toList_repr]

/-- A quote as it is stored. -/
def storedQuote (symbol : String) (seq : Int) : MarketEventOf String :=
  { MarketEventOf.quote symbol seq with symbol := symbol }

/-- Quotes of two symbols, through two stores, and a later one of the first. -/
def quoteUpdates : List Update :=
  [⟨.init (some ":a:") none, storedQuote "A" 5⟩, ⟨.init (some "b") none, storedQuote "A" 6⟩,
    ⟨.init none (some "a"), storedQuote "B" 7⟩, ⟨.init (some "a") none, storedQuote "A" 8⟩]

theorem get_last_update_quote :
    (SnapshotStore.init (some "a:") none).get .numbered (Update.runAll .numbered quoteUpdates) "A" =
      some (some (.fromEvent (storedQuote "A" 8))) := by
  have hplain : ∀ u ∈ quoteUpdates, Plain u.event.symbol := by
    simp [quoteUpdates, Plain, storedQuote]
  have hbid : ∀ u ∈ quoteUpdates, u.event.bid.isFinite = true := by
    simp [quoteUpdates, storedQuote, MarketEventOf.quote, PyFloat.isFinite]
  have hask : ∀ u ∈ quoteUpdates, u.event.ask.isFinite = true := by
    simp [quoteUpdates, storedQuote, MarketEventOf.quote, PyFloat.isFinite]
  have hlast : lastUpdate .numbered (SnapshotStore.init (some "a:") none) "A" quoteUpdates =
      some (storedQuote "A" 8) := by
    decide
  have hsymbol : Plain "A" := by simp [Plain]
  rw [get_last_update .numbered hplain hbid hask _ hsymbol, hlast, Option.map_some]

end MarketData.Redis
