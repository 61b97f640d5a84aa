import MarketData.Storage.FirstRecord
import MarketData.Storage.HistoryQuery

/-!
# MarketData.Gateway.History

`get_history` of `src/gateway/gateway.py`, from the query parameters to the response, over the table
that the tick writer has left behind.

**The response is a statement about the Kafka log** (`get_history_contract`). A tick in it is that
of the first valid record of its key in its partition; a valid record below a committed position is
in it, or the response is full with ticks before it; a 404 means that there is no such record. The
handler raises only what the database driver has raised: `_parse_history_params` converts both
timestamps just to see that `fetch_ticks` will be able to.

The result is that of the handler, before it is rendered. What `int()` and `str.upper` do is left
open.
-/

namespace MarketData.Gateway

open Storage

/-- What the handler needs of Python's strings, and how the table spells a symbol. -/
structure HistoryText (σ : Type) where
  /-- `int()`; `none` is the `ValueError`. -/
  toInt : String → Option Int
  /-- `str.upper`. -/
  upper : String → String
  text : String → σ

/-- The query parameters of `/history/symbol`. -/
structure HistoryRequest where
  symbol : String
  fromTs : Option String
  toTs : Option String
  limit : Option String

/-- What the handler returns. -/
inductive HistoryResponse
  | error (status : Nat) (text : String)
  | found (symbol : String) (fromTs toTs : Int) (count : Nat) (ticks : List Tick)
  deriving DecidableEq

section Handler

variable {σ : Type} (x : HistoryText σ) (rnd : ℚ → ℚ)

/-- `_parse_history_params`. -/
def parseHistoryParams (fromTs toTs limit : Option String) :
    Except HistoryResponse (Int × Int × Int) :=
  match fromTs, toTs with
  | some fromTs, some toTs =>
    match x.toInt fromTs, x.toInt toTs, (limit.map x.toInt).getD (some defaultHistoryLimit) with
    | some startTs, some endTs, some rowLimit =>
      if endTs < startTs then .error (.error 400 "from_ts must be <= to_ts")
      else if (msToDatetimeRounded rnd startTs).isNone ||
        (msToDatetimeRounded rnd endTs).isNone then
        .error (.error 400 "from_ts and to_ts must be valid Unix milliseconds")
      else if rowLimit ≤ 0 then .error (.error 400 "limit must be positive")
      else .ok (startTs, endTs, rowLimit)
    | _, _, _ => .error (.error 400 "from_ts, to_ts, and limit must be integers")
  | _, _ => .error (.error 400 "from_ts and to_ts required")

/-- `get_history`, over the table and what the driver raises; an error is an exception that leaves
the handler. -/
def getHistory [DecidableEq σ] (t : MarketTicks σ Timestamp) (connect query : Option DbException)
    (request : HistoryRequest) : Except FetchError HistoryResponse :=
  let symbol := x.upper request.symbol
  match parseHistoryParams x rnd request.fromTs request.toTs request.limit with
  | .error response => .ok response
  | .ok (startTs, endTs, rowLimit) =>
    match fetchTicks rnd t connect query (x.text symbol) startTs endTs rowLimit with
    | .error (.raised exc) =>
      if exc.timeout then .ok (.error 504 "history query timed out") else .error (.raised exc)
    | .error .unavailable => .ok (.error 503 "history database unavailable")
    | .error .badTimestamp => .error .badTimestamp
    | .ok [] => .ok (.error 404 ("No history for " ++ symbol))
    | .ok (tick :: ticks) =>
      .ok (.found symbol startTs endTs (tick :: ticks).length (tick :: ticks))

/-- Parameters the handler goes on with. -/
structure Accepted (request : HistoryRequest) (startTs endTs rowLimit : Int) : Prop where
  fromTs : request.fromTs.bind x.toInt = some startTs
  toTs : request.toTs.bind x.toInt = some endTs
  limit : (request.limit.map x.toInt).getD (some defaultHistoryLimit) = some rowLimit
  ordered : startTs ≤ endTs
  fromTime : (msToDatetimeRounded rnd startTs).isSome
  toTime : (msToDatetimeRounded rnd endTs).isSome
  positive : 0 < rowLimit

variable {x rnd}

/-- A rejection is a 400. -/
theorem parseHistoryParams_error {fromTs toTs limit : Option String} {response : HistoryResponse}
    (h : parseHistoryParams x rnd fromTs toTs limit = .error response) :
    ∃ text, response = .error 400 text := by
  have hout : ∀ {text}, (Except.error (HistoryResponse.error 400 text) :
      Except HistoryResponse (Int × Int × Int)) = .error response →
      ∃ text, response = .error 400 text :=
    fun heq => ⟨_, (Except.error.inj heq).symm⟩
  unfold parseHistoryParams at h
  split at h
  · split at h
    · split at h
      · exact hout h
      · split at h
        · exact hout h
        · split at h
          · exact hout h
          · cases h
    · exact hout h
  · exact hout h

theorem parseHistoryParams_ok {request : HistoryRequest} {startTs endTs rowLimit : Int}
    (h : parseHistoryParams x rnd request.fromTs request.toTs request.limit =
      .ok (startTs, endTs, rowLimit)) : Accepted x rnd request startTs endTs rowLimit := by
  unfold parseHistoryParams at h
  split at h
  · rename_i fromTs toTs hfrom hto
    split at h
    · rename_i startTs' endTs' rowLimit' hstart hend hlimit
      split at h
      · cases h
      · rename_i hordered
        split at h
        · cases h
        · rename_i htimes
          split at h
          · cases h
          · rename_i hpos
            obtain ⟨rfl, heq⟩ := Prod.mk.inj (Except.ok.inj h)
            obtain ⟨rfl, rfl⟩ := Prod.mk.inj heq
            simp only [Bool.or_eq_true, Option.isNone_iff_eq_none, not_or] at htimes
            refine ⟨by rw [hfrom]; exact hstart, by rw [hto]; exact hend,
              hlimit, not_lt.mp hordered,
              Option.isSome_iff_ne_none.mpr htimes.1, Option.isSome_iff_ne_none.mpr htimes.2,
              not_le.mp hpos⟩
    · cases h
  · cases h

/-- What the handler can come to. -/
inductive Handled [DecidableEq σ] (x : HistoryText σ) (rnd : ℚ → ℚ) (t : MarketTicks σ Timestamp)
    (connect query : Option DbException) (request : HistoryRequest) :
    Except FetchError HistoryResponse → Prop
  | rejected (text : String) : Handled x rnd t connect query request (.ok (.error 400 text))
  | timedOut : Handled x rnd t connect query request (.ok (.error 504 "history query timed out"))
  | unavailable :
      Handled x rnd t connect query request (.ok (.error 503 "history database unavailable"))
  | raised {exc} (he : connect = some exc ∨ query = some exc) (ht : exc.timeout = false)
      (hu : isUnavailableError exc = false) :
      Handled x rnd t connect query request (.error (.raised exc))
  | missing {startTs endTs rowLimit} (ha : Accepted x rnd request startTs endTs rowLimit)
      (hf : fetchTicks rnd t connect query (x.text (x.upper request.symbol)) startTs endTs
        rowLimit = .ok []) :
      Handled x rnd t connect query request
        (.ok (.error 404 ("No history for " ++ x.upper request.symbol)))
  | found {startTs endTs rowLimit ticks} (ha : Accepted x rnd request startTs endTs rowLimit)
      (hne : ticks ≠ [])
      (hf : fetchTicks rnd t connect query (x.text (x.upper request.symbol)) startTs endTs
        rowLimit = .ok ticks) :
      Handled x rnd t connect query request
        (.ok (.found (x.upper request.symbol) startTs endTs ticks.length ticks))

/-- What `fetch_ticks` raises for timestamps it can convert comes from the driver. -/
theorem fetchTicks_error [DecidableEq σ] {t : MarketTicks σ Timestamp}
    {connect query : Option DbException} {symbol : σ} {startTs endTs limit : Int} {e : FetchError}
    (hstart : (msToDatetimeRounded rnd startTs).isSome)
    (hend : (msToDatetimeRounded rnd endTs).isSome)
    (hf : fetchTicks rnd t connect query symbol startTs endTs limit = .error e) :
    ∃ exc, (connect = some exc ∨ query = some exc) ∧ e = .ofDb exc := by
  obtain ⟨fromTime, hfrom⟩ := Option.isSome_iff_exists.mp hstart
  obtain ⟨toTime, hto⟩ := Option.isSome_iff_exists.mp hend
  unfold fetchTicks at hf
  split at hf
  · exact ⟨_, Or.inl rfl, (Except.error.inj hf).symm⟩
  · rw [hfrom, hto] at hf
    dsimp only at hf
    split at hf
    · exact ⟨_, Or.inr rfl, (Except.error.inj hf).symm⟩
    · cases hf

/-- **Inversion** of the handler. -/
theorem getHistory_handled [DecidableEq σ] (t : MarketTicks σ Timestamp)
    (connect query : Option DbException) (request : HistoryRequest) :
    Handled x rnd t connect query request (getHistory x rnd t connect query request) := by
  unfold getHistory
  cases hp : parseHistoryParams x rnd request.fromTs request.toTs request.limit with
  | error response =>
      obtain ⟨text, rfl⟩ := parseHistoryParams_error hp
      exact .rejected text
  | ok params =>
      obtain ⟨startTs, endTs, rowLimit⟩ := params
      have ha := parseHistoryParams_ok hp
      dsimp only
      cases hf : fetchTicks rnd t connect query (x.text (x.upper request.symbol)) startTs endTs
        rowLimit with
      | error e =>
          obtain ⟨exc, hexc, rfl⟩ := fetchTicks_error ha.fromTime ha.toTime hf
          cases hu : isUnavailableError exc with
          | true =>
              rw [FetchError.ofDb, if_pos hu]
              exact .unavailable
          | false =>
              rw [FetchError.ofDb, if_neg (by simp [hu])]
              dsimp only
              cases ht : exc.timeout with
              | true => exact .timedOut
              | false => exact .raised hexc ht hu
      | ok ticks =>
          cases ticks with
          | nil => exact .missing ha hf
          | cons tick ticks => exact .found ha (List.cons_ne_nil _ _) hf

end Handler

/-! ### The response and the log -/

section Contract

variable {ρ σ : Type} (rnd : ℚ → ℚ) (log : PartitionKey → Nat → Option ρ)
  (parseEvent : ρ → Option (MarketEventOf σ))

/-- The event of the first valid record of its key in its partition. -/
def FirstOfLog (e : MarketEventOf σ) : Prop :=
  ∃ key n, Valid log parseEvent key n e ∧
    ∀ m < n, ∀ e', Valid log parseEvent key m e' → tickKey e' ≠ tickKey e

/-- The event of a record that the writer has committed. -/
def CommittedIn (s : TickStorage ρ σ Timestamp) (e : MarketEventOf σ) : Prop :=
  ∃ key p n, s.committed.get? key = some p ∧ n < p ∧ Valid log parseEvent key n e

/-- What a list of ticks says about the log. -/
structure Faithful (s : TickStorage ρ σ Timestamp) (symbol : σ) (startTs endTs : Int) (limit : Nat)
    (ticks : List Tick) : Prop where
  sound : ∀ x ∈ ticks, ∃ e, FirstOfLog log parseEvent e ∧ e.symbol = symbol ∧
    startTs ≤ e.eventTs ∧ e.eventTs ≤ endTs ∧ Tick.ofEvent e = x
  ordered : ticks.Pairwise (fun x y => x.position < y.position)
  bounded : ticks.length ≤ limit
  complete : ∀ e, CommittedIn log parseEvent s e → e.symbol = symbol → startTs ≤ e.eventTs →
    e.eventTs ≤ endTs → (∃ x ∈ ticks, x.position = (Tick.ofEvent e).position) ∨
      ticks.length = limit ∧ ∀ x ∈ ticks, x.position < (Tick.ofEvent e).position

/-- **What a client of `/history` can rely on.** -/
structure HistoryContract [DecidableEq σ] (x : HistoryText σ) (s : TickStorage ρ σ Timestamp)
    (connect query : Option DbException) (request : HistoryRequest) : Prop where
  found : ∀ symbol startTs endTs count ticks,
    getHistory x rnd s.table connect query request = .ok (.found symbol startTs endTs count ticks) →
    symbol = x.upper request.symbol ∧ count = ticks.length ∧ 0 < count ∧
    ∃ rowLimit, Accepted x rnd request startTs endTs rowLimit ∧
      Faithful log parseEvent s (x.text symbol) startTs endTs (historyLimit rowLimit) ticks
  missing : ∀ text, getHistory x rnd s.table connect query request = .ok (.error 404 text) →
    ∃ startTs endTs rowLimit, Accepted x rnd request startTs endTs rowLimit ∧
      ∀ e, CommittedIn log parseEvent s e → e.symbol = x.text (x.upper request.symbol) →
        e.eventTs < startTs ∨ endTs < e.eventTs
  raised : ∀ e, getHistory x rnd s.table connect query request = .error e →
    ∃ exc, e = .raised exc ∧ (connect = some exc ∨ query = some exc) ∧ exc.timeout = false ∧
      isUnavailableError exc = false

variable {rnd log parseEvent}

theorem position_ofEvent (e : MarketEventOf σ) :
    (Tick.ofEvent e).position = toLex (e.eventTs, e.seq) := rfl

/-- The limit in force is positive. -/
theorem historyLimit_pos (limit : Int) : 0 < historyLimit limit := by
  rw [historyLimit]
  omega

/-- **A page of what is stored is faithful to the log.** -/
theorem Faithful.of_isPage [DecidableEq ρ] [DecidableEq σ] (h : Rounds 53 rnd)
    {s : TickStorage ρ σ Timestamp} (hI : Led log parseEvent (msToDatetimeRounded rnd) s)
    {symbol : σ} {startTs endTs : Int} {limit : Nat} {ticks : List Tick}
    (hpage : IsPage (storedTicks rnd s.table symbol startTs endTs) Tick.position limit ticks) :
    Faithful log parseEvent s symbol startTs endTs limit ticks where
  sound x hx := by
    obtain ⟨r, hr, e, hrow, hsymbol, hstart, hend, rfl⟩ := hpage.sound x hx
    obtain ⟨key, n, ⟨e', hvalid, hrow'⟩, hfirst⟩ := hI.rows r hr
    -- the row has the event of the leading record
    have hkey := (row_key_eq_iff h hrow' hrow).mp rfl
    have hsymbol' : e'.symbol = e.symbol := congrArg Prod.fst hkey
    have hts : e'.eventTs = e.eventTs := congrArg (fun key => key.2.2) hkey
    refine ⟨e', ⟨key, n, hvalid, fun m hm e'' he'' heq => ?_⟩, hsymbol'.trans hsymbol, hts ▸ hstart,
      hts ▸ hend, (tick_of_row h hrow').symm.trans (tick_of_row h hrow)⟩
    have hts'' : e''.eventTs = e'.eventTs := congrArg (fun key => key.2.2) heq
    obtain ⟨r'', hr''⟩ : ∃ r'', eventToRow (msToDatetimeRounded rnd) e'' = some r'' := by
      rw [eventToRow, hts'', eventTime_of_eventToRow hrow']
      exact ⟨_, rfl⟩
    exact hfirst m hm r'' ⟨e'', he'', hr''⟩ ((row_key_eq_iff h hr'' hrow').mpr heq)
  ordered := hpage.ascending
  bounded := hpage.length_le
  complete e he hsymbol hstart hend := by
    obtain ⟨key, p, n, hp, hn, hvalid⟩ := he
    obtain ⟨r, hrow, hmem⟩ := hI.safe.committed key p hp n hn e hvalid
    obtain ⟨r', hr', hkey⟩ := List.mem_map.mp hmem
    obtain ⟨-, -, ⟨e', -, hrow'⟩, -⟩ := hI.rows r' hr'
    have hkey' := (row_key_eq_iff h hrow' hrow).mp hkey
    have hsymbol' : e'.symbol = e.symbol := congrArg Prod.fst hkey'
    have hseq : e'.seq = e.seq := congrArg (fun key => key.2.1) hkey'
    have hts : e'.eventTs = e.eventTs := congrArg (fun key => key.2.2) hkey'
    have hpos : (Tick.ofEvent e').position = (Tick.ofEvent e).position := by
      rw [position_ofEvent, position_ofEvent, hts, hseq]
    have hstored : Tick.ofEvent e' ∈ storedTicks rnd s.table symbol startTs endTs :=
      ⟨r', hr', e', hrow', hsymbol'.trans hsymbol, hts ▸ hstart, hts ▸ hend, rfl⟩
    rcases hpage.complete _ hstored with hmem | ⟨hfull, hbefore⟩
    · exact Or.inl ⟨_, hmem, hpos⟩
    · exact Or.inr ⟨hfull, fun x hx => hpos ▸ hbefore x hx⟩

/-- **The history endpoint is faithful to the Kafka log.** After any run over any number of lives of
the tick writer, whatever the request and whatever the database driver raises. -/
theorem get_history_contract [DecidableEq ρ] [DecidableEq σ] (h : Rounds 53 rnd)
    {acts : List (WriterAct ρ)} {s : TickStorage ρ σ Timestamp} {obs : List (WriterObs ρ σ)}
    (hr : Machine.run (TickStorage.step log parseEvent (msToDatetimeRounded rnd)) {} acts =
      some (s, obs))
    (x : HistoryText σ) (connect query : Option DbException) (request : HistoryRequest) :
    HistoryContract rnd log parseEvent x s connect query request := by
  have hI := Led.run hr
  have hrows : ∀ r ∈ s.table.rows, ∃ e, eventToRow (msToDatetimeRounded rnd) e = some r := by
    intro r hr
    obtain ⟨-, -, ⟨e, -, hrow⟩, -⟩ := hI.rows r hr
    exact ⟨e, hrow⟩
  have hfaithful : ∀ {symbol startTs endTs rowLimit ticks},
      fetchTicks rnd s.table connect query symbol startTs endTs rowLimit = .ok ticks →
      Faithful log parseEvent s symbol startTs endTs (historyLimit rowLimit) ticks := by
    intro symbol startTs endTs rowLimit ticks hf
    obtain ⟨fromTime, toTime, hfrom, hto, rfl⟩ := fetchTicks_eq_ok hf
    exact .of_isPage h hI (selectTicks_isPage h hrows hfrom hto symbol _)
  have hhandled : Handled x rnd s.table connect query request
      (getHistory x rnd s.table connect query request) := getHistory_handled ..
  refine ⟨fun symbol startTs endTs count ticks heq => ?_, fun text heq => ?_, fun e heq => ?_⟩
  · rw [heq] at hhandled
    cases hhandled with
    | found ha hne hf => exact ⟨rfl, rfl, List.length_pos_iff.mpr hne, _, ha, hfaithful hf⟩
  · rw [heq] at hhandled
    cases hhandled with
    | missing ha hf =>
        refine ⟨_, _, _, ha, fun e he hsymbol => ?_⟩
        by_contra hin
        obtain ⟨hstart, hend⟩ := not_or.mp hin
        rcases (hfaithful hf).complete e he hsymbol (not_lt.mp hstart) (not_lt.mp hend) with
          ⟨tick, hmem, -⟩ | ⟨hfull, -⟩
        · cases hmem
        · exact absurd hfull (historyLimit_pos _).ne
  · rw [heq] at hhandled
    cases hhandled with
    | raised he ht hu => exact ⟨_, rfl, he, ht, hu⟩

end Contract

/-- Two contradicting quotes, and one of another time. -/
def historyTopic (key : PartitionKey) (n : Nat) : Option (Option MarketEvent) :=
  if key = ("market-events", 0) then
    [some (quoteAt "A" 7 2000), some { quoteAt "A" 7 2000 with bid := .finite 99 },
      some (quoteAt "A" 8 1000)][n]?
  else none

/-- The writer inserts all three quotes in one batch, and commits them. -/
def storeActs : List (WriterAct (Option MarketEvent)) :=
  [.start 3 100, .schema true, .check,
    .poll (.message ⟨"market-events", 0, 0, some (quoteAt "A" 7 2000)⟩) 0 0, .check,
    .poll (.message ⟨"market-events", 0, 1,
      some { quoteAt "A" 7 2000 with bid := .finite 99 }⟩) 0 0,
    .check, .poll (.message ⟨"market-events", 0, 2, some (quoteAt "A" 8 1000)⟩) 0 0,
    .checkFlush, .inserted, .committed]

/-- Python's strings, as far as the request needs them. -/
def plainText : HistoryText PyStr where
  toInt text := if text = "1000" then some 1000 else if text = "3000" then some 3000 else none
  upper text := if text = "a" then "A" else text
  text text := text

def historyRequest : HistoryRequest := ⟨"a", some "1000", some "3000", none⟩

theorem get_history_contract_two :
    ∃ s obs, Machine.run (TickStorage.step historyTopic id (msToDatetimeRounded id)) {} storeActs =
        some (s, obs) ∧
      getHistory plainText id s.table none none historyRequest =
        .ok (.found "A" 1000 3000 2 [.ofEvent (quoteAt "A" 8 1000),
          .ofEvent (quoteAt "A" 7 2000)]) ∧
      HistoryContract id historyTopic id plainText s none none historyRequest := by
  have hrun : (Machine.run (TickStorage.step historyTopic id (msToDatetimeRounded id)) {}
      storeActs).map (fun r => getHistory plainText id r.1.table none none historyRequest) =
        some (.ok (.found "A" 1000 3000 2
          [.ofEvent (quoteAt "A" 8 1000), .ofEvent (quoteAt "A" 7 2000)])) := by
    rw [msToDatetimeRounded_id]
    decide +kernel
  obtain ⟨⟨s, obs⟩, hr, hfound⟩ := Option.map_eq_some_iff.mp hrun
  exact ⟨s, obs, hr, hfound,
    get_history_contract (rounds_id 53) hr plainText none none historyRequest⟩

end MarketData.Gateway
