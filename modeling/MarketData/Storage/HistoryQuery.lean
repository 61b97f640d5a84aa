import Mathlib.Data.Prod.Lex
import MarketData.Lib.Page
import MarketData.Storage.Timestamps

/-!
# MarketData.Storage.HistoryQuery

`HistoryStore.fetch_ticks`: the rows of a symbol between two timestamps, ordered by time and
sequence number, up to a limit.

**What a query answers is a fact about the events, not about the rows**: of the events inserted it
is the first one for every symbol, sequence number and millisecond (`FirstWrite`), within the
boundaries in milliseconds, in the order of their timestamps in milliseconds, cut to the limit
(`fetch_ticks_exact`). Neither the rounding of the timestamps nor the order of the rows shows.
-/

namespace MarketData.Storage

variable {σ : Type} {rnd : ℚ → ℚ}

/-! ### Converted timestamps -/

/-- **A timestamp that is converted is off by 61 microseconds at most**, whatever its size. -/
theorem converted_error (h : Rounds 53 rnd) {tsMs : Int} {time : Timestamp}
    (ht : msToDatetimeRounded rnd tsMs = some time) : |time.micros - tsMs * 1000| ≤ 61 := by
  have hmicros := micros_of_msToDatetimeRounded ht
  have hseconds := h.div_error tsMs (by norm_num : (0 : ℚ) < 1000)
  have hsplit := fromTimestamp_error h (rnd (rnd tsMs / 1000))
  -- the error is relative, and the result is in range
  have htotal : |(time.micros : ℚ) - tsMs * 1000| ≤
      (2 * |(tsMs : ℚ)| + |(tsMs : ℚ)| / 2 ^ 53) / 2 ^ 53 * 1000 + 1 := by
    rw [hmicros, epochMicros]
    rw [abs_le] at hseconds hsplit ⊢
    constructor <;> linarith
  have hrange : |(time.micros : ℚ)| ≤ 253402300800000 * 1000 := by
    have hlower : ((minTimestampMs * 1000 : Int) : ℚ) ≤ time.micros := Int.cast_le.mpr time.lower
    have hupper : (time.micros : ℚ) ≤ (((maxTimestampMs + 1) * 1000 : Int) : ℚ) :=
      Int.cast_le.mpr time.upper.le
    rw [minTimestampMs] at hlower
    rw [maxTimestampMs] at hupper
    rw [abs_le]
    constructor <;> push_cast at hlower hupper <;> linarith
  have hsize : |(tsMs : ℚ)| ≤ 253402300800001 := by
    have hback : |(tsMs : ℚ) * 1000| ≤ |(time.micros : ℚ)| + |(time.micros : ℚ) - tsMs * 1000| := by
      have hdiff : (tsMs : ℚ) * 1000 = time.micros - (time.micros - tsMs * 1000) := by ring
      calc |(tsMs : ℚ) * 1000|
        _ = |(time.micros : ℚ) - (time.micros - tsMs * 1000)| := by rw [← hdiff]
        _ ≤ |(time.micros : ℚ)| + |(time.micros : ℚ) - tsMs * 1000| := abs_sub _ _
    rw [abs_mul, abs_of_pos (by norm_num : (0 : ℚ) < 1000)] at hback
    linarith
  have hfinal : |(time.micros : ℚ) - tsMs * 1000| ≤ 61 := by linarith
  exact_mod_cast hfinal

/-- Converted timestamps are in the order of the milliseconds. -/
theorem converted_lt_iff (h : Rounds 53 rnd) {t u : Int} {time time' : Timestamp}
    (ht : msToDatetimeRounded rnd t = some time) (hu : msToDatetimeRounded rnd u = some time') :
    time.micros < time'.micros ↔ t < u := by
  have herror := abs_le.mp (converted_error h ht)
  have herror' := abs_le.mp (converted_error h hu)
  constructor
  · intro hlt
    by_contra hge
    rcases (not_lt.mp hge).lt_or_eq with hlt' | rfl
    · omega
    · rw [micros_of_msToDatetimeRounded ht, micros_of_msToDatetimeRounded hu] at hlt
      exact lt_irrefl _ hlt
  · intro hlt
    omega

theorem converted_le_iff (h : Rounds 53 rnd) {t u : Int} {time time' : Timestamp}
    (ht : msToDatetimeRounded rnd t = some time) (hu : msToDatetimeRounded rnd u = some time') :
    time.micros ≤ time'.micros ↔ t ≤ u := by
  rw [← not_lt, converted_lt_iff h hu ht, not_lt]

/-- The query gives back the timestamp that was converted. -/
theorem epochMs_of_eventToRow (h : Rounds 53 rnd) {e : MarketEventOf σ} {r : TickRow σ Timestamp}
    (hr : eventToRow (msToDatetimeRounded rnd) e = some r) : r.epochMs = e.eventTs := by
  refine halfAway_eq ?_
  have herror : |(r.eventTime.micros : ℚ) - e.eventTs * 1000| ≤ 61 := by
    exact_mod_cast converted_error h (eventTime_of_eventToRow hr)
  rw [abs_le] at herror
  rw [abs_lt]
  constructor <;> linarith

/-! ### The query -/

/-- A tick of the history. -/
structure Tick where
  seq : Int
  eventTs : Int
  bid : PyFloat
  ask : PyFloat
  bidSize : Int
  askSize : Int
  deriving DecidableEq

/-- `MAX_HISTORY_LIMIT`. -/
def maxHistoryLimit : Int := 10000

/-- `DEFAULT_HISTORY_LIMIT`. -/
def defaultHistoryLimit : Int := 1000

/-- The selected columns of a row. -/
def TickRow.tick (r : TickRow σ Timestamp) : Tick where
  seq := r.seq
  eventTs := r.epochMs
  bid := r.bid
  ask := r.ask
  bidSize := r.bidSize
  askSize := r.askSize

/-- `ORDER BY event_time ASC, seq ASC`. -/
def TickRow.position (r : TickRow σ Timestamp) : Int ×ₗ Int := toLex (r.eventTime.micros, r.seq)

/-- The limit in force. -/
def historyLimit (limit : Int) : Nat := (max 1 (min limit maxHistoryLimit)).toNat

instance (r : TickRow σ Timestamp) (fromTime toTime : Timestamp) :
    Decidable (r.Between fromTime toTime) := by
  unfold TickRow.Between
  infer_instance

/-- The statement of `fetch_ticks`. -/
def MarketTicks.selectTicks [DecidableEq σ] (t : MarketTicks σ Timestamp) (symbol : σ)
    (fromTime toTime : Timestamp) (limit : Nat) : List Tick :=
  (page (fun r => r.symbol = symbol ∧ r.Between fromTime toTime) TickRow.position limit
    t.rows).map TickRow.tick

/-! ### What has been inserted -/

/-- The table after `insert_ticks` of each batch in turn; `none` if one of them cannot be
converted. -/
def insertBatches {τ : Type} [DecidableEq σ] [DecidableEq τ] (msToDatetime : Int → Option τ)
    (t : MarketTicks σ τ) : List (List (MarketEventOf σ)) → Option (MarketTicks σ τ)
  | [] => some t
  | events :: batches => do
    let rows ← events.mapM (eventToRow msToDatetime)
    insertBatches msToDatetime (t.insertTicks rows) batches

/-- What tells the ticks of the history apart. -/
def tickKey (e : MarketEventOf σ) : σ × Int × Int := (e.symbol, e.seq, e.eventTs)

/-- The event is one of `events`, and no earlier one has its key. -/
def FirstWrite (events : List (MarketEventOf σ)) (e : MarketEventOf σ) : Prop :=
  ∃ before after, events = before ++ e :: after ∧ ∀ e' ∈ before, tickKey e' ≠ tickKey e

theorem firstWrite_concat {events : List (MarketEventOf σ)} {e x : MarketEventOf σ} :
    FirstWrite (events ++ [e]) x ↔
      FirstWrite events x ∨ x = e ∧ ∀ e' ∈ events, tickKey e' ≠ tickKey e := by
  constructor
  · rintro ⟨before, after, heq, hnone⟩
    rcases List.eq_nil_or_concat after with rfl | ⟨after, y, rfl⟩
    · obtain ⟨rfl, hlast⟩ := List.append_inj' heq rfl
      obtain rfl := List.singleton_inj.mp hlast
      exact Or.inr ⟨rfl, hnone⟩
    · rw [List.concat_eq_append, ← List.cons_append, ← List.append_assoc] at heq
      obtain ⟨rfl, -⟩ := List.append_inj' heq rfl
      exact Or.inl ⟨before, after, rfl, hnone⟩
  · rintro (⟨before, after, rfl, hnone⟩ | ⟨rfl, hnone⟩)
    · exact ⟨before, after ++ [e], by simp, hnone⟩
    · exact ⟨events, [], rfl, hnone⟩

/-- The rows of a table are those of the first events. -/
structure Represents (rnd : ℚ → ℚ) (events : List (MarketEventOf σ)) (t : MarketTicks σ Timestamp) :
    Prop where
  converted : ∀ e ∈ events, (eventToRow (msToDatetimeRounded rnd) e).isSome
  mem_rows : ∀ r, r ∈ t.rows ↔
    ∃ e, FirstWrite events e ∧ eventToRow (msToDatetimeRounded rnd) e = some r

theorem FirstWrite.mem {events : List (MarketEventOf σ)} {e : MarketEventOf σ}
    (h : FirstWrite events e) : e ∈ events := by
  obtain ⟨before, after, rfl, -⟩ := h
  exact List.mem_append_right _ List.mem_cons_self

/-- Some event has the key, so a first one has. -/
theorem exists_firstWrite {events : List (MarketEventOf σ)}
    {e : MarketEventOf σ} (he : e ∈ events) :
    ∃ x, FirstWrite events x ∧ tickKey x = tickKey e := by
  induction events using List.reverseRecOn generalizing e with
  | nil => cases he
  | append_singleton events y ih =>
      have hold : ∀ e' ∈ events, ∃ x, FirstWrite (events ++ [y]) x ∧ tickKey x = tickKey e' := by
        intro e' he'
        obtain ⟨x, hx, hkey⟩ := ih he'
        exact ⟨x, firstWrite_concat.mpr (Or.inl hx), hkey⟩
      rcases List.mem_append.mp he with he | he
      · exact hold e he
      · obtain rfl := List.mem_singleton.mp he
        by_cases hnone : ∀ e' ∈ events, tickKey e' ≠ tickKey e
        · exact ⟨e, firstWrite_concat.mpr (Or.inr ⟨rfl, hnone⟩), rfl⟩
        · obtain ⟨e', he', hkey⟩ := not_forall₂.mp hnone
          obtain ⟨x, hx, hxkey⟩ := hold e' he'
          exact ⟨x, hx, hxkey.trans (not_not.mp hkey)⟩

section rows

variable {e e' : MarketEventOf σ} {r r' : TickRow σ Timestamp}

theorem row_fields {τ : Type} {msToDatetime : Int → Option τ} {row : TickRow σ τ}
    (hr : eventToRow msToDatetime e = some row) : row.symbol = e.symbol ∧ row.seq = e.seq ∧
      row.bid = e.bid ∧ row.ask = e.ask ∧ row.bidSize = e.bidSize ∧ row.askSize = e.askSize := by
  obtain ⟨time, htime, hrow⟩ := Option.bind_eq_some_iff.mp hr
  obtain rfl := Option.some.inj hrow
  exact ⟨rfl, rfl, rfl, rfl, rfl, rfl⟩

/-- Rows have the same key exactly if their events have. -/
theorem row_key_eq_iff (h : Rounds 53 rnd)
    (hr : eventToRow (msToDatetimeRounded rnd) e = some r)
    (hr' : eventToRow (msToDatetimeRounded rnd) e' = some r') :
    r.key = r'.key ↔ tickKey e = tickKey e' := by
  obtain ⟨hsymbol, hseq, -⟩ := row_fields hr
  obtain ⟨hsymbol', hseq', -⟩ := row_fields hr'
  have htime : r.eventTime = r'.eventTime ↔ e.eventTs = e'.eventTs := by
    have ht := eventTime_of_eventToRow hr
    have ht' := eventTime_of_eventToRow hr'
    constructor
    · intro heq
      rw [← heq] at ht'
      exact le_antisymm ((converted_le_iff h ht ht').mp le_rfl)
        ((converted_le_iff h ht' ht).mp le_rfl)
    · intro heq
      rw [heq] at ht
      exact Option.some.inj (ht.symm.trans ht')
  rw [TickRow.key, TickRow.key, tickKey, tickKey, Prod.mk.injEq, Prod.mk.injEq, Prod.mk.injEq,
    Prod.mk.injEq, hsymbol, hsymbol', hseq, hseq', htime]

/-- The order of the rows is that of their events. -/
theorem row_position_lt_iff (h : Rounds 53 rnd)
    (hr : eventToRow (msToDatetimeRounded rnd) e = some r)
    (hr' : eventToRow (msToDatetimeRounded rnd) e' = some r') :
    r.position < r'.position ↔ toLex (e.eventTs, e.seq) < toLex (e'.eventTs, e'.seq) := by
  have ht := eventTime_of_eventToRow hr
  have ht' := eventTime_of_eventToRow hr'
  obtain ⟨-, hseq, -⟩ := row_fields hr
  obtain ⟨-, hseq', -⟩ := row_fields hr'
  have heq : r.eventTime.micros = r'.eventTime.micros ↔ e.eventTs = e'.eventTs := by
    rw [le_antisymm_iff, le_antisymm_iff, converted_le_iff h ht ht', converted_le_iff h ht' ht]
  rw [TickRow.position, TickRow.position, Prod.Lex.toLex_lt_toLex, Prod.Lex.toLex_lt_toLex]
  simp only [converted_lt_iff h ht ht', heq, hseq, hseq']

end rows

theorem Represents.empty : Represents (σ := σ) rnd [] .empty where
  converted _ he := absurd he List.not_mem_nil
  mem_rows r := by
    refine iff_of_false List.not_mem_nil ?_
    rintro ⟨e, he, -⟩
    exact absurd he.mem List.not_mem_nil

section inserts

variable [DecidableEq σ] {events : List (MarketEventOf σ)} {t : MarketTicks σ Timestamp}

/-- **A row is added exactly if its event is the first of its key.** -/
theorem Represents.insertRow (h : Rounds 53 rnd) (hI : Represents rnd events t)
    {e : MarketEventOf σ} {r : TickRow σ Timestamp}
    (hr : eventToRow (msToDatetimeRounded rnd) e = some r) :
    Represents rnd (events ++ [e]) (t.insertRow r) := by
  have hnew : r.key ∉ t.rows.map TickRow.key ↔ ∀ e' ∈ events, tickKey e' ≠ tickKey e := by
    rw [← not_iff_not, not_not]
    constructor
    · intro hmem hnone
      obtain ⟨r', hr', hkey⟩ := List.mem_map.mp hmem
      obtain ⟨e', he', hrow⟩ := (hI.mem_rows r').mp hr'
      exact hnone e' he'.mem ((row_key_eq_iff h hrow hr).mp hkey)
    · intro hsome
      obtain ⟨e', he', hkey⟩ := not_forall₂.mp hsome
      obtain ⟨x, hx, hxkey⟩ := exists_firstWrite he'
      obtain ⟨rx, hrx⟩ := Option.isSome_iff_exists.mp (hI.converted x hx.mem)
      refine List.mem_map.mpr ⟨rx, (hI.mem_rows rx).mpr ⟨x, hx, hrx⟩, ?_⟩
      exact (row_key_eq_iff h hrx hr).mpr (hxkey.trans (not_not.mp hkey))
  refine ⟨fun x hx => ?_, fun x => ?_⟩
  · rcases List.mem_append.mp hx with hx | hx
    · exact hI.converted x hx
    · rw [List.mem_singleton.mp hx, hr]
      rfl
  rw [MarketTicks.mem_rows_insertRow, hI.mem_rows x, hnew]
  constructor
  · rintro (⟨e', he', hrow⟩ | ⟨rfl, hnone⟩)
    · exact ⟨e', firstWrite_concat.mpr (Or.inl he'), hrow⟩
    · exact ⟨e, firstWrite_concat.mpr (Or.inr ⟨rfl, hnone⟩), hr⟩
  · rintro ⟨e', he', hrow⟩
    rcases firstWrite_concat.mp he' with he' | ⟨rfl, hnone⟩
    · exact Or.inl ⟨e', he', hrow⟩
    · exact Or.inr ⟨Option.some.inj (hrow.symm.trans hr), hnone⟩

/-- One batch. -/
theorem Represents.insertTicks (h : Rounds 53 rnd) {batch : List (MarketEventOf σ)}
    {rows : List (TickRow σ Timestamp)} (hI : Represents rnd events t)
    (hrows : batch.mapM (eventToRow (msToDatetimeRounded rnd)) = some rows) :
    Represents rnd (events ++ batch) (t.insertTicks rows) := by
  induction batch generalizing events t rows with
  | nil =>
      obtain rfl : [] = rows := Option.some.inj hrows
      rw [List.append_nil]
      exact hI
  | cons e batch ih =>
      rw [List.mapM_cons] at hrows
      obtain ⟨r, hr, hrows⟩ := Option.bind_eq_some_iff.mp hrows
      obtain ⟨rest, hrest, hrows⟩ := Option.bind_eq_some_iff.mp hrows
      obtain rfl : r :: rest = rows := Option.some.inj hrows
      rw [List.append_cons]
      have hall := ih (hI.insertRow h hr) hrest
      exact hall

/-- **The table holds the first events of all batches.** -/
theorem represents_insertBatches (h : Rounds 53 rnd) {batches : List (List (MarketEventOf σ))}
    {u : MarketTicks σ Timestamp} (hI : Represents rnd events t)
    (hins : insertBatches (msToDatetimeRounded rnd) t batches = some u) :
    Represents rnd (events ++ batches.flatten) u := by
  induction batches generalizing events t with
  | nil =>
      obtain rfl : t = u := Option.some.inj hins
      rw [List.flatten_nil, List.append_nil]
      exact hI
  | cons batch batches ih =>
      obtain ⟨rows, hrows, hins⟩ := Option.bind_eq_some_iff.mp hins
      rw [List.flatten_cons, ← List.append_assoc]
      exact ih (hI.insertTicks h hrows) hins

end inserts

/-! ### What the query answers -/

/-- The tick of an event. -/
def Tick.ofEvent (e : MarketEventOf σ) : Tick where
  seq := e.seq
  eventTs := e.eventTs
  bid := e.bid
  ask := e.ask
  bidSize := e.bidSize
  askSize := e.askSize

/-- The order of the history. -/
def Tick.position (x : Tick) : Int ×ₗ Int := toLex (x.eventTs, x.seq)

/-- The history of a symbol between two timestamps, both included. -/
def historyOf (events : List (MarketEventOf σ)) (symbol : σ) (fromTs toTs : Int) : Set Tick :=
  {x | ∃ e, FirstWrite events e ∧ e.symbol = symbol ∧ fromTs ≤ e.eventTs ∧ e.eventTs ≤ toTs ∧
    Tick.ofEvent e = x}

theorem Timestamp.eq_of_micros {time time' : Timestamp} (h : time.micros = time'.micros) :
    time = time' := by
  cases time
  cases time'
  cases h
  rfl

theorem tick_of_row (h : Rounds 53 rnd) {e : MarketEventOf σ} {r : TickRow σ Timestamp}
    (hr : eventToRow (msToDatetimeRounded rnd) e = some r) : r.tick = .ofEvent e := by
  obtain ⟨-, hseq, hbid, hask, hbidSize, haskSize⟩ := row_fields hr
  rw [TickRow.tick, Tick.ofEvent, epochMs_of_eventToRow h hr, hseq, hbid, hask, hbidSize, haskSize]

/-- Within one symbol, time and sequence number tell the rows apart. -/
theorem nodup_position [DecidableEq σ] (t : MarketTicks σ Timestamp) (symbol : σ)
    (fromTime toTime : Timestamp) :
    ((t.rows.filter (fun r => decide (r.symbol = symbol ∧ r.Between fromTime toTime))).map
      TickRow.position).Nodup := by
  refine List.Nodup.map_on ?_ (t.unique.of_map.filter _)
  intro r hr r' hr' heq
  obtain ⟨hmem, hsel⟩ := List.mem_filter.mp hr
  obtain ⟨hmem', hsel'⟩ := List.mem_filter.mp hr'
  refine List.inj_on_of_nodup_map t.unique hmem hmem' ?_
  obtain ⟨htime, hseq⟩ := Prod.mk.inj (toLex.injective heq)
  have htime' : r.eventTime = r'.eventTime := Timestamp.eq_of_micros htime
  rw [TickRow.key, TickRow.key, (of_decide_eq_true hsel).1,
    (of_decide_eq_true hsel').1, hseq, htime']

/-- The ticks of a symbol between two timestamps, both included, that have a row. -/
def storedTicks (rnd : ℚ → ℚ) (t : MarketTicks σ Timestamp) (symbol : σ) (fromTs toTs : Int) :
    Set Tick :=
  {x | ∃ r ∈ t.rows, ∃ e, eventToRow (msToDatetimeRounded rnd) e = some r ∧ e.symbol = symbol ∧
    fromTs ≤ e.eventTs ∧ e.eventTs ≤ toTs ∧ Tick.ofEvent e = x}

/-- **The statement answers with a page of what is stored**, where every row is that of an event. -/
theorem selectTicks_isPage [DecidableEq σ] (h : Rounds 53 rnd) {t : MarketTicks σ Timestamp}
    (ht : ∀ r ∈ t.rows, ∃ e, eventToRow (msToDatetimeRounded rnd) e = some r) {fromTs toTs : Int}
    {fromTime toTime : Timestamp} (hfrom : msToDatetimeRounded rnd fromTs = some fromTime)
    (hto : msToDatetimeRounded rnd toTs = some toTime) (symbol : σ) (limit : Nat) :
    IsPage (storedTicks rnd t symbol fromTs toTs) Tick.position limit
      (t.selectTicks symbol fromTime toTime limit) := by
  -- the boundaries are those in milliseconds
  have hsel : ∀ {r e}, eventToRow (msToDatetimeRounded rnd) e = some r →
      (r.symbol = symbol ∧ r.Between fromTime toTime ↔
        e.symbol = symbol ∧ fromTs ≤ e.eventTs ∧ e.eventTs ≤ toTs) := by
    intro r e hr
    have htime := eventTime_of_eventToRow hr
    rw [TickRow.Between, converted_le_iff h hfrom htime, converted_le_iff h htime hto,
      (row_fields hr).1]
  refine (isPage_page (nodup_position t symbol fromTime toTime) limit).map (fun x => ?_) ?_
  · constructor
    · rintro ⟨r, hmem, e, hr, hevent, hfrom', hto', rfl⟩
      exact ⟨r, ⟨hmem, (hsel hr).mpr ⟨hevent, hfrom', hto'⟩⟩, tick_of_row h hr⟩
    · rintro ⟨r, ⟨hmem, hr⟩, rfl⟩
      obtain ⟨e, hrow⟩ := ht r hmem
      obtain ⟨hevent, hfrom', hto'⟩ := (hsel hrow).mp hr
      exact ⟨r, hmem, e, hrow, hevent, hfrom', hto', (tick_of_row h hrow).symm⟩
  · rintro r ⟨hmem, -⟩ r' ⟨hmem', -⟩ hlt
    obtain ⟨e, hrow⟩ := ht r hmem
    obtain ⟨e', hrow'⟩ := ht r' hmem'
    rw [tick_of_row h hrow, tick_of_row h hrow']
    exact (row_position_lt_iff h hrow hrow').mp hlt

theorem Represents.row_of_event {events : List (MarketEventOf σ)} {t : MarketTicks σ Timestamp}
    (hI : Represents rnd events t) (r : TickRow σ Timestamp) (hr : r ∈ t.rows) :
    ∃ e, eventToRow (msToDatetimeRounded rnd) e = some r :=
  ((hI.mem_rows r).mp hr).imp fun _ => And.right

/-- What is stored is the history. -/
theorem Represents.storedTicks_eq (h : Rounds 53 rnd) {events : List (MarketEventOf σ)}
    {t : MarketTicks σ Timestamp} (hI : Represents rnd events t) (symbol : σ) (fromTs toTs : Int) :
    storedTicks rnd t symbol fromTs toTs = historyOf events symbol fromTs toTs := by
  ext x
  constructor
  · rintro ⟨r, hmem, e, hr, hsymbol, hfrom, hto, rfl⟩
    obtain ⟨e', he', hr'⟩ := (hI.mem_rows r).mp hmem
    have hkey := (row_key_eq_iff h hr' hr).mp rfl
    have hsymbol' : e'.symbol = e.symbol := congrArg Prod.fst hkey
    have hts : e'.eventTs = e.eventTs := congrArg (fun key => key.2.2) hkey
    refine ⟨e', he', hsymbol'.trans hsymbol, hts ▸ hfrom, hts ▸ hto, ?_⟩
    exact (tick_of_row h hr').symm.trans (tick_of_row h hr)
  · rintro ⟨e, he, hsymbol, hfrom, hto, rfl⟩
    obtain ⟨r, hr⟩ := Option.isSome_iff_exists.mp (hI.converted e he.mem)
    exact ⟨r, (hI.mem_rows r).mpr ⟨e, he, hr⟩, e, hr, hsymbol, hfrom, hto, rfl⟩

/-! ### `fetch_ticks` -/

/-- An exception of the database driver, as far as the store looks at it. -/
structure DbException where
  /-- A `TimeoutError`. -/
  timeout : Bool
  /-- A `ConnectionError` or any other `OSError`. -/
  os : Bool
  typeName : String
  deriving DecidableEq

/-- `_is_unavailable_error`. -/
def isUnavailableError (exc : DbException) : Bool :=
  if exc.timeout then false
  else if exc.os then true
  else decide (exc.typeName ∈ ["CannotConnectNowError", "ConnectionDoesNotExistError",
    "ConnectionFailureError", "ConnectionRejectionError", "TooManyConnectionsError"])

/-- What `fetch_ticks` raises. -/
inductive FetchError
  /-- `HistoryStoreUnavailableError`. -/
  | unavailable
  | raised (exc : DbException)
  /-- The exception of `datetime.fromtimestamp`. -/
  | badTimestamp
  deriving DecidableEq

/-- The `except Exception` blocks around the driver. -/
def FetchError.ofDb (exc : DbException) : FetchError :=
  if isUnavailableError exc then .unavailable else .raised exc

/-- `fetch_ticks`; `connect` and `query` are what the driver raises, if anything. -/
def fetchTicks [DecidableEq σ] (rnd : ℚ → ℚ) (t : MarketTicks σ Timestamp)
    (connect query : Option DbException) (symbol : σ) (fromTs toTs limit : Int) :
    Except FetchError (List Tick) :=
  match connect with
  | some exc => .error (.ofDb exc)
  | none =>
    match msToDatetimeRounded rnd fromTs, msToDatetimeRounded rnd toTs with
    | some fromTime, some toTime =>
      match query with
      | some exc => .error (.ofDb exc)
      | none => .ok (t.selectTicks symbol fromTime toTime (historyLimit limit))
    | _, _ => .error .badTimestamp

theorem fetchTicks_eq_ok [DecidableEq σ] {t : MarketTicks σ Timestamp}
    {connect query : Option DbException} {symbol : σ} {fromTs toTs limit : Int} {ticks : List Tick}
    (hf : fetchTicks rnd t connect query symbol fromTs toTs limit = .ok ticks) :
    ∃ fromTime toTime, msToDatetimeRounded rnd fromTs = some fromTime ∧
      msToDatetimeRounded rnd toTs = some toTime ∧
      ticks = t.selectTicks symbol fromTime toTime (historyLimit limit) := by
  unfold fetchTicks at hf
  split at hf
  · cases hf
  · split at hf
    · rename_i fromTime toTime hfrom hto
      split at hf
      · cases hf
      · exact ⟨fromTime, toTime, hfrom, hto, (Except.ok.inj hf).symm⟩
    · cases hf

/-- **A history query is exact.** Whatever batches have been inserted, in whatever order and with
whatever repetitions and contradictions: the ticks that `fetch_ticks` returns are the page of the
history of the symbol between the two timestamps, both included, and the only one. -/
theorem fetch_ticks_exact [DecidableEq σ] (h : Rounds 53 rnd)
    {batches : List (List (MarketEventOf σ))}
    {t : MarketTicks σ Timestamp}
    (hins : insertBatches (msToDatetimeRounded rnd) .empty batches = some t)
    {connect query : Option DbException} {symbol : σ} {fromTs toTs limit : Int} {ticks : List Tick}
    (hf : fetchTicks rnd t connect query symbol fromTs toTs limit = .ok ticks)
    (answer : List Tick) :
    IsPage (historyOf batches.flatten symbol fromTs toTs) Tick.position
      (historyLimit limit) answer ↔
      answer = ticks := by
  obtain ⟨fromTime, toTime, hfrom, hto, rfl⟩ := fetchTicks_eq_ok hf
  have hI := represents_insertBatches h .empty hins
  have hpage := selectTicks_isPage h hI.row_of_event hfrom hto symbol (historyLimit limit)
  rw [hI.storedTicks_eq h, List.nil_append] at hpage
  exact ⟨fun hanswer => hanswer.unique hpage, fun heq => heq ▸ hpage⟩

/-- A quote at a given time. -/
def quoteAt (symbol : PyStr) (seq eventTs : Int) : MarketEvent :=
  { MarketEventOf.quote symbol seq with eventTs := eventTs }

/-- Out of order, with a tick of another symbol, a late one and a contradicting repetition. -/
def mixedBatches : List (List MarketEvent) :=
  [[quoteAt "A" 2 2000, quoteAt "A" 1 1000, quoteAt "B" 1 1000],
    [{ quoteAt "A" 1 1000 with bid := .finite 99 }, quoteAt "A" 3 2000, quoteAt "A" 9 5000]]

theorem rounds_id (p : Nat) : Rounds p id := by
  intro x
  rw [id_eq, sub_self, abs_zero]
  positivity

theorem fetch_ticks_exact_mixed :
    ∃ t, insertBatches (msToDatetimeRounded id) .empty mixedBatches = some t ∧
      fetchTicks id t none none "A" 1000 3000 2 =
        .ok [.ofEvent (quoteAt "A" 1 1000), .ofEvent (quoteAt "A" 2 2000)] ∧
      ∀ answer, IsPage (historyOf mixedBatches.flatten "A" 1000 3000) Tick.position 2 answer ↔
        answer = [.ofEvent (quoteAt "A" 1 1000), .ofEvent (quoteAt "A" 2 2000)] := by
  have hrun : ∃ t, insertBatches (msToDatetimeRounded id) .empty mixedBatches = some t ∧
      fetchTicks id t none none "A" 1000 3000 2 =
        .ok [.ofEvent (quoteAt "A" 1 1000), .ofEvent (quoteAt "A" 2 2000)] := by
    rw [msToDatetimeRounded_id]
    refine ⟨_, rfl, ?_⟩
    decide +kernel
  obtain ⟨t, hins, hf⟩ := hrun
  exact ⟨t, hins, hf, fetch_ticks_exact (rounds_id 53) hins hf⟩

end MarketData.Storage
