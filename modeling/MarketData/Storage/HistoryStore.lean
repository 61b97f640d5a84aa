import MarketData.Models
import Mathlib.Data.List.Count
import Mathlib.Data.List.Nodup

/-!
# MarketData.Storage.HistoryStore

The `market_ticks` table of `src/storage/history_store.py` and its one write,
`insert_ticks`: a single `INSERT ... ON CONFLICT (symbol, seq, event_time) DO NOTHING`.
The unique index is a field of the table, so a table with two rows of one key cannot be
built.

Symbols and timestamps are parameters: whatever `"symbol"` holds is stored as it is, and
`_ms_to_datetime` is a partial function (`datetime.fromtimestamp` raises outside its
range).
-/

namespace MarketData.Storage

variable {σ τ : Type}

/-- A row of `market_ticks`. -/
structure TickRow (σ τ : Type) where
  eventTime : τ
  symbol : σ
  seq : Int
  bid : PyFloat
  ask : PyFloat
  bidSize : Int
  askSize : Int
  deriving DecidableEq

/-- The columns of the unique index. -/
def TickRow.key (r : TickRow σ τ) : σ × Int × τ := (r.symbol, r.seq, r.eventTime)

/-- `_event_to_row`, over `_ms_to_datetime`. -/
def eventToRow (msToDatetime : Int → Option τ) (event : MarketEventOf σ) :
    Option (TickRow σ τ) := do
  let eventTime ← msToDatetime event.eventTs
  return {
    eventTime := eventTime
    symbol := event.symbol
    seq := event.seq
    bid := event.bid
    ask := event.ask
    bidSize := event.bidSize
    askSize := event.askSize }

/-- `market_ticks` with `market_ticks_symbol_seq_event_time_idx`. -/
structure MarketTicks (σ τ : Type) where
  rows : List (TickRow σ τ)
  unique : (rows.map TickRow.key).Nodup

namespace MarketTicks

/-- The empty table. -/
def empty : MarketTicks σ τ := ⟨[], List.nodup_nil⟩

variable [DecidableEq σ] [DecidableEq τ]

/-- Insert one row, `ON CONFLICT DO NOTHING`. -/
def insertRow (t : MarketTicks σ τ) (r : TickRow σ τ) : MarketTicks σ τ :=
  if h : r.key ∈ t.rows.map TickRow.key then t
  else ⟨t.rows ++ [r], by
    rw [List.map_append, List.map_singleton]
    exact t.unique.append (List.nodup_singleton _) (by simpa using h)⟩

/-- The statement of `insert_ticks`. -/
def insertTicks (t : MarketTicks σ τ) (rows : List (TickRow σ τ)) : MarketTicks σ τ :=
  rows.foldl insertRow t

/-- `_rows_affected` of that statement. -/
def rowsAffected (t : MarketTicks σ τ) (rows : List (TickRow σ τ)) : Nat :=
  (t.insertTicks rows).rows.length - t.rows.length

/-- How many rows have this key. -/
def countKey (t : MarketTicks σ τ) (key : σ × Int × τ) : Nat :=
  (t.rows.map TickRow.key).count key

theorem mem_insertRow {t : MarketTicks σ τ} {r : TickRow σ τ} {key : σ × Int × τ} :
    key ∈ (t.insertRow r).rows.map TickRow.key ↔ key ∈ t.rows.map TickRow.key ∨ key = r.key := by
  unfold insertRow
  split
  · rename_i h
    constructor
    · exact Or.inl
    · rintro (hk | rfl)
      · exact hk
      · exact h
  · simp

theorem mem_rows_insertRow {t : MarketTicks σ τ} {r x : TickRow σ τ} :
    x ∈ (t.insertRow r).rows ↔ x ∈ t.rows ∨ x = r ∧ r.key ∉ t.rows.map TickRow.key := by
  unfold insertRow
  split
  · rename_i h
    simp [h]
  · rename_i h
    simp [h]

theorem mem_insertTicks {t : MarketTicks σ τ} {rows : List (TickRow σ τ)} {key : σ × Int × τ} :
    key ∈ (t.insertTicks rows).rows.map TickRow.key ↔
      key ∈ t.rows.map TickRow.key ∨ ∃ r ∈ rows, key = r.key := by
  unfold insertTicks
  induction rows generalizing t with
  | nil => simp
  | cons r rows ih =>
      rw [List.foldl_cons, ih, mem_insertRow]
      simp only [List.mem_cons, exists_eq_or_imp, or_assoc]

/-- **A key in the table has exactly one row.** -/
theorem countKey_eq_one {t : MarketTicks σ τ} {key : σ × Int × τ}
    (h : key ∈ t.rows.map TickRow.key) : t.countKey key = 1 :=
  List.count_eq_one_of_mem t.unique h

end MarketTicks

/-! ### Which events have a row -/

/-- Some row of the table has the event's key. -/
def HasRow (msToDatetime : Int → Option τ) (t : MarketTicks σ τ) (event : MarketEventOf σ) : Prop :=
  ∃ r, eventToRow msToDatetime event = some r ∧ r.key ∈ t.rows.map TickRow.key

/-- Rows are only ever added. -/
theorem HasRow.mono {msToDatetime : Int → Option τ} {t u : MarketTicks σ τ}
    {event : MarketEventOf σ} (h : HasRow msToDatetime t event)
    (htu : ∀ key ∈ t.rows.map TickRow.key, key ∈ u.rows.map TickRow.key) :
    HasRow msToDatetime u event := by
  obtain ⟨r, hr, hk⟩ := h
  exact ⟨r, hr, htu _ hk⟩

/-- After `insert_ticks` every event of the batch has a row. -/
theorem hasRow_insertTicks [DecidableEq σ] [DecidableEq τ] {msToDatetime : Int → Option τ}
    {t : MarketTicks σ τ} {events : List (MarketEventOf σ)} {rows : List (TickRow σ τ)}
    (hrows : events.mapM (eventToRow msToDatetime) = some rows) {event : MarketEventOf σ}
    (he : event ∈ events) : HasRow msToDatetime (t.insertTicks rows) event := by
  suffices key : ∃ r ∈ rows, eventToRow msToDatetime event = some r by
    obtain ⟨r, hr, hrow⟩ := key
    exact ⟨r, hrow, MarketTicks.mem_insertTicks.mpr (Or.inr ⟨r, hr, rfl⟩)⟩
  induction events generalizing rows with
  | nil => simp at he
  | cons e events ih =>
      rw [List.mapM_cons] at hrows
      obtain ⟨r, hr, hrows⟩ := Option.bind_eq_some_iff.mp hrows
      obtain ⟨rest, hrest, hrows⟩ := Option.bind_eq_some_iff.mp hrows
      obtain rfl : r :: rest = rows := Option.some.inj hrows
      rcases List.mem_cons.mp he with rfl | he
      · exact ⟨r, List.mem_cons_self, hr⟩
      · obtain ⟨r', hr', hrow⟩ := ih hrest he
        exact ⟨r', List.mem_cons_of_mem r hr', hrow⟩

end MarketData.Storage
