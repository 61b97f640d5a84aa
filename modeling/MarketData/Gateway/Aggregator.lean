import MarketData.Lib.BoundedQueue
import MarketData.Lib.Dict
import MarketData.Models

/-!
# MarketData.Gateway.Aggregator

`AggregationBuffer` of `src/gateway/aggregator.py`: in RAW mode a pushed event goes
straight to the bounded output queue, in AGG_100MS mode it replaces the symbol's event
in the current window and reaches the output at the next flush. A full output queue
drops its oldest event.
-/

namespace MarketData.Gateway

/-- `OUTPUT_MAX_SIZE`. -/
def outputMaxSize : Nat := 1000

theorem outputMaxSize_pos : 0 < outputMaxSize := by decide

/-- `AggregationMode`. -/
inductive AggregationMode
  | raw
  | agg100ms
  deriving Repr, DecidableEq

/-- The life of the task that runs `_flush_loop`. -/
inductive FlushTask
  | notStarted
  | running
  | cancelled
  deriving Repr, DecidableEq

/-- `AggregationBuffer`. -/
structure AggregationBuffer where
  mode : AggregationMode := .raw
  /-- Symbol to latest event of the open window. -/
  buffer : Dict PyStr MarketEvent := .empty
  output : BoundedQueue MarketEvent := .empty outputMaxSize outputMaxSize_pos
  flushTask : FlushTask := .notStarted
  deriving DecidableEq

namespace AggregationBuffer

/-- `_put_latest`. -/
def putLatest (b : AggregationBuffer) (event : MarketEvent) : AggregationBuffer :=
  { b with output := b.output.putEvict event }

/-- `push`. -/
def push (b : AggregationBuffer) (event : MarketEvent) : AggregationBuffer :=
  match b.mode with
  | .raw => b.putLatest event
  | .agg100ms => { b with buffer := b.buffer.set event.symbol event }

/-- One wake-up of `_flush_loop`: emit the window and clear it. -/
def flush (b : AggregationBuffer) : AggregationBuffer :=
  { b.buffer.values.foldl putLatest b with buffer := .empty }

/-- `start`. -/
def start (b : AggregationBuffer) : AggregationBuffer :=
  match b.mode with
  | .raw => b
  | .agg100ms => { b with flushTask := .running }

/-- `stop`. -/
def stop (b : AggregationBuffer) : AggregationBuffer :=
  match b.flushTask with
  | .notStarted => b
  | _ => { b with flushTask := .cancelled }

/-! ### Which symbols are in flight -/

/-- Some event of `symbol` is in the window or in the output queue. -/
def InFlight (b : AggregationBuffer) (symbol : PyStr) : Prop :=
  symbol ∈ b.buffer ∨ ∃ e ∈ b.output.items, e.symbol = symbol

/-- Every windowed event is stored under its own symbol. -/
def Keyed (b : AggregationBuffer) : Prop :=
  ∀ symbol e, b.buffer.get? symbol = some e → e.symbol = symbol

@[simp] theorem push_mode (b : AggregationBuffer) (e : MarketEvent) : (b.push e).mode = b.mode := by
  unfold push
  cases h : b.mode <;> simp [putLatest, h]

theorem foldl_putLatest_mode (es : List MarketEvent) (b : AggregationBuffer) :
    (es.foldl putLatest b).mode = b.mode := by
  induction es generalizing b with
  | nil => rfl
  | cons e es ih => exact ih (b.putLatest e)

@[simp] theorem flush_mode (b : AggregationBuffer) : b.flush.mode = b.mode :=
  foldl_putLatest_mode b.buffer.values b

@[simp] theorem stop_mode (b : AggregationBuffer) : b.stop.mode = b.mode := by
  unfold stop
  split <;> rfl

theorem mem_foldl_putLatest {es : List MarketEvent} {b : AggregationBuffer} {e : MarketEvent}
    (h : e ∈ (es.foldl putLatest b).output.items) : e ∈ b.output.items ∨ e ∈ es := by
  induction es generalizing b with
  | nil => exact Or.inl h
  | cons x es ih =>
      rcases ih h with h | h
      · rcases BoundedQueue.mem_putEvict h with h | rfl
        · exact Or.inl h
        · exact Or.inr List.mem_cons_self
      · exact Or.inr (List.mem_cons_of_mem _ h)

theorem keyed_push {b : AggregationBuffer} (hb : b.Keyed) (e : MarketEvent) : (b.push e).Keyed := by
  intro symbol x hx
  unfold push at hx
  cases hm : b.mode with
  | raw => exact hb symbol x (by simpa [hm, putLatest] using hx)
  | agg100ms =>
      simp only [hm, Dict.get?_set] at hx
      by_cases hs : e.symbol = symbol
      · obtain rfl : e = x := by simpa [hs] using hx
        exact hs
      · exact hb symbol x (by simpa [hs] using hx)

theorem keyed_flush (b : AggregationBuffer) : b.flush.Keyed := by
  intro symbol x hx
  simp [flush] at hx

/-- A push brings only its own symbol in flight. -/
theorem inFlight_push {b : AggregationBuffer} {e : MarketEvent} {symbol : PyStr}
    (h : (b.push e).InFlight symbol) : b.InFlight symbol ∨ e.symbol = symbol := by
  unfold push at h
  cases hm : b.mode with
  | raw =>
      simp only [hm, InFlight, putLatest] at h
      rcases h with h | ⟨x, hx, hs⟩
      · exact Or.inl (Or.inl h)
      · rcases BoundedQueue.mem_putEvict hx with hx | rfl
        · exact Or.inl (Or.inr ⟨x, hx, hs⟩)
        · exact Or.inr hs
  | agg100ms =>
      simp only [hm, InFlight, Dict.mem_def, Dict.get?_set] at h
      by_cases hs : e.symbol = symbol
      · exact Or.inr hs
      · simp only [if_neg hs] at h
        exact Or.inl h

/-- A flush moves events from the window to the output and brings nothing new. -/
theorem inFlight_flush {b : AggregationBuffer} (hb : b.Keyed) {symbol : PyStr}
    (h : b.flush.InFlight symbol) : b.InFlight symbol := by
  rcases h with h | ⟨e, he, hs⟩
  · simp [flush, Dict.mem_def] at h
  · rcases mem_foldl_putLatest he with he | he
    · exact Or.inr ⟨e, he, hs⟩
    · obtain ⟨k, hk⟩ := Dict.mem_values.mp he
      obtain rfl : e.symbol = k := hb k e hk
      exact Or.inl (by rw [Dict.mem_def, ← hs, hk]; rfl)

end AggregationBuffer

end MarketData.Gateway
