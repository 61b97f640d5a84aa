import MarketData.Lib.Rounding
import MarketData.Storage.Storable

/-!
# MarketData.Storage.Timestamps

**Milliseconds through a float and back.** `_ms_to_datetime` divides the timestamp by 1000.0, and
`datetime.fromtimestamp` splits the seconds into their integer part and microseconds. Three floating
operations round on the way (the conversion to a float, the division, the multiplication of the
fraction), and the microseconds are rounded to an integer.

All of it is off by 61 microseconds at most over the range of `datetime` (`epochMicros_error`),
which is less than half a millisecond. So the order of timestamps is that of the stored times, range
boundaries hold to the millisecond, and the query gives back the timestamp that was stored.
-/

namespace MarketData.Storage

section Conversion

variable (rnd : ℚ → ℚ)

/-- `datetime.fromtimestamp`, in microseconds from the epoch: the float is split by `modf`, and the
fraction becomes microseconds. A carry into the seconds does not change the sum. -/
def fromTimestamp (seconds : ℚ) : Int :=
  trunc seconds * 1000000 + halfEven (rnd ((seconds - trunc seconds) * 1000000))

/-- The microseconds of `_ms_to_datetime`: convert to a float, divide by 1000.0, split. -/
def epochMicros (tsMs : Int) : Int := fromTimestamp rnd (rnd (rnd tsMs / 1000))

/-- `_ms_to_datetime` with rounding; `none` is the exception outside of the years 1 to 9999. -/
def msToDatetimeRounded (tsMs : Int) : Option Timestamp :=
  if h : minTimestampMs * 1000 ≤ epochMicros rnd tsMs ∧
      epochMicros rnd tsMs < (maxTimestampMs + 1) * 1000 then
    some ⟨epochMicros rnd tsMs, h.1, h.2⟩
  else none

end Conversion

/-- `event_time BETWEEN $2 AND $3`. -/
def TickRow.Between {σ : Type} (r : TickRow σ Timestamp) (fromTime toTime : Timestamp) : Prop :=
  fromTime.micros ≤ r.eventTime.micros ∧ r.eventTime.micros ≤ toTime.micros

/-- `(EXTRACT(EPOCH FROM event_time) * 1000)::BIGINT`. -/
def TickRow.epochMs {σ : Type} (r : TickRow σ Timestamp) : Int :=
  halfAway ((r.eventTime.micros : ℚ) / 1000000 * 1000)

/-- A timestamp in milliseconds that a `datetime` can represent. -/
def InDatetimeRange (tsMs : Int) : Prop := minTimestampMs ≤ tsMs ∧ tsMs ≤ maxTimestampMs

/-! ### How far the microseconds are off -/

section Error

variable {rnd : ℚ → ℚ}

/-- The split is off by the rounding of the fraction, and by half a microsecond. -/
theorem fromTimestamp_error (h : Rounds 53 rnd) (seconds : ℚ) :
    |(fromTimestamp rnd seconds : ℚ) - seconds * 1000000| ≤ 1 := by
  have hfraction : |(seconds - trunc seconds) * 1000000| ≤ 1000000 := by
    rw [abs_mul, abs_of_pos (by norm_num : (0 : ℚ) < 1000000)]
    linarith [abs_sub_trunc_le seconds]
  have hmul : |rnd ((seconds - trunc seconds) * 1000000) - (seconds - trunc seconds) * 1000000| ≤
      1 / 2 := by
    refine (h _).trans ?_
    rw [div_le_iff₀ (by positivity)]
    exact hfraction.trans (by norm_num)
  have hhalf := abs_halfEven_sub_le (rnd ((seconds - trunc seconds) * 1000000))
  have hsplit : (fromTimestamp rnd seconds : ℚ) - seconds * 1000000 =
      (halfEven (rnd ((seconds - trunc seconds) * 1000000)) -
        rnd ((seconds - trunc seconds) * 1000000)) +
      (rnd ((seconds - trunc seconds) * 1000000) - (seconds - trunc seconds) * 1000000) := by
    rw [fromTimestamp]
    push_cast
    ring
  calc |(fromTimestamp rnd seconds : ℚ) - seconds * 1000000|
      ≤ 1 / 2 + 1 / 2 := by
        rw [hsplit]
        exact (abs_add_le ..).trans (add_le_add hhalf hmul)
    _ = 1 := by norm_num

/-- **The conversion is off by 61 microseconds at most.** -/
theorem epochMicros_error (h : Rounds 53 rnd) {tsMs : Int} (hts : InDatetimeRange tsMs) :
    |epochMicros rnd tsMs - tsMs * 1000| ≤ 61 := by
  obtain ⟨hmin, hmax⟩ := hts
  have habs : |(tsMs : ℚ)| ≤ 253402300799999 := by
    have hlow : ((minTimestampMs : Int) : ℚ) ≤ tsMs := Int.cast_le.mpr hmin
    have hhigh : (tsMs : ℚ) ≤ ((maxTimestampMs : Int) : ℚ) := Int.cast_le.mpr hmax
    rw [minTimestampMs] at hlow
    rw [maxTimestampMs] at hhigh
    rw [abs_le]
    constructor <;> push_cast at hlow hhigh <;> linarith
  -- two roundings at the magnitude of the timestamp
  have hseconds : |rnd (rnd tsMs / 1000) - (tsMs : ℚ) / 1000| ≤ 60 / 1000000 := by
    refine (h.div_error tsMs (by norm_num : (0 : ℚ) < 1000)).trans ?_
    rw [div_div, div_le_iff₀ (by positivity)]
    have hsmall : |(tsMs : ℚ)| / 2 ^ 53 ≤ 1 := by
      rw [div_le_one₀ (by positivity)]
      exact habs.trans (by norm_num)
    calc 2 * |(tsMs : ℚ)| + |(tsMs : ℚ)| / 2 ^ 53 ≤ 2 * 253402300799999 + 1 := by linarith
      _ ≤ 60 / 1000000 * (2 ^ 53 * 1000) := by norm_num
  have hsplit := fromTimestamp_error h (rnd (rnd tsMs / 1000))
  have htotal : |(epochMicros rnd tsMs : ℚ) - tsMs * 1000| ≤ 61 := by
    rw [abs_le] at hseconds hsplit ⊢
    rw [epochMicros]
    constructor <;> linarith
  exact_mod_cast htotal

end Error

/-! ### What the query sees -/

/-- What the conversion is relied on for. -/
structure TimestampsExact (rnd : ℚ → ℚ) : Prop where
  /-- Every timestamp after the first that a `datetime` can represent is converted. -/
  converts : ∀ tsMs, minTimestampMs < tsMs → tsMs ≤ maxTimestampMs →
    (msToDatetimeRounded rnd tsMs).isSome
  increasing : ∀ t u, InDatetimeRange t → InDatetimeRange u → t < u →
    ∀ time time', msToDatetimeRounded rnd t = some time → msToDatetimeRounded rnd u = some time' →
      time.micros < time'.micros
  /-- A stored tick is selected exactly if its timestamp is within the boundaries. -/
  between : ∀ {σ : Type} (e : MarketEventOf σ) row,
    eventToRow (msToDatetimeRounded rnd) e = some row → InDatetimeRange e.eventTs →
    ∀ fromTs toTs fromTime toTime, InDatetimeRange fromTs → InDatetimeRange toTs →
      msToDatetimeRounded rnd fromTs = some fromTime → msToDatetimeRounded rnd toTs = some toTime →
      (row.Between fromTime toTime ↔ fromTs ≤ e.eventTs ∧ e.eventTs ≤ toTs)
  /-- The timestamp that a query returns is the one that was stored. -/
  readBack : ∀ {σ : Type} (e : MarketEventOf σ) row,
    eventToRow (msToDatetimeRounded rnd) e = some row → InDatetimeRange e.eventTs →
    row.epochMs = e.eventTs

section Query

variable {rnd : ℚ → ℚ}

theorem micros_of_msToDatetimeRounded {tsMs : Int} {time : Timestamp}
    (h : msToDatetimeRounded rnd tsMs = some time) : time.micros = epochMicros rnd tsMs := by
  unfold msToDatetimeRounded at h
  split at h
  · obtain rfl := Option.some.inj h
    rfl
  · cases h

theorem eventTime_of_eventToRow {σ τ : Type} {msToDatetime : Int → Option τ} {e : MarketEventOf σ}
    {row : TickRow σ τ} (h : eventToRow msToDatetime e = some row) :
    msToDatetime e.eventTs = some row.eventTime := by
  obtain ⟨time, htime, hrow⟩ := Option.bind_eq_some_iff.mp h
  obtain rfl := Option.some.inj hrow
  exact htime

/-- Half a millisecond from the next timestamp, order is kept and reflected. -/
theorem epochMicros_le_iff (h : Rounds 53 rnd) {t u : Int} (ht : InDatetimeRange t)
    (hu : InDatetimeRange u) : epochMicros rnd t ≤ epochMicros rnd u ↔ t ≤ u := by
  have herror := abs_le.mp (epochMicros_error h ht)
  have herror' := abs_le.mp (epochMicros_error h hu)
  constructor
  · intro hle
    omega
  · intro hle
    rcases Int.lt_or_eq_of_le hle with hlt | rfl
    · omega
    · exact Int.le_refl _

/-- **Timestamps are exact**, whatever the rounding of the floating operations. -/
theorem timestamps_exact (h : Rounds 53 rnd) : TimestampsExact rnd where
  converts tsMs hmin hmax := by
    have herror := abs_le.mp (epochMicros_error h ⟨Int.le_of_lt hmin, hmax⟩)
    have hbounds : minTimestampMs * 1000 ≤ epochMicros rnd tsMs ∧
        epochMicros rnd tsMs < (maxTimestampMs + 1) * 1000 := by
      constructor <;> omega
    rw [msToDatetimeRounded, dif_pos hbounds]
    rfl
  increasing t u ht hu hlt time time' htime htime' := by
    rw [micros_of_msToDatetimeRounded htime, micros_of_msToDatetimeRounded htime', ← not_le,
      epochMicros_le_iff h hu ht]
    exact not_le.mpr hlt
  between e row hrow he fromTs toTs fromTime toTime hfrom hto hfromTime htoTime := by
    rw [TickRow.Between, micros_of_msToDatetimeRounded (eventTime_of_eventToRow hrow),
      micros_of_msToDatetimeRounded hfromTime, micros_of_msToDatetimeRounded htoTime,
      epochMicros_le_iff h hfrom he, epochMicros_le_iff h he hto]
  readBack e row hrow he := by
    rw [TickRow.epochMs, micros_of_msToDatetimeRounded (eventTime_of_eventToRow hrow)]
    refine halfAway_eq ?_
    have herror : |(epochMicros rnd e.eventTs : ℚ) - e.eventTs * 1000| ≤ 61 := by
      exact_mod_cast epochMicros_error h he
    rw [abs_le] at herror
    rw [abs_lt]
    constructor <;> linarith

/-- The first second of the range is converted too where integers stay as they are. -/
theorem msToDatetimeRounded_first (hexact : ∀ n : Int, |n| ≤ 2 ^ 53 → rnd n = n) :
    (msToDatetimeRounded rnd minTimestampMs).isSome := by
  have hseconds : rnd (rnd (minTimestampMs : Int) / 1000) = ((-62135596800 : Int) : ℚ) := by
    rw [hexact _ (by decide), ← hexact _ (by decide : |(-62135596800 : Int)| ≤ 2 ^ 53),
      minTimestampMs]
    norm_num
  have hzero : rnd 0 = 0 := by simpa using hexact 0 (by decide)
  have hmicros : epochMicros rnd minTimestampMs = minTimestampMs * 1000 := by
    rw [epochMicros, hseconds, fromTimestamp, trunc_intCast, sub_self, zero_mul, hzero]
    exact congrArg _ (halfEven_intCast 0)
  rw [msToDatetimeRounded, dif_pos (by rw [hmicros]; decide)]
  rfl

end Query

/-- **Without rounding, the conversion is the exact one.** -/
theorem msToDatetimeRounded_id : msToDatetimeRounded id = msToDatetime := by
  have hmicros : ∀ tsMs, epochMicros id tsMs = tsMs * 1000 := by
    intro tsMs
    have hfraction : ((tsMs : ℚ) / 1000 - trunc ((tsMs : ℚ) / 1000)) * 1000000 =
        ((tsMs * 1000 - trunc ((tsMs : ℚ) / 1000) * 1000000 : Int) : ℚ) := by
      push_cast
      ring
    simp only [epochMicros, fromTimestamp, id_eq, hfraction, halfEven_intCast]
    ring
  funext tsMs
  unfold msToDatetimeRounded msToDatetime
  simp only [hmicros]
  have hbounds : (minTimestampMs * 1000 ≤ tsMs * 1000 ∧
      tsMs * 1000 < (maxTimestampMs + 1) * 1000) ↔
      minTimestampMs ≤ tsMs ∧ tsMs ≤ maxTimestampMs := by
    omega
  simp only [hbounds]

/-- Doubles round to 53 bits. -/
theorem timestamps_exact_doubles : TimestampsExact (toBits 53) :=
  timestamps_exact (rounds_toBits 53)

end MarketData.Storage
