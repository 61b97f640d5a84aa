import Mathlib.Data.List.DropRight
import MarketData.Gateway.Session
import MarketData.Lib.Rank

/-!
# MarketData.Gateway.Latency

Dispatch latencies: `LatencyTracker` of `src/gateway/session.py`, the rolling window of a client,
and `get_metrics_summary` of `src/gateway/gateway.py`, which pools the windows of all clients.

**Reported percentiles are exact ranks**, of a window and of the pool alike, and the percentile of
the pool lies between those of the clients (`percentiles_exact`). Nothing is assumed about the
arithmetic of the samples: they are ordered, and `round(x, 2)` is any function `round` that keeps
the order. The index of a percentile is computed exactly.
-/

namespace MarketData.Gateway

/-- `LatencyTracker`. -/
structure LatencyTracker (α : Type) where
  samples : List α := []
  maxSamples : Nat := 1000

variable {α : Type}

/-- The `percentile` of the tracker and the one inside `get_metrics_summary`, over the samples they
are about. -/
def percentile [LinearOrder α] [Zero α] (round : α → α) (values : List α) (p : Nat) : α :=
  if h : values = [] then 0
  else round (select values (values.length * p / 100) h)

/-- `latency_ms`, at the clock reading `now` (`time.time()`, in seconds). -/
def latencyMs [IntCast α] [Mul α] [Sub α] (now : α) (eventTsMs : Int) : α :=
  now * ((1000 : Int) : α) - (eventTsMs : α)

namespace LatencyTracker

/-- `record`. -/
def record [IntCast α] [Mul α] [Sub α] (t : LatencyTracker α) (now : α) (eventTsMs : Int) :
    LatencyTracker α :=
  let samples := t.samples ++ [latencyMs now eventTsMs]
  if t.maxSamples < samples.length then { t with samples := samples.tail }
  else { t with samples := samples }

section percentiles

variable [LinearOrder α] [Zero α] (round : α → α) (t : LatencyTracker α)

/-- `percentile`. -/
def percentile (p : Nat) : α := Gateway.percentile round t.samples p

def p50 : α := t.percentile round 50
def p99 : α := t.percentile round 99

end percentiles

/-- `sample_count`. -/
def sampleCount (t : LatencyTracker α) : Nat := t.samples.length

end LatencyTracker

/-- What `get_metrics_summary` reads of a session. -/
structure MeasuredSession (α : Type) where
  stats : ClientStats := {}
  latency : LatencyTracker α := {}

/-- The body of the summary. -/
structure MetricsSummary (α : Type) where
  clients : Nat
  overallP50Ms : α
  overallP99Ms : α
  averageClientP50Ms : α
  averageClientP99Ms : α
  latencySamples : Nat
  totalSent : Nat
  totalDropped : Nat

/-- The response of `get_metrics_summary`. -/
inductive MetricsResponse (α : Type)
  | message (text : String)
  | summary (m : MetricsSummary α)

/-- `latency_sessions`. -/
def latencySessions (sessions : List (MeasuredSession α)) : List (MeasuredSession α) :=
  sessions.filter fun s => decide (0 < s.latency.sampleCount)

/-- `samples`. -/
def pooledSamples (sessions : List (MeasuredSession α)) : List α :=
  (latencySessions sessions).flatMap fun s => s.latency.samples

/-- The mean of one percentile of the clients. -/
def averageClient [Zero α] [Add α] [Div α] [IntCast α] (round : α → α)
    (sessions : List (MeasuredSession α)) (p : MeasuredSession α → α) : α :=
  let measured := latencySessions sessions
  if measured.isEmpty then 0
  else round ((measured.map p).foldl (· + ·) 0 / ((measured.length : Int) : α))

/-- `get_metrics_summary`, of the values of `all_sessions`. -/
def getMetricsSummary [LinearOrder α] [Zero α] [Add α] [Div α] [IntCast α] (round : α → α)
    (allSessions : Dict String (MeasuredSession α)) : MetricsResponse α :=
  let sessions := allSessions.values
  if sessions.isEmpty then .message "no connected clients"
  else .summary {
    clients := sessions.length
    overallP50Ms := percentile round (pooledSamples sessions) 50
    overallP99Ms := percentile round (pooledSamples sessions) 99
    averageClientP50Ms := averageClient round sessions fun s => s.latency.p50 round
    averageClientP99Ms := averageClient round sessions fun s => s.latency.p99 round
    latencySamples := (pooledSamples sessions).length
    totalSent := (sessions.map fun s => s.stats.sent).sum
    totalDropped := (sessions.map fun s => s.stats.dropped).sum }

/-! ### The window -/

namespace LatencyTracker

variable [IntCast α] [Mul α] [Sub α]

/-- A tracker after these calls of `record`, each with its clock reading. -/
def recorded (maxSamples : Nat) (calls : List (α × Int)) : LatencyTracker α :=
  calls.foldl (fun t c => t.record c.1 c.2) { maxSamples := maxSamples }

theorem recorded_snoc (maxSamples : Nat) (calls : List (α × Int)) (c : α × Int) :
    recorded maxSamples (calls ++ [c]) = (recorded maxSamples calls).record c.1 c.2 := by
  rw [recorded, List.foldl_concat]
  rfl

theorem maxSamples_record (t : LatencyTracker α) (now : α) (eventTsMs : Int) :
    (t.record now eventTsMs).maxSamples = t.maxSamples := by
  unfold record
  dsimp only
  split <;> rfl

/-- `record` drops the oldest sample of a full window. -/
theorem samples_record {t : LatencyTracker α} (hfull : t.samples.length ≤ t.maxSamples) (now : α)
    (eventTsMs : Int) : (t.record now eventTsMs).samples =
      (t.samples ++ [latencyMs now eventTsMs]).rtake t.maxSamples := by
  unfold record List.rtake
  dsimp only
  rw [List.length_append, List.length_singleton]
  split
  · have hone : t.samples.length + 1 - t.maxSamples = 1 := by omega
    rw [hone, List.drop_one]
  · have hzero : t.samples.length + 1 - t.maxSamples = 0 := by omega
    rw [hzero, List.drop_zero]

omit [IntCast α] [Mul α] [Sub α] in
/-- The last `m` of a list that grows are the last `m` of its last `m` and what is new. -/
theorem rtake_concat_rtake (xs : List α) (x : α) (m : Nat) :
    (xs.rtake m ++ [x]).rtake m = (xs ++ [x]).rtake m := by
  cases m with
  | zero => rw [List.rtake_zero, List.rtake_zero]
  | succ m =>
      have hlast : (xs.rtake (m + 1)).rtake m = xs.rtake m := by
        simp only [List.rtake_eq_reverse_take_reverse, List.reverse_reverse, List.take_take,
          min_eq_left (Nat.le_succ m)]
      rw [List.rtake_concat_succ, List.rtake_concat_succ, hlast]

/-- **The tracker holds exactly the last `_max_samples` latencies**, in order. -/
theorem samples_recorded (maxSamples : Nat) (calls : List (α × Int)) :
    (recorded maxSamples calls).maxSamples = maxSamples ∧
    (recorded maxSamples calls).samples =
      (calls.map fun c => latencyMs c.1 c.2).rtake maxSamples := by
  induction calls using List.reverseRecOn with
  | nil => exact ⟨rfl, (List.rtake_nil maxSamples).symm⟩
  | append_singleton calls c ih =>
      obtain ⟨hmax, hsamples⟩ := ih
      have hlen : (recorded maxSamples calls).samples.length ≤
          (recorded maxSamples calls).maxSamples := by
        rw [hmax, hsamples, List.rtake, List.length_drop]
        omega
      rw [recorded_snoc, maxSamples_record, samples_record hlen, hmax, hsamples,
        rtake_concat_rtake, List.map_append]
      exact ⟨rfl, rfl⟩

end LatencyTracker

/-! ### Percentiles -/

section percentiles

variable [LinearOrder α] [Zero α] {round : α → α} {p : Nat}

/-- `reported` is, before rounding, the sample that has the rank of the `p`-th percentile. -/
def ExactRank (round : α → α) (samples : List α) (p : Nat) (reported : α) : Prop :=
  ∃ v, HasRank samples (samples.length * p / 100) v ∧ reported = round v

/-- Below the hundredth percentile the index is in range before it is cut off. -/
theorem rank_lt {n : Nat} (hn : 0 < n) (hp : p < 100) : n * p / 100 < n :=
  (Nat.div_lt_iff_lt_mul (by decide)).mpr (Nat.mul_lt_mul_of_pos_left hp hn)

/-- **A percentile is an exact rank.** -/
theorem exactRank_percentile (round : α → α) {samples : List α} (hne : samples ≠ [])
    (hp : p < 100) : ExactRank round samples p (percentile round samples p) := by
  have hlt := rank_lt (List.length_pos_iff.mpr hne) hp
  exact ⟨_, hasRank_select samples hlt hne, dif_neg hne⟩

/-- What holds of an overall percentile: it is an exact rank of the pooled windows, and it is not
below the smallest and not above the largest of the clients' percentiles. -/
structure OverallExact (round : α → α) (measured : List (MeasuredSession α)) (p : Nat)
    (overall : α) : Prop where
  rank : ExactRank round (measured.flatMap fun s => s.latency.samples) p overall
  above : ∃ s ∈ measured, s.latency.percentile round p ≤ overall
  below : ∃ s ∈ measured, overall ≤ s.latency.percentile round p

/-- **The percentile of a pool lies between those of its parts.** -/
theorem overallExact (hround : Monotone round) (hp : p < 100) {measured : List (MeasuredSession α)}
    (hne : measured ≠ []) (hsampled : ∀ s ∈ measured, s.latency.samples ≠ []) :
    OverallExact round measured p
      (percentile round (measured.flatMap fun s => s.latency.samples) p) := by
  have hpool : (measured.flatMap fun s => s.latency.samples) ≠ [] := by
    obtain ⟨s, hs⟩ := List.exists_mem_of_ne_nil measured hne
    obtain ⟨x, hx⟩ := List.exists_mem_of_ne_nil _ (hsampled s hs)
    exact List.ne_nil_of_mem (List.mem_flatMap.mpr ⟨s, hs, hx⟩)
  have hexact := exactRank_percentile round hpool hp
  obtain ⟨x, hx, heq⟩ := id hexact
  -- the rank of the pool, from the sizes of the windows
  have hsize : (measured.flatMap fun s => s.latency.samples).length * p =
      (measured.map fun s => s.latency.samples.length * p).sum := by
    rw [List.length_flatMap, List.sum_map_mul_right]
  rw [hsize] at hx
  refine ⟨hexact, ?_, ?_⟩
  · obtain ⟨s, hs, hle⟩ := hx.exists_le (sum_div_le measured _ 100)
    obtain ⟨v, hv, hveq⟩ := exactRank_percentile round (hsampled s hs) hp
    exact ⟨s, hs, hveq.trans_le ((hround (hle v hv)).trans_eq heq.symm)⟩
  · obtain ⟨s, hs, hge⟩ := hx.exists_ge (div_lt_sum hne _ (by decide))
    obtain ⟨v, hv, hveq⟩ := exactRank_percentile round (hsampled s hs) hp
    exact ⟨s, hs, heq.trans_le ((hround (hge v hv)).trans_eq hveq.symm)⟩

omit [LinearOrder α] [Zero α] in
theorem sampled_of_mem {sessions : List (MeasuredSession α)} {s : MeasuredSession α}
    (hs : s ∈ latencySessions sessions) : s.latency.samples ≠ [] :=
  List.length_pos_iff.mp (of_decide_eq_true (List.mem_filter.mp hs).2)

end percentiles

variable [LinearOrder α] [Zero α] [Add α] [Sub α] [Mul α] [Div α] [IntCast α]

/-- What holds of the trackers and of `get_metrics_summary`, over any rounding that keeps the
order. -/
structure PercentilesExact (round : α → α) : Prop where
  /-- A tracker holds the last `_max_samples` latencies it was given, in order. -/
  window : ∀ maxSamples (calls : List (α × Int)),
    (LatencyTracker.recorded maxSamples calls).samples =
      (calls.map fun c => latencyMs c.1 c.2).rtake maxSamples
  client : ∀ t : LatencyTracker α, t.samples ≠ [] →
    ExactRank round t.samples 50 (t.p50 round) ∧ ExactRank round t.samples 99 (t.p99 round)
  /-- As soon as one client has a sample. -/
  overall : ∀ allSessions : Dict String (MeasuredSession α),
    latencySessions allSessions.values ≠ [] →
    ∃ m, getMetricsSummary round allSessions = .summary m ∧
      OverallExact round (latencySessions allSessions.values) 50 m.overallP50Ms ∧
      OverallExact round (latencySessions allSessions.values) 99 m.overallP99Ms

/-- **Reported percentiles are exact ranks and agree across levels.** -/
theorem percentiles_exact {round : α → α} (hround : Monotone round) : PercentilesExact round where
  window maxSamples calls := (LatencyTracker.samples_recorded maxSamples calls).2
  client t hne :=
    ⟨exactRank_percentile round hne (by decide), exactRank_percentile round hne (by decide)⟩
  overall allSessions hne := by
    have hsome : ¬ allSessions.values.isEmpty = true := by
      intro hempty
      rw [List.isEmpty_iff.mp hempty] at hne
      exact hne rfl
    refine ⟨_, if_neg hsome, ?_, ?_⟩
    · exact overallExact hround (by decide) hne fun _ hs => sampled_of_mem hs
    · exact overallExact hround (by decide) hne fun _ hs => sampled_of_mem hs

/-- Two clients, with the windows `[1, 2]` and `[100]`. -/
def populationSessions : Dict String (MeasuredSession ℚ) :=
  (Dict.empty.set "first" { latency := { samples := [1, 2] } }).set "second"
    { latency := { samples := [100] } }

theorem percentiles_exact_population : ∃ m,
    getMetricsSummary (id : ℚ → ℚ) populationSessions = .summary m ∧
    m.overallP50Ms = 2 ∧ m.overallP99Ms = 100 ∧
    OverallExact id (latencySessions populationSessions.values) 50 m.overallP50Ms := by
  obtain ⟨m, hm, h50, -⟩ := (percentiles_exact (monotone_id (α := ℚ))).overall populationSessions
    (List.cons_ne_nil _ _)
  obtain rfl := MetricsResponse.summary.inj hm
  exact ⟨_, rfl, rfl, rfl, h50⟩

end MarketData.Gateway
