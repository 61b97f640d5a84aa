import MarketData.Lib.Json

/-!
# MarketData.Gateway.Filter

Conditional subscriptions: `SubscriptionFilter` and its parser
`_parse_subscription_filter`, over every JSON value a client can put in the `filter`
field of a subscribe frame.

`FilterGrammar` says without the parser which values mean a filter: `null`, or an object
whose two thresholds are each absent, `null`, or a finite non-negative number that a double
holds. The parser accepts these and rejects the others with a `ValueError`
(`parseSubscriptionFilter_outcome`), but for two kinds of integers: one between two doubles is
taken for the nearest, and where none is near `float()` raises `OverflowError`.
-/

namespace MarketData.Gateway

/-- `SubscriptionFilter`. -/
structure SubscriptionFilter where
  minChangePct : Option PyFloat := none
  maxSpread : Option PyFloat := none
  deriving DecidableEq

/-- The finite, non-negative test on a converted number. -/
def checkThreshold (name : String) (numeric : PyFloat) : Except PyError (Option PyFloat) :=
  if !numeric.isFinite || numeric.lt (.finite 0) then
    .error (.valueError s!"filter.{name} must be finite and non-negative")
  else .ok (some numeric)

/-- One iteration of the parser's loop over the two field names. -/
def parseThreshold (payload : List (PyStr × Json)) (name : String) :
    Except PyError (Option PyFloat) :=
  match Json.field? name payload with
  | none | some .null => .ok none
  | some (.int n) => do checkThreshold name (← Json.floatOfInt n)
  | some (.float x) => checkThreshold name x
  | some _ => .error (.valueError s!"filter.{name} must be a number")

/-- `_parse_subscription_filter`. -/
def parseSubscriptionFilter : Json → Except PyError (Option SubscriptionFilter)
  | .null => .ok none
  | .obj payload => do
      let minChangePct ← parseThreshold payload "min_change_pct"
      let maxSpread ← parseThreshold payload "max_spread"
      return some { minChangePct, maxSpread }
  | _ => .error (.valueError "filter must be an object")

/-! ### The grammar -/

/-- What a threshold field may hold, and the threshold it means. An integer has to be a double. -/
inductive Threshold : Option Json → Option PyFloat → Prop
  | absent : Threshold none none
  | null : Threshold (some .null) none
  | int {n : Int} (h0 : 0 ≤ n) (hmax : n.natAbs < Json.floatOverflow) (hbits : HasBits 53 n) :
      Threshold (some (.int n)) (some (.finite n))
  | float {q : ℚ} (h0 : 0 ≤ q) : Threshold (some (.float (.finite q))) (some (.finite q))

/-- What the `filter` field of a frame may hold, and the filter it means. -/
inductive FilterGrammar : Json → Option SubscriptionFilter → Prop
  | null : FilterGrammar .null none
  | object {payload : List (PyStr × Json)} {minChangePct maxSpread : Option PyFloat}
      (hmin : Threshold (Json.field? "min_change_pct" payload) minChangePct)
      (hmax : Threshold (Json.field? "max_spread" payload) maxSpread) :
      FilterGrammar (.obj payload) (some { minChangePct, maxSpread })

/-- An integer from which on none is rounded to a double. -/
def TooLarge (v : Option Json) : Prop := ∃ n, v = some (.int n) ∧ Json.floatOverflow ≤ n.natAbs

/-- A non-negative integer between two doubles. -/
def Rounded (v : Option Json) : Prop :=
  ∃ n, v = some (.int n) ∧ 0 ≤ n ∧ n.natAbs < Json.floatOverflow ∧ ¬ HasBits 53 n

/-- The parser goes past the field. -/
def Passes (v : Option Json) : Prop := (∃ x, Threshold v x) ∨ Rounded v

/-- The parser comes to an integer that is too large. -/
def Overflows (payload : Json) : Prop :=
  ∃ d, payload = .obj d ∧ (TooLarge (Json.field? "min_change_pct" d) ∨
    Passes (Json.field? "min_change_pct" d) ∧ TooLarge (Json.field? "max_spread" d))

/-- The parser goes past both fields, and has to round one. -/
def RoundsOff (payload : Json) : Prop :=
  ∃ d, payload = .obj d ∧ Passes (Json.field? "min_change_pct" d) ∧
    Passes (Json.field? "max_spread" d) ∧
    (Rounded (Json.field? "min_change_pct" d) ∨ Rounded (Json.field? "max_spread" d))

/-- A field means one threshold. -/
theorem Threshold.unique {v : Option Json} {x y : Option PyFloat} (hx : Threshold v x)
    (hy : Threshold v y) : x = y := by
  cases hx <;> cases hy <;> rfl

theorem Rounded.not_threshold {v : Option Json} (h : Rounded v) (x : Option PyFloat) :
    ¬ Threshold v x := by
  intro hx
  obtain ⟨n, rfl, -, -, hbits⟩ := h
  cases hx with
  | int _ _ hbits' => exact hbits hbits'

theorem TooLarge.not_passes {v : Option Json} (h : TooLarge v) : ¬ Passes v := by
  obtain ⟨n, rfl, hle⟩ := h
  rintro (⟨x, hx⟩ | ⟨m, hm, -, hmax, -⟩)
  · cases hx with
    | int _ hmax => exact absurd hmax (not_lt.mpr hle)
  · obtain rfl := Json.int.inj (Option.some.inj hm)
    exact absurd hmax (not_lt.mpr hle)

/-! ### One threshold -/

/-- What the parser makes of a field it goes past: the threshold it means, or the nearest double. -/
inductive Reads : Option Json → Option PyFloat → Prop
  | threshold {v : Option Json} {x : Option PyFloat} (h : Threshold v x) : Reads v x
  | rounded {n : Int} (h : Rounded (some (.int n))) :
      Reads (some (.int n)) (some (.finite (intToBits 53 n)))

theorem Reads.passes {v : Option Json} {x : Option PyFloat} (h : Reads v x) : Passes v := by
  cases h with
  | threshold h => exact Or.inl ⟨x, h⟩
  | rounded h => exact Or.inr h

/-- What one iteration of the parser's loop makes of a field. -/
inductive ThresholdOutcome (v : Option Json) : Except PyError (Option PyFloat) → Prop
  | accepted {x : Option PyFloat} (h : Reads v x) : ThresholdOutcome v (.ok x)
  | rejected (hno : ¬ Passes v) (hsmall : ¬ TooLarge v) (text : String) :
      ThresholdOutcome v (.error (.valueError text))
  | overflowed (h : TooLarge v) : ThresholdOutcome v (.error .overflowError)

theorem checkThreshold_finite_eq (name : String) (q : ℚ) :
    checkThreshold name (.finite q) = if q < 0 then
      .error (.valueError s!"filter.{name} must be finite and non-negative")
    else .ok (some (.finite q)) := by
  unfold checkThreshold
  by_cases hq : q < 0 <;> simp [PyFloat.isFinite, PyFloat.lt, hq]

/-- A float that is no number is rejected. -/
theorem checkThreshold_of_not_finite (name : String) {x : PyFloat} (h : x.isFinite = false) :
    checkThreshold name x =
      .error (.valueError s!"filter.{name} must be finite and non-negative") := by
  unfold checkThreshold
  rw [h]
  rfl

/-- A field that holds no number of its kind is rejected for good. -/
theorem ThresholdOutcome.refused {v : Option Json} (hthreshold : ∀ x, ¬ Threshold v x)
    (hint : ∀ n : Int, v = some (.int n) → n < 0 ∧ n.natAbs < Json.floatOverflow) (text : String) :
    ThresholdOutcome v (.error (.valueError text)) := by
  refine .rejected ?_ ?_ text
  · rintro (⟨x, hx⟩ | ⟨n, hn, h0, -⟩)
    · exact hthreshold x hx
    · exact absurd h0 (not_le.mpr (hint n hn).1)
  · rintro ⟨n, hn, hle⟩
    exact absurd (hint n hn).2 (not_lt.mpr hle)

theorem thresholdOutcome_int (name : String) (n : Int) :
    ThresholdOutcome (some (.int n)) ((Json.floatOfInt n).bind (checkThreshold name)) := by
  by_cases hmax : n.natAbs < Json.floatOverflow
  · have hfloat : Json.floatOfInt n = .ok (.finite (intToBits 53 n)) :=
      if_neg (mt Json.overflowsFloat_iff.mp (not_le.mpr hmax))
    rw [hfloat]
    show ThresholdOutcome _ (checkThreshold name (.finite _))
    rw [checkThreshold_finite_eq]
    by_cases h0 : 0 ≤ n
    · have hround : (0 : ℚ) ≤ intToBits 53 n := by
        exact_mod_cast (intToBits_nonneg_iff (by decide)).mpr h0
      rw [if_neg (not_lt.mpr hround)]
      by_cases hbits : HasBits 53 n
      · rw [(intToBits_eq_self_iff h0).mpr hbits]
        exact .accepted (.threshold (.int h0 hmax hbits))
      · exact .accepted (.rounded ⟨n, rfl, h0, hmax, hbits⟩)
    · have hround : (intToBits 53 n : ℚ) < 0 := by
        exact_mod_cast not_le.mp (mt (intToBits_nonneg_iff (by decide)).mp h0)
      rw [if_pos hround]
      refine .refused (fun x hx => ?_) (fun m hm => ?_) _
      · cases hx with
        | int h0' => exact h0 h0'
      · obtain rfl := Json.int.inj (Option.some.inj hm)
        exact ⟨not_le.mp h0, hmax⟩
  · have hfloat : Json.floatOfInt n = .error .overflowError :=
      if_pos (Json.overflowsFloat_iff.mpr (not_lt.mp hmax))
    rw [hfloat]
    exact .overflowed ⟨n, rfl, not_lt.mp hmax⟩

theorem thresholdOutcome_float (name : String) (x : PyFloat) :
    ThresholdOutcome (some (.float x)) (checkThreshold name x) := by
  cases x with
  | finite q =>
      rw [checkThreshold_finite_eq]
      by_cases h0 : 0 ≤ q
      · rw [if_neg (not_lt.mpr h0)]
        exact .accepted (.threshold (.float h0))
      · rw [if_pos (not_le.mp h0)]
        refine .refused (fun x hx => ?_) (fun n hn => by cases hn) _
        cases hx with
        | float h0' => exact h0 h0'
  | inf s | nan =>
      rw [checkThreshold_of_not_finite name rfl]
      refine .refused (fun x hx => ?_) (fun n hn => by cases hn) _
      cases hx

/-- **The loop over the two fields reads each by the grammar**, or rounds it, or overflows. -/
theorem parseThreshold_outcome (payload : List (PyStr × Json)) (name : String) :
    ThresholdOutcome (Json.field? name payload) (parseThreshold payload name) := by
  unfold parseThreshold
  generalize Json.field? name payload = v
  cases v with
  | none => exact .accepted (.threshold .absent)
  | some v =>
      cases v with
      | null => exact .accepted (.threshold .null)
      | int n => exact thresholdOutcome_int name n
      | float x => exact thresholdOutcome_float name x
      | bool b | str s | arr xs | obj d =>
          refine .refused (fun x hx => ?_) (fun n hn => ?_) _
          · cases hx
          · cases hn

/-! ### The parser -/

/-- What the parser accepts, and what it returns. -/
inductive FilterRead : Json → Option SubscriptionFilter → Prop
  | null : FilterRead .null none
  | object {payload : List (PyStr × Json)} {minChangePct maxSpread : Option PyFloat}
      (hmin : Reads (Json.field? "min_change_pct" payload) minChangePct)
      (hmax : Reads (Json.field? "max_spread" payload) maxSpread) :
      FilterRead (.obj payload) (some { minChangePct, maxSpread })

/-- What the parser makes of the `filter` field. -/
inductive FilterOutcome (payload : Json) : Except PyError (Option SubscriptionFilter) → Prop
  | accepted {filter : Option SubscriptionFilter} (h : FilterRead payload filter) :
      FilterOutcome payload (.ok filter)
  | rejected (hno : ∀ filter, ¬ FilterGrammar payload filter) (hsmall : ¬ Overflows payload)
      (hround : ¬ RoundsOff payload) (text : String) :
      FilterOutcome payload (.error (.valueError text))
  | overflowed (h : Overflows payload) : FilterOutcome payload (.error .overflowError)

theorem FilterGrammar.unique {payload : Json} {f f' : Option SubscriptionFilter}
    (h : FilterGrammar payload f) (h' : FilterGrammar payload f') : f = f' := by
  cases h with
  | null =>
      cases h'
      rfl
  | object hmin hmax =>
      cases h' with
      | object hmin' hmax' => rw [hmin.unique hmin', hmax.unique hmax']

/-- Where nothing has to be rounded, the parser returns what the grammar says. -/
theorem FilterRead.grammar {payload : Json} {filter : Option SubscriptionFilter}
    (h : FilterRead payload filter) : FilterGrammar payload filter ∨ RoundsOff payload := by
  cases h with
  | null => exact Or.inl .null
  | @object d x y hmin hmax =>
      have hrounds (hr : Rounded (Json.field? "min_change_pct" d) ∨
          Rounded (Json.field? "max_spread" d)) : RoundsOff (.obj d) :=
        ⟨d, rfl, hmin.passes, hmax.passes, hr⟩
      generalize hv : Json.field? "min_change_pct" d = v at hmin hrounds
      generalize hw : Json.field? "max_spread" d = w at hmax hrounds
      cases hmin with
      | rounded hr => exact Or.inr (hrounds (Or.inl hr))
      | threshold hx =>
          cases hmax with
          | rounded hr => exact Or.inr (hrounds (Or.inr hr))
          | threshold hy => exact Or.inl (.object (hv ▸ hx) (hw ▸ hy))

theorem RoundsOff.not_grammar {payload : Json} (h : RoundsOff payload)
    (filter : Option SubscriptionFilter) : ¬ FilterGrammar payload filter := by
  intro hg
  obtain ⟨d, rfl, -, -, hr⟩ := h
  cases hg with
  | object hmin hmax => exact hr.elim (·.not_threshold _ hmin) (·.not_threshold _ hmax)

/-- The parser on an object: `min_change_pct` first, then `max_spread`. -/
theorem parseSubscriptionFilter_obj (d : List (PyStr × Json)) :
    parseSubscriptionFilter (.obj d) =
      (parseThreshold d "min_change_pct").bind fun minChangePct =>
        (parseThreshold d "max_spread").bind fun maxSpread =>
          .ok (some { minChangePct, maxSpread }) := rfl

/-- An object is rejected at a field that the parser does not go past. -/
theorem FilterOutcome.refused {d : List (PyStr × Json)}
    (hno : Passes (Json.field? "min_change_pct" d) → ¬ Passes (Json.field? "max_spread" d))
    (hmin : ¬ TooLarge (Json.field? "min_change_pct" d))
    (hmax : Passes (Json.field? "min_change_pct" d) → ¬ TooLarge (Json.field? "max_spread" d))
    (text : String) : FilterOutcome (.obj d) (.error (.valueError text)) := by
  refine .rejected (fun f hf => ?_) ?_ ?_ text
  · cases hf with
    | object hx hy => exact hno (Or.inl ⟨_, hx⟩) (Or.inl ⟨_, hy⟩)
  · rintro ⟨d', hd, hlarge | ⟨hpass, hlarge⟩⟩
    · exact hmin (Json.obj.inj hd ▸ hlarge)
    · exact hmax (Json.obj.inj hd ▸ hpass) (Json.obj.inj hd ▸ hlarge)
  · rintro ⟨d', hd, hpass, hpass', -⟩
    exact hno (Json.obj.inj hd ▸ hpass) (Json.obj.inj hd ▸ hpass')

/-- **The parser reads the filter by the grammar**, or rounds it, or overflows. -/
theorem parseSubscriptionFilter_outcome (payload : Json) :
    FilterOutcome payload (parseSubscriptionFilter payload) := by
  cases payload with
  | null => exact .accepted .null
  | bool b | int n | float x | str s | arr xs =>
      refine .rejected (fun f hf => ?_) ?_ ?_ _
      · cases hf
      · rintro ⟨d, hd, -⟩
        cases hd
      · rintro ⟨d, hd, -⟩
        cases hd
  | obj d =>
      rw [parseSubscriptionFilter_obj]
      have hmin := parseThreshold_outcome d "min_change_pct"
      have hmax := parseThreshold_outcome d "max_spread"
      generalize parseThreshold d "min_change_pct" = minimum at hmin ⊢
      generalize parseThreshold d "max_spread" = limit at hmax ⊢
      cases hmin with
      | overflowed hlarge => exact .overflowed ⟨d, rfl, Or.inl hlarge⟩
      | rejected hno hsmall text =>
          exact .refused (fun hpass => absurd hpass hno) hsmall (fun hpass => absurd hpass hno) _
      | accepted hx =>
          cases hmax with
          | overflowed hlarge => exact .overflowed ⟨d, rfl, Or.inr ⟨hx.passes, hlarge⟩⟩
          | rejected hno hsmall text =>
              exact .refused (fun _ => hno) (fun hlarge => hlarge.not_passes hx.passes)
                (fun _ => hsmall) _
          | accepted hy => exact .accepted (.object hx hy)

theorem parseSubscriptionFilter_overflow {payload : Json} :
    parseSubscriptionFilter payload = .error .overflowError ↔ Overflows payload := by
  have h := parseSubscriptionFilter_outcome payload
  generalize parseSubscriptionFilter payload = r at h ⊢
  cases h with
  | accepted hread =>
      refine iff_of_false (by simp) fun hover => ?_
      obtain ⟨d, rfl, hlarge | ⟨-, hlarge⟩⟩ := hover
      · cases hread with
        | object hmin => exact hlarge.not_passes hmin.passes
      · cases hread with
        | object _ hmax => exact hlarge.not_passes hmax.passes
  | rejected _ hsmall => exact iff_of_false (by simp) hsmall
  | overflowed hover => exact iff_of_true rfl hover

/-! ### Accepted filters are finite -/

/-- Both thresholds are numbers. -/
structure SubscriptionFilter.Finite (f : SubscriptionFilter) : Prop where
  minChangePct : ∀ x ∈ f.minChangePct, ∃ q, x = .finite q
  maxSpread : ∀ x ∈ f.maxSpread, ∃ q, x = .finite q

theorem Reads.finite {v : Option Json} {r : Option PyFloat} (h : Reads v r) :
    ∀ x ∈ r, ∃ q, x = .finite q := by
  intro x hx
  cases h with
  | threshold h =>
      cases h with
      | absent | null => cases hx
      | int | float => exact ⟨_, (Option.some.inj hx).symm⟩
  | rounded => exact ⟨_, (Option.some.inj hx).symm⟩

/-- **The parser accepts finite thresholds only.** -/
theorem parseSubscriptionFilter_finite {payload : Json} {filter : Option SubscriptionFilter}
    (h : parseSubscriptionFilter payload = .ok filter) : ∀ f ∈ filter, f.Finite := by
  intro f hf
  have hout := parseSubscriptionFilter_outcome payload
  rw [h] at hout
  cases hout with
  | accepted hread =>
      cases hread with
      | null => cases hf
      | object hmin hmax =>
          obtain rfl := Option.some.inj hf
          exact ⟨hmin.finite, hmax.finite⟩

end MarketData.Gateway
