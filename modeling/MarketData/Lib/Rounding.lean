import Mathlib.Data.Int.Log
import Mathlib.Data.Rat.Floor
import Mathlib.Tactic.FieldSimp
import Mathlib.Tactic.GCongr
import Mathlib.Tactic.Linarith
import Mathlib.Tactic.Positivity

/-!
# MarketData.Lib.Rounding

Rounding of rationals. A floating operation rounds its exact result to so many bits, and all that is
said of it here is its relative error (`Rounds`). Three ways to an integer come with their exact
definitions: towards zero (`trunc`), to the nearest with ties to even (`halfEven`) and to the
nearest with ties away from zero (`halfAway`). An integer is rounded to so many bits without leaving
the integers (`intToBits`), and stays as it is exactly if it has no more of them
(`intToBits_eq_self_iff`).
-/

namespace MarketData

/-- A rounding to `p` bits: the relative error is at most `2 ^ -p`. -/
def Rounds (p : Nat) (rnd : ℚ → ℚ) : Prop := ∀ x, |rnd x - x| ≤ |x| / 2 ^ p

namespace Rounds

variable {p : Nat} {rnd : ℚ → ℚ}

theorem abs_le (h : Rounds p rnd) (x : ℚ) : |rnd x| ≤ |x| + |x| / 2 ^ p := by
  have hsplit : rnd x = x + (rnd x - x) := by ring
  calc |rnd x| = |x + (rnd x - x)| := by rw [← hsplit]
    _ ≤ |x| + |rnd x - x| := abs_add_le ..
    _ ≤ |x| + |x| / 2 ^ p := by gcongr; exact h x

/-- A conversion and a division, each of them rounded. -/
theorem div_error (h : Rounds p rnd) (x : ℚ) {c : ℚ} (hc : 0 < c) :
    |rnd (rnd x / c) - x / c| ≤ (2 * |x| + |x| / 2 ^ p) / 2 ^ p / c := by
  have hdiv : |rnd (rnd x / c) - rnd x / c| ≤ (|x| + |x| / 2 ^ p) / c / 2 ^ p := by
    refine (h _).trans ?_
    rw [abs_div, abs_of_pos hc]
    gcongr
    exact h.abs_le x
  have hconv : |rnd x / c - x / c| ≤ |x| / 2 ^ p / c := by
    rw [← sub_div, abs_div, abs_of_pos hc]
    gcongr
    exact h x
  have hsplit : rnd (rnd x / c) - x / c = (rnd (rnd x / c) - rnd x / c) + (rnd x / c - x / c) := by
    ring
  calc |rnd (rnd x / c) - x / c|
      ≤ |rnd (rnd x / c) - rnd x / c| + |rnd x / c - x / c| := by
        rw [hsplit]
        exact abs_add_le ..
    _ ≤ (|x| + |x| / 2 ^ p) / c / 2 ^ p + |x| / 2 ^ p / c := add_le_add hdiv hconv
    _ = (2 * |x| + |x| / 2 ^ p) / 2 ^ p / c := by ring

end Rounds

/-! ### Roundings to an integer -/

/-- Towards zero. -/
def trunc (x : ℚ) : Int := if 0 ≤ x then ⌊x⌋ else ⌈x⌉

/-- To the nearest integer, ties to the even one. -/
def halfEven (x : ℚ) : Int :=
  if x - ⌊x⌋ < 1 / 2 then ⌊x⌋
  else if 1 / 2 < x - ⌊x⌋ then ⌊x⌋ + 1
  else if ⌊x⌋ % 2 = 0 then ⌊x⌋ else ⌊x⌋ + 1

/-- To the nearest integer, ties away from zero. -/
def halfAway (x : ℚ) : Int := if 0 ≤ x then ⌊x + 1 / 2⌋ else -⌊-x + 1 / 2⌋

theorem abs_sub_trunc_le (x : ℚ) : |x - trunc x| ≤ 1 := by
  have hfloor := Int.floor_le x
  have hfloor' := Int.lt_floor_add_one x
  have hceil := Int.le_ceil x
  have hceil' := Int.ceil_lt_add_one x
  unfold trunc
  rw [abs_le]
  split <;> constructor <;> linarith

theorem abs_halfEven_sub_le (x : ℚ) : |halfEven x - x| ≤ 1 / 2 := by
  have hfloor := Int.floor_le x
  have hfloor' := Int.lt_floor_add_one x
  unfold halfEven
  rw [abs_le]
  split
  · constructor <;> linarith
  · split
    · push_cast
      constructor <;> linarith
    · split
      · constructor <;> linarith
      · push_cast
        constructor <;> linarith

theorem trunc_intCast (n : Int) : trunc n = n := by
  simp [trunc]

theorem halfEven_intCast (n : Int) : halfEven n = n := by
  simp [halfEven]

/-- **Less than a half away from an integer.** -/
theorem halfAway_eq {x : ℚ} {n : Int} (h : |x - n| < 1 / 2) : halfAway x = n := by
  obtain ⟨hlow, hhigh⟩ := abs_lt.mp h
  unfold halfAway
  split
  · rw [Int.floor_eq_iff]
    constructor <;> linarith
  · rw [neg_eq_iff_eq_neg, Int.floor_eq_iff]
    push_cast
    constructor <;> linarith

/-! ### Rounding to so many bits -/

/-- To the nearest number of `p` bits, ties to the even one, without bounds on the exponent. -/
def toBits (p : Nat) (x : ℚ) : ℚ :=
  let unit : ℚ := 2 ^ (Int.log 2 |x| + 1 - p)
  halfEven (x / unit) * unit

/-- **Rounding to `p` bits has the relative error it is said to have.** -/
theorem rounds_toBits (p : Nat) : Rounds p (toBits p) := by
  intro x
  rcases eq_or_ne x 0 with rfl | hx
  · simp [toBits, halfEven]
  · have hunit : (0 : ℚ) < 2 ^ (Int.log 2 |x| + 1 - p) := zpow_pos (by norm_num) _
    have hhalf := abs_halfEven_sub_le (x / 2 ^ (Int.log 2 |x| + 1 - p))
    have hlog : (2 : ℚ) ^ Int.log 2 |x| ≤ |x| :=
      Int.zpow_log_le_self (by norm_num) (abs_pos.mpr hx)
    have hfactor : toBits p x - x =
        (halfEven (x / 2 ^ (Int.log 2 |x| + 1 - p)) - x / 2 ^ (Int.log 2 |x| + 1 - p)) *
          2 ^ (Int.log 2 |x| + 1 - p) := by
      rw [toBits, sub_mul, div_mul_cancel₀ x hunit.ne']
    have hpow : (2 : ℚ) ^ (Int.log 2 |x| + 1 - p) = 2 ^ Int.log 2 |x| * 2 / 2 ^ p := by
      rw [zpow_sub₀ (by norm_num), zpow_add₀ (by norm_num), zpow_one, zpow_natCast]
    calc |toBits p x - x|
        = |halfEven (x / 2 ^ (Int.log 2 |x| + 1 - p)) - x / 2 ^ (Int.log 2 |x| + 1 - p)| *
            2 ^ (Int.log 2 |x| + 1 - p) := by rw [hfactor, abs_mul, abs_of_pos hunit]
      _ ≤ 1 / 2 * 2 ^ (Int.log 2 |x| + 1 - p) := mul_le_mul_of_nonneg_right hhalf hunit.le
      _ = 2 ^ Int.log 2 |x| / 2 ^ p := by rw [hpow]; ring
      _ ≤ |x| / 2 ^ p := by gcongr

/-! ### Rounding an integer to so many bits -/

/-- The weight of the last of the first `p` bits of `n`. -/
def lastBit (p n : Nat) : Nat := 2 ^ (n.log2 + 1 - p)

/-- To the nearest number of `p` bits, ties to the even one. -/
def natToBits (p n : Nat) : Nat :=
  let quotient := n / lastBit p n
  let twice := 2 * (n % lastBit p n)
  (if twice < lastBit p n then quotient
    else if lastBit p n < twice then quotient + 1
    else if quotient % 2 = 0 then quotient else quotient + 1) * lastBit p n

/-- An integer to the nearest one of `p` bits, ties to the even one. -/
def intToBits (p : Nat) (n : Int) : Int := n.sign * natToBits p n.natAbs

/-- `p` bits and a scale hold the integer. -/
def HasBits (p : Nat) (n : Int) : Prop := ∃ m e : Nat, m < 2 ^ p ∧ n.natAbs = m * 2 ^ e

section integers

variable {p : Nat}

theorem lastBit_pos (p n : Nat) : 0 < lastBit p n := Nat.two_pow_pos _

/-- The bits that are kept. -/
theorem div_lastBit_lt (p n : Nat) : n / lastBit p n < 2 ^ p := by
  rw [Nat.div_lt_iff_lt_mul (lastBit_pos p n), lastBit, ← pow_add]
  exact Nat.lt_log2_self.trans_le (Nat.pow_le_pow_right (by decide) (by omega))

/-- A number of `p` bits ends at its last bit or before. -/
theorem lastBit_dvd_of_hasBits {n : Nat} (h : HasBits p n) : lastBit p n ∣ n := by
  obtain ⟨m, e, hm, heq⟩ := h
  rw [Int.natAbs_natCast] at heq
  rcases Nat.eq_zero_or_pos n with rfl | hn
  · exact dvd_zero _
  · have hlog : n.log2 < p + e := by
      rw [Nat.log2_lt hn.ne', heq, pow_add]
      exact (Nat.mul_lt_mul_right (Nat.two_pow_pos e)).mpr hm
    rw [heq, lastBit, ← heq]
    exact (pow_dvd_pow 2 (by omega)).trans (heq ▸ Dvd.intro_left m rfl)

/-- **Exactly the numbers of `p` bits are not rounded.** -/
theorem natToBits_eq_self_iff {n : Nat} : natToBits p n = n ↔ HasBits p n := by
  constructor
  · intro h
    have hdvd : lastBit p n ∣ n := Dvd.intro_left _ h
    refine ⟨n / lastBit p n, n.log2 + 1 - p, div_lastBit_lt p n, ?_⟩
    rw [Int.natAbs_natCast]
    exact (Nat.div_mul_cancel hdvd).symm
  · intro h
    have hdvd := lastBit_dvd_of_hasBits h
    simp only [natToBits, Nat.mod_eq_zero_of_dvd hdvd, mul_zero, if_pos (lastBit_pos p n)]
    exact Nat.div_mul_cancel hdvd

theorem natToBits_pos {n : Nat} (hp : 0 < p) (hn : 0 < n) : 0 < natToBits p n := by
  have hle : lastBit p n ≤ n :=
    (Nat.pow_le_pow_right (by decide) (by omega)).trans (Nat.log2_self_le hn.ne')
  have hquot : 0 < n / lastBit p n := Nat.div_pos hle (lastBit_pos p n)
  refine Nat.mul_pos ?_ (lastBit_pos p n)
  split
  · exact hquot
  · split
    · exact Nat.succ_pos _
    · split
      · exact hquot
      · exact Nat.succ_pos _

theorem intToBits_nonneg_iff {n : Int} (hp : 0 < p) : 0 ≤ intToBits p n ↔ 0 ≤ n := by
  rcases lt_trichotomy n 0 with hn | rfl | hn
  · have hpos := natToBits_pos hp (Int.natAbs_pos.mpr hn.ne)
    rw [intToBits, Int.sign_eq_neg_one_of_neg hn]
    omega
  · simp [intToBits]
  · rw [intToBits, Int.sign_eq_one_of_pos hn]
    omega

/-- **Exactly the integers of `p` bits are not rounded.** -/
theorem intToBits_eq_self_iff {n : Int} (h0 : 0 ≤ n) : intToBits p n = n ↔ HasBits p n := by
  obtain ⟨k, rfl⟩ := Int.eq_ofNat_of_zero_le h0
  rw [← natToBits_eq_self_iff, intToBits, Int.natAbs_natCast]
  rcases Nat.eq_zero_or_pos k with rfl | hk
  · simp [natToBits]
  · rw [Int.sign_eq_one_of_pos (by exact_mod_cast hk), one_mul, Nat.cast_inj]

end integers

end MarketData
