import Mathlib.Data.Finset.Card

/-!
# MarketData.Lib.Cursor

The **contiguous cursor**: `while n in present: n += 1`. The loop needs as much fuel as
there are present numbers, so for a finite `present` it always stops, and it stops at
the first absent number at or after its start.
-/

namespace MarketData

/-- Advance `n` while it is present. -/
def cursor (present : Nat → Bool) : Nat → Nat → Nat
  | 0, n => n
  | fuel + 1, n => if present n then cursor present fuel (n + 1) else n

namespace Cursor

variable {present : Nat → Bool}

theorem le_cursor (fuel n : Nat) : n ≤ cursor present fuel n := by
  induction fuel generalizing n with
  | zero => exact le_rfl
  | succ fuel ih =>
      unfold cursor
      split
      · exact (Nat.le_succ n).trans (ih (n + 1))
      · exact le_rfl

/-- Everything the cursor passed is present. -/
theorem present_of_lt {fuel n k : Nat} (hk : n ≤ k) (hlt : k < cursor present fuel n) :
    present k = true := by
  induction fuel generalizing n with
  | zero => exact absurd hlt (not_lt.mpr hk)
  | succ fuel ih =>
      unfold cursor at hlt
      split at hlt
      · rcases Nat.eq_or_lt_of_le hk with rfl | hk
        · assumption
        · exact ih hk hlt
      · exact absurd hlt (not_lt.mpr hk)

/-- **The cursor stops at an absent number**, if it has fuel for all the present ones. -/
theorem not_present {fuel n : Nat} (s : Finset Nat) (hs : ∀ k, n ≤ k → present k = true → k ∈ s)
    (hfuel : s.card ≤ fuel) : present (cursor present fuel n) = false := by
  induction fuel generalizing n s with
  | zero =>
      rw [Nat.le_zero, Finset.card_eq_zero] at hfuel
      subst hfuel
      exact Bool.eq_false_iff.mpr fun h => absurd (hs n le_rfl h) (Finset.notMem_empty n)
  | succ fuel ih =>
      unfold cursor
      split
      · rename_i hn
        refine ih (s.erase n) (fun k hk hp => ?_) ?_
        · exact Finset.mem_erase.mpr ⟨by omega, hs k (by omega) hp⟩
        · rw [Finset.card_erase_of_mem (hs n le_rfl hn)]
          omega
      · rename_i hn
        exact Bool.eq_false_iff.mpr hn

end Cursor

end MarketData
