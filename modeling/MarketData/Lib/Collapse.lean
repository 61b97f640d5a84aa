import Mathlib.Data.List.Destutter

/-!
# MarketData.Lib.Collapse

A trace with **consecutive repeats collapsed**, as it grows at its end: a repeat of the last
entry changes nothing, anything else is appended. This is the stuttering half of "at least
once, in order".
-/

namespace MarketData

universe u

variable {α : Type u} [DecidableEq α]

/-- The list with consecutive repeats collapsed. -/
def collapse (l : List α) : List α := l.destutter (· ≠ ·)

namespace Collapse

theorem destutter'_snoc (a b : α) (l : List α) :
    (l ++ [b]).destutter' (· ≠ ·) a =
      if (a :: l).getLast? = some b then l.destutter' (· ≠ ·) a
      else l.destutter' (· ≠ ·) a ++ [b] := by
  induction l generalizing a with
  | nil => by_cases h : a = b <;> simp [h]
  | cons x l ih =>
      rw [List.cons_append, List.getLast?_cons_cons]
      by_cases h : a = x
      · subst h
        rw [List.destutter'_cons_neg _ (not_not.mpr rfl),
          List.destutter'_cons_neg _ (not_not.mpr rfl)]
        exact ih a
      · rw [List.destutter'_cons_pos _ h, List.destutter'_cons_pos _ h, ih x]
        split <;> simp

theorem snoc (l : List α) (b : α) :
    collapse (l ++ [b]) = if l.getLast? = some b then collapse l else collapse l ++ [b] := by
  cases l with
  | nil => simp [collapse]
  | cons a l => exact destutter'_snoc a b l

/-- Collapsing keeps the last entry. -/
theorem getLast? (l : List α) : (collapse l).getLast? = l.getLast? := by
  induction l using List.reverseRecOn with
  | nil => rfl
  | append_singleton l b ih =>
      rw [snoc]
      split
      · rename_i h
        rw [ih, h, List.getLast?_concat]
      · simp

/-- A repeat of the last entry. -/
theorem snoc_last {l pre : List α} {b : α} (h : collapse l = pre ++ [b]) :
    collapse (l ++ [b]) = pre ++ [b] := by
  rw [snoc, if_pos, h]
  rw [← getLast?, h, List.getLast?_concat]

/-- An entry that is not in the collapsed list. -/
theorem snoc_new {l : List α} {b : α} (h : b ∉ collapse l) :
    collapse (l ++ [b]) = collapse l ++ [b] := by
  rw [snoc, if_neg]
  rw [← getLast?]
  exact fun hl => h (List.mem_of_getLast? hl)

end Collapse

end MarketData
