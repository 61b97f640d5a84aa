import Mathlib.Algebra.BigOperators.Ring.List
import Mathlib.Algebra.Order.BigOperators.Group.List
import Mathlib.Algebra.Order.Ring.Nat
import Mathlib.Data.List.Sort

/-!
# MarketData.Lib.Rank

**Ranks in a list.** An entry has rank `k` if at most `k` entries are below it and more than `k` are
at or below it (`HasRank`): what stands at index `k` of the sorted list has rank `k`
(`hasRank_select`), and the definition counts and does not sort.

Counts add up over the pieces of a list. So if every piece has an entry of some rank, an entry of
the whole lies between two of these, as far as its rank lies between the sums of theirs
(`HasRank.exists_le`, `HasRank.exists_ge`). `sum_div_le` and `div_lt_sum` are those bounds for ranks
that are a fraction of the length, rounded down.
-/

namespace MarketData

universe u v

variable {α : Type u} {ι : Type v}

section order

variable [LinearOrder α]

/-- `v` is an entry of `xs` of rank `k`, counted from zero. -/
structure HasRank (xs : List α) (k : Nat) (v : α) : Prop where
  mem : v ∈ xs
  below : xs.countP (fun x => decide (x < v)) ≤ k
  atOrBelow : k < xs.countP (fun x => decide (x ≤ v))

/-- The entry at index `k` of the sorted list, or the last one. -/
def select (xs : List α) (k : Nat) (hne : xs ≠ []) : α :=
  (xs.insertionSort (· ≤ ·)).get ⟨min k (xs.length - 1), by
    rw [List.length_insertionSort]
    exact (min_le_right _ _).trans_lt (Nat.sub_one_lt (List.length_pos_iff.mpr hne).ne')⟩

namespace HasRank

variable {xs : List α} {k : Nat} {v : α}

theorem perm {ys : List α} (h : HasRank xs k v) (hp : xs.Perm ys) : HasRank ys k v where
  mem := hp.mem_iff.mp h.mem
  below := (hp.countP_eq _).symm.trans_le h.below
  atOrBelow := h.atOrBelow.trans_eq (hp.countP_eq _)

/-- In a sorted list the rank is the index. -/
theorem of_sorted {l r : List α} (hs : (l ++ v :: r).Pairwise (· ≤ ·)) :
    HasRank (l ++ v :: r) l.length v := by
  obtain ⟨-, hvr, hlv⟩ := List.pairwise_append.mp hs
  obtain ⟨hr, -⟩ := List.pairwise_cons.mp hvr
  refine ⟨List.mem_append_right _ List.mem_cons_self, ?_, ?_⟩
  · have hnone : (v :: r).countP (fun x => decide (x < v)) = 0 := by
      refine List.countP_eq_zero.mpr fun x hx => ?_
      rcases List.mem_cons.mp hx with rfl | hx
      · simp
      · simpa using hr x hx
    rw [List.countP_append, hnone]
    exact List.countP_le_length
  · have hall : l.countP (fun x => decide (x ≤ v)) = l.length :=
      List.countP_eq_length.mpr fun x hx => decide_eq_true (hlv x hx v List.mem_cons_self)
    have hself : 0 < (v :: r).countP (fun x => decide (x ≤ v)) :=
      List.countP_pos_iff.mpr ⟨v, List.mem_cons_self, decide_eq_true le_rfl⟩
    rw [List.countP_append, hall]
    omega

end HasRank

/-- **What stands at index `k` of the sorted list has rank `k`.** -/
theorem hasRank_select (xs : List α) {k : Nat} (hk : k < xs.length) (hne : xs ≠ []) :
    HasRank xs k (select xs k hne) := by
  have hmin : min k (xs.length - 1) = k := min_eq_left (Nat.le_sub_one_of_lt hk)
  have hlen : k < (xs.insertionSort (· ≤ ·)).length := by rwa [List.length_insertionSort]
  have hsplit : (xs.insertionSort (· ≤ ·)).take k ++
      select xs k hne :: (xs.insertionSort (· ≤ ·)).drop (k + 1) = xs.insertionSort (· ≤ ·) := by
    simp only [select, hmin, List.get_eq_getElem, List.getElem_cons_drop, List.take_append_drop]
  have hsorted := List.pairwise_insertionSort (· ≤ ·) xs
  rw [← hsplit] at hsorted
  have hrank := HasRank.of_sorted hsorted
  rw [hsplit, List.length_take, min_eq_left hlen.le] at hrank
  exact hrank.perm (List.perm_insertionSort (· ≤ ·) xs)

/-! ### A list in pieces -/

section pieces

variable {pieces : List ι} {piece : ι → List α} {k : ι → Nat} {n : Nat} {x : α}

/-- If the ranks of the pieces add up to at most the rank of the whole, some piece's entry is at or
below that of the whole. -/
theorem HasRank.exists_le (hx : HasRank (pieces.flatMap piece) n x)
    (hk : (pieces.map k).sum ≤ n) : ∃ i ∈ pieces, ∀ v, HasRank (piece i) (k i) v → v ≤ x := by
  by_contra hnone
  push Not at hnone
  -- then what is at or below `x` in a piece is below the entry of the piece
  have hcount : ∀ i ∈ pieces, (piece i).countP (fun y => decide (y ≤ x)) ≤ k i := by
    intro i hi
    obtain ⟨v, hv, hlt⟩ := hnone i hi
    calc (piece i).countP (fun y => decide (y ≤ x))
        ≤ (piece i).countP (fun y => decide (y < v)) :=
          List.countP_mono_left fun y _ hy => decide_eq_true ((of_decide_eq_true hy).trans_lt hlt)
      _ ≤ k i := hv.below
  have hle : (pieces.flatMap piece).countP (fun y => decide (y ≤ x)) ≤ n :=
    calc (pieces.flatMap piece).countP (fun y => decide (y ≤ x))
        = (pieces.map fun i => (piece i).countP fun y => decide (y ≤ x)).sum := List.countP_flatMap
      _ ≤ (pieces.map k).sum := List.sum_le_sum hcount
      _ ≤ n := hk
  exact absurd hx.atOrBelow (not_lt.mpr hle)

/-- If the rank of the whole is less than the places of the pieces' entries add up to, some piece's
entry is at or above that of the whole. -/
theorem HasRank.exists_ge (hx : HasRank (pieces.flatMap piece) n x)
    (hk : n < (pieces.map fun i => k i + 1).sum) :
    ∃ i ∈ pieces, ∀ v, HasRank (piece i) (k i) v → x ≤ v := by
  by_contra hnone
  push Not at hnone
  -- then what is at or below the entry of a piece is below `x`
  have hcount : ∀ i ∈ pieces, k i + 1 ≤ (piece i).countP (fun y => decide (y < x)) := by
    intro i hi
    obtain ⟨v, hv, hlt⟩ := hnone i hi
    calc k i + 1 ≤ (piece i).countP (fun y => decide (y ≤ v)) := hv.atOrBelow
      _ ≤ (piece i).countP (fun y => decide (y < x)) :=
          List.countP_mono_left fun y _ hy => decide_eq_true ((of_decide_eq_true hy).trans_lt hlt)
  have hlt : n < (pieces.flatMap piece).countP (fun y => decide (y < x)) :=
    calc n < (pieces.map fun i => k i + 1).sum := hk
      _ ≤ (pieces.map fun i => (piece i).countP fun y => decide (y < x)).sum :=
          List.sum_le_sum hcount
      _ = (pieces.flatMap piece).countP (fun y => decide (y < x)) := List.countP_flatMap.symm
  exact absurd hx.below (not_le.mpr hlt)

end pieces

end order

/-! ### Fractions rounded down -/

/-- Rounding down the parts gives at most what rounding down the whole gives. -/
theorem sum_div_le (l : List ι) (f : ι → Nat) (d : Nat) :
    (l.map fun i => f i / d).sum ≤ (l.map f).sum / d := by
  induction l with
  | nil => simp
  | cons i l ih =>
      simp only [List.map_cons, List.sum_cons]
      exact (Nat.add_le_add_left ih _).trans Nat.div_add_div_le_add_div

/-- Rounding each part up to the next integer gives more than the whole. -/
theorem div_lt_sum {l : List ι} (hl : l ≠ []) (f : ι → Nat) {d : Nat} (hd : 0 < d) :
    (l.map f).sum / d < (l.map fun i => f i / d + 1).sum := by
  refine (Nat.div_lt_iff_lt_mul hd).mpr ?_
  rw [← List.sum_map_mul_right]
  exact List.sum_lt_sum_of_ne_nil hl _ _ fun i _ => Nat.lt_mul_of_div_lt (Nat.lt_succ_self _) hd

end MarketData
