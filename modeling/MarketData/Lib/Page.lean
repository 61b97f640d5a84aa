import Mathlib.Data.Set.Function
import Mathlib.Data.List.Sort

/-!
# MarketData.Lib.Page

**The first rows of an ordered selection**: `WHERE p ORDER BY key LIMIT limit` over a list of rows.

`IsPage` says what the answer is without saying how it is found: rows of the selection, ascending,
no more than the limit, and where a row is left out the limit is used up by rows before it. As long
as the key tells the rows of the selection apart there is exactly one such list (`IsPage.unique`),
so the order in which the rows lie in the table does not matter; sorting and cutting finds it
(`isPage_page`), and a larger limit only adds rows at the end (`IsPage.initial_of_le`).
-/

namespace MarketData

universe u v w

variable {α : Type u} {β : Type v} {γ : Type w} [LinearOrder β]

/-- The first `limit` rows of the selection, in the order of their keys. -/
def page (p : α → Prop) [DecidablePred p] (key : α → β) (limit : Nat) (rows : List α) : List α :=
  ((rows.filter (fun x => decide (p x))).insertionSort (fun x y => key x ≤ key y)).take limit

/-- `l` holds the first `limit` elements of `S`, in the order of their keys. -/
structure IsPage (S : Set α) (key : α → β) (limit : Nat) (l : List α) : Prop where
  sound : ∀ x ∈ l, x ∈ S
  ascending : l.Pairwise (fun x y => key x < key y)
  length_le : l.length ≤ limit
  complete : ∀ x ∈ S, x ∈ l ∨ l.length = limit ∧ ∀ y ∈ l, key y < key x

/-- Sorted by a key that tells the elements apart is strictly sorted. -/
theorem pairwise_lt_insertionSort {key : α → β} {l : List α} (hn : (l.map key).Nodup) :
    (l.insertionSort (fun x y => key x ≤ key y)).Pairwise (fun x y => key x < key y) := by
  have htotal : Std.Total (fun x y => key x ≤ key y) := ⟨fun x y => le_total (key x) (key y)⟩
  have htrans : IsTrans α (fun x y => key x ≤ key y) := ⟨fun _ _ _ h h' => le_trans h h'⟩
  have hsorted := List.pairwise_insertionSort (fun x y => key x ≤ key y) l
  have hnodup : (l.insertionSort (fun x y => key x ≤ key y)).Pairwise
      (fun x y => key x ≠ key y) := by
    have hperm := (List.perm_insertionSort (fun x y => key x ≤ key y) l).map key
    exact List.pairwise_map.mp (hperm.nodup_iff.mpr hn)
  exact hsorted.imp₂ (fun _ _ hle hne => lt_of_le_of_ne hle hne) hnodup

/-- **Sorting and cutting finds the page.** -/
theorem isPage_page {p : α → Prop} [DecidablePred p] {key : α → β} {rows : List α}
    (hn : ((rows.filter (fun x => decide (p x))).map key).Nodup) (limit : Nat) :
    IsPage {x | x ∈ rows ∧ p x} key limit (page p key limit rows) := by
  have hsorted := pairwise_lt_insertionSort hn
  have hmem : ∀ x, x ∈ (rows.filter (fun x => decide (p x))).insertionSort
      (fun x y => key x ≤ key y) ↔ x ∈ rows ∧ p x := by
    intro x
    rw [List.mem_insertionSort, List.mem_filter, decide_eq_true_iff]
  unfold page
  generalize (rows.filter (fun x => decide (p x))).insertionSort
    (fun x y => key x ≤ key y) = sorted at hsorted hmem ⊢
  have hsplit := List.take_append_drop limit sorted
  refine ⟨fun x hx => (hmem x).mp (List.mem_of_mem_take hx), ?_,
    List.length_take_le limit sorted, ?_⟩
  · exact hsorted.sublist (List.take_sublist limit sorted)
  · intro x hx
    rw [← hsplit, List.pairwise_append] at hsorted
    rcases List.mem_append.mp (hsplit ▸ (hmem x).mpr hx) with hx | hx
    · exact Or.inl hx
    · refine Or.inr ⟨?_, fun y hy => hsorted.2.2 y hy x hx⟩
      have hlong : limit < sorted.length := by
        have hpos := List.length_pos_of_mem hx
        rw [List.length_drop] at hpos
        omega
      rw [List.length_take]
      omega

namespace IsPage

variable {S : Set α} {key : α → β} {limit : Nat} {l l' : List α}

theorem nodup (h : IsPage S key limit l) : l.Nodup :=
  h.ascending.imp fun hlt heq => absurd (heq ▸ hlt) (lt_irrefl _)

/-- Whoever leaves an element out is full of elements before it. -/
theorem subset (h : IsPage S key limit l) (h' : IsPage S key limit l') : l ⊆ l' := by
  intro x hx
  by_contra hx'
  obtain ⟨hfull, hbefore⟩ := (h'.complete x (h.sound x hx)).resolve_left hx'
  have hsub : l' ⊆ l := by
    intro y hy
    by_contra hy'
    obtain ⟨-, hafter⟩ := (h.complete y (h'.sound y hy)).resolve_left hy'
    exact lt_asymm (hbefore y hy) (hafter x hx)
  have hlt : (x :: l').length ≤ l.length := by
    refine (List.subperm_of_subset ?_ ?_).length_le
    · exact List.nodup_cons.mpr ⟨hx', h'.nodup⟩
    · exact List.cons_subset.mpr ⟨hx, hsub⟩
  have hle := h.length_le
  rw [List.length_cons] at hlt
  omega

/-- **There is one page.** -/
theorem unique (h : IsPage S key limit l) (h' : IsPage S key limit l') : l = l' := by
  have hirrefl : Std.Irrefl (fun x y => key x < key y) := ⟨fun x => lt_irrefl (key x)⟩
  have hantisymm : Std.Antisymm (fun x y => key x < key y) :=
    ⟨fun x y hxy hyx => absurd hyx (lt_asymm hxy)⟩
  refine h.ascending.eq_of_mem_iff h'.ascending fun x => ?_
  exact ⟨fun hx => h.subset h' hx, fun hx => h'.subset h hx⟩

/-- A page cut short is a page. -/
theorem take (h : IsPage S key limit l) {n : Nat} (hn : n ≤ limit) :
    IsPage S key n (l.take n) where
  sound x hx := h.sound x (List.mem_of_mem_take hx)
  ascending := h.ascending.sublist (List.take_sublist n l)
  length_le := List.length_take_le n l
  complete x hx := by
    have hasc := h.ascending
    rw [← List.take_append_drop n l, List.pairwise_append] at hasc
    rcases h.complete x hx with hmem | ⟨hfull, hbefore⟩
    · rcases List.mem_append.mp ((List.take_append_drop n l).symm ▸ hmem) with hmem | hmem
      · exact Or.inl hmem
      · refine Or.inr ⟨?_, fun y hy => hasc.2.2 y hy x hmem⟩
        have hpos := List.length_pos_of_mem hmem
        rw [List.length_drop] at hpos
        rw [List.length_take]
        omega
    · refine Or.inr ⟨?_, fun y hy => hbefore y (List.mem_of_mem_take hy)⟩
      rw [List.length_take]
      omega

/-- **A larger limit only adds elements at the end.** -/
theorem initial_of_le {n : Nat} (h : IsPage S key n l)
    (h' : IsPage S key limit l') (hn : n ≤ limit) :
    l <+: l' := by
  rw [h.unique (h'.take hn)]
  exact List.take_prefix n l'

/-- A page seen through a map that keeps the order. -/
theorem map {f : α → γ} {T : Set γ} {key' : γ → β} (h : IsPage S key limit l)
    (hT : ∀ y, y ∈ T ↔ ∃ x ∈ S, f x = y)
    (hlt : ∀ x ∈ S, ∀ y ∈ S, key x < key y → key' (f x) < key' (f y)) :
    IsPage T key' limit (l.map f) where
  sound y hy := by
    obtain ⟨x, hx, rfl⟩ := List.mem_map.mp hy
    exact (hT _).mpr ⟨x, h.sound x hx, rfl⟩
  ascending := by
    rw [List.pairwise_map]
    exact h.ascending.imp_of_mem fun hx hy => hlt _ (h.sound _ hx) _ (h.sound _ hy)
  length_le := by
    rw [List.length_map]
    exact h.length_le
  complete y hy := by
    obtain ⟨x, hx, rfl⟩ := (hT y).mp hy
    rcases h.complete x hx with hmem | ⟨hfull, hbefore⟩
    · exact Or.inl (List.mem_map_of_mem hmem)
    · refine Or.inr ⟨by rw [List.length_map, hfull], fun z hz => ?_⟩
      obtain ⟨x', hx', rfl⟩ := List.mem_map.mp hz
      exact hlt x' (h.sound x' hx') x hx (hbefore x' hx')

end IsPage

end MarketData
