import Mathlib.Data.List.Induction

/-!
# MarketData.Lib.Windows

A history of values cut into **windows** by marks, as it grows at its end: `some a` is a value,
`none` closes the open window. The reference for any component that collects values and gives out
one for each kind when its timer fires (`lasts`).
-/

namespace MarketData

universe u

variable {α : Type u}

/-- The closed windows of a history, oldest first, and the open one. -/
def windows (hist : List (Option α)) : List (List α) × List α :=
  hist.foldl (fun w x =>
    match x with
    | some a => (w.1, w.2 ++ [a])
    | none => (w.1 ++ [w.2], [])) ([], [])

namespace Windows

@[simp] theorem windows_nil : windows ([] : List (Option α)) = ([], []) := rfl

theorem windows_value (hist : List (Option α)) (a : α) :
    windows (hist ++ [some a]) = ((windows hist).1, (windows hist).2 ++ [a]) := by
  rw [windows, List.foldl_append]
  rfl

theorem windows_mark (hist : List (Option α)) :
    windows (hist ++ [none]) = ((windows hist).1 ++ [(windows hist).2], []) := by
  rw [windows, List.foldl_append]
  rfl

/-- Every value is in one window. -/
theorem flatten_windows (hist : List (Option α)) :
    (windows hist).1.flatten ++ (windows hist).2 = hist.filterMap id := by
  induction hist using List.reverseRecOn with
  | nil => rfl
  | append_singleton hist x ih =>
      rw [List.filterMap_append, ← ih]
      cases x with
      | none =>
          rw [windows_mark]
          simp
      | some a =>
          rw [windows_value]
          simp

/-- The last value of the kind `p` in each window that has one. -/
def lasts (p : α → Bool) (ws : List (List α)) : List α :=
  ws.filterMap fun w => (w.filter p).getLast?

theorem lasts_concat (p : α → Bool) (ws : List (List α)) (w : List α) :
    lasts p (ws ++ [w]) = lasts p ws ++ (w.filter p).getLast?.toList := by
  rw [lasts, List.filterMap_append, List.filterMap_cons, List.filterMap_nil]
  generalize (w.filter p).getLast? = last
  cases last <;> rfl

theorem getLast?_filter_concat (p : α → Bool) (w : List α) (a : α) :
    ((w ++ [a]).filter p).getLast? = if p a then some a else (w.filter p).getLast? := by
  rw [List.filter_append]
  cases hp : p a
  · rw [List.filter_cons_of_neg (by simp [hp]), List.filter_nil, List.append_nil]
    rfl
  · rw [List.filter_cons_of_pos hp]
    exact List.getLast?_concat ..

/-- **Every value is the last of its kind, or superseded in its own window.** -/
theorem last_or_superseded {p : α → Bool} {w : List α} {a : α} (ha : a ∈ w) (hp : p a = true) :
    (w.filter p).getLast? = some a ∨ ∃ w₁ w₂, w = w₁ ++ a :: w₂ ∧ ∃ b ∈ w₂, p b = true := by
  obtain ⟨w₁, w₂, rfl⟩ := List.append_of_mem ha
  by_cases h : ∃ b ∈ w₂, p b = true
  · exact Or.inr ⟨w₁, w₂, rfl, h⟩
  · have hnone : w₂.filter p = [] := by
      refine List.filter_eq_nil_iff.mpr fun b hb hpb => h ⟨b, hb, hpb⟩
    refine Or.inl ?_
    rw [List.filter_append, List.filter_cons_of_pos hp, hnone]
    exact List.getLast?_concat ..

/-- The last value of a window is given out. -/
theorem mem_lasts {p : α → Bool} {ws : List (List α)} {w : List α} {a : α} (hw : w ∈ ws)
    (ha : (w.filter p).getLast? = some a) : a ∈ lasts p ws :=
  List.mem_filterMap.mpr ⟨w, hw, ha⟩

end Windows

end MarketData
