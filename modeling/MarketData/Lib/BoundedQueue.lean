import Mathlib.Data.List.DropRight

/-!
# MarketData.Lib.BoundedQueue

The non-blocking half of a **bounded FIFO queue**: `putNowait` fails on a full queue,
`getNowait` on an empty one, and `putEvict` is the drop-oldest idiom built from them
("put; if full, get one and put again").

The capacity bound is a field, so an over-full queue cannot be built, and the second
put of `putEvict` provably never fails (`putNowait_pop`).
-/

namespace MarketData

universe u

/-- A FIFO queue holding at most `maxsize` items, oldest first. -/
structure BoundedQueue (α : Type u) where
  items : List α
  maxsize : Nat
  pos : 0 < maxsize
  bound : items.length ≤ maxsize

namespace BoundedQueue

variable {α : Type u}

instance [DecidableEq α] : DecidableEq (BoundedQueue α) := fun p q =>
  decidable_of_iff (p.items = q.items ∧ p.maxsize = q.maxsize) (by cases p; cases q; simp)

/-- An empty queue. -/
def empty (maxsize : Nat) (pos : 0 < maxsize) : BoundedQueue α := ⟨[], maxsize, pos, Nat.zero_le _⟩

/-- `put_nowait`: `none` is `QueueFull`. -/
def putNowait (q : BoundedQueue α) (x : α) : Option (BoundedQueue α) :=
  if h : q.items.length < q.maxsize then
    some ⟨q.items ++ [x], q.maxsize, q.pos, by simpa using Nat.succ_le_of_lt h⟩
  else none

/-- The queue without its oldest item. -/
def pop (q : BoundedQueue α) : BoundedQueue α :=
  ⟨q.items.tail, q.maxsize, q.pos, by
    have := q.bound
    rw [List.length_tail]
    omega⟩

/-- `get_nowait`: `none` is `QueueEmpty`. -/
def getNowait (q : BoundedQueue α) : Option (α × BoundedQueue α) :=
  q.items.head?.map (fun x => (x, q.pop))

/-- Put; on a full queue discard the oldest item and put again. -/
def putEvict (q : BoundedQueue α) (x : α) : BoundedQueue α :=
  match q.putNowait x with
  | some q' => q'
  | none => (q.pop.putNowait x).getD q.pop

@[simp] theorem items_empty (n : Nat) (h : 0 < n) : (empty n h : BoundedQueue α).items = [] := rfl
@[simp] theorem items_pop (q : BoundedQueue α) : q.pop.items = q.items.tail := rfl
@[simp] theorem maxsize_pop (q : BoundedQueue α) : q.pop.maxsize = q.maxsize := rfl

theorem putNowait_eq_some {q q' : BoundedQueue α} {x : α} :
    q.putNowait x = some q' ↔
      q.items.length < q.maxsize ∧ q'.items = q.items ++ [x] ∧ q'.maxsize = q.maxsize := by
  unfold putNowait
  by_cases h : q.items.length < q.maxsize
  · rw [dif_pos h]
    cases q'
    simp only [Option.some.injEq, mk.injEq, h, true_and]
    exact and_congr eq_comm eq_comm
  · simp [h]

theorem putNowait_eq_none {q : BoundedQueue α} {x : α} :
    q.putNowait x = none ↔ q.items.length = q.maxsize := by
  unfold putNowait
  have := q.bound
  by_cases h : q.items.length < q.maxsize
  · simp only [dif_pos h, reduceCtorEq, false_iff]
    omega
  · simp only [dif_neg h, true_iff]
    omega

/-- A queue that has just lost an item has room: the second put cannot fail. -/
theorem putNowait_pop {q : BoundedQueue α} (x : α) :
    ∃ q', q.pop.putNowait x = some q' ∧ q'.items = q.items.tail ++ [x]
      ∧ q'.maxsize = q.maxsize := by
  have hlt : q.pop.items.length < q.pop.maxsize := by
    have := q.bound
    have := q.pos
    simp only [items_pop, maxsize_pop, List.length_tail]
    omega
  cases hput : q.pop.putNowait x with
  | none =>
      have := putNowait_eq_none.mp hput
      omega
  | some q' =>
      obtain ⟨-, hitems, hmax⟩ := putNowait_eq_some.mp hput
      exact ⟨q', rfl, hitems, hmax⟩

theorem items_putEvict (q : BoundedQueue α) (x : α) :
    (q.putEvict x).items =
      (if q.items.length < q.maxsize then q.items else q.items.tail) ++ [x] := by
  unfold putEvict
  cases hput : q.putNowait x with
  | some q' =>
      obtain ⟨hlt, hitems, -⟩ := putNowait_eq_some.mp hput
      simp [hitems, hlt]
  | none =>
      have hfull := putNowait_eq_none.mp hput
      obtain ⟨q', hq', hitems, -⟩ := putNowait_pop (q := q) x
      simp [hq', hitems, hfull]

theorem length_putEvict_of_lt {q : BoundedQueue α} (x : α) (h : q.items.length < q.maxsize) :
    (q.putEvict x).items.length = q.items.length + 1 := by
  rw [items_putEvict, if_pos h, List.length_append]
  rfl

theorem length_putEvict_of_full {q : BoundedQueue α} (x : α) (h : q.items.length = q.maxsize) :
    (q.putEvict x).items.length = q.items.length := by
  have hpos := q.pos
  rw [items_putEvict, if_neg (by omega), List.length_append, List.length_tail,
    List.length_singleton]
  omega

/-- Evicting puts add one item and nothing else. -/
theorem mem_putEvict {q : BoundedQueue α} {x y : α} (h : y ∈ (q.putEvict x).items) :
    y ∈ q.items ∨ y = x := by
  rw [items_putEvict] at h
  rcases List.mem_append.mp h with h | h
  · refine Or.inl ?_
    split at h
    · exact h
    · exact List.mem_of_mem_tail h
  · exact Or.inr (List.mem_singleton.mp h)

/-- The item a put discards: the oldest one of a full queue. -/
def evicted (q : BoundedQueue α) : Option α :=
  if q.items.length < q.maxsize then none else q.items.head?

/-- **A put adds one item behind and takes at most one away in front.** -/
theorem evicted_append_putEvict (q : BoundedQueue α) (x : α) :
    q.evicted.toList ++ (q.putEvict x).items = q.items ++ [x] := by
  rw [items_putEvict, evicted]
  by_cases hlt : q.items.length < q.maxsize
  · rw [if_pos hlt, if_pos hlt]
    rfl
  · rw [if_neg hlt, if_neg hlt]
    have hpos := q.pos
    obtain ⟨y, ys, hitems⟩ := List.exists_cons_of_length_pos (l := q.items) (by omega)
    rw [hitems]
    rfl

/-- What is not discarded stays. -/
theorem mem_putEvict_of_mem {q : BoundedQueue α} {x y : α} (h : y ∈ q.items)
    (hne : y ∉ q.evicted) : y ∈ (q.putEvict x).items := by
  have hmem : y ∈ q.evicted.toList ++ (q.putEvict x).items := by
    rw [evicted_append_putEvict]
    exact List.mem_append_left [x] h
  rcases List.mem_append.mp hmem with hmem | hmem
  · exact absurd (Option.mem_toList.mp hmem) hne
  · exact hmem

theorem maxsize_putEvict (q : BoundedQueue α) (x : α) : (q.putEvict x).maxsize = q.maxsize := by
  unfold putEvict
  cases hput : q.putNowait x with
  | some q' => exact (putNowait_eq_some.mp hput).2.2
  | none =>
      obtain ⟨q', hq', -, hmax⟩ := putNowait_pop (q := q) x
      simp [hq', hmax]

/-- **A drop-oldest queue holds the newest items.** -/
theorem items_foldl_putEvict (xs : List α) (q : BoundedQueue α) :
    (xs.foldl putEvict q).items =
      (q.items ++ xs).drop (q.items.length + xs.length - q.maxsize) := by
  induction xs generalizing q with
  | nil =>
      have hb := q.bound
      rw [List.foldl_nil, List.append_nil, List.length_nil, Nat.add_zero,
        Nat.sub_eq_zero_of_le hb, List.drop_zero]
  | cons x xs ih =>
      rw [List.foldl_cons, ih, maxsize_putEvict, items_putEvict]
      have hb := q.bound
      by_cases hlt : q.items.length < q.maxsize
      · rw [if_pos hlt, List.append_assoc, List.singleton_append]
        have hlen : (q.items ++ [x]).length + xs.length = q.items.length + (x :: xs).length := by
          simp only [List.length_append, List.length_cons, List.length_nil]
          omega
        rw [hlen]
      · -- the oldest item is among those dropped in the end
        rw [if_neg hlt]
        have hpos := q.pos
        obtain ⟨y, ys, hitems⟩ := List.exists_cons_of_length_pos (l := q.items) (by omega)
        rw [hitems] at hb hlt ⊢
        rw [List.length_cons] at hb hlt
        have hdrop : (y :: ys).length + (x :: xs).length - q.maxsize =
            (ys ++ [x]).length + xs.length - q.maxsize + 1 := by
          simp only [List.length_cons, List.length_append, List.length_nil]
          omega
        rw [hdrop, List.tail_cons, List.cons_append, List.drop_succ_cons, List.append_assoc,
          List.singleton_append]

/-- Put: the last `maxsize` of the old items and the new one. -/
theorem items_putEvict_rtake (q : BoundedQueue α) (x : α) :
    (q.putEvict x).items = (q.items ++ [x]).rtake q.maxsize := by
  rw [List.rtake, List.length_append]
  exact items_foldl_putEvict [x] q

theorem getNowait_eq_some {q q' : BoundedQueue α} {x : α} :
    q.getNowait = some (x, q') ↔ (∃ rest, q.items = x :: rest) ∧ q' = q.pop := by
  unfold getNowait
  cases hq : q.items with
  | nil => simp
  | cons y rest =>
      simp only [List.head?_cons, Option.map_some, Option.some.injEq, Prod.mk.injEq,
        List.cons.injEq, exists_eq_right']
      exact and_congr_right fun _ => eq_comm

/-- What is taken is the oldest entry. -/
theorem getNowait_head? {q q' : BoundedQueue α} {x : α} (h : q.getNowait = some (x, q')) :
    x ∈ q.items.head? := by
  obtain ⟨⟨rest, hitems⟩, -⟩ := getNowait_eq_some.mp h
  rw [hitems]
  rfl

end BoundedQueue

end MarketData
