import Mathlib.Data.List.Nodup
import Mathlib.Data.List.Basic

/-!
# MarketData.Lib.Dict

**Insertion-ordered dictionaries**, the `dict` of a scripting language: a list of
key/value pairs in order of first insertion, no key twice. Overwriting a key keeps
its place, deleting a key and setting it again moves it to the end.

Key uniqueness is a field, so every operation that builds a `Dict` proves it once
and no client ever sees a duplicate. Clients reason through `get?`: each operation
has one equation for it (`get?_set`, `get?_erase`, `get?_filterMapValues`), and
`mem_entries` trades iteration over the entries for lookups.
-/

namespace MarketData

universe u v w

/-- An insertion-ordered dictionary. -/
structure Dict (κ : Type u) (ν : Type v) where
  /-- The items, oldest key first. -/
  entries : List (κ × ν)
  /-- No key occurs twice. -/
  nodup : (entries.map Prod.fst).Nodup

namespace Dict

variable {κ : Type u} {ν : Type v} {ν' : Type w} [DecidableEq κ]

/-! ### Association lists -/

/-- First value stored under `k`. -/
def lookup (k : κ) : List (κ × ν) → Option ν
  | [] => none
  | (k', x) :: rest => if k' = k then some x else lookup k rest

/-- Overwrite `k` in place, or append it. -/
def upsert (k : κ) (x : ν) : List (κ × ν) → List (κ × ν)
  | [] => [(k, x)]
  | (k', y) :: rest => if k' = k then (k, x) :: rest else (k', y) :: upsert k x rest

theorem lookup_eq_none_iff {k : κ} {l : List (κ × ν)} :
    lookup k l = none ↔ k ∉ l.map Prod.fst := by
  induction l with
  | nil => simp [lookup]
  | cons p rest ih =>
      obtain ⟨k', x⟩ := p
      by_cases hk : k' = k
      · simp [lookup, hk]
      · simp [lookup, hk, ih, Ne.symm hk]

theorem mem_of_lookup {k : κ} {x : ν} {l : List (κ × ν)} (h : lookup k l = some x) :
    (k, x) ∈ l := by
  induction l with
  | nil => simp [lookup] at h
  | cons p rest ih =>
      obtain ⟨k', y⟩ := p
      by_cases hk : k' = k
      · subst hk
        obtain rfl : y = x := by simpa [lookup] using h
        exact List.mem_cons_self
      · exact List.mem_cons_of_mem _ (ih (by simpa [lookup, hk] using h))

theorem lookup_of_mem {k : κ} {x : ν} {l : List (κ × ν)} (hl : (l.map Prod.fst).Nodup)
    (h : (k, x) ∈ l) : lookup k l = some x := by
  induction l with
  | nil => simp at h
  | cons p rest ih =>
      obtain ⟨k', y⟩ := p
      obtain ⟨hnot, hrest⟩ := List.nodup_cons.mp hl
      rcases List.mem_cons.mp h with heq | hmem
      · obtain ⟨rfl, rfl⟩ := Prod.mk.inj heq
        simp [lookup]
      · have hk : k' ≠ k := by
          rintro rfl
          exact hnot (List.mem_map.mpr ⟨_, hmem, rfl⟩)
        simp [lookup, hk, ih hrest hmem]

theorem mem_keys_upsert {k j : κ} {x : ν} {l : List (κ × ν)} :
    j ∈ (upsert k x l).map Prod.fst ↔ j = k ∨ j ∈ l.map Prod.fst := by
  induction l with
  | nil => simp [upsert]
  | cons p rest ih =>
      obtain ⟨k', y⟩ := p
      by_cases hk : k' = k
      · simp [upsert, hk]
      · simp only [upsert, hk, if_false, List.map_cons, List.mem_cons, ih]
        tauto

theorem nodup_upsert (k : κ) (x : ν) {l : List (κ × ν)} (hl : (l.map Prod.fst).Nodup) :
    ((upsert k x l).map Prod.fst).Nodup := by
  induction l with
  | nil => simp [upsert]
  | cons p rest ih =>
      obtain ⟨k', y⟩ := p
      obtain ⟨hnot, hrest⟩ := List.nodup_cons.mp hl
      by_cases hk : k' = k
      · subst hk
        simpa [upsert] using And.intro hnot hrest
      · simp only [upsert, hk, if_false, List.map_cons, List.nodup_cons, mem_keys_upsert]
        exact ⟨by tauto, ih hrest⟩

theorem lookup_upsert (k j : κ) (x : ν) (l : List (κ × ν)) :
    lookup j (upsert k x l) = if k = j then some x else lookup j l := by
  induction l with
  | nil => simp [upsert, lookup]
  | cons p rest ih =>
      obtain ⟨k', y⟩ := p
      by_cases hk : k' = k
      · subst hk
        by_cases hj : k' = j <;> simp [upsert, lookup, hj]
      · by_cases hj : k' = j
        · subst hj
          simp [upsert, lookup, hk, Ne.symm hk]
        · simp [upsert, lookup, hk, hj, ih]

/-! ### Operations -/

/-- The empty dictionary, `{}`. -/
def empty : Dict κ ν := ⟨[], List.nodup_nil⟩

instance : Inhabited (Dict κ ν) := ⟨empty⟩

instance [DecidableEq ν] : DecidableEq (Dict κ ν) := fun d e =>
  decidable_of_iff (d.entries = e.entries) (by cases d; cases e; simp)

/-- `d.get(k)`. -/
def get? (d : Dict κ ν) (k : κ) : Option ν := lookup k d.entries

/-- `d[k] = x`. -/
def set (d : Dict κ ν) (k : κ) (x : ν) : Dict κ ν :=
  ⟨upsert k x d.entries, nodup_upsert k x d.nodup⟩

/-- `d.pop(k, None)`. -/
def erase (d : Dict κ ν) (k : κ) : Dict κ ν :=
  ⟨d.entries.filter (fun p => p.1 ≠ k), d.nodup.sublist (List.filter_sublist.map _)⟩

/-- Is `d` falsy? -/
def isEmpty (d : Dict κ ν) : Bool := d.entries.isEmpty

/-- Rewrite every value, dropping the keys sent to `none`. -/
def filterMapValues (d : Dict κ ν) (f : κ → ν → Option ν') : Dict κ ν' :=
  ⟨d.entries.filterMap (fun p => (f p.1 p.2).map (fun y => (p.1, y))), by
    refine d.nodup.sublist ?_
    rw [List.map_filterMap]
    induction d.entries with
    | nil => exact List.Sublist.refl _
    | cons p rest ih =>
        cases hf : f p.1 p.2 with
        | none => simpa [hf] using ih.trans (List.sublist_cons_self _ _)
        | some y => simpa [hf] using ih⟩

/-- Rewrite every value. -/
def mapValues (d : Dict κ ν) (f : κ → ν → ν') : Dict κ ν' :=
  d.filterMapValues (fun k x => some (f k x))

/-- `d.update(e)`. -/
def update (d e : Dict κ ν) : Dict κ ν := e.entries.foldl (fun d p => d.set p.1 p.2) d

/-- `list(d)`. -/
def keys (d : Dict κ ν) : List κ := d.entries.map Prod.fst

/-- `list(d.values())`. -/
def values (d : Dict κ ν) : List ν := d.entries.map Prod.snd

/-- Membership of a key. -/
instance : Membership κ (Dict κ ν) := ⟨fun d k => (d.get? k).isSome⟩

instance (k : κ) (d : Dict κ ν) : Decidable (k ∈ d) :=
  inferInstanceAs (Decidable ((d.get? k).isSome = true))

/-! ### Lookup equations -/

theorem mem_def {k : κ} {d : Dict κ ν} : k ∈ d ↔ (d.get? k).isSome := Iff.rfl

@[simp] theorem get?_empty (k : κ) : (empty : Dict κ ν).get? k = none := rfl

theorem get?_set (d : Dict κ ν) (k j : κ) (x : ν) :
    (d.set k x).get? j = if k = j then some x else d.get? j :=
  lookup_upsert k j x d.entries

@[simp] theorem get?_set_self (d : Dict κ ν) (k : κ) (x : ν) : (d.set k x).get? k = some x := by
  rw [get?_set, if_pos rfl]

theorem get?_set_ne (d : Dict κ ν) {k j : κ} (x : ν) (h : k ≠ j) :
    (d.set k x).get? j = d.get? j := by
  rw [get?_set, if_neg h]

theorem lookup_filter_ne (k j : κ) (l : List (κ × ν)) :
    lookup j (l.filter (fun p => p.1 ≠ k)) = if k = j then none else lookup j l := by
  induction l with
  | nil => simp [lookup]
  | cons p rest ih =>
      obtain ⟨k', x⟩ := p
      by_cases hk : k' = k
      · subst hk
        by_cases hj : k' = j
        · simpa [lookup, hj] using ih
        · simpa [lookup, hj] using ih
      · by_cases hj : k' = j
        · subst hj
          simp [lookup, hk, Ne.symm hk]
        · simpa [lookup, hk, hj] using ih

theorem get?_erase (d : Dict κ ν) (k j : κ) :
    (d.erase k).get? j = if k = j then none else d.get? j :=
  lookup_filter_ne k j d.entries

@[simp] theorem get?_erase_self (d : Dict κ ν) (k : κ) : (d.erase k).get? k = none := by
  rw [get?_erase, if_pos rfl]

theorem get?_erase_ne (d : Dict κ ν) {k j : κ} (h : k ≠ j) : (d.erase k).get? j = d.get? j := by
  rw [get?_erase, if_neg h]

theorem get?_filterMapValues (d : Dict κ ν) (f : κ → ν → Option ν') (k : κ) :
    (d.filterMapValues f).get? k = (d.get? k).bind (f k) := by
  have key : ∀ l : List (κ × ν), (l.map Prod.fst).Nodup →
      lookup k (l.filterMap (fun p => (f p.1 p.2).map (fun y => (p.1, y)))) =
        (lookup k l).bind (f k) := by
    intro l hl
    induction l with
    | nil => rfl
    | cons p rest ih =>
        obtain ⟨k', x⟩ := p
        obtain ⟨hnot, hrest⟩ := List.nodup_cons.mp hl
        specialize ih hrest
        by_cases hk : k' = k
        · subst hk
          -- the key occurs nowhere in the tail, so a dropped head leaves no entry
          have hnone : lookup k' rest = none := lookup_eq_none_iff.mpr hnot
          cases hf : f k' x with
          | none => simpa [lookup, hf, hnone] using ih
          | some y => simp [lookup, hf]
        · cases hf : f k' x with
          | none => simpa [lookup, hf, hk] using ih
          | some y => simpa [lookup, hf, hk] using ih
  exact key d.entries d.nodup

@[simp] theorem get?_mapValues (d : Dict κ ν) (f : κ → ν → ν') (k : κ) :
    (d.mapValues f).get? k = (d.get? k).map (f k) := by
  rw [mapValues, get?_filterMapValues]
  cases d.get? k <;> rfl

theorem get?_update (d e : Dict κ ν) (k : κ) : (d.update e).get? k = (e.get? k).or (d.get? k) := by
  have key : ∀ (l : List (κ × ν)) (d : Dict κ ν), (l.map Prod.fst).Nodup →
      (l.foldl (fun d p => d.set p.1 p.2) d).get? k = (lookup k l).or (d.get? k) := by
    intro l
    induction l with
    | nil => exact fun d _ => rfl
    | cons p rest ih =>
        intro d hl
        obtain ⟨k', x⟩ := p
        obtain ⟨hnot, hrest⟩ := List.nodup_cons.mp hl
        rw [List.foldl_cons, ih _ hrest, get?_set]
        by_cases hk : k' = k
        · subst hk
          simp [lookup, lookup_eq_none_iff.mpr hnot]
        · simp [lookup, hk]
  exact key e.entries d e.nodup

/-! ### Iteration and emptiness -/

theorem mem_entries {d : Dict κ ν} {k : κ} {x : ν} : (k, x) ∈ d.entries ↔ d.get? k = some x :=
  ⟨lookup_of_mem d.nodup, mem_of_lookup⟩

theorem mem_keys {d : Dict κ ν} {k : κ} : k ∈ d.keys ↔ k ∈ d := by
  rw [mem_def, Option.isSome_iff_ne_none, Ne, get?, lookup_eq_none_iff, not_not]
  rfl

theorem mem_values {d : Dict κ ν} {x : ν} : x ∈ d.values ↔ ∃ k, d.get? k = some x := by
  simp only [values, List.mem_map, Prod.exists, exists_eq_right, mem_entries]

/-! ### Values that carry their key -/

/-- The values under their own keys, one for each. -/
theorem filter_values_of_keyed {key : ν → κ} {d : Dict κ ν}
    (hd : ∀ k x, d.get? k = some x → key x = k) (k : κ) :
    d.values.filter (fun x => decide (key x = k)) = (d.get? k).toList := by
  obtain ⟨l, hl⟩ := d
  have hkey : ∀ p ∈ l, key p.2 = p.1 := fun p hp => hd p.1 p.2 (lookup_of_mem hl hp)
  clear hd
  show (l.map Prod.snd).filter _ = (lookup k l).toList
  induction l with
  | nil => rfl
  | cons p rest ih =>
      obtain ⟨k', x⟩ := p
      obtain ⟨hnot, hrest⟩ := List.nodup_cons.mp hl
      have hx : key x = k' := hkey (k', x) List.mem_cons_self
      have htail := ih hrest fun p hp => hkey p (List.mem_cons_of_mem _ hp)
      rw [List.map_cons, List.filter_cons, htail]
      by_cases hk : k' = k
      · subst hk
        simp [lookup, hx, lookup_eq_none_iff.mpr hnot]
      · simp [lookup, hx, hk]

/-- No two values have one key. -/
theorem nodup_map_values_of_keyed {key : ν → κ} {d : Dict κ ν}
    (hd : ∀ k x, d.get? k = some x → key x = k) : (d.values.map key).Nodup := by
  have hkeys : d.values.map key = d.keys := by
    rw [values, keys, List.map_map]
    exact List.map_congr_left fun p hp => hd p.1 p.2 (mem_entries.mp hp)
  rw [hkeys]
  exact d.nodup

/-- What a loop that only ever stores the values it walks over leaves in a dictionary. -/
theorem get?_foldl {f : Dict κ ν → ν → Dict κ ν} {key : κ} {c : ν}
    (hf : ∀ d x, (f d x).get? key = some c → d.get? key = some c ∨ c = x) {cs : List ν}
    {d : Dict κ ν} (h : (cs.foldl f d).get? key = some c) : d.get? key = some c ∨ c ∈ cs := by
  induction cs generalizing d with
  | nil => exact Or.inl h
  | cons x cs ih =>
      rcases ih h with hd | hmem
      · rcases hf d x hd with hd | rfl
        · exact Or.inl hd
        · exact Or.inr List.mem_cons_self
      · exact Or.inr (List.mem_cons_of_mem x hmem)

theorem isEmpty_iff {d : Dict κ ν} : d.isEmpty = true ↔ ∀ k, d.get? k = none := by
  unfold isEmpty get?
  cases d.entries with
  | nil => simp [lookup]
  | cons p rest =>
      simp only [List.isEmpty_cons, Bool.false_eq_true, false_iff, not_forall]
      exact ⟨p.1, by simp [lookup]⟩

theorem isEmpty_eq_false_iff {d : Dict κ ν} : d.isEmpty = false ↔ ∃ k x, d.get? k = some x := by
  rw [← Bool.not_eq_true, isEmpty_iff, not_forall]
  exact exists_congr fun k => Option.ne_none_iff_exists'

@[simp] theorem isEmpty_set (d : Dict κ ν) (k : κ) (x : ν) : (d.set k x).isEmpty = false :=
  isEmpty_eq_false_iff.mpr ⟨k, x, d.get?_set_self k x⟩

@[simp] theorem isEmpty_mapValues (d : Dict κ ν) (f : κ → ν → ν') :
    (d.mapValues f).isEmpty = d.isEmpty := by
  rw [Bool.eq_iff_iff, isEmpty_iff, isEmpty_iff]
  simp

/-! ### A property of every value -/

theorem forall_set {p : ν → Prop} {d : Dict κ ν} {k : κ} {x : ν}
    (hd : ∀ j y, d.get? j = some y → p y) (hx : p x) (j : κ) (y : ν)
    (h : (d.set k x).get? j = some y) : p y := by
  rw [get?_set] at h
  split at h
  · exact Option.some.inj h ▸ hx
  · exact hd j y h

theorem forall_erase {p : ν → Prop} {d : Dict κ ν} {k : κ}
    (hd : ∀ j y, d.get? j = some y → p y) (j : κ) (y : ν)
    (h : (d.erase k).get? j = some y) : p y := by
  rw [get?_erase] at h
  split at h
  · cases h
  · exact hd j y h

end Dict

end MarketData
