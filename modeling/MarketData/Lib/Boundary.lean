import Mathlib.Data.List.Pairwise
import Mathlib.Order.Basic
import Mathlib.Order.Lattice
import Mathlib.Data.Option.Basic

/-!
# MarketData.Lib.Boundary

A **sequence boundary**: the highest sequence number a consumer has been given, moved
by incrementals that lie beyond it, by incrementals that are consumed but withheld, and
by snapshots that jump ahead. This is the abstract counterpart of any "discard what is
at or below the last number seen" scheme, over an arbitrary linear order.

A run is a list of `Move`s from an initial boundary. `Guarded` says that every move
looked at the boundary before moving it; the theorems read off what the consumer sees
(`emitted`): nothing goes backwards (`Guarded.emitted_le`), incrementals never repeat
(`Guarded.incrementals_lt`), and without `reseed` moves — snapshots installed at the
boundary itself rather than beyond it — the emissions strictly increase
(`Guarded.emitted_lt`).
-/

namespace MarketData

namespace Boundary

universe u

variable {β : Type u}

/-- What the consumer is given. -/
inductive Emission (β : Type u)
  | incremental (n : β)
  | snapshot (n : β)
  deriving Repr, DecidableEq

/-- The sequence number of an emission. -/
def Emission.seq : Emission β → β
  | .incremental n => n
  | .snapshot n => n

/-- The number of an incremental, nothing for a snapshot. -/
def Emission.incremental? : Emission β → Option β
  | .incremental n => some n
  | .snapshot _ => none

theorem mem_incrementals {n : β} {es : List (Emission β)} :
    n ∈ es.filterMap Emission.incremental? ↔ Emission.incremental n ∈ es := by
  rw [List.mem_filterMap]
  constructor
  · rintro ⟨e, he, hinc⟩
    cases e with
    | incremental k =>
        obtain rfl : k = n := Option.some.inj hinc
        exact he
    | snapshot k => exact absurd hinc (by simp [Emission.incremental?])
  · exact fun h => ⟨_, h, rfl⟩

/-- One move of the boundary. -/
inductive Move (β : Type u)
  /-- The boundary stays. -/
  | keep
  /-- An incremental is consumed but not emitted. -/
  | skip (n : β)
  /-- An incremental is emitted. -/
  | deliver (n : β)
  /-- A snapshot beyond the boundary is emitted. -/
  | recover (n : β)
  /-- A snapshot not behind the boundary is emitted. -/
  | reseed (n : β)
  deriving Repr, DecidableEq

namespace Move

/-- Where the boundary is afterwards. -/
def target : Move β → Option β → Option β
  | keep, b => b
  | skip n, _ | deliver n, _ | recover n, _ | reseed n, _ => some n

/-- What the move emits. -/
def emitted : Move β → List (Emission β)
  | keep | skip _ => []
  | deliver n => [.incremental n]
  | recover n | reseed n => [.snapshot n]

/-- The comparison with the old boundary that makes the move safe. -/
def Guard [Preorder β] : Move β → Option β → Prop
  | keep, _ => True
  | skip n, b | deliver n, b | recover n, b => ∀ l ∈ b, l < n
  | reseed n, b => ∀ l ∈ b, l ≤ n

/-- Not a `reseed`. -/
def Strict : Move β → Prop
  | reseed _ => False
  | _ => True

/-- Not a `skip`. -/
def Visible : Move β → Prop
  | skip _ => False
  | _ => True

/-- An incremental is taken only directly after the boundary. -/
def Successor (next : β → β) : Move β → Option β → Prop
  | skip n, b | deliver n, b => ∀ l ∈ b, n = next l
  | _, _ => True

end Move

/-- The boundary after a list of moves. -/
def after (b : Option β) : List (Move β) → Option β
  | [] => b
  | mv :: ms => after (mv.target b) ms

/-- Everything a list of moves emits. -/
def emitted (ms : List (Move β)) : List (Emission β) := ms.flatMap Move.emitted

/-- Every move of the list is guarded. -/
def Guarded [Preorder β] : Option β → List (Move β) → Prop
  | _, [] => True
  | b, mv :: ms => mv.Guard b ∧ Guarded (mv.target b) ms

/-- Every incremental of the list directly follows the boundary it finds. -/
def Contiguous (next : β → β) : Option β → List (Move β) → Prop
  | _, [] => True
  | b, mv :: ms => mv.Successor next b ∧ Contiguous next (mv.target b) ms

/-- The boundary a consumer can compute itself: the last emission, or the initial one. -/
def lastSeen (b : Option β) (es : List (Emission β)) : Option β :=
  (es.getLast?.map Emission.seq).or b

@[simp] theorem after_nil (b : Option β) : after b [] = b := rfl
@[simp] theorem emitted_nil : emitted ([] : List (Move β)) = [] := rfl

theorem emitted_cons (mv : Move β) (ms : List (Move β)) :
    emitted (mv :: ms) = mv.emitted ++ emitted ms := by
  simp [emitted]

theorem after_snoc (b : Option β) (ms : List (Move β)) (mv : Move β) :
    after b (ms ++ [mv]) = mv.target (after b ms) := by
  induction ms generalizing b with
  | nil => rfl
  | cons m ms ih => exact ih (m.target b)

theorem emitted_snoc (ms : List (Move β)) (mv : Move β) :
    emitted (ms ++ [mv]) = emitted ms ++ mv.emitted := by
  simp [emitted]

theorem guarded_snoc [Preorder β] (b : Option β) (ms : List (Move β)) (mv : Move β) :
    Guarded b (ms ++ [mv]) ↔ Guarded b ms ∧ mv.Guard (after b ms) := by
  induction ms generalizing b with
  | nil => simp [Guarded]
  | cons m ms ih => simp [Guarded, after, ih, and_assoc]

theorem contiguous_snoc (next : β → β) (b : Option β) (ms : List (Move β)) (mv : Move β) :
    Contiguous next b (ms ++ [mv]) ↔ Contiguous next b ms ∧ mv.Successor next (after b ms) := by
  induction ms generalizing b with
  | nil => simp [Contiguous]
  | cons m ms ih => simp [Contiguous, after, ih, and_assoc]

theorem lastSeen_cons (b : Option β) (e : Emission β) (es : List (Emission β)) :
    lastSeen b (e :: es) = lastSeen (some e.seq) es := by
  cases es with
  | nil => rfl
  | cons x xs => simp [lastSeen, List.getLast?_eq_some_getLast]

/-- **No incremental is out of step.** When no move is a `skip`, each incremental of a
contiguous run directly follows the emission before it, or the initial boundary. -/
theorem Contiguous.of_emitted {next : β → β} {b : Option β} {ms : List (Move β)}
    (h : Contiguous next b ms) (hv : ∀ mv ∈ ms, mv.Visible) {es es' : List (Emission β)} {n : β}
    (he : emitted ms = es ++ .incremental n :: es') : ∀ l ∈ lastSeen b es, n = next l := by
  induction ms generalizing b es with
  | nil => simp at he
  | cons mv ms ih =>
      have hv' : ∀ m ∈ ms, m.Visible := fun m hm => hv m (List.mem_cons_of_mem _ hm)
      rw [emitted_cons] at he
      cases mv with
      | keep => exact ih h.2 hv' he
      | skip m => exact absurd (hv _ List.mem_cons_self) (by simp [Move.Visible])
      | deliver m =>
          cases es with
          | nil =>
              obtain ⟨rfl, -⟩ : m = n ∧ emitted ms = es' := by simpa [Move.emitted] using he
              exact h.1
          | cons e es =>
              obtain ⟨rfl, he'⟩ : .incremental m = e ∧
                emitted ms = es ++ .incremental n :: es' := by
                simpa [Move.emitted] using he
              rw [lastSeen_cons]
              exact ih h.2 hv' he'
      | recover m | reseed m =>
          cases es with
          | nil => simp [Move.emitted] at he
          | cons e es =>
              obtain ⟨rfl, he'⟩ : .snapshot m = e ∧ emitted ms = es ++ .incremental n :: es' := by
                simpa [Move.emitted] using he
              rw [lastSeen_cons]
              exact ih h.2 hv' he'

section Order

variable [LinearOrder β]

/-- A guarded move never lowers the boundary. -/
theorem Move.Guard.le_target {mv : Move β} {b : Option β} (h : mv.Guard b) {l : β} (hl : l ∈ b) :
    ∃ l' ∈ mv.target b, l ≤ l' := by
  cases mv with
  | keep => exact ⟨l, hl, le_rfl⟩
  | skip n => exact ⟨n, rfl, (h l hl).le⟩
  | deliver n => exact ⟨n, rfl, (h l hl).le⟩
  | recover n => exact ⟨n, rfl, (h l hl).le⟩
  | reseed n => exact ⟨n, rfl, h l hl⟩

/-- An emission of a guarded move is the boundary it leaves, and is not behind the one
it found. -/
theorem Move.Guard.of_emitted {mv : Move β} {b : Option β} (h : mv.Guard b) {e : Emission β}
    (he : e ∈ mv.emitted) : mv.target b = some e.seq ∧ ∀ l ∈ b, l ≤ e.seq := by
  cases mv with
  | keep => simp [Move.emitted] at he
  | skip n => simp [Move.emitted] at he
  | deliver n =>
      obtain rfl : e = .incremental n := by simpa [Move.emitted] using he
      exact ⟨rfl, fun l hl => (h l hl).le⟩
  | recover n =>
      obtain rfl : e = .snapshot n := by simpa [Move.emitted] using he
      exact ⟨rfl, fun l hl => (h l hl).le⟩
  | reseed n =>
      obtain rfl : e = .snapshot n := by simpa [Move.emitted] using he
      exact ⟨rfl, h⟩

namespace Guarded

variable {b : Option β} {ms : List (Move β)}

/-- **The boundary never goes back.** -/
theorem le_after (h : Guarded b ms) {l : β} (hl : l ∈ b) : ∃ l' ∈ after b ms, l ≤ l' := by
  induction ms generalizing b l with
  | nil => exact ⟨l, hl, le_rfl⟩
  | cons mv ms ih =>
      obtain ⟨l₁, h₁, hle⟩ := h.1.le_target hl
      obtain ⟨l₂, h₂, hle'⟩ := ih h.2 h₁
      exact ⟨l₂, h₂, hle.trans hle'⟩

/-- Every emission lies between the initial and the final boundary. -/
theorem emitted_between (h : Guarded b ms) {e : Emission β} (he : e ∈ emitted ms) :
    (∀ l ∈ b, l ≤ e.seq) ∧ ∃ l' ∈ after b ms, e.seq ≤ l' := by
  induction ms generalizing b with
  | nil => simp at he
  | cons mv ms ih =>
      rw [emitted_cons] at he
      rcases List.mem_append.mp he with he | he
      · obtain ⟨htgt, hle⟩ := h.1.of_emitted he
        exact ⟨hle, h.2.le_after htgt⟩
      · obtain ⟨hlow, hhigh⟩ := ih h.2 he
        refine ⟨fun l hl => ?_, hhigh⟩
        obtain ⟨l', hl', hle⟩ := h.1.le_target hl
        exact hle.trans (hlow l' hl')

/-- **Emissions never go backwards.** -/
theorem emitted_le (h : Guarded b ms) :
    (emitted ms).Pairwise (fun e e' => e.seq ≤ e'.seq) := by
  induction ms generalizing b with
  | nil => simp
  | cons mv ms ih =>
      rw [emitted_cons, List.pairwise_append]
      refine ⟨by cases mv <;> simp [Move.emitted], ih h.2, ?_⟩
      intro e he e' he'
      obtain ⟨htgt, -⟩ := h.1.of_emitted he
      exact (h.2.emitted_between he').1 _ htgt

/-- Without reseeds every emission lies strictly beyond the initial boundary. -/
theorem lt_emitted (h : Guarded b ms) (hs : ∀ mv ∈ ms, mv.Strict) {e : Emission β}
    (he : e ∈ emitted ms) : ∀ l ∈ b, l < e.seq := by
  induction ms generalizing b with
  | nil => simp at he
  | cons mv ms ih =>
      intro l hl
      have htail := ih h.2 (fun m hm => hs m (List.mem_cons_of_mem _ hm))
      rw [emitted_cons] at he
      rcases List.mem_append.mp he with he | he
      · cases mv with
        | keep => simp [Move.emitted] at he
        | skip n => simp [Move.emitted] at he
        | deliver n =>
            obtain rfl : e = .incremental n := by simpa [Move.emitted] using he
            exact h.1 l hl
        | recover n =>
            obtain rfl : e = .snapshot n := by simpa [Move.emitted] using he
            exact h.1 l hl
        | reseed n => exact absurd (hs _ List.mem_cons_self) (by simp [Move.Strict])
      · obtain ⟨l', hl', hle⟩ := h.1.le_target hl
        exact hle.trans_lt (htail he l' hl')

/-- **Without reseeds the emissions strictly increase.** -/
theorem emitted_lt (h : Guarded b ms) (hs : ∀ mv ∈ ms, mv.Strict) :
    (emitted ms).Pairwise (fun e e' => e.seq < e'.seq) := by
  induction ms generalizing b with
  | nil => simp
  | cons mv ms ih =>
      have hs' : ∀ m ∈ ms, m.Strict := fun m hm => hs m (List.mem_cons_of_mem _ hm)
      rw [emitted_cons, List.pairwise_append]
      refine ⟨by cases mv <;> simp [Move.emitted], ih h.2 hs', ?_⟩
      intro e he e' he'
      obtain ⟨htgt, -⟩ := h.1.of_emitted he
      exact h.2.lt_emitted hs' he' _ htgt

/-- An incremental lies strictly beyond the initial boundary, reseeds or not. -/
theorem lt_incremental (h : Guarded b ms) {n : β} (he : Emission.incremental n ∈ emitted ms) :
    ∀ l ∈ b, l < n := by
  induction ms generalizing b with
  | nil => simp at he
  | cons mv ms ih =>
      intro l hl
      rw [emitted_cons] at he
      rcases List.mem_append.mp he with he | he
      · cases mv with
        | deliver m =>
            obtain rfl : n = m := by simpa [Move.emitted] using he
            exact h.1 l hl
        | _ => simp [Move.emitted] at he
      · obtain ⟨l', hl', hle⟩ := h.1.le_target hl
        exact hle.trans_lt (ih h.2 he l' hl')

/-- **No incremental is emitted twice**: incrementals strictly increase. -/
theorem incrementals_lt (h : Guarded b ms) :
    ((emitted ms).filterMap Emission.incremental?).Pairwise (· < ·) := by
  induction ms generalizing b with
  | nil => simp
  | cons mv ms ih =>
      rw [emitted_cons, List.filterMap_append, List.pairwise_append]
      refine ⟨by cases mv <;> simp [Move.emitted, List.filterMap_cons, Emission.incremental?],
        ih h.2, ?_⟩
      intro n hn n' hn'
      obtain ⟨htgt, -⟩ := h.1.of_emitted (mem_incrementals.mp hn)
      exact h.2.lt_incremental (mem_incrementals.mp hn') n htgt

end Guarded

end Order

end Boundary

end MarketData
