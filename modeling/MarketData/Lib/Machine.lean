import Mathlib.Algebra.GroupWithZero.Nat
import Mathlib.Data.List.Basic

/-!
# MarketData.Lib.Machine

**Transition machines with observations.** A machine is a partial step function
`step : σ → α → Option (σ × List ω)`: in state `s` the action `a` is either not
enabled (`none`) or leads to a state and a list of observations. Everything the
scheduler, the network or another process decides is part of the action, so `run` is
an executable function of the action list, and "for every interleaving" is
"for every list of actions".

Three rules carry the inductions of a development built on a machine:

* `run_invariant` — a relation between the state and the observations so far, kept by
  every step, holds after every run;
* `run_invariant_along` — the same, when the steps of the run meet a side condition
  `C` (`Along C`);
* `Always` — a property of each observation and of everything observed before it, the
  shape of "whenever the machine does this, it has already done that".
-/

namespace MarketData

universe u v w u' v' w'

variable {σ : Type u} {α : Type v} {ω : Type w}

/-- A machine's step function. -/
abbrev Machine (σ : Type u) (α : Type v) (ω : Type w) := σ → α → Option (σ × List ω)

namespace Machine

variable (m : Machine σ α ω)

/-- Run a list of actions; `none` if one of them is not enabled. -/
def run : σ → List α → Option (σ × List ω)
  | s, [] => some (s, [])
  | s, a :: as =>
    match m s a with
    | none => none
    | some (t, o) =>
      match run t as with
      | none => none
      | some (u, h) => some (u, o ++ h)

/-- Every step of the run from `s` is taken in a state that meets `C`. -/
def Along (C : σ → α → Prop) : σ → List α → Prop
  | _, [] => True
  | s, a :: as => C s a ∧
    match m s a with
    | none => True
    | some (t, _) => Along C t as

/-- A decidable side condition can be checked along a run. -/
instance decidableAlong {C : σ → α → Prop} [∀ s a, Decidable (C s a)] :
    (s : σ) → (as : List α) → Decidable (Along m C s as)
  | _, [] => isTrue trivial
  | s, a :: as =>
    have : Decidable (match m s a with | none => True | some (t, _) => Along m C t as) :=
      match m s a with
      | none => isTrue trivial
      | some (t, _) => decidableAlong t as
    inferInstanceAs (Decidable (_ ∧ _))

variable {m}

/-- The outcome of an enabled step, taken apart. -/
theorem outcome {p : σ × List ω} {t : σ} {o : List ω} (h : some p = some (t, o)) :
    t = p.1 ∧ o = p.2 := by
  obtain rfl := Option.some.inj h
  exact ⟨rfl, rfl⟩

@[simp] theorem run_nil (s : σ) : run m s [] = some (s, []) := rfl

theorem run_cons {s : σ} {a : α} {as : List α} {u : σ} {h : List ω} :
    run m s (a :: as) = some (u, h) ↔
      ∃ t o h', m s a = some (t, o) ∧ run m t as = some (u, h') ∧ h = o ++ h' := by
  cases hm : m s a with
  | none => simp [run, hm]
  | some p =>
      obtain ⟨t, o⟩ := p
      cases hr : run m t as with
      | none => simp [run, hm, hr]
      | some q =>
          obtain ⟨u', h'⟩ := q
          simp only [run, hm, hr, Option.some.injEq, Prod.mk.injEq]
          constructor
          · rintro ⟨rfl, rfl⟩
            exact ⟨t, o, h', ⟨rfl, rfl⟩, hr, rfl⟩
          · rintro ⟨t', o', h'', ⟨rfl, rfl⟩, hr', rfl⟩
            obtain ⟨rfl, rfl⟩ : u' = u ∧ h' = h'' := by simpa [hr] using hr'
            exact ⟨rfl, rfl⟩

theorem run_singleton {s : σ} {a : α} {t : σ} {o : List ω} :
    run m s [a] = some (t, o) ↔ m s a = some (t, o) := by
  rw [run_cons]
  constructor
  · rintro ⟨t', o', h, hs, hnil, rfl⟩
    obtain ⟨rfl, rfl⟩ : t' = t ∧ [] = h := by simpa using hnil
    rwa [List.append_nil]
  · intro hs
    exact ⟨t, o, [], hs, rfl, (List.append_nil o).symm⟩

theorem run_append {s : σ} {as bs : List α} {u : σ} {h : List ω} :
    run m s (as ++ bs) = some (u, h) ↔
      ∃ t h₁ h₂, run m s as = some (t, h₁) ∧ run m t bs = some (u, h₂) ∧ h = h₁ ++ h₂ := by
  induction as generalizing s h with
  | nil =>
      constructor
      · intro hr
        exact ⟨s, [], h, rfl, hr, rfl⟩
      · rintro ⟨t, h₁, h₂, h1, h2, rfl⟩
        obtain ⟨rfl, rfl⟩ : s = t ∧ [] = h₁ := by simpa using h1
        exact h2
  | cons a as ih =>
      rw [List.cons_append]
      constructor
      · intro hr
        rw [run_cons] at hr
        obtain ⟨t, o, h', hs, hr', rfl⟩ := hr
        obtain ⟨t', h₁, h₂, h1, h2, rfl⟩ := ih.mp hr'
        exact ⟨t', o ++ h₁, h₂, run_cons.mpr ⟨t, o, h₁, hs, h1, rfl⟩, h2, by simp⟩
      · rintro ⟨t', h₁, h₂, h1, h2, rfl⟩
        rw [run_cons] at h1
        obtain ⟨t, o, h', hs, h1', rfl⟩ := h1
        exact run_cons.mpr ⟨t, o, h' ++ h₂, hs, ih.mpr ⟨t', h', h₂, h1', h2, rfl⟩, by simp⟩

/-- A run that makes an observation of a kind, split at the first step that does. -/
theorem run_split {p : ω → Prop} {s : σ} {as : List α} {t : σ} {h : List ω}
    (hr : run m s as = some (t, h)) (hp : ∃ x ∈ h, p x) :
    ∃ as₁ a as₂ s₁ s₂ h₁ o h₂, as = as₁ ++ a :: as₂ ∧ h = h₁ ++ (o ++ h₂) ∧
      run m s as₁ = some (s₁, h₁) ∧ m s₁ a = some (s₂, o) ∧ run m s₂ as₂ = some (t, h₂) ∧
      (∀ x ∈ h₁, ¬ p x) ∧ ∃ x ∈ o, p x := by
  induction as generalizing s h with
  | nil =>
      obtain ⟨-, rfl⟩ : s = t ∧ [] = h := by simpa using hr
      simp at hp
  | cons a as ih =>
      rw [run_cons] at hr
      obtain ⟨u, o, h', hs, hr', rfl⟩ := hr
      by_cases ho : ∃ x ∈ o, p x
      · exact ⟨[], a, as, s, u, [], o, h', rfl, rfl, rfl, hs, hr', by simp, ho⟩
      · have hp' : ∃ x ∈ h', p x := by
          obtain ⟨x, hx, hpx⟩ := hp
          exact ⟨x, (List.mem_append.mp hx).resolve_left fun hxo => ho ⟨x, hxo, hpx⟩, hpx⟩
        obtain ⟨as₁, b, as₂, s₁, s₂, h₁, o', h₂, rfl, rfl, h1, h2, h3, hnot, hex⟩ := ih hr' hp'
        refine ⟨a :: as₁, b, as₂, s₁, s₂, o ++ h₁, o', h₂, rfl, (List.append_assoc ..).symm,
          run_cons.mpr ⟨u, o, h₁, hs, h1, rfl⟩, h2, h3, fun x hx hpx => ?_, hex⟩
        rcases List.mem_append.mp hx with hx | hx
        · exact ho ⟨x, hx, hpx⟩
        · exact hnot x hx hpx

theorem along_append {C : σ → α → Prop} {s t : σ} {as bs : List α} {h : List ω}
    (hr : run m s as = some (t, h)) :
    Along m C s (as ++ bs) ↔ Along m C s as ∧ Along m C t bs := by
  induction as generalizing s h with
  | nil =>
      obtain ⟨rfl, -⟩ : s = t ∧ [] = h := by simpa using hr
      simp [Along]
  | cons a as ih =>
      rw [run_cons] at hr
      obtain ⟨t', o, h', hs, hr', -⟩ := hr
      simp only [List.cons_append, Along, hs, ih hr', and_assoc]

/-- **Run induction under a side condition.** `I s₀ []` and preservation by every step
that meets `C` give `I` after every run whose steps meet `C`. -/
theorem run_invariant_along {C : σ → α → Prop} {I : σ → List ω → Prop}
    (step : ∀ s a t o h, C s a → I s h → m s a = some (t, o) → I t (h ++ o))
    {s : σ} {as : List α} {t : σ} {h : List ω} (h0 : I s [])
    (hC : Along m C s as) (hr : run m s as = some (t, h)) : I t h := by
  have key : ∀ (as : List α) (s : σ) (g h : List ω), I s g → Along m C s as →
      run m s as = some (t, h) → I t (g ++ h) := by
    intro as
    induction as with
    | nil =>
        intro s g h hI _ hr
        obtain ⟨rfl, rfl⟩ : s = t ∧ [] = h := by simpa using hr
        simpa using hI
    | cons a as ih =>
        intro s g h hI hC hr
        rw [run_cons] at hr
        obtain ⟨s', o, h', hs, hr', rfl⟩ := hr
        obtain ⟨hCa, hC'⟩ := hC
        simp only [hs] at hC'
        rw [← List.append_assoc]
        exact ih s' (g ++ o) h' (step s a s' o g hCa hI hs) hC' hr'
  simpa using key as s [] h h0 hC hr

/-- Run induction over the actions taken so far as well. -/
theorem run_invariant_traced {C : σ → α → Prop} {I : σ → List α → List ω → Prop}
    (step : ∀ s a t o as h, C s a → I s as h → m s a = some (t, o) → I t (as ++ [a]) (h ++ o))
    {s : σ} {as : List α} {t : σ} {h : List ω} (h0 : I s [] [])
    (hC : Along m C s as) (hr : run m s as = some (t, h)) : I t as h := by
  have key : ∀ (bs : List α) (s : σ) (as : List α) (g h : List ω), I s as g → Along m C s bs →
      run m s bs = some (t, h) → I t (as ++ bs) (g ++ h) := by
    intro bs
    induction bs with
    | nil =>
        intro s as g h hI _ hr
        obtain ⟨rfl, rfl⟩ : s = t ∧ [] = h := by simpa using hr
        simpa using hI
    | cons b bs ih =>
        intro s as g h hI hC hr
        rw [run_cons] at hr
        obtain ⟨s', o, h', hs, hr', rfl⟩ := hr
        obtain ⟨hCb, hC'⟩ := hC
        simp only [hs] at hC'
        rw [← List.append_assoc, ← List.singleton_append, ← List.append_assoc]
        exact ih s' (as ++ [b]) (g ++ o) h' (step s b s' o as g hCb hI hs) hC' hr'
  exact key as s [] [] h h0 hC hr

/-- The trivial side condition holds along every run. -/
theorem along_true (s : σ) (as : List α) : Along m (fun _ _ => True) s as := by
  induction as generalizing s with
  | nil => trivial
  | cons a as ih =>
      refine ⟨trivial, ?_⟩
      cases m s a with
      | none => trivial
      | some p => exact ih p.1

/-- A side condition on the actions alone. -/
theorem along_of_forall {C : α → Prop} {as : List α} (h : ∀ a ∈ as, C a) (s : σ) :
    Along m (fun _ => C) s as := by
  induction as generalizing s with
  | nil => trivial
  | cons a as ih =>
      refine ⟨h a List.mem_cons_self, ?_⟩
      cases m s a with
      | none => trivial
      | some p => exact ih (fun b hb => h b (List.mem_cons_of_mem a hb)) p.1

/-- No step of the run is the action `a`. -/
theorem along_ne {a : α} {as : List α} (h : a ∉ as) (s : σ) : Along m (fun _ b => b ≠ a) s as :=
  along_of_forall (C := (· ≠ a)) (fun _ hb => ne_of_mem_of_not_mem hb h) s

/-- What holds of every observation of a run holds of those of each step. -/
theorem along_of_observed {p : ω → Prop} {s : σ} {as : List α} {t : σ} {h : List ω}
    (hr : run m s as = some (t, h)) (hp : ∀ x ∈ h, p x) :
    Along m (fun s a => ∀ t o, m s a = some (t, o) → ∀ x ∈ o, p x) s as := by
  induction as generalizing s h with
  | nil => trivial
  | cons a as ih =>
      rw [run_cons] at hr
      obtain ⟨u, o, h', hs, hr', rfl⟩ := hr
      refine ⟨fun t' o' hs' x hx => ?_, ?_⟩
      · obtain ⟨rfl, rfl⟩ : u = t' ∧ o = o' := by simpa [hs] using hs'
        exact hp x (List.mem_append_left h' hx)
      · simp only [hs]
        exact ih hr' fun x hx => hp x (List.mem_append_right o hx)

/-- **Run induction.** `I s₀ []` and preservation by every step give `I` after every run. -/
theorem run_invariant {I : σ → List ω → Prop}
    (step : ∀ s a t o h, I s h → m s a = some (t, o) → I t (h ++ o))
    {s : σ} {as : List α} {t : σ} {h : List ω} (h0 : I s [])
    (hr : run m s as = some (t, h)) : I t h :=
  run_invariant_along (C := fun _ _ => True) (fun s a t o h _ => step s a t o h) h0
    (along_true s as) hr

/-- Run induction for a property of the state alone. -/
theorem run_preserves {P : σ → Prop} (step : ∀ s a t o, P s → m s a = some (t, o) → P t)
    {s : σ} {as : List α} {t : σ} {h : List ω} (h0 : P s)
    (hr : run m s as = some (t, h)) : P t :=
  run_invariant (I := fun s _ => P s) (fun s a t o _ => step s a t o) h0 hr

/-- A run whose steps all meet `C` is one whose steps meet any weaker condition. -/
theorem Along.mono {C D : σ → α → Prop} (hCD : ∀ s a, C s a → D s a) {s : σ} {as : List α}
    (h : Along m C s as) : Along m D s as := by
  induction as generalizing s with
  | nil => trivial
  | cons a as ih =>
      refine ⟨hCD s a h.1, ?_⟩
      have h2 := h.2
      revert h2
      cases m s a with
      | none => exact fun _ => trivial
      | some p => exact fun h2 => ih h2

/-- Two side conditions along one run. -/
theorem along_and {C D : σ → α → Prop} {s : σ} {as : List α} :
    Along m (fun s a => C s a ∧ D s a) s as ↔ Along m C s as ∧ Along m D s as := by
  induction as generalizing s with
  | nil => simp [Along]
  | cons a as ih =>
      cases hs : m s a with
      | none => simp [Along, hs]
      | some p =>
          simp only [Along, hs, ih]
          exact and_and_and_comm

/-- Along a run, one side condition gives another where an invariant of the steps that meet
the first says so. -/
theorem Along.imp_of_run {C D : σ → α → Prop} {P : σ → Prop}
    (step : ∀ s a t o, P s → C s a → m s a = some (t, o) → P t ∧ D s a)
    {s : σ} {as : List α} {t : σ} {h : List ω} (h0 : P s) (hC : Along m C s as)
    (hr : run m s as = some (t, h)) : Along m D s as := by
  induction as generalizing s h with
  | nil => trivial
  | cons a as ih =>
      rw [run_cons] at hr
      obtain ⟨u, o, h', hs, hr', -⟩ := hr
      obtain ⟨hCa, hC'⟩ := hC
      obtain ⟨hP, hD⟩ := step s a u o h0 hCa hs
      simp only [hs] at hC'
      refine ⟨hD, ?_⟩
      simp only [hs]
      exact ih hP hC' hr'

/-- Side conditions that agree where an invariant holds, which the steps that meet them preserve,
hold along every run together. -/
theorem along_congr_while {C D : σ → α → Prop} {P : σ → Prop}
    (hCD : ∀ s a, P s → (C s a ↔ D s a))
    (step : ∀ s a t o, P s → C s a → m s a = some (t, o) → P t) {s : σ} (h0 : P s)
    (as : List α) : Along m C s as ↔ Along m D s as := by
  induction as generalizing s with
  | nil => exact Iff.rfl
  | cons a as ih =>
      refine Iff.trans (and_congr_right fun hC => ?_) (and_congr_left' (hCD s a h0))
      cases hs : m s a with
      | none => exact Iff.rfl
      | some p => exact ih (step s a p.1 p.2 h0 hC hs)

/-- Side conditions that agree on every step of a run, where an invariant of its steps says so, hold
along it together. -/
theorem along_congr_of_invariant {C D : σ → α → Prop} {P : σ → Prop}
    (step : ∀ s a t o, P s → m s a = some (t, o) → P t ∧ (C s a ↔ D s a)) {s : σ} {as : List α}
    {t : σ} {h : List ω} (h0 : P s) (hr : run m s as = some (t, h)) :
    Along m C s as ↔ Along m D s as := by
  constructor
  · intro hC
    refine Along.imp_of_run (fun s a t o hP hc hs => ?_) h0 hC hr
    obtain ⟨hP', hCD⟩ := step s a t o hP hs
    exact ⟨hP', hCD.mp hc⟩
  · intro hD
    refine Along.imp_of_run (fun s a t o hP hd hs => ?_) h0 hD hr
    obtain ⟨hP', hCD⟩ := step s a t o hP hs
    exact ⟨hP', hCD.mpr hd⟩

/-- Side conditions that agree on every step of a run hold along it together. -/
theorem along_congr_of_run {C D : σ → α → Prop}
    (hCD : ∀ s a t o, m s a = some (t, o) → (C s a ↔ D s a)) {s : σ} {as : List α} {t : σ}
    {h : List ω} (hr : run m s as = some (t, h)) : Along m C s as ↔ Along m D s as :=
  along_congr_of_invariant (P := fun _ => True)
    (fun s a t o _ hs => ⟨trivial, hCD s a t o hs⟩) trivial hr

/-- **What one step does wrong no step repairs.** If a step leads to a bad state exactly if it
starts in one or misses `C`, a run does exactly if it starts in one or a step of it misses `C`. -/
theorem bad_iff_of_run {C : σ → α → Prop} {Bad : σ → Prop} {I : σ → List ω → Prop}
    (step : ∀ s a t o h, I s h → m s a = some (t, o) → I t (h ++ o) ∧ (Bad t ↔ Bad s ∨ ¬ C s a))
    {s : σ} {as : List α} {t : σ} {h : List ω} (h0 : I s []) (hr : run m s as = some (t, h)) :
    Bad t ↔ Bad s ∨ ¬ Along m C s as := by
  have key : ∀ (as : List α) (s : σ) (g h : List ω), I s g → run m s as = some (t, h) →
      (Bad t ↔ Bad s ∨ ¬ Along m C s as) := by
    intro as
    induction as with
    | nil =>
        intro s g h _ hr
        obtain ⟨rfl, -⟩ : s = t ∧ [] = h := by simpa using hr
        simp [Along]
    | cons a as ih =>
        intro s g h hI hr
        rw [run_cons] at hr
        obtain ⟨u, o, h', hs, hr', -⟩ := hr
        obtain ⟨hI', hbad⟩ := step s a u o g hI hs
        rw [ih u (g ++ o) h' hI' hr', hbad]
        simp only [Along, hs, not_and_or, or_assoc]
  exact key as s [] h h0 hr

/-- **Amortisation.** If every step pays its cost out of a potential and of what its action
gains, the cost of a run is bounded by the initial potential and all that is gained. -/
theorem cost_le_of_run {C : σ → α → Prop} {cost gain : α → Nat} (potential : σ → Nat)
    (step : ∀ s a t o, C s a → m s a = some (t, o) →
      cost a + potential t ≤ potential s + gain a)
    {s : σ} {as : List α} {t : σ} {h : List ω} (hC : Along m C s as)
    (hr : run m s as = some (t, h)) :
    (as.map cost).sum + potential t ≤ potential s + (as.map gain).sum := by
  induction as generalizing s h with
  | nil =>
      obtain ⟨rfl, -⟩ : s = t ∧ [] = h := by simpa using hr
      simp
  | cons a as ih =>
      rw [run_cons] at hr
      obtain ⟨u, o, h', hs, hr', -⟩ := hr
      obtain ⟨hCa, hC'⟩ := hC
      simp only [hs] at hC'
      have hhead := step s a u o hCa hs
      have htail := ih hC' hr'
      simp only [List.map_cons, List.sum_cons]
      omega

/-- The machine with its history in the state. -/
def recorded (m : Machine σ α ω) : Machine (σ × List ω) α ω := fun p a =>
  match m p.1 a with
  | none => none
  | some (t, o) => some ((t, p.2 ++ o), o)

theorem run_recorded {s : σ} {as : List α} {t : σ} {h : List ω} (hr : run m s as = some (t, h))
    (g : List ω) : run (recorded m) (s, g) as = some ((t, g ++ h), h) := by
  induction as generalizing s g h with
  | nil =>
      obtain ⟨rfl, rfl⟩ : s = t ∧ [] = h := by simpa using hr
      rw [List.append_nil]
      rfl
  | cons a as ih =>
      rw [run_cons] at hr
      obtain ⟨u, o, h', hs, hr', rfl⟩ := hr
      refine run_cons.mpr ⟨(u, g ++ o), o, h', by simp only [recorded, hs], ?_, rfl⟩
      rw [← List.append_assoc]
      exact ih hr' (g ++ o)

/-- Run induction under a side condition on the state, the history and the action. -/
theorem run_invariant_recorded {C : σ × List ω → α → Prop} {I : σ → List ω → Prop}
    (step : ∀ s a t o h, C (s, h) a → I s h → m s a = some (t, o) → I t (h ++ o))
    {s : σ} {as : List α} {t : σ} {h : List ω} (h0 : I s [])
    (hC : Along (recorded m) C (s, []) as) (hr : run m s as = some (t, h)) : I t h := by
  refine run_invariant_along (I := fun p _ => I p.1 p.2) (fun p a q o _ hCa hI hs => ?_) h0 hC
    (run_recorded hr [])
  simp only [recorded] at hs
  split at hs
  · exact absurd hs (by simp)
  · rename_i t' o' hs'
    obtain ⟨rfl, rfl⟩ := outcome hs
    exact step p.1 a t' _ p.2 hCa hI hs'

/-- **Projection of runs.** If every step of one machine is a run of another, through a
view of the states and of the observations, then so is every run. An invariant `P` of the
first machine may be used on the way, and where its actions meet `C`, those of the second
meet `Q`. -/
theorem run_project_along {σ' : Type u'} {α' : Type v'} {ω' : Type w'} {n : Machine σ' α' ω'}
    (f : σ → σ') (g : ω → Option ω') {P : σ → Prop} {C : σ → α → Prop} {Q : α' → Prop}
    (step : ∀ s a t o, C s a → P s → m s a = some (t, o) →
      P t ∧ ∃ bs, run n (f s) bs = some (f t, o.filterMap g) ∧ ∀ b ∈ bs, Q b)
    {s : σ} {as : List α} {t : σ} {h : List ω} (h0 : P s) (hC : Along m C s as)
    (hr : run m s as = some (t, h)) :
    ∃ bs, run n (f s) bs = some (f t, h.filterMap g) ∧ ∀ b ∈ bs, Q b := by
  suffices key : P t ∧ ∃ bs, run n (f s) bs = some (f t, h.filterMap g) ∧ ∀ b ∈ bs, Q b from key.2
  refine run_invariant_along (I := fun t h => P t ∧
    ∃ bs, run n (f s) bs = some (f t, h.filterMap g) ∧ ∀ b ∈ bs, Q b) ?_
    ⟨h0, [], rfl, by simp⟩ hC hr
  rintro s₁ a s₂ o h hCa ⟨hP, bs, hbs, hQ⟩ hs
  obtain ⟨hP', bs', hbs', hQ'⟩ := step s₁ a s₂ o hCa hP hs
  refine ⟨hP', bs ++ bs', run_append.mpr ⟨_, _, _, hbs, hbs', List.filterMap_append⟩, ?_⟩
  exact fun b hb => (List.mem_append.mp hb).elim (hQ b) (hQ' b)

/-- Projection without a condition on the actions. -/
theorem run_project {σ' : Type u'} {α' : Type v'} {ω' : Type w'} {n : Machine σ' α' ω'}
    (f : σ → σ') (g : ω → Option ω') {P : σ → Prop}
    (step : ∀ s a t o, P s → m s a = some (t, o) →
      P t ∧ ∃ bs, run n (f s) bs = some (f t, o.filterMap g))
    {s : σ} {as : List α} {t : σ} {h : List ω} (h0 : P s) (hr : run m s as = some (t, h)) :
    ∃ bs, run n (f s) bs = some (f t, h.filterMap g) := by
  obtain ⟨bs, hbs, -⟩ := run_project_along (Q := fun _ => True) f g
    (fun s a t o _ hP hs => (step s a t o hP hs).imp_right
      fun ⟨bs, hbs⟩ => ⟨bs, hbs, fun _ _ => trivial⟩) h0 (along_true s as) hr
  exact ⟨bs, hbs⟩

/-- The labels of the steps of a run. -/
def labels {β : Type u'} (m : Machine σ α ω) (l : σ → α → List β) : σ → List α → List β
  | _, [] => []
  | s, a :: as => l s a ++
    match m s a with
    | none => []
    | some (t, _) => labels m l t as

/-- Run induction over the labels. -/
theorem run_invariant_labels {β : Type u'} {l : σ → α → List β} {I : σ → List β → Prop}
    (step : ∀ s a t o g, I s g → m s a = some (t, o) → I t (g ++ l s a))
    {s : σ} {as : List α} {t : σ} {h : List ω} (h0 : I s []) (hr : run m s as = some (t, h)) :
    I t (labels m l s as) := by
  have key : ∀ (as : List α) (s : σ) (g : List β) (h : List ω), I s g →
      run m s as = some (t, h) → I t (g ++ labels m l s as) := by
    intro as
    induction as with
    | nil =>
        intro s g h hI hr
        obtain ⟨rfl, -⟩ : s = t ∧ [] = h := by simpa using hr
        simpa [labels] using hI
    | cons a as ih =>
        intro s g h hI hr
        rw [run_cons] at hr
        obtain ⟨s', o, h', hs, hr', -⟩ := hr
        rw [labels, hs, ← List.append_assoc]
        exact ih s' (g ++ l s a) h' (step s a s' o g hI hs) hr'
  exact key as s [] h h0 hr

/-- **Simulation with labels.** If the labels of every step are a run of another machine
between the views of its ends, then so are the labels of every run. -/
theorem run_labels {σ' : Type u'} {α' : Type v'} {ω' : Type w'} {n : Machine σ' α' ω'}
    (f : σ → σ') (g : ω → Option ω') (l : σ → α → List α')
    (step : ∀ s a t o, m s a = some (t, o) → run n (f s) (l s a) = some (f t, o.filterMap g))
    {s : σ} {as : List α} {t : σ} {h : List ω} (hr : run m s as = some (t, h)) :
    run n (f s) (labels m l s as) = some (f t, h.filterMap g) := by
  induction as generalizing s h with
  | nil =>
      obtain ⟨rfl, rfl⟩ : s = t ∧ [] = h := by simpa using hr
      rfl
  | cons a as ih =>
      rw [run_cons] at hr
      obtain ⟨u, o, h', hs, hr', rfl⟩ := hr
      rw [labels, hs, List.filterMap_append]
      exact run_append.mpr ⟨f u, _, _, step s a u o hs, ih hr', rfl⟩

end Machine

/-! ### Observations and what came before them -/

/-- Every observation `o` of the trace satisfies `Q` against the observations made
before it. -/
def Always (Q : List ω → ω → Prop) (h : List ω) : Prop :=
  ∀ h₁ o h₂, h = h₁ ++ o :: h₂ → Q h₁ o

namespace Always

variable {Q : List ω → ω → Prop}

theorem nil : Always Q [] := by
  intro h₁ o h₂ heq
  simp at heq

theorem snoc {h : List ω} {o : ω} (hh : Always Q h) (ho : Q h o) : Always Q (h ++ [o]) := by
  intro h₁ o' h₂ heq
  rcases List.eq_nil_or_concat h₂ with rfl | ⟨h₂', x, rfl⟩
  · obtain ⟨rfl, ho'⟩ := List.append_inj' heq rfl
    obtain rfl : o = o' := by simpa using ho'
    exact ho
  · have heq' : h ++ [o] = (h₁ ++ o' :: h₂') ++ [x] := by simpa using heq
    obtain ⟨rfl, -⟩ := List.append_inj' heq' rfl
    exact hh h₁ o' h₂' rfl

/-- Appending observations that are no instance of the property. -/
theorem append {h os : List ω} (hh : Always Q h)
    (hos : ∀ os₁ o os₂, os = os₁ ++ o :: os₂ → Q (h ++ os₁) o) : Always Q (h ++ os) := by
  induction os generalizing h with
  | nil => simpa using hh
  | cons o os ih =>
      rw [← List.singleton_append, ← List.append_assoc]
      refine ih (hh.snoc (by simpa using hos [] o os rfl)) ?_
      intro os₁ o' os₂ heq
      simpa using hos (o :: os₁) o' os₂ (by simp [heq])

end Always

end MarketData
