import Mathlib.Order.WellFounded
import MarketData.Lib.Machine

/-!
# MarketData.Lib.Liveness

**What a machine gets done in the end.** A `Path` is an execution without end: at each moment
the machine takes a step or rests, so that a run which has come to its end is a path too
(`Path.ofRun`). Which of the enabled steps is taken is the scheduler's choice, and `Path.Fair`
is what is assumed of it: steps of a kind that are enabled again and again are taken again and
again (strong fairness). Which steps can be enabled may be up to the surroundings (`guarded`).

`Path.LeadsTo.of_rank` is the rule of this module. A well-founded rank that no step raises and
that every step of the fair kind lowers cannot be lowered forever, so the goal is reached,
provided that the fair kind is not blocked for good before it is. Longer ways are put together of
such stretches with `LeadsTo.trans`.
-/

namespace MarketData.Machine

universe u v w

variable {σ : Type u} {α : Type v} {ω : Type w}

/-- One moment of an execution: a step or a rest. -/
inductive Moved (m : Machine σ α ω) : σ → Option α → σ → Prop
  | rested (s : σ) : Moved m s none s
  | stepped {s : σ} {a : α} {t : σ} {o : List ω} (h : m s a = some (t, o)) : Moved m s (some a) t

/-- An execution without end. -/
structure Path (m : Machine σ α ω) where
  state : ℕ → σ
  act : ℕ → Option α
  moved : ∀ n, Moved m (state n) (act n) (state (n + 1))

/-- An action of the kind `A` is enabled. -/
def Enabled (m : Machine σ α ω) (A : α → Prop) (s : σ) : Prop :=
  ∃ a, A a ∧ (m s a).isSome = true

namespace Path

variable {m : Machine σ α ω} (x : Path m)

/-- At this moment an action of the kind `A` is taken. -/
def Takes (A : α → Prop) (n : ℕ) : Prop := ∃ a, x.act n = some a ∧ A a

/-- **Strong fairness**: what is enabled again and again is taken again and again. -/
def Fair (A : α → Prop) : Prop :=
  (∀ n, ∃ k ≥ n, Enabled m A (x.state k)) → ∀ n, ∃ k ≥ n, x.Takes A k

variable {x}

/-- A kind that is never enabled is treated fairly. -/
theorem fair_of_disabled {A : α → Prop} (hno : ∀ n, ¬ Enabled m A (x.state n)) : x.Fair A := by
  intro hen
  obtain ⟨k, -, he⟩ := hen 0
  exact absurd he (hno k)

/-- Two kinds that are treated fairly are treated so together. -/
theorem fair_or {A B : α → Prop} (hA : x.Fair A) (hB : x.Fair B) :
    x.Fair (fun a => A a ∨ B a) := by
  intro hen n
  by_cases h : ∀ n, ∃ k ≥ n, Enabled m A (x.state k)
  · obtain ⟨k, hk, a, ha, hAa⟩ := hA h n
    exact ⟨k, hk, a, ha, Or.inl hAa⟩
  · -- from some moment on only `B` can be what is enabled
    obtain ⟨i, hi⟩ := not_forall.mp h
    obtain ⟨k, hk, a, ha, hBa⟩ := hB (fun n => by
      obtain ⟨k, hk, a, hAB, hsome⟩ := hen (max i n)
      rcases hAB with hAa | hBa
      · exact absurd ⟨k, (le_max_left i n).trans hk, a, hAa, hsome⟩ hi
      · exact ⟨k, (le_max_right i n).trans hk, a, hBa, hsome⟩) n
    exact ⟨k, hk, a, ha, Or.inr hBa⟩

/-- What a moment does if every step keeps `R`. -/
theorem moved_rel {R : σ → σ → Prop} (hrefl : ∀ s, R s s) {n : ℕ}
    (hstep : ∀ a t o, x.act n = some a → m (x.state n) a = some (t, o) → R (x.state n) t) :
    R (x.state n) (x.state (n + 1)) := by
  have hmoved := x.moved n
  generalize hs : x.state n = s at hmoved hstep ⊢
  generalize x.state (n + 1) = t at hmoved ⊢
  generalize ha : x.act n = a at hmoved hstep
  cases hmoved with
  | rested => exact hrefl s
  | stepped h => exact hstep _ t _ rfl h

/-- What every step keeps that is taken from `N` on goes on to hold. -/
theorem stays {I : σ → Prop} {C : σ → α → Prop} {N : ℕ}
    (hC : ∀ n ≥ N, ∀ a, x.act n = some a → C (x.state n) a)
    (step : ∀ s a t o, C s a → I s → m s a = some (t, o) → I t) (h0 : I (x.state N)) :
    ∀ n ≥ N, I (x.state n) := by
  intro n hn
  induction n, hn using Nat.le_induction with
  | base => exact h0
  | succ n hn ih =>
      exact moved_rel (R := fun s t => I s → I t) (fun _ => id)
        (fun a t o ha hs hI => step _ a t o (hC n hn a ha) hI hs) ih

/-- What every step keeps holds at all times. -/
theorem always {I : σ → Prop} (step : ∀ s a t o, I s → m s a = some (t, o) → I t)
    (h0 : I (x.state 0)) (n : ℕ) : I (x.state n) :=
  stays (C := fun _ _ => True) (fun _ _ _ _ => trivial) (fun s a t o _ => step s a t o) h0 n
    (Nat.zero_le n)

/-- The step of a moment at which one is taken. -/
theorem stepped {n : ℕ} {a : α} (ha : x.act n = some a) :
    ∃ o, m (x.state n) a = some (x.state (n + 1), o) := by
  have hmoved := x.moved n
  rw [ha] at hmoved
  cases hmoved with
  | stepped h => exact ⟨_, h⟩

/-- From `N` on, wherever `P` holds `Q` holds in the end. -/
def LeadsTo (x : Path m) (N : ℕ) (P Q : σ → Prop) : Prop :=
  ∀ n ≥ N, P (x.state n) → ∃ k ≥ n, Q (x.state k)

namespace LeadsTo

variable {N : ℕ} {P Q R : σ → Prop}

theorem trans (hPQ : x.LeadsTo N P Q) (hQR : x.LeadsTo N Q R) : x.LeadsTo N P R := by
  intro n hn hP
  obtain ⟨k, hk, hQ⟩ := hPQ n hn hP
  obtain ⟨l, hl, hR⟩ := hQR k (hn.trans hk) hQ
  exact ⟨l, hk.trans hl, hR⟩

/-- **The rank rule.** If `P` goes on to hold until `Q` does and no step raises the rank, steps of
the fair kind lower it, and these are never blocked for good, then `P` leads to `Q`. -/
theorem of_rank {β : Type*} [Preorder β] [WellFoundedLT β] {C : σ → α → Prop} {A : α → Prop}
    (rank : σ → β) (hC : ∀ n ≥ N, ∀ a, x.act n = some a → C (x.state n) a)
    (hle : ∀ s a t o, C s a → P s → ¬ Q s → m s a = some (t, o) → Q t ∨ (P t ∧ rank t ≤ rank s))
    (hlt : ∀ s a t o, C s a → P s → ¬ Q s → A a → m s a = some (t, o) → Q t ∨ rank t < rank s)
    (hfair : x.Fair A)
    (hen : ∀ n ≥ N, (∀ k ≥ n, P (x.state k) ∧ ¬ Q (x.state k)) → ∃ k ≥ n, Enabled m A (x.state k)) :
    x.LeadsTo N P Q := by
  intro n hn hP
  by_contra hno
  have hnever : ∀ k ≥ n, ¬ Q (x.state k) := fun k hk hq => hno ⟨k, hk, hq⟩
  -- from `n` on `P` holds and the rank only falls
  have hstep : ∀ k ≥ n, P (x.state k) →
      P (x.state (k + 1)) ∧ rank (x.state (k + 1)) ≤ rank (x.state k) := by
    intro k hk hPk
    refine moved_rel (R := fun s t => P s → ¬ Q t → P t ∧ rank t ≤ rank s)
      (fun _ hP _ => ⟨hP, le_rfl⟩) ?_ hPk (hnever (k + 1) (by omega))
    exact fun a t o ha hs hP hq =>
      (hle _ a t o (hC k (hn.trans hk) a ha) hP (hnever k hk) hs).resolve_left hq
  have hholds : ∀ k ≥ n, P (x.state k) := by
    intro k hk
    induction k, hk using Nat.le_induction with
    | base => exact hP
    | succ k hk ih => exact (hstep k hk ih).1
  have hmono : ∀ k ≥ n, ∀ d, rank (x.state (k + d)) ≤ rank (x.state k) := by
    intro k hk d
    induction d with
    | zero => exact le_rfl
    | succ d ih => exact (hstep (k + d) (by omega) (hholds _ (by omega))).2.trans ih
  have htakes : ∀ k, ∃ l ≥ k, x.Takes A l := by
    refine hfair fun k => ?_
    obtain ⟨l, hl, he⟩ := hen (max n k) (hn.trans (le_max_left n k)) fun l hl =>
      ⟨hholds l ((le_max_left n k).trans hl), hnever l ((le_max_left n k).trans hl)⟩
    exact ⟨l, (le_max_right n k).trans hl, he⟩
  -- and from every moment on it falls strictly once more
  have hdescent : ∀ r : β, ∀ k ≥ n, rank (x.state k) = r → False := by
    intro r
    induction r using WellFoundedLT.induction with
    | ind r ih =>
        rintro k hk rfl
        obtain ⟨l, hl, a, ha, hA⟩ := htakes k
        obtain ⟨o, hs⟩ := stepped ha
        have hlow := (hlt _ a _ o (hC l (by omega) a ha) (hholds l (by omega)) (hnever l (by omega))
          hA hs).resolve_left (hnever (l + 1) (by omega))
        have hfrom := hmono k hk (l - k)
        rw [Nat.add_sub_cancel' hl] at hfrom
        exact ih _ (hlow.trans_le hfrom) (l + 1) (by omega) rfl
  exact hdescent _ n le_rfl rfl

end LeadsTo

/-! ### What a path has shown -/

/-- What a moment shows. -/
def obs (x : Path m) (n : ℕ) : List ω :=
  (x.act n).elim [] fun a => (m (x.state n) a).elim [] Prod.snd

/-- What a path has shown before a moment. -/
def trace (x : Path m) : ℕ → List ω
  | 0 => []
  | n + 1 => x.trace n ++ x.obs n

theorem trace_prefix (x : Path m) {n k : ℕ} (h : n ≤ k) : x.trace n <+: x.trace k := by
  induction k, h using Nat.le_induction with
  | base => exact List.prefix_rfl
  | succ k _ ih => exact ih.trans (List.prefix_append ..)

/-- **Up to a moment, a path is a run.** -/
theorem run_trace (x : Path m) (n : ℕ) :
    ∃ acts, Machine.run m (x.state 0) acts = some (x.state n, x.trace n) := by
  induction n with
  | zero => exact ⟨[], rfl⟩
  | succ n ih =>
      obtain ⟨acts, hr⟩ := ih
      have hmoved := x.moved n
      rw [trace, obs]
      generalize x.state (n + 1) = t at hmoved ⊢
      generalize x.state n = s at hmoved hr ⊢
      generalize x.act n = a at hmoved ⊢
      cases hmoved with
      | rested =>
          rw [Option.elim_none, List.append_nil]
          exact ⟨acts, hr⟩
      | stepped h =>
          rw [Option.elim_some, h]
          exact ⟨_, run_append.mpr ⟨s, _, _, hr, run_singleton.mpr h, rfl⟩⟩

end Path

theorem recorded_eq_some {m : Machine σ α ω} {s t : σ × List ω} {a : α} {o : List ω} :
    recorded m s a = some (t, o) ↔ m s.1 a = some (t.1, o) ∧ t.2 = s.2 ++ o := by
  obtain ⟨t, h⟩ := t
  unfold recorded
  cases hs : m s.1 a with
  | none => simp
  | some r =>
      obtain ⟨t', o'⟩ := r
      simp only [Option.some.injEq, Prod.mk.injEq]
      constructor
      · rintro ⟨⟨rfl, rfl⟩, rfl⟩
        exact ⟨⟨rfl, rfl⟩, rfl⟩
      · rintro ⟨⟨rfl, rfl⟩, rfl⟩
        exact ⟨⟨rfl, rfl⟩, rfl⟩

/-- A path with its record. -/
def Path.recorded {m : Machine σ α ω} (x : Path m) : Path (Machine.recorded m) where
  state n := (x.state n, x.trace n)
  act := x.act
  moved n := by
    have hmoved := x.moved n
    rw [trace, obs]
    generalize hs : x.state n = s at hmoved ⊢
    generalize x.state (n + 1) = t at hmoved ⊢
    generalize x.act n = a at hmoved ⊢
    cases hmoved with
    | rested =>
        rw [Option.elim_none, List.append_nil]
        exact .rested _
    | stepped h =>
        rw [Option.elim_some, h]
        exact .stepped (recorded_eq_some.mpr ⟨h, rfl⟩)

/-- A record changes nothing for the scheduler. -/
theorem Path.fair_recorded {m : Machine σ α ω} {x : Path m} {A : α → Prop} (h : x.Fair A) :
    x.recorded.Fair A := by
  intro hen
  refine h fun n => ?_
  obtain ⟨k, hk, a, hA, hsome⟩ := hen n
  obtain ⟨r, hr⟩ := Option.isSome_iff_exists.mp hsome
  have hs : m (x.state k) a = some (r.1.1, r.2) := (recorded_eq_some.mp hr).1
  exact ⟨k, hk, a, hA, by rw [hs]; rfl⟩

/-- A record blocks nothing. -/
theorem enabled_recorded {m : Machine σ α ω} {A : α → Prop} {p : σ × List ω} :
    Enabled (Machine.recorded m) A p ↔ Enabled m A p.1 := by
  have hiff : ∀ a, (Machine.recorded m p a).isSome = (m p.1 a).isSome := by
    intro a
    unfold Machine.recorded
    cases m p.1 a <;> rfl
  unfold Enabled
  simp only [hiff]

/-! ### A machine and what lets it -/

/-- The steps of a machine that its surroundings let it take. -/
def guarded (m : Machine σ α ω) (g : σ → α → Prop) [∀ s a, Decidable (g s a)] : Machine σ α ω :=
  fun s a => if g s a then m s a else none

theorem guarded_eq_some {m : Machine σ α ω} {g : σ → α → Prop} [∀ s a, Decidable (g s a)] {s : σ}
    {a : α} {r : σ × List ω} : guarded m g s a = some r ↔ g s a ∧ m s a = some r := by
  unfold guarded
  by_cases h : g s a <;> simp [h]

/-- What the surroundings let a machine do it can do. -/
theorem run_of_guarded {m : Machine σ α ω} {g : σ → α → Prop} [∀ s a, Decidable (g s a)] {s t : σ}
    {as : List α} {h : List ω} (hr : run (guarded m g) s as = some (t, h)) :
    run m s as = some (t, h) := by
  induction as generalizing s h with
  | nil => exact hr
  | cons a as ih =>
      obtain ⟨u, o, h', hs, hr', rfl⟩ := run_cons.mp hr
      exact run_cons.mpr ⟨u, o, h', (guarded_eq_some.mp hs).2, ih hr', rfl⟩

/-! ### A run as a path -/

/-- The state after the first actions of a list. -/
def stateAfter (m : Machine σ α ω) : σ → List α → ℕ → σ
  | s, _, 0 => s
  | s, [], _ + 1 => s
  | s, a :: as, n + 1 =>
    match m s a with
    | none => s
    | some (t, _) => stateAfter m t as n

variable {m : Machine σ α ω}

theorem stateAfter_nil (s : σ) (n : ℕ) : stateAfter m s [] n = s := by
  cases n <;> rfl

theorem stateAfter_zero (s : σ) (as : List α) : stateAfter m s as 0 = s := by
  cases as <;> rfl

theorem stateAfter_cons {s t : σ} {a : α} {o : List ω} (hs : m s a = some (t, o)) (as : List α)
    (n : ℕ) : stateAfter m s (a :: as) (n + 1) = stateAfter m t as n := by
  simp only [stateAfter, hs]

/-- At its end a run has reached its last state. -/
theorem stateAfter_of_le {s u : σ} {as : List α} {h : List ω} (hr : run m s as = some (u, h))
    {n : ℕ} (hn : as.length ≤ n) : stateAfter m s as n = u := by
  induction as generalizing s h n with
  | nil =>
      obtain ⟨rfl, -⟩ : s = u ∧ [] = h := by simpa using hr
      exact stateAfter_nil s n
  | cons a as ih =>
      obtain ⟨t, o, h', hs, hr', -⟩ := run_cons.mp hr
      obtain ⟨n, rfl⟩ := Nat.exists_eq_succ_of_ne_zero (Nat.ne_of_gt (Nat.lt_of_lt_of_le
        (Nat.succ_pos as.length) hn))
      rw [Nat.succ_eq_add_one, stateAfter_cons hs]
      exact ih hr' (Nat.le_of_succ_le_succ hn)

/-- The moments of a run. -/
theorem moved_stateAfter {s u : σ} {as : List α} {h : List ω} (hr : run m s as = some (u, h))
    (n : ℕ) : Moved m (stateAfter m s as n) as[n]? (stateAfter m s as (n + 1)) := by
  induction as generalizing s h n with
  | nil =>
      rw [stateAfter_nil, stateAfter_nil]
      exact .rested s
  | cons a as ih =>
      obtain ⟨t, o, h', hs, hr', -⟩ := run_cons.mp hr
      rw [stateAfter_cons hs]
      cases n with
      | zero =>
          rw [stateAfter_zero, stateAfter_zero]
          exact .stepped hs
      | succ n =>
          rw [stateAfter_cons hs, List.getElem?_cons_succ]
          exact ih hr' n

/-- **A run that has come to its end rests.** -/
def Path.ofRun {s u : σ} {as : List α} {h : List ω} (hr : run m s as = some (u, h)) : Path m where
  state := stateAfter m s as
  act n := as[n]?
  moved := moved_stateAfter hr

@[simp] theorem Path.state_ofRun {s u : σ} {as : List α} {h : List ω}
    (hr : run m s as = some (u, h)) (n : ℕ) : (Path.ofRun hr).state n = stateAfter m s as n := rfl

/-- A condition on the steps of a run is one on those of its path. -/
theorem Path.along_ofRun {C : σ → α → Prop} {s u : σ} {as : List α} {h : List ω}
    (hr : run m s as = some (u, h)) (hC : Along m C s as) {n : ℕ} {a : α}
    (ha : (Path.ofRun hr).act n = some a) : C ((Path.ofRun hr).state n) a := by
  replace ha : as[n]? = some a := ha
  rw [state_ofRun]
  induction as generalizing s h n with
  | nil => cases ha
  | cons b as ih =>
      obtain ⟨t, o, h', hs, hr', -⟩ := run_cons.mp hr
      obtain ⟨hb, hrest⟩ := hC
      rw [hs] at hrest
      cases n with
      | zero =>
          obtain rfl : b = a := by simpa using ha
          exact hb
      | succ n =>
          rw [List.getElem?_cons_succ] at ha
          rw [stateAfter_cons hs]
          exact ih hr' hrest ha

/-- A path that comes to rest where no action of a kind is enabled is fair to that kind. -/
theorem Path.fair_ofRun {s u : σ} {as : List α} {h : List ω} (hr : run m s as = some (u, h))
    {A : α → Prop} (hno : ¬ Enabled m A u) : (Path.ofRun hr).Fair A := by
  intro hen
  obtain ⟨k, hk, he⟩ := hen as.length
  rw [Path.state_ofRun, stateAfter_of_le hr hk] at he
  exact absurd he hno

/-- **A run, and then a path from where it has led.** -/
def Path.prepend {s u : σ} {as : List α} {h : List ω} (hr : run m s as = some (u, h)) (x : Path m)
    (hx : x.state 0 = u) : Path m where
  state n := if n < as.length then stateAfter m s as n else x.state (n - as.length)
  act n := if n < as.length then as[n]? else x.act (n - as.length)
  moved n := by
    by_cases hn : n < as.length
    · have hmoved := moved_stateAfter hr n
      rw [if_pos hn, if_pos hn]
      by_cases hn' : n + 1 < as.length
      · rwa [if_pos hn']
      · rw [if_neg hn', Nat.sub_eq_zero_of_le (by omega), hx, ← stateAfter_of_le hr (not_lt.mp hn')]
        exact hmoved
    · rw [if_neg hn, if_neg hn, if_neg (by omega), Nat.sub_add_comm (not_lt.mp hn)]
      exact x.moved _

theorem Path.state_prepend {s u : σ} {as : List α} {h : List ω} (hr : run m s as = some (u, h))
    {x : Path m} (hx : x.state 0 = u) (n : ℕ) :
    (Path.prepend hr x hx).state (as.length + n) = x.state n := by
  simp [Path.prepend]

theorem Path.act_prepend {s u : σ} {as : List α} {h : List ω} (hr : run m s as = some (u, h))
    {x : Path m} (hx : x.state 0 = u) (n : ℕ) :
    (Path.prepend hr x hx).act (as.length + n) = x.act n := by
  simp [Path.prepend]

/-- Fairness does not depend on how a path begins. -/
theorem Path.fair_prepend {s u : σ} {as : List α} {h : List ω} (hr : run m s as = some (u, h))
    {x : Path m} (hx : x.state 0 = u) {A : α → Prop} (hfair : x.Fair A) :
    (Path.prepend hr x hx).Fair A := by
  intro hen n
  have hlater : ∀ i, ∃ k ≥ i, Enabled m A (x.state k) := by
    intro i
    obtain ⟨k, hk, he⟩ := hen (as.length + i)
    obtain ⟨d, rfl⟩ := Nat.exists_eq_add_of_le hk
    rw [Nat.add_assoc, Path.state_prepend] at he
    exact ⟨i + d, Nat.le_add_right i d, he⟩
  obtain ⟨k, hk, a, ha, hA⟩ := hfair hlater n
  refine ⟨as.length + k, by omega, a, ?_, hA⟩
  rwa [Path.act_prepend]

end MarketData.Machine
