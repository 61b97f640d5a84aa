import Mathlib.Data.Finset.Basic
import Mathlib.Logic.Function.Basic
import MarketData.Lib.Machine
import MarketData.Models

/-!
# MarketData.Storage.Pool

**The connection pool of a `HistoryStore`.** Every operation of the store calls `connect`, which
creates a pool if `self._pool` holds none; `close` closes the pool it finds there and stores `None`.
Both look at `self._pool`, await, and then store into it, and no lock keeps others from doing the
same meanwhile.

So a pool can be lost: what is stored over it, by a second `connect` or by a `close` of an earlier
pool, leaves it open with nobody to close it. `pools_kept_iff` says that there is no other way.
-/

namespace MarketData.Storage

/-- What is called on the store. -/
inductive StoreCall
  | connect
  | ensureSchema
  | insertTicks (events : List MarketEvent)
  | fetchTicks

/-- The call returns without a pool. -/
def StoreCall.isEmpty : StoreCall → Bool
  | .insertTicks [] => true
  | _ => false

/-- Where a task is. -/
inductive StoreTask
  | idle
  /-- `connect`, awaiting `create_pool`. -/
  | creating (call : StoreCall)
  /-- Awaiting the database, through this pool. -/
  | querying (p : Nat)
  /-- `close`, awaiting the `close` of this pool. -/
  | closing (p : Nat)

/-- Where `connect` returns to. -/
def StoreCall.connected (p : Nat) : StoreCall → StoreTask
  | .connect => .idle
  | _ => .querying p

theorem StoreCall.connected_ne_closing (call : StoreCall) (p q : Nat) :
    call.connected p ≠ .closing q := by
  cases call <;> simp [StoreCall.connected]

/-- The store with the tasks that use it, and the pools it has created. -/
structure StorePools where
  /-- `self._pool`. -/
  pool : Option Nat := none
  tasks : Nat → StoreTask := fun _ => .idle
  /-- The pools that have been created and not closed. -/
  openPools : Finset Nat := ∅
  /-- How many have been created, which is the name of the next. -/
  created : Nat := 0

inductive StoreAct
  | call (k : Nat) (call : StoreCall)
  /-- `create_pool` returns. -/
  | created (k : Nat)
  /-- `create_pool` raises, for want of a database or otherwise, or the task is cancelled. -/
  | failed (k : Nat) (unavailable : Bool)
  /-- The call returns or raises. -/
  | done (k : Nat)
  | close (k : Nat)
  /-- The pool's `close` returns or raises. It terminates the pool before it raises. -/
  | closed (k : Nat) (ok : Bool)

inductive StoreObs
  | opened (p : Nat)
  | closed (p : Nat)
  /-- `connect` raises `HistoryStoreUnavailableError`, or the exception as it is. -/
  | raised (k : Nat) (unavailable : Bool)
  deriving DecidableEq

namespace StorePools

/-- The store with a task somewhere else. -/
def goto (s : StorePools) (k : Nat) (task : StoreTask) : StorePools :=
  { s with tasks := Function.update s.tasks k task }

@[simp] theorem pool_goto (s : StorePools) (k : Nat) (task : StoreTask) :
    (s.goto k task).pool = s.pool := rfl

@[simp] theorem openPools_goto (s : StorePools) (k : Nat) (task : StoreTask) :
    (s.goto k task).openPools = s.openPools := rfl

@[simp] theorem created_goto (s : StorePools) (k : Nat) (task : StoreTask) :
    (s.goto k task).created = s.created := rfl

theorem tasks_goto_ne (s : StorePools) {k k' : Nat} (task : StoreTask) (h : k' ≠ k) :
    (s.goto k task).tasks k' = s.tasks k' :=
  Function.update_of_ne h ..

/-- `connect`, up to its await. -/
def connect (s : StorePools) (k : Nat) (call : StoreCall) : StorePools :=
  match s.pool with
  | some p => s.goto k (call.connected p)
  | none => s.goto k (.creating call)

/-- The rest of `connect`. -/
def connected (s : StorePools) (k : Nat) (call : StoreCall) : StorePools :=
  { s with
    pool := some s.created
    openPools := insert s.created s.openPools
    created := s.created + 1 }.goto k (call.connected s.created)

/-- The rest of `close`. -/
def closed (s : StorePools) (k p : Nat) (ok : Bool) : StorePools :=
  { s with
    pool := if ok then none else s.pool
    openPools := s.openPools.erase p }.goto k .idle

/-- Run one step. -/
def step (s : StorePools) : StoreAct → Option (StorePools × List StoreObs)
  | .call k call =>
    match s.tasks k with
    | .idle => if call.isEmpty then some (s, []) else some (s.connect k call, [])
    | _ => none
  | .created k =>
    match s.tasks k with
    | .creating call => some (s.connected k call, [.opened s.created])
    | _ => none
  | .failed k unavailable =>
    match s.tasks k with
    | .creating _ => some (s.goto k .idle, [.raised k unavailable])
    | _ => none
  | .done k =>
    match s.tasks k with
    | .querying _ => some (s.goto k .idle, [])
    | _ => none
  | .close k =>
    match s.tasks k, s.pool with
    | .idle, some p => some (s.goto k (.closing p), [])
    | .idle, none => some (s, [])
    | _, _ => none
  | .closed k ok =>
    match s.tasks k with
    | .closing p => some (s.closed k p ok, [.closed p])
    | _ => none

/-! ### Which pools are kept -/

/-- Some task is closing the pool. -/
def BeingClosed (s : StorePools) (p : Nat) : Prop := ∃ k, s.tasks k = .closing p

/-- No pool is lost. -/
structure PoolsKept (s : StorePools) : Prop where
  /-- A pool that is open is held, or being closed. -/
  kept : ∀ p ∈ s.openPools, s.pool = some p ∨ s.BeingClosed p
  /-- Outside of a close in progress at most one pool is open. -/
  atMostOne : ∀ p ∈ s.openPools, ∀ q ∈ s.openPools, ¬ s.BeingClosed p → ¬ s.BeingClosed q → p = q
  /-- After a close and with no task in progress none is. -/
  noneLeft : (∀ k, s.tasks k = .idle) → s.pool = none → s.openPools = ∅

/-- The step stores into `self._pool`, and not over the pool it has closed. -/
def Overwrites (s : StorePools) : StoreAct → Prop
  | .created k => ∃ call, s.tasks k = .creating call
  | .closed k true => ∃ p, s.tasks k = .closing p ∧ s.pool ≠ some p
  | _ => False

/-- What the step stores over is no open pool, or one that is being closed. -/
def Guarded (s : StorePools) (a : StoreAct) : Prop :=
  s.Overwrites a → ∀ p ∈ s.openPools, s.pool = some p → s.BeingClosed p

/-- Whoever is held or being closed is all there is. -/
theorem PoolsKept.of_kept {s : StorePools}
    (h : ∀ p ∈ s.openPools, s.pool = some p ∨ s.BeingClosed p) : PoolsKept s where
  kept := h
  atMostOne p hp q hq hnp hnq := by
    have hheldp := (h p hp).resolve_right hnp
    have hheldq := (h q hq).resolve_right hnq
    exact Option.some.inj (hheldp.symm.trans hheldq)
  noneLeft hidle hnone := by
    refine Finset.eq_empty_of_forall_notMem fun p hp => ?_
    rcases h p hp with hheld | ⟨k, hk⟩
    · rw [hnone] at hheld
      cases hheld
    · rw [hidle k] at hk
      cases hk

/-! ### One step -/

/-- **Everything one step can do** to the pools. -/
inductive Stepped (s : StorePools) : StoreAct → StorePools → Prop
  | stayed {a} (hn : ¬ s.Overwrites a) : Stepped s a s
  /-- A task that closes no pool moves on. -/
  | moved {a k task} (hn : ¬ s.Overwrites a) (hk : ∀ p, s.tasks k ≠ .closing p) :
      Stepped s a (s.goto k task)
  | created {k call} (hk : s.tasks k = .creating call) : Stepped s (.created k) (s.connected k call)
  | closed {k p} (ok : Bool) (hk : s.tasks k = .closing p) :
      Stepped s (.closed k ok) (s.closed k p ok)

theorem stepped {s s' : StorePools} {a : StoreAct} {o : List StoreObs}
    (h : s.step a = some (s', o)) : Stepped s a s' := by
  cases a with
  | call k call =>
      simp only [step] at h
      split at h
      · rename_i hidle
        split at h
        · obtain ⟨rfl, -⟩ := Machine.outcome h
          exact .stayed (by simp [Overwrites])
        · obtain ⟨rfl, -⟩ := Machine.outcome h
          unfold connect
          split <;> exact .moved (by simp [Overwrites]) (by simp [hidle])
      · cases h
  | created k =>
      simp only [step] at h
      split at h
      · rename_i call hk
        obtain ⟨rfl, -⟩ := Machine.outcome h
        exact .created hk
      · cases h
  | failed k unavailable =>
      simp only [step] at h
      split at h
      · rename_i call hk
        obtain ⟨rfl, -⟩ := Machine.outcome h
        exact .moved (by simp [Overwrites]) (by simp [hk])
      · cases h
  | done k =>
      simp only [step] at h
      split at h
      · rename_i p hk
        obtain ⟨rfl, -⟩ := Machine.outcome h
        exact .moved (by simp [Overwrites]) (by simp [hk])
      · cases h
  | close k =>
      simp only [step] at h
      split at h
      · rename_i p hk hp
        obtain ⟨rfl, -⟩ := Machine.outcome h
        exact .moved (by simp [Overwrites]) (by simp [hk])
      · obtain ⟨rfl, -⟩ := Machine.outcome h
        exact .stayed (by simp [Overwrites])
      · cases h
  | closed k ok =>
      simp only [step] at h
      split at h
      · rename_i p hk
        obtain ⟨rfl, -⟩ := Machine.outcome h
        exact .closed ok hk
      · cases h

/-- Pools are named in the order of their creation. -/
def Named (s : StorePools) : Prop := ∀ p ∈ s.openPools, p < s.created

theorem Named.step {s s' : StorePools} {a : StoreAct} (h : Stepped s a s') (hN : Named s) :
    Named s' := by
  cases h with
  | stayed => exact hN
  | moved => exact hN
  | created hk =>
      intro p hp
      rcases Finset.mem_insert.mp hp with rfl | hp
      · exact Nat.lt_succ_self _
      · exact Nat.lt_succ_of_lt (hN p hp)
  | closed ok hk =>
      intro p hp
      exact hN p (Finset.mem_of_mem_erase hp)

/-- A task that closes no pool can go anywhere: the others go on closing theirs. -/
theorem BeingClosed.goto {s : StorePools} {k p : Nat} (h : s.BeingClosed p) (task : StoreTask)
    (hk : s.tasks k ≠ .closing p) : (s.goto k task).BeingClosed p := by
  obtain ⟨k', hk'⟩ := h
  refine ⟨k', (s.tasks_goto_ne task ?_).trans hk'⟩
  rintro rfl
  exact hk hk'

/-- A task that goes to no close closes nothing. -/
theorem BeingClosed.of_goto {s : StorePools} {k p : Nat} {task : StoreTask}
    (h : (s.goto k task).BeingClosed p) (ht : ∀ q, task ≠ .closing q) : s.BeingClosed p := by
  obtain ⟨k', hk'⟩ := h
  by_cases heq : k' = k
  · subst heq
    exact absurd ((Function.update_self ..).symm.trans hk') (ht p)
  · exact ⟨k', (s.tasks_goto_ne task heq).symm.trans hk'⟩

/-- **One step keeps the pools exactly if it is guarded.** -/
theorem poolsKept_step_iff {s s' : StorePools} {a : StoreAct} (h : Stepped s a s')
    (hK : PoolsKept s) (hN : Named s) : PoolsKept s' ↔ s.Guarded a := by
  cases h with
  | stayed hn => exact iff_of_true hK fun hover => absurd hover hn
  | @moved _ k task hn hk =>
      refine iff_of_true (.of_kept fun p hp => ?_) fun hover => absurd hover hn
      exact (hK.kept p hp).imp_right fun hclosing => hclosing.goto task (hk p)
  | @created k call hk =>
      constructor
      · intro h _ p hp hheld
        rcases h.kept p (Finset.mem_insert_of_mem hp) with hheld' | hclosing
        · have heq : s.created = p := Option.some.inj hheld'
          exact absurd heq.symm (Nat.ne_of_lt (hN p hp))
        · exact hclosing.of_goto (call.connected_ne_closing _)
      · intro hguard
        refine .of_kept fun p hp => ?_
        rcases Finset.mem_insert.mp hp with rfl | hp
        · exact Or.inl rfl
        · refine Or.inr ?_
          have hclosing : s.BeingClosed p := (hK.kept p hp).elim (hguard ⟨call, hk⟩ p hp) id
          exact BeingClosed.goto hclosing _ (by simp [hk])
  | @closed k q ok hk =>
      constructor
      · intro h hover p hp hheld
        cases ok with
        | false => exact hover.elim
        | true =>
            obtain ⟨q', hq', hne⟩ := hover
            obtain rfl := StoreTask.closing.inj (hk.symm.trans hq')
            have hpq : p ≠ q := by
              rintro rfl
              exact hne hheld
            rcases h.kept p (Finset.mem_erase.mpr ⟨hpq, hp⟩) with hnone | hclosing
            · cases hnone
            · exact hclosing.of_goto (by simp)
      · intro hguard
        refine .of_kept fun p hmem => ?_
        obtain ⟨hpq, hp⟩ := Finset.mem_erase.mp hmem
        have hother : s.BeingClosed p → (s.closed k q ok).BeingClosed p := by
          intro hclosing
          refine BeingClosed.goto hclosing _ ?_
          intro heq
          exact hpq (StoreTask.closing.inj (hk.symm.trans heq)).symm
        rcases hK.kept p hp with hheld | hclosing
        · cases ok with
          | false => exact Or.inl hheld
          | true =>
              refine Or.inr (hother (hguard ⟨q, hk, ?_⟩ p hp hheld))
              rw [hheld]
              exact fun heq => hpq (Option.some.inj heq)
        · exact Or.inr (hother hclosing)

/-! ### Every run -/

/-- The step loses no pool. -/
def KeepsPools (s : StorePools) (a : StoreAct) : Prop :=
  ∀ s' o, s.step a = some (s', o) → PoolsKept s'

/-- A step that stores into `self._pool` can be taken. -/
theorem step_of_overwrites {s : StorePools} {a : StoreAct} (h : s.Overwrites a) :
    ∃ out, s.step a = some out := by
  cases a with
  | created k =>
      obtain ⟨call, hk⟩ := h
      exact ⟨(s.connected k call, [.opened s.created]), by simp only [step, hk]⟩
  | closed k ok =>
      cases ok with
      | false => exact h.elim
      | true =>
          obtain ⟨p, hk, -⟩ := h
          exact ⟨(s.closed k p true, [.closed p]), by simp only [step, hk]⟩
  | _ => exact h.elim

theorem keepsPools_iff {s : StorePools} (hK : PoolsKept s) (hN : Named s) (a : StoreAct) :
    KeepsPools s a ↔ s.Guarded a := by
  constructor
  · intro h hover
    obtain ⟨⟨s', o⟩, hs⟩ := step_of_overwrites hover
    exact (poolsKept_step_iff (stepped hs) hK hN).mp (h s' o hs) hover
  · intro h s' o hs
    exact (poolsKept_step_iff (stepped hs) hK hN).mpr h

/-- **No pool is lost exactly if none is stored over.** In every run of the store: each pool that
has been created and not closed is held or being closed, in every state, if and only if no step
stores into `self._pool` over an open pool that nobody is closing. -/
theorem pools_kept_iff (acts : List StoreAct) :
    Machine.Along step KeepsPools {} acts ↔ Machine.Along step Guarded {} acts := by
  have hinitial : PoolsKept {} ∧ Named {} := by
    refine ⟨.of_kept ?_, ?_⟩
    · simp
    · simp [Named]
  refine Machine.along_congr_while (P := fun s => PoolsKept s ∧ Named s) ?_ ?_ hinitial acts
  · intro s a hI
    exact keepsPools_iff hI.1 hI.2 a
  · intro s a s' o hI hkeeps hs
    exact ⟨hkeeps s' o hs, hI.2.step (stepped hs)⟩

/-- Two requests find no pool, and both create one. -/
def twoConnects : List StoreAct :=
  [.call 0 .fetchTicks, .call 1 .fetchTicks, .created 0, .created 1]

/-- The requests are answered, and the store is closed. -/
def closedAfter : List StoreAct :=
  twoConnects ++ [.done 0, .done 1, .close 2, .closed 2 true]

/-- **The first pool is lost**: it stays open after the store has been closed. -/
theorem two_connects_lose :
    (∃ s h, Machine.run step {} closedAfter = some (s, h) ∧ s.pool = none ∧ s.openPools = {0}) ∧
    ¬ Machine.Along step KeepsPools {} twoConnects := by
  refine ⟨⟨_, _, rfl, rfl, by decide⟩, fun h => ?_⟩
  have hkept := h.2.2.2.1 _ _ rfl
  rcases hkept.kept 0 (by decide) with hheld | hclosing
  · cases hheld
  · -- no task has come to a close
    have hclosing : (((({} : StorePools).goto 0 (.creating .fetchTicks)).goto 1
        (.creating .fetchTicks)).goto 0 (.querying 0)).BeingClosed 0 :=
      BeingClosed.of_goto hclosing (by simp [StoreCall.connected])
    obtain ⟨k, hk⟩ := ((hclosing.of_goto (by simp)).of_goto (by simp)).of_goto (by simp)
    cases hk

end StorePools

end MarketData.Storage
