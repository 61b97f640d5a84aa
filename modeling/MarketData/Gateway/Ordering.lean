import MarketData.Gateway.Pipeline

/-!
# MarketData.Gateway.Ordering

**Dispatch ordering safety**: what a whole run of one client's own tasks can do to the
sequence boundary of a symbol, whatever is pushed, whatever the snapshot reads return
and however the tasks interleave.

A run is summarised by the list of `Boundary.Move`s its steps make on the symbol
(`run_moved`); the order of the accepted messages is then a fact about guarded moves.
Symbols do not interfere (`run_frame`).
-/

namespace MarketData.Gateway

open Boundary (Emission Move)

namespace Pipeline

theorem SameSettings.refl (s : ClientSession) : SameSettings s s := ⟨rfl, rfl, rfl, rfl, rfl, rfl⟩

theorem SameSettings.trans {s t u : ClientSession} (h : SameSettings s t) (h' : SameSettings t u) :
    SameSettings s u :=
  ⟨h'.clientId.trans h.clientId, h'.encoding.trans h.encoding, h'.policy.trans h.policy,
    h'.subscriptions.trans h.subscriptions, h'.filters.trans h.filters, h'.mode.trans h.mode⟩

/-- **Everything a step of the client machine can do**: a step of its own tasks, or an
outside step that leaves the boundary, the baseline and the task alone. -/
theorem step_cases {p p' : Pipeline} {a : Act} {o : List ClientObs} (h : p.step a = some (p', o)) :
    (∃ t, a = .task t ∧ p.taskStep t = some (p', o)) ∨
    (SameSettings p.session p'.session ∧ p'.session.lastSeq = p.session.lastSeq ∧
      p'.session.lastPrice = p.session.lastPrice ∧ p'.task = p.task ∧
      ∀ x ∈ o, (∃ e, x = .pushed e) ∨ ∃ ok text, x = ClientObs.enqueued ok (.error text)) := by
  cases a with
  | task t => exact Or.inl ⟨t, rfl, h⟩
  | push event =>
      obtain ⟨rfl, rfl⟩ := Prod.mk.inj (Option.some.inj h)
      refine Or.inr ⟨⟨rfl, rfl, rfl, rfl, rfl, ?_⟩, rfl, rfl, rfl, by simp⟩
      exact AggregationBuffer.push_mode _ event
  | error text =>
      simp only [step, ClientSession.enqueueError_eq] at h
      obtain ⟨rfl, rfl⟩ := Prod.mk.inj (Option.some.inj h)
      refine Or.inr ⟨⟨?_, ?_, ?_, ?_, ?_, ?_⟩, ?_, ?_, rfl, fun x hx => Or.inr ?_⟩
      case refine_9 => exact ⟨_, text, List.mem_singleton.mp hx⟩
      all_goals simp

/-- **Any step of the client machine moves a symbol's boundary by one guarded move.** -/
theorem step_move {p p' : Pipeline} {a : Act} {o : List ClientObs}
    (h : p.step a = some (p', o)) (symbol : PyStr) :
    ∃ mv, BoundaryStep (p.session.lastSeq.get? symbol) (p'.session.lastSeq.get? symbol)
        (emissions symbol o) mv ∧
      (p.session.aggregator.mode = .raw → mv.Successor (· + 1) (p.session.lastSeq.get? symbol)) ∧
      (p.session.policy = .dropOldest → p.session.filters.get? symbol = none → mv.Visible) := by
  rcases step_cases h with ⟨t, -, ht⟩ | ⟨-, hl, -, -, ho⟩
  · exact taskStep_move ht symbol
  · refine ⟨.keep, .refl (by rw [hl]) ?_, fun _ => trivial, fun _ _ => trivial⟩
    refine List.filterMap_eq_nil_iff.mpr fun x hx => ?_
    rcases ho x hx with ⟨e, rfl⟩ | ⟨ok, text, rfl⟩
    · rfl
    · cases ok <;> rfl

theorem step_settings {p p' : Pipeline} {a : Act} {o : List ClientObs}
    (h : p.step a = some (p', o)) : SameSettings p.session p'.session := by
  rcases step_cases h with ⟨t, -, ht⟩ | ⟨hs, -⟩
  · exact taskStep_settings ht
  · exact hs

/-! ### A whole run, as moves of one boundary -/

/-- The moves `ms` account for the run from `p` to `p'` that observed `h`, as far as
`symbol` is concerned. -/
structure Moved (symbol : PyStr) (p p' : Pipeline) (h : List ClientObs)
    (ms : List (Move Int)) : Prop where
  settings : SameSettings p.session p'.session
  guarded : Boundary.Guarded (p.session.lastSeq.get? symbol) ms
  strict : ∀ mv ∈ ms, mv.Strict
  after : p'.session.lastSeq.get? symbol = Boundary.after (p.session.lastSeq.get? symbol) ms
  emitted : emissions symbol h = Boundary.emitted ms
  contiguous : p.session.aggregator.mode = .raw →
    Boundary.Contiguous (· + 1) (p.session.lastSeq.get? symbol) ms
  visible : p.session.policy = .dropOldest → p.session.filters.get? symbol = none →
    ∀ mv ∈ ms, mv.Visible

theorem Moved.nil (symbol : PyStr) (p : Pipeline) : Moved symbol p p [] [] :=
  ⟨.refl _, trivial, by simp, rfl, rfl, fun _ => trivial, by simp⟩

/-- **A step adds one move.** -/
theorem Moved.snoc {p q q' : Pipeline} {g o : List ClientObs} {a : Act} {symbol : PyStr}
    {ms : List (Move Int)} (hms : Moved symbol p q g ms) (hq : q.step a = some (q', o)) :
    ∃ mv, Moved symbol p q' (g ++ o) (ms ++ [mv]) ∧
      BoundaryStep (q.session.lastSeq.get? symbol) (q'.session.lastSeq.get? symbol)
        (emissions symbol o) mv := by
  obtain ⟨mv, hmv, hsucc, hvis⟩ := step_move hq symbol
  have hset := hms.settings
  refine ⟨mv, ⟨hset.trans (step_settings hq), ?_, ?_, ?_, ?_, ?_, ?_⟩, hmv⟩
  · exact (Boundary.guarded_snoc _ _ _).mpr ⟨hms.guarded, hms.after ▸ hmv.guard⟩
  · intro m hm
    rcases List.mem_append.mp hm with hm | hm
    · exact hms.strict m hm
    · obtain rfl := List.mem_singleton.mp hm
      exact hmv.strict
  · rw [Boundary.after_snoc, ← hms.after, hmv.target]
  · rw [emissions_append, Boundary.emitted_snoc, hms.emitted, hmv.emitted]
  · intro hm
    refine (Boundary.contiguous_snoc _ _ _ _).mpr ⟨hms.contiguous hm, ?_⟩
    exact hms.after ▸ hsucc (hset.mode.trans hm)
  · intro hpol hf m hm
    rcases List.mem_append.mp hm with hm | hm
    · exact hms.visible hpol hf m hm
    · obtain rfl := List.mem_singleton.mp hm
      exact hvis (hset.policy.trans hpol) (by rw [hset.filters, hf])

/-- **Every run is a list of guarded moves, none of them a reseed.** -/
theorem run_moved {p p' : Pipeline} {acts : List Act} {h : List ClientObs}
    (hr : Machine.run step p acts = some (p', h)) (symbol : PyStr) :
    ∃ ms, Moved symbol p p' h ms := by
  refine Machine.run_invariant (I := fun q g => ∃ ms, Moved symbol p q g ms) ?_
    ⟨[], .nil symbol p⟩ hr
  intro q a q' o g hms hq
  obtain ⟨ms, hms⟩ := hms
  obtain ⟨mv, hmoved, -⟩ := hms.snoc hq
  exact ⟨ms ++ [mv], hmoved⟩

/-! ### Symbols do not interfere -/

/-- A step that neither handles an event of `symbol` nor finishes its gap recovery keeps
the boundary and the baseline of `symbol`, and emits nothing of it. -/
theorem taskStep_frame {p p' : Pipeline} {a : TaskAct} {o : List ClientObs}
    (h : p.taskStep a = some (p', o)) {symbol : PyStr} (ht : p.task.symbol? ≠ some symbol)
    (hh : ∀ e, .handled e ∈ o → e.symbol ≠ symbol) :
    p'.session.lastSeq.get? symbol = p.session.lastSeq.get? symbol ∧
    p'.session.lastPrice.get? symbol = p.session.lastPrice.get? symbol ∧
    p'.task.symbol? ≠ some symbol ∧ emissions symbol o = [] := by
  cases taskStepped h with
  | @dispatched event output r hw hget hr hd =>
      cases hd with
      | stale | withheld | accepted | refused =>
          have hne : event.symbol ≠ symbol := hh event (by simp)
          simp [ClientSession.withOutput, Dict.get?_set_ne _ _ hne, ClientObs.emission?,
            Message.emission?, hne]
      | gap => exact ⟨rfl, rfl, by simpa using hh event (by simp), rfl⟩
      | unlogged => exact ⟨rfl, rfl, by simp, rfl⟩
  | @recovered gapped snapshot r hs htask hr hd =>
      have hne : gapped.symbol ≠ symbol := by
        simpa [htask] using ht
      cases hd with
      | ignored h => exact ⟨rfl, rfl, by simp, rfl⟩
      | refused q stats d hn hp => exact ⟨rfl, rfl, by simp, rfl⟩
      | @accepted snapshot q stats d hn =>
          replace hs : snapshot.symbol = gapped.symbol := hs
          simp [Dict.get?_set_ne _ _ hne, ClientObs.emission?, Message.emission?, hs, hne]
  | read htask hs =>
      rw [htask] at ht
      exact ⟨rfl, rfl, ht, rfl⟩
  | raised hs htask => exact ⟨rfl, rfl, by simp, rfl⟩
  | flushed | writerTook | writerSent | writerUnrecorded | writerFailed | writerLooped =>
      exact ⟨rfl, rfl, ht, rfl⟩

/-- **Events of other symbols touch nothing of `symbol`.** -/
theorem run_frame {p p' : Pipeline} {acts : List Act} {h : List ClientObs}
    (hr : Machine.run step p acts = some (p', h)) {symbol : PyStr}
    (ht : p.task.symbol? ≠ some symbol) (hh : ∀ e, .handled e ∈ h → e.symbol ≠ symbol) :
    p'.session.lastSeq.get? symbol = p.session.lastSeq.get? symbol ∧
    p'.session.lastPrice.get? symbol = p.session.lastPrice.get? symbol := by
  suffices key : (∀ e, .handled e ∈ h → e.symbol ≠ symbol) →
      p'.session.lastSeq.get? symbol = p.session.lastSeq.get? symbol ∧
      p'.session.lastPrice.get? symbol = p.session.lastPrice.get? symbol ∧
      p'.task.symbol? ≠ some symbol from ⟨(key hh).1, (key hh).2.1⟩
  refine Machine.run_invariant (I := fun q g => (∀ e, .handled e ∈ g → e.symbol ≠ symbol) →
    q.session.lastSeq.get? symbol = p.session.lastSeq.get? symbol ∧
    q.session.lastPrice.get? symbol = p.session.lastPrice.get? symbol ∧
    q.task.symbol? ≠ some symbol) ?_ (fun _ => ⟨rfl, rfl, ht⟩) hr
  intro q a q' o g ih hq hgo
  obtain ⟨hl, hp, hqt⟩ := ih fun e he => hgo e (List.mem_append_left o he)
  rcases step_cases hq with ⟨t, -, hts⟩ | ⟨-, hl', hp', ht', -⟩
  · obtain ⟨hl', hp', ht', -⟩ :=
      taskStep_frame hts hqt fun e he => hgo e (List.mem_append_right g he)
    exact ⟨hl'.trans hl, hp'.trans hp, ht'⟩
  · exact ⟨by rw [hl', hl], by rw [hp', hp], by rwa [ht']⟩

end Pipeline

/-! ### The ordering guarantee -/

/-- **Dispatch ordering safety.** In every run of a DROP_OLDEST client between its own
subscribe and unsubscribe calls, and for every symbol: accepted messages strictly
increase, all lie beyond the initial boundary, and the boundary never goes back; in RAW
mode without a filter every accepted incremental is the direct successor of the message
before it (or of the seeded boundary); and a run that handles only other symbols' events
leaves the boundary and the price baseline of the symbol as they were. -/
theorem dispatch_ordering {p p' : Pipeline} {acts : List Pipeline.Act} {h : List ClientObs}
    (hpol : p.session.policy = .dropOldest)
    (hr : Machine.run Pipeline.step p acts = some (p', h)) (symbol : PyStr) :
    (emissions symbol h).Pairwise (fun e e' => e.seq < e'.seq) ∧
    (∀ e ∈ emissions symbol h, ∀ l ∈ p.session.lastSeq.get? symbol, l < e.seq) ∧
    (∀ l ∈ p.session.lastSeq.get? symbol, ∃ l' ∈ p'.session.lastSeq.get? symbol, l ≤ l') ∧
    (p.session.aggregator.mode = .raw → p.session.filters.get? symbol = none →
      ∀ es n es', emissions symbol h = es ++ .incremental n :: es' →
        ∀ l ∈ Boundary.lastSeen (p.session.lastSeq.get? symbol) es, n = l + 1) ∧
    (p.task.symbol? ≠ some symbol → (∀ e, .handled e ∈ h → e.symbol ≠ symbol) →
      p'.session.lastSeq.get? symbol = p.session.lastSeq.get? symbol ∧
      p'.session.lastPrice.get? symbol = p.session.lastPrice.get? symbol) := by
  obtain ⟨ms, hms⟩ := Pipeline.run_moved hr symbol
  refine ⟨?_, ?_, ?_, ?_, fun ht hh => Pipeline.run_frame hr ht hh⟩
  · rw [hms.emitted]
    exact hms.guarded.emitted_lt hms.strict
  · intro e he
    rw [hms.emitted] at he
    exact hms.guarded.lt_emitted hms.strict he
  · rw [hms.after]
    exact fun l hl => hms.guarded.le_after hl
  · intro hraw hf es n es' hes
    rw [hms.emitted] at hes
    exact (hms.contiguous hraw).of_emitted (hms.visible hpol hf) hes

/-- A RAW client seeded at 10 whose loop is idle. -/
def seededClient : Pipeline :=
  { session := { clientId := "c1", lastSeq := .set .empty "A" 10 }, task := .waiting }

/-- An event in sequence, a gap whose snapshot predates the boundary, another gap recovered
by a snapshot beyond it, and a late event from before that. -/
def gapActs : List Pipeline.Act :=
  [.push (.quote "A" 11), .push (.quote "A" 13), .push (.quote "A" 14), .push (.quote "A" 12),
    .task .take,
    .task .take, .task (.read (.value (some (.fromEvent (.quote "A" 9))))), .task .resume,
    .task .take, .task (.read (.value (some (.fromEvent (.quote "A" 14))))), .task .resume,
    .task .take]

theorem dispatch_ordering_gaps :
    ∃ p' h, Machine.run Pipeline.step seededClient gapActs = some (p', h) ∧
      emissions "A" h = [.incremental 11, .snapshot 14] ∧
      (emissions "A" h).Pairwise (fun e e' => e.seq < e'.seq) ∧
      ∀ e ∈ emissions "A" h, (10 : Int) < e.seq :=
  ⟨_, _, rfl, rfl, (@dispatch_ordering seededClient _ gapActs _ rfl rfl "A").1,
    fun e he => (@dispatch_ordering seededClient _ gapActs _ rfl rfl "A").2.1 e he 10 rfl⟩

end MarketData.Gateway
