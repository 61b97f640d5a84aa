import MarketData.Gateway.Ordering

/-!
# MarketData.Gateway.Coverage

**RAW recovery over a lossy feed.** Events may be lost, duplicated or late before the
dispatch loop sees them. As long as each gap's snapshot is at least as fresh as the event
that revealed the gap (`ReadsCover`), no handled event stays beyond the boundary, and
every sequence number the boundary has passed was delivered, withheld by the client's
filter, or covered by a snapshot the client was given.
-/

namespace MarketData.Gateway

/-- A read that found a snapshot at or beyond `seq`. -/
def ReadResult.AtLeast (seq : Int) : ReadResult → Prop
  | .value (some s) => seq ≤ s.seq
  | _ => False

/-- The snapshot read for a gap of `symbol` finds a snapshot at or beyond the event that
revealed the gap. -/
def ReadsCover (symbol : PyStr) (p : Pipeline) (a : Pipeline.Act) : Prop :=
  match a, p.task with
  | .task (.read r), .reading e => e.symbol = symbol → r.AtLeast e.seq
  | _, _ => True

instance (seq : Int) : (r : ReadResult) → Decidable (r.AtLeast seq)
  | .value (some s) => inferInstanceAs (Decidable (seq ≤ s.seq))
  | .value none | .raised => isFalse id

instance (symbol : PyStr) (p : Pipeline) (a : Pipeline.Act) :
    Decidable (ReadsCover symbol p a) := by
  unfold ReadsCover
  split <;> infer_instance

/-- Sequence number `n` of `symbol` is accounted for by what the client's tasks did. -/
def Covered (symbol : PyStr) (h : List ClientObs) (n : Int) : Prop :=
  (∃ e, .accepted (.incremental e) ∈ h ∧ e.symbol = symbol ∧ e.seq = n) ∨
  (∃ e, .withheld e ∈ h ∧ e.symbol = symbol ∧ e.seq = n) ∨
  ∃ s, .accepted (.snapshot s) ∈ h ∧ s.symbol = symbol ∧ n ≤ s.seq

/-- The event of `symbol` an observation says was handled. -/
def ClientObs.handled? (symbol : PyStr) : ClientObs → Option MarketEvent
  | .handled e => if e.symbol = symbol then some e else none
  | _ => none

/-- The first event of `symbol` the dispatch loop took. -/
def firstHandled (symbol : PyStr) (h : List ClientObs) : Option MarketEvent :=
  h.findSome? (ClientObs.handled? symbol)

/-- The numbers the client can expect: beyond its initial boundary `b`, or, if it had none,
from the first event on. -/
def Expected (b : Option Int) (symbol : PyStr) (h : List ClientObs) (n : Int) : Prop :=
  match b with
  | some l => l < n
  | none => ∀ e ∈ firstHandled symbol h, e.seq ≤ n

theorem Covered.append {symbol : PyStr} {h o : List ClientObs} {n : Int}
    (hc : Covered symbol h n) : Covered symbol (h ++ o) n := by
  rcases hc with ⟨e, he, hs⟩ | ⟨e, he, hs⟩ | ⟨s, hs, hs'⟩
  · exact Or.inl ⟨e, List.mem_append_left o he, hs⟩
  · exact Or.inr (Or.inl ⟨e, List.mem_append_left o he, hs⟩)
  · exact Or.inr (Or.inr ⟨s, List.mem_append_left o hs, hs'⟩)

theorem handled?_eq_some {symbol : PyStr} {x : ClientObs} {e : MarketEvent} :
    x.handled? symbol = some e ↔ x = .handled e ∧ e.symbol = symbol := by
  cases x with
  | handled e' =>
      simp only [ClientObs.handled?, Option.ite_none_right_eq_some, Option.some.injEq,
        ClientObs.handled.injEq]
      constructor
      · rintro ⟨hs, rfl⟩
        exact ⟨rfl, hs⟩
      · rintro ⟨rfl, hs⟩
        exact ⟨hs, rfl⟩
  | _ => simp [ClientObs.handled?]

theorem firstHandled_append (symbol : PyStr) (h o : List ClientObs) :
    firstHandled symbol (h ++ o) = (firstHandled symbol h).or (firstHandled symbol o) := by
  simp [firstHandled, List.findSome?_append]

theorem firstHandled_eq_none {symbol : PyStr} {h : List ClientObs} :
    firstHandled symbol h = none ↔ ∀ e, .handled e ∈ h → e.symbol ≠ symbol := by
  rw [firstHandled, List.findSome?_eq_none_iff]
  constructor
  · intro hn e he hs
    have := hn _ he
    rw [handled?_eq_some.mpr ⟨rfl, hs⟩] at this
    exact absurd this (by simp)
  · intro hn x hx
    cases hx' : x.handled? symbol with
    | none => rfl
    | some e =>
        obtain ⟨rfl, hs⟩ := handled?_eq_some.mp hx'
        exact absurd hs (hn e hx)

/-! ### The coverage invariant -/

/-- What holds of `symbol` after a run from boundary `b` to `p` that observed `h`. -/
structure Coverage (b : Option Int) (symbol : PyStr) (p : Pipeline) (h : List ClientObs) :
    Prop where
  raw : p.session.aggregator.mode = .raw
  policy : p.session.policy = .dropOldest
  /-- A handled event is behind the boundary, unless its gap is being recovered. -/
  processed : ∀ e, .handled e ∈ h → e.symbol = symbol →
    p.task.event? = some e ∨ ∃ l ∈ p.session.lastSeq.get? symbol, e.seq ≤ l
  /-- Every expected number up to the boundary is accounted for. -/
  covered : ∀ l ∈ p.session.lastSeq.get? symbol, ∀ n, Expected b symbol h n → n ≤ l →
    Covered symbol h n
  /-- The boundary never disappears. -/
  seeded : p.session.lastSeq.get? symbol = none → b = none
  /-- The event that revealed a gap is beyond the boundary. -/
  gap : ∀ e, p.task.event? = some e → e.symbol = symbol →
    ∃ l ∈ p.session.lastSeq.get? symbol, l < e.seq
  /-- The snapshot in hand is at least as fresh as that event. -/
  fresh : ∀ e r hr, p.task = .resuming e r hr → e.symbol = symbol → r.AtLeast e.seq

namespace Coverage

variable {b : Option Int} {symbol : PyStr} {p p' : Pipeline} {h o : List ClientObs}

theorem expected_of_append {n : Int} (hn : Expected b symbol (h ++ o) n) :
    Expected b symbol h n := by
  cases b with
  | some l₀ => exact hn
  | none =>
      intro e he
      exact hn e (by rw [firstHandled_append, Option.mem_def.mp he]; rfl)

/-- Without a boundary nothing of the symbol has been handled yet. -/
theorem firstHandled_of_none (hI : Coverage b symbol p h)
    (hl : p.session.lastSeq.get? symbol = none) : firstHandled symbol h = none := by
  refine firstHandled_eq_none.mpr fun e he hs => ?_
  rcases hI.processed e he hs with ht | ⟨l, hl', -⟩
  · obtain ⟨l, hl', -⟩ := hI.gap e ht hs
    simp [hl] at hl'
  · simp [hl] at hl'

/-- A step that leaves the boundary of the symbol where it is. -/
theorem stay (hI : Coverage b symbol p h) (hset : Pipeline.SameSettings p.session p'.session)
    (hl : p'.session.lastSeq.get? symbol = p.session.lastSeq.get? symbol)
    (ho : ∀ e, e.symbol = symbol → .handled e ∈ o ∨ p.task.event? = some e →
      p'.task.event? = some e ∨ ∃ l ∈ p.session.lastSeq.get? symbol, e.seq ≤ l)
    (hg : ∀ e, p'.task.event? = some e → e.symbol = symbol →
      ∃ l ∈ p.session.lastSeq.get? symbol, l < e.seq)
    (hf : ∀ e r hr, p'.task = .resuming e r hr → e.symbol = symbol → r.AtLeast e.seq) :
    Coverage b symbol p' (h ++ o) where
  raw := hset.mode.trans hI.raw
  policy := hset.policy.trans hI.policy
  processed e he hs := by
    rw [hl]
    rcases List.mem_append.mp he with he | he
    · rcases hI.processed e he hs with ht | hle
      · exact ho e hs (Or.inr ht)
      · exact Or.inr hle
    · exact ho e hs (Or.inl he)
  covered l hl' n hn hle := by
    rw [hl] at hl'
    exact (hI.covered l hl' n (expected_of_append hn) hle).append
  seeded hn := hI.seeded (hl ▸ hn)
  gap e he hs := by
    rw [hl]
    exact hg e he hs
  fresh := hf

/-- A step that ends with the loop idle and the boundary of the symbol moved forward to `n`. -/
theorem advance (hI : Coverage b symbol p h) (hset : Pipeline.SameSettings p.session p'.session)
    {n : Int} (hl : p'.session.lastSeq.get? symbol = some n) (ht : p'.task = .waiting)
    (hlt : ∀ l ∈ p.session.lastSeq.get? symbol, l < n)
    (ho : ∀ e, e.symbol = symbol → .handled e ∈ o ∨ p.task.event? = some e → e.seq ≤ n)
    (hc : ∀ k, Expected b symbol (h ++ o) k → k ≤ n →
      (∀ l ∈ p.session.lastSeq.get? symbol, l < k) → Covered symbol o k) :
    Coverage b symbol p' (h ++ o) where
  raw := hset.mode.trans hI.raw
  policy := hset.policy.trans hI.policy
  processed e he hs := by
    refine Or.inr ⟨n, hl, ?_⟩
    rcases List.mem_append.mp he with he | he
    · rcases hI.processed e he hs with htask | ⟨l, hl', hle⟩
      · exact ho e hs (Or.inr htask)
      · exact hle.trans (hlt l hl').le
    · exact ho e hs (Or.inl he)
  covered l hl' k hk hle := by
    obtain rfl : n = l := by simpa [hl] using hl'
    by_cases hold : ∀ l ∈ p.session.lastSeq.get? symbol, l < k
    · have := hc k hk hle hold
      rcases this with ⟨e, he, hs⟩ | ⟨e, he, hs⟩ | ⟨s, hs, hs'⟩
      · exact Or.inl ⟨e, List.mem_append_right h he, hs⟩
      · exact Or.inr (Or.inl ⟨e, List.mem_append_right h he, hs⟩)
      · exact Or.inr (Or.inr ⟨s, List.mem_append_right h hs, hs'⟩)
    · -- already behind the old boundary
      push Not at hold
      obtain ⟨l, hl₀, hkl⟩ := hold
      exact (hI.covered l hl₀ k (expected_of_append hk) hkl).append
  seeded hn := by simp [hl] at hn
  gap e he := by simp [ht, DispatchTask.event?] at he
  fresh e r hr he := by simp [ht] at he

/-- The only expected number between the boundary and an event in sequence is the event's. -/
theorem eq_seq_of_next (hI : Coverage b symbol p h) {event : MarketEvent}
    (hn : ∀ l ∈ p.session.lastSeq.get? symbol, event.seq = l + 1)
    (ho : firstHandled symbol o = some event) {k : Int} (hk : Expected b symbol (h ++ o) k)
    (hle : k ≤ event.seq) (hold : ∀ l ∈ p.session.lastSeq.get? symbol, l < k) :
    event.seq = k := by
  cases hl : p.session.lastSeq.get? symbol with
  | some l =>
      have h₁ := hn l hl
      have h₂ := hold l hl
      omega
  | none =>
      have hb := hI.seeded hl
      subst hb
      have hfirst : firstHandled symbol (h ++ o) = some event := by
        rw [firstHandled_append, hI.firstHandled_of_none hl, ho]
        rfl
      exact le_antisymm (hk event hfirst) hle

/-! ### One step keeps it -/

/-- Dispatching the next event. -/
theorem dispatch (hI : Coverage b symbol p h) (hw : p.task = .waiting) (event : MarketEvent)
    (output : BoundedQueue MarketEvent) :
    Coverage b symbol
      ⟨((p.session.withOutput output).dispatchEvent event).1,
        ((p.session.withOutput output).dispatchEvent event).2.1⟩
      (h ++ ((p.session.withOutput output).dispatchEvent event).2.2) := by
  have hd := (p.session.withOutput output).dispatched event
  generalize (p.session.withOutput output).dispatchEvent event = r at hd ⊢
  have hraw := hI.raw
  have hpol := hI.policy
  have hidle : ∀ e, p.task.event? ≠ some e := by simp [hw, DispatchTask.event?]
  by_cases hsym : event.symbol = symbol
  · subst hsym
    have hfirst : ∀ o, firstHandled event.symbol (.handled event :: o) = some event := by
      intro o
      simp [firstHandled, ClientObs.handled?]
    cases hd with
    | @stale last hl hle =>
        refine hI.stay ⟨rfl, rfl, rfl, rfl, rfl, rfl⟩ rfl ?_
          (by simp [DispatchTask.event?]) (by simp)
        rintro e hs (he | he)
        · obtain rfl : e = event := by simpa using he
          exact Or.inr ⟨last, hl, hle⟩
        · exact absurd he (hidle e)
    | @gap last stats hl hlt =>
        refine hI.stay ⟨rfl, rfl, rfl, rfl, rfl, rfl⟩ rfl ?_ ?_ (by simp)
        · rintro e hs (he | he)
          · obtain rfl : e = event := by simpa using he
            exact Or.inl rfl
          · exact absurd he (hidle e)
        · intro e he hs
          obtain rfl : event = e := Option.some.inj he
          exact ⟨last, hl, hlt⟩
    | unlogged =>
        refine hI.stay ⟨rfl, rfl, rfl, rfl, rfl, rfl⟩ rfl ?_
          (by simp [DispatchTask.event?]) (by simp)
        rintro e - (he | he)
        · simp at he
        · exact absurd he (hidle e)
    | withheld hn hd =>
        refine hI.advance ⟨rfl, rfl, rfl, rfl, rfl, rfl⟩ (Dict.get?_set_self _ _ _) rfl
          (fun l hl => (hn l hl).1) ?_ ?_
        · rintro e hs (he | he)
          · obtain rfl : e = event := by simpa using he
            exact le_rfl
          · exact absurd he (hidle e)
        · intro k hk hle hold
          refine Or.inr (Or.inl ⟨event, by simp, rfl, ?_⟩)
          exact hI.eq_seq_of_next (fun l hl => (hn l hl).2 hraw) (hfirst _) hk hle hold
    | accepted q stats d hn hd =>
        refine hI.advance ⟨rfl, rfl, rfl, rfl, rfl, rfl⟩ (Dict.get?_set_self _ _ _) rfl
          (fun l hl => (hn l hl).1) ?_ ?_
        · rintro e hs (he | he)
          · obtain rfl : e = event := by simpa using he
            exact le_rfl
          · exact absurd he (hidle e)
        · intro k hk hle hold
          refine Or.inl ⟨event, by simp, rfl, ?_⟩
          exact hI.eq_seq_of_next (fun l hl => (hn l hl).2 hraw) (hfirst _) hk hle hold
    | refused q stats d hn hd hp => exact absurd hpol hp
  · -- another symbol's event: nothing of this symbol is written, handled or recovered
    have hl : r.1.lastSeq.get? symbol = p.session.lastSeq.get? symbol := by
      cases hd <;> first | rfl | exact Dict.get?_set_ne _ _ hsym
    refine hI.stay (by cases hd <;> exact ⟨rfl, rfl, rfl, rfl, rfl, rfl⟩) hl ?_ ?_
      (by cases hd <;> simp)
    · rintro e rfl (he | he)
      · have hevent : e = event := by cases hd <;> simp at he <;> exact he
        exact absurd (congrArg MarketEventOf.symbol hevent.symm) hsym
      · exact absurd he (hidle e)
    · intro e he hs
      cases hd with
      | gap =>
          obtain rfl : event = e := Option.some.inj he
          exact absurd hs hsym
      | stale | unlogged | withheld | accepted | refused => simp [DispatchTask.event?] at he

/-- Finishing a gap recovery. -/
theorem resume (hI : Coverage b symbol p h) {event : MarketEvent} {snapshot : Option SnapshotData}
    {hs : (ReadResult.value snapshot).OfSymbol event.symbol}
    (ht : p.task = .resuming event (.value snapshot) hs) :
    Coverage b symbol ⟨(p.session.recover event.symbol snapshot).1, .waiting⟩
      (h ++ (p.session.recover event.symbol snapshot).2) := by
  have hpol := hI.policy
  have htask : ∀ e, p.task.event? = some e ↔ event = e := by
    simp [ht, DispatchTask.event?]
  have hr := p.session.recovered event.symbol snapshot
  by_cases hsym : event.symbol = symbol
  · have hfresh := hI.fresh event _ hs ht hsym
    obtain ⟨l, hl, hlt⟩ := hI.gap event ((htask event).mpr rfl) hsym
    obtain ⟨s, rfl⟩ : ∃ s, snapshot = some s := by
      cases snapshot with
      | none => exact hfresh.elim
      | some s => exact ⟨s, rfl⟩
    replace hfresh : event.seq ≤ s.seq := hfresh
    replace hs : s.symbol = symbol := Eq.trans hs hsym
    rw [hsym] at hr ⊢
    generalize p.session.recover symbol (some s) = r at hr ⊢
    cases hr with
    | ignored hn =>
        obtain ⟨l', hl', hle'⟩ := hn s rfl
        obtain rfl : l = l' := Option.mem_unique hl hl'
        omega
    | refused q stats d hn hp => exact absurd hpol hp
    | accepted q stats d hn =>
        refine hI.advance ⟨rfl, rfl, rfl, rfl, rfl, rfl⟩ (Dict.get?_set_self _ _ _) rfl hn ?_ ?_
        · rintro e - (he | he)
          · simp at he
          · obtain rfl := (htask e).mp he
            exact hfresh
        · exact fun k _ hk _ => Or.inr (Or.inr ⟨s, by simp, hs, hk⟩)
  · generalize p.session.recover event.symbol snapshot = r at hr ⊢
    refine hI.stay (by cases hr <;> exact ⟨rfl, rfl, rfl, rfl, rfl, rfl⟩) ?_ ?_
      (by simp [DispatchTask.event?]) (by simp)
    · cases hr <;> first | rfl | exact Dict.get?_set_ne _ _ hsym
    · rintro e rfl (he | he)
      · cases hr <;> simp at he
      · exact absurd (congrArg MarketEventOf.symbol ((htask e).mp he)) hsym

/-- The flush, the writer, and the read itself. -/
theorem background (hI : Coverage b symbol p h) {a : TaskAct} (hC : ReadsCover symbol p (.task a))
    (ha : p.taskStep a = some (p', o)) (hbg : Pipeline.Background a p p' o) :
    Coverage b symbol p' (h ++ o) := by
  obtain ⟨q, st, w, d, hfields⟩ := hbg.fields
  have ho : ∀ e, .handled e ∉ o := fun e he => by simpa using hbg.obs _ he
  have hset := Pipeline.taskStep_settings ha
  have hl : p'.session.lastSeq.get? symbol = p.session.lastSeq.get? symbol := by rw [hfields]
  rcases hbg.task with ht | ⟨event, r, hr, rfl, ht, ht'⟩ | ⟨event, hr, ht, ht'⟩
  · refine hI.stay hset hl ?_ (ht ▸ hI.gap) (ht ▸ hI.fresh)
    rintro e - (he | he)
    · exact absurd he (ho e)
    · exact Or.inl (ht ▸ he)
  · -- the read has returned; the gap it is for is the same
    have hev : p'.task.event? = p.task.event? := by rw [ht, ht']; rfl
    refine hI.stay hset hl ?_ (hev ▸ hI.gap) ?_
    · rintro e - (he | he)
      · exact absurd he (ho e)
      · exact Or.inl (hev ▸ he)
    · intro e r' hr' he hs
      rw [ht'] at he
      obtain ⟨rfl, rfl⟩ := DispatchTask.resuming.inj he
      simp only [ReadsCover, ht] at hC
      exact hC hs
  · -- a failed read can only be another symbol's
    have hne : event.symbol ≠ symbol := fun hs => hI.fresh event _ hr ht hs
    refine hI.stay hset hl ?_ (by simp [ht', DispatchTask.event?]) (by simp [ht'])
    rintro e hs (he | he)
    · exact absurd he (ho e)
    · obtain rfl : event = e := by simpa [ht, DispatchTask.event?] using he
      exact absurd hs hne

theorem step (hI : Coverage b symbol p h) {a : Pipeline.Act} (hC : ReadsCover symbol p a)
    (ha : p.step a = some (p', o)) : Coverage b symbol p' (h ++ o) := by
  rcases Pipeline.step_cases ha with ⟨t, rfl, hts⟩ | ⟨hset, hl, -, ht, ho⟩
  · rcases Pipeline.taskStep_cases hts with
      ⟨event, output, -, hw, -, rfl, rfl⟩ | ⟨event, snapshot, hs, -, htask, rfl, rfl⟩ | hbg
    · exact hI.dispatch hw event output
    · exact hI.resume htask
    · exact hI.background hC hts hbg
  · refine hI.stay hset (by rw [hl]) ?_ (ht ▸ hI.gap) (ht ▸ hI.fresh)
    rintro e - (he | he)
    · rcases ho _ he with ⟨e', h⟩ | ⟨ok, text, h⟩
      · simp at h
      · cases ok <;> simp [ClientObs.enqueued] at h
    · exact Or.inl (ht ▸ he)

/-- **A whole run**, from a state in which no gap of the symbol is being recovered. -/
theorem run {p p' : Pipeline} {acts : List Pipeline.Act} {h : List ClientObs} {symbol : PyStr}
    (hraw : p.session.aggregator.mode = .raw) (hpol : p.session.policy = .dropOldest)
    (hidle : p.task.symbol? ≠ some symbol)
    (hreads : Machine.Along Pipeline.step (ReadsCover symbol) p acts)
    (hr : Machine.run Pipeline.step p acts = some (p', h)) :
    Coverage (p.session.lastSeq.get? symbol) symbol p' h := by
  have hnone : ∀ e, p.task.event? = some e → e.symbol ≠ symbol := fun e he hs =>
    hidle (by rw [DispatchTask.symbol?, he, Option.map_some, hs])
  have h0 : Coverage (p.session.lastSeq.get? symbol) symbol p [] :=
    { raw := hraw
      policy := hpol
      processed := by simp
      covered := fun l hl n hn hle => by
        rw [Option.mem_def.mp hl] at hn
        exact absurd hle (not_le.mpr hn)
      seeded := id
      gap := fun e he hs => absurd hs (hnone e he)
      fresh := fun e r hr he hs => absurd hs (hnone e (by rw [he]; rfl)) }
  exact Machine.run_invariant_along
    (I := fun q g => Coverage (p.session.lastSeq.get? symbol) symbol q g)
    (fun q a q' o g hC hI hq => hI.step hC hq) h0 hreads hr

end Coverage

/-! ### The recovery guarantee -/

/-- **RAW recovery covers every gap.** Run a RAW DROP_OLDEST client from a state in which
no gap of the symbol is being recovered, under reads at least as fresh as the events that
caused them. Every event of the symbol that the loop has finished with is behind the
boundary, and every number the client can expect, up to the boundary, was accepted as an
incremental, withheld by the filter, or covered by an accepted snapshot. -/
theorem raw_recovery {p p' : Pipeline} {acts : List Pipeline.Act} {h : List ClientObs}
    {symbol : PyStr} (hraw : p.session.aggregator.mode = .raw)
    (hpol : p.session.policy = .dropOldest) (hidle : p.task.symbol? ≠ some symbol)
    (hreads : Machine.Along Pipeline.step (ReadsCover symbol) p acts)
    (hr : Machine.run Pipeline.step p acts = some (p', h)) :
    (∀ e, .handled e ∈ h → e.symbol = symbol → p'.task.event? ≠ some e →
      ∃ l ∈ p'.session.lastSeq.get? symbol, e.seq ≤ l) ∧
    (∀ l ∈ p'.session.lastSeq.get? symbol, ∀ n,
      Expected (p.session.lastSeq.get? symbol) symbol h n → n ≤ l → Covered symbol h n) := by
  have hI := Coverage.run hraw hpol hidle hreads hr
  refine ⟨fun e he hs ht => ?_, hI.covered⟩
  rcases hI.processed e he hs with ht' | hle
  · exact absurd ht' ht
  · exact hle

/-- A RAW client without a boundary yet, whose filter wants changes of 50% or more. -/
def lossyClient : Pipeline :=
  { session := { clientId := "c1"
                 filters := .set .empty "A" { minChangePct := some (.finite 50) } }
    task := .waiting }

/-- 5 opens the boundary, 6 is withheld, 7 is lost, 8 reveals it, the snapshot is 9, and 8
arrives once more. -/
def lossyActs : List Pipeline.Act :=
  [.push (.quote "A" 5), .push (.quote "A" 6), .push (.quote "A" 8), .push (.quote "A" 8),
    .task .take, .task .take, .task .take,
    .task (.read (.value (some (.fromEvent (.quote "A" 9))))), .task .resume, .task .take]

theorem raw_recovery_lossy :
    ∃ p' h, Machine.run Pipeline.step lossyClient lossyActs = some (p', h) ∧
      p'.session.lastSeq.get? "A" = some 9 ∧ ∀ n : Int, 5 ≤ n → n ≤ 9 → Covered "A" h n := by
  have hsome : (Machine.run Pipeline.step lossyClient lossyActs).isSome := by decide +kernel
  have hlast : (Machine.run Pipeline.step lossyClient lossyActs).map
      (fun r => r.1.session.lastSeq.get? "A") = some (some 9) := by decide +kernel
  have hfirst : (Machine.run Pipeline.step lossyClient lossyActs).map
      (fun r => firstHandled "A" r.2) = some (some (.quote "A" 5)) := by decide +kernel
  obtain ⟨⟨p', h⟩, hr⟩ := Option.isSome_iff_exists.mp hsome
  rw [hr, Option.map_some, Option.some.injEq] at hlast hfirst
  refine ⟨p', h, hr, hlast, fun n h5 h9 => ?_⟩
  refine (raw_recovery rfl rfl (by decide) (by decide +kernel) hr).2 9 hlast n ?_ h9
  intro e he
  obtain rfl : MarketEventOf.quote "A" 5 = e := Option.some.inj (hfirst.symm.trans he)
  exact h5

end MarketData.Gateway
