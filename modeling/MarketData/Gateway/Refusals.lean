import MarketData.Gateway.Ordering

/-!
# MarketData.Gateway.Refusals

**Refused messages and the boundary.** A gap recovery writes the boundary of its symbol once
`enqueue` has taken the snapshot. An incremental is classified first, and `classify_sequence` writes
the boundary before `enqueue` is asked: when the queue is full and the policy is DISCONNECT, the
event is refused behind a boundary that already stands at it, and the next event counts as its
successor. So a RAW client is told of every hole exactly if the queue has room at each in-sequence
event (`refusals_keep_iff`).
-/

namespace MarketData.Gateway

open Boundary (Emission Move)

/-! ### When `enqueue` takes a message -/

/-- `enqueue` takes the next message. -/
def ClientSession.Admits (s : ClientSession) : Prop :=
  s.policy = .dropOldest ∨ s.queue.items.length < s.queue.maxsize

instance (s : ClientSession) : Decidable s.Admits := inferInstanceAs (Decidable (_ ∨ _))

namespace ClientSession

theorem enqueue_eq_true_iff (s : ClientSession) (m : Message) :
    (s.enqueue m).1 = true ↔ s.Admits := by
  rcases s.enqueue_cases m with ⟨hlt, heq⟩ | ⟨-, hp, heq⟩ | ⟨hfull, hp, heq⟩
  · rw [heq]
    exact iff_of_true rfl (Or.inr hlt)
  · rw [heq]
    exact iff_of_true rfl (Or.inl hp)
  · rw [heq]
    refine iff_of_false Bool.false_ne_true fun h => ?_
    rcases h with hp' | hlt
    · cases hp.symm.trans hp'
    · omega

theorem shouldDeliver_of_unfiltered {s : ClientSession} {event : MarketEvent}
    (hf : s.filters.get? event.symbol = none) : s.shouldDeliver event = true := by
  rw [shouldDeliver, hf]

/-- **Which events the dispatch loop has refused**: those in sequence that pass the filter and find
no room. -/
theorem dispatchEvent_refused_iff (s : ClientSession) (event : MarketEvent) :
    .refused (.incremental event) ∈ (s.dispatchEvent event).2.2 ↔
      (∀ l ∈ s.lastSeq.get? event.symbol,
        l < event.seq ∧ (s.aggregator.mode = .raw → event.seq = l + 1)) ∧
      s.shouldDeliver event = true ∧ ¬ s.Admits := by
  unfold dispatchEvent
  rcases s.classifySequence_cases event.symbol event.seq (decide (s.aggregator.mode = .raw)) with
    ⟨last, hl, hle, hc⟩ | ⟨last, hl, -, hg, hne, -, hc⟩ | ⟨hn, hc⟩ | ⟨last, hl, -, hg, hne, -, hc⟩
  · rw [hc]
    refine iff_of_false (by simp) fun h => ?_
    have hlt := (h.1 last hl).1
    omega
  · rw [hc]
    refine iff_of_false (by simp) fun h => ?_
    exact hne ((h.1 last hl).2 (of_decide_eq_true hg))
  · rw [hc]
    have hn' : ∀ l ∈ s.lastSeq.get? event.symbol,
        l < event.seq ∧ (s.aggregator.mode = .raw → event.seq = l + 1) :=
      fun l hl => ⟨(hn l hl).1, fun hm => (hn l hl).2 (by simpa using hm)⟩
    set s₁ : ClientSession := { s with lastSeq := s.lastSeq.set event.symbol event.seq } with hs₁
    have hsd : s₁.shouldDeliver event = s.shouldDeliver event := rfl
    have hadmits : (s₁.enqueue (.incremental event)).1 = true ↔ s.Admits :=
      s₁.enqueue_eq_true_iff (.incremental event)
    dsimp only
    rw [hsd]
    cases hd : s.shouldDeliver event with
    | false => simp
    | true =>
        rcases hen : s₁.enqueue (.incremental event) with ⟨ok, s₂⟩
        rw [hen] at hadmits
        cases ok with
        | true => simp [hadmits.mp rfl]
        | false =>
            refine iff_of_true (by simp) ⟨hn', rfl, fun h => ?_⟩
            exact Bool.false_ne_true (hadmits.mpr h)
  · rw [hc]
    refine iff_of_false (by simp) fun h => ?_
    exact hne ((h.1 last hl).2 (of_decide_eq_true hg))

end ClientSession

/-! ### One step -/

/-- The event directly follows the boundary of its symbol, or the first one seen. -/
def InSequence (s : ClientSession) (event : MarketEvent) : Prop :=
  ∀ l ∈ s.lastSeq.get? event.symbol, event.seq = l + 1

/-- **The condition**: when the loop takes an in-sequence event of the symbol, `enqueue` takes a
message. -/
def Accommodates (symbol : PyStr) (p : Pipeline) (a : Pipeline.Act) : Prop :=
  a = .task .take → ∀ event ∈ p.session.aggregator.output.items.head?, event.symbol = symbol →
    InSequence p.session event → p.session.Admits

instance (symbol : PyStr) (p : Pipeline) (a : Pipeline.Act) :
    Decidable (Accommodates symbol p a) := by
  unfold Accommodates InSequence
  infer_instance

/-- A step that has a market message of the symbol refused leaves its boundary and its baseline. -/
def RefusalKeeps (symbol : PyStr) (p : Pipeline) (a : Pipeline.Act) : Prop :=
  ∀ p' o, p.step a = some (p', o) → (∃ m, .refused m ∈ o ∧ (m.emission? symbol).isSome) →
    p'.session.lastSeq.get? symbol = p.session.lastSeq.get? symbol ∧
    p'.session.lastPrice.get? symbol = p.session.lastPrice.get? symbol

namespace Pipeline

variable {p p' : Pipeline} {a : Act} {o : List ClientObs} {symbol : PyStr}

/-- **Taking an event is the only step that can move a boundary at a refusal.** -/
theorem refusalKeeps_of_ne_take (ha : a ≠ .task .take) : RefusalKeeps symbol p a := by
  intro p' o h hm
  obtain ⟨m, hm, hsym⟩ := hm
  rcases step_cases h with ⟨t, rfl, ht⟩ | ⟨-, hl, hp, -, -⟩
  · rcases taskStep_cases ht with
      ⟨event, output, rfl, -, -, -, -⟩ | ⟨gapped, snapshot, hs, -, -, rfl, rfl⟩ | hbg
    · exact absurd rfl ha
    · have hr := p.session.recovered gapped.symbol snapshot
      generalize p.session.recover gapped.symbol snapshot = r at hr hm ⊢
      cases hr with
      | ignored h => exact ⟨rfl, rfl⟩
      | accepted q stats d hn hq => simp at hm
      | refused q stats d hn hp hq => exact ⟨rfl, rfl⟩
    · obtain ⟨q, st, w, d, hf⟩ := hbg.fields
      exact ⟨by rw [hf], by rw [hf]⟩
  · exact ⟨by rw [hl], by rw [hp]⟩

/-- **One step**: refusals keep the boundary exactly if the queue accommodates the event. -/
theorem refusalKeeps_iff (hraw : p.session.aggregator.mode = .raw)
    (hf : p.session.filters.get? symbol = none) (h : p.step a = some (p', o)) :
    RefusalKeeps symbol p a ↔ Accommodates symbol p a := by
  by_cases ha : a = .task .take
  swap
  · exact iff_of_true (refusalKeeps_of_ne_take ha) fun hta => absurd hta ha
  subst ha
  obtain ⟨event, rest, -, hitems, hp', ho⟩ := take_cases (o := o) h
  have hhead : p.session.aggregator.output.items.head? = some event := by
    rw [hitems]
    rfl
  generalize p.session.aggregator.output.pop = output at hp' ho
  have hrefused := (p.session.withOutput output).dispatchEvent_refused_iff event
  have hd := (p.session.withOutput output).dispatched event
  rw [← ho] at hrefused
  constructor
  · intro hkeep _ e he hes hseq
    obtain rfl : event = e := Option.some.inj (hhead.symm.trans he)
    subst hes
    by_contra hno
    -- refused in sequence: the boundary stands at the event
    have hmem : .refused (.incremental event) ∈ o := by
      refine hrefused.mpr ⟨fun l hl => ⟨?_, fun _ => hseq l hl⟩,
        ClientSession.shouldDeliver_of_unfiltered hf, hno⟩
      have hnext := hseq l hl
      omega
    have hkept := (hkeep p' o h ⟨_, hmem, by simp [Message.emission?]⟩).1
    have hmoved : p'.session.lastSeq.get? event.symbol = some event.seq := by
      rw [ho] at hmem
      rw [hp']
      generalize (p.session.withOutput output).dispatchEvent event = r at hd hmem ⊢
      cases hd with
      | stale | gap | unlogged | withheld | accepted => simp at hmem
      | refused q stats d hn hd hp hq => exact Dict.get?_set_self ..
    have hsame := hseq event.seq (hkept ▸ hmoved)
    omega
  · intro hacc p'' o'' h'' hm
    obtain ⟨rfl, rfl⟩ : p' = p'' ∧ o = o'' := by simpa [h] using h''
    obtain ⟨m, hm, hsym⟩ := hm
    have hm' := hm
    rw [ho] at hm'
    generalize (p.session.withOutput output).dispatchEvent event = r at hd hm'
    cases hd with
    | stale | gap | unlogged | withheld | accepted => simp at hm'
    | refused q stats d hn hd hp hq =>
        obtain rfl : m = .incremental event := by simpa using hm'
        have hes : event.symbol = symbol := by
          by_contra hne
          simp [Message.emission?, hne] at hsym
        obtain ⟨hseq, -, hno⟩ := hrefused.mp hm
        exact absurd (hacc rfl event hhead hes fun l hl => (hseq l hl).2 hraw) hno

/-- A boundary moves without a message only where the queue has no room. -/
theorem lastSeq_or_emissions (hraw : p.session.aggregator.mode = .raw)
    (hf : p.session.filters.get? symbol = none)
    (hacc : Accommodates symbol p a) (h : p.step a = some (p', o)) :
    p'.session.lastSeq.get? symbol = p.session.lastSeq.get? symbol ∨ emissions symbol o ≠ [] := by
  rcases step_cases h with ⟨t, rfl, ht⟩ | ⟨-, hl, -, -, -⟩
  · rcases taskStep_cases ht with
      ⟨event, output, rfl, -, hget, rfl, rfl⟩ | ⟨gapped, snapshot, hs, -, -, rfl, rfl⟩ | hbg
    · have hrefused := (p.session.withOutput output).dispatchEvent_refused_iff event
      have hd := (p.session.withOutput output).dispatched event
      generalize (p.session.withOutput output).dispatchEvent event = r at hd hrefused ⊢
      by_cases hes : event.symbol = symbol
      swap
      · -- an event of another symbol
        refine Or.inl ?_
        cases hd <;> first | rfl | exact Dict.get?_set_ne _ _ hes
      subst hes
      cases hd with
      | stale hl hle => exact Or.inl rfl
      | gap | unlogged => exact Or.inl rfl
      | withheld hn hd =>
          have hdeliver : (p.session.withOutput output).shouldDeliver event = true :=
            ClientSession.shouldDeliver_of_unfiltered hf
          exact absurd (hd.symm.trans hdeliver) Bool.false_ne_true
      | accepted q stats d hn hd hq =>
          exact Or.inr (by simp [ClientObs.emission?, Message.emission?])
      | refused q stats d hn hd hp hq =>
          obtain ⟨⟨rest, hitems⟩, -⟩ := BoundedQueue.getNowait_eq_some.mp hget
          obtain ⟨hseq, -, hno⟩ := hrefused.mp (by simp)
          have hadmits := hacc rfl event (by rw [hitems]; rfl) rfl fun l hl => (hseq l hl).2 hraw
          exact absurd hadmits hno
    · have hr := p.session.recovered gapped.symbol snapshot
      generalize p.session.recover gapped.symbol snapshot = r at hr ⊢
      cases hr with
      | ignored h => exact Or.inl rfl
      | refused q stats d hn hp hq => exact Or.inl rfl
      | @accepted snapshot q stats d hn hq =>
          replace hs : snapshot.symbol = gapped.symbol := hs
          by_cases hgs : gapped.symbol = symbol
          · exact Or.inr (by simp [ClientObs.emission?, Message.emission?, hs, hgs])
          · exact Or.inl (Dict.get?_set_ne _ _ hgs)
    · obtain ⟨q, st, w, d, hfields⟩ := hbg.fields
      exact Or.inl (by rw [hfields])
  · exact Or.inl (by rw [hl])

/-- So every move of the boundary is visible. -/
theorem visible_of_accommodates {mv : Move Int} (hraw : p.session.aggregator.mode = .raw)
    (hf : p.session.filters.get? symbol = none)
    (hacc : Accommodates symbol p a) (h : p.step a = some (p', o))
    (hmv : BoundaryStep (p.session.lastSeq.get? symbol) (p'.session.lastSeq.get? symbol)
      (emissions symbol o) mv) : mv.Visible := by
  cases mv with
  | skip n =>
      obtain ⟨hguard, -, htarget, hemitted⟩ := hmv
      rcases lastSeq_or_emissions hraw hf hacc h with hsame | hemits
      · exact absurd (hguard n (hsame ▸ htarget)) (lt_irrefl n)
      · exact absurd hemitted hemits
  | keep | deliver n | recover n | reseed n => trivial

end Pipeline

/-! ### A whole run -/

/-- **What a run should look like** for the symbol: a refusal leaves its boundary and baseline, and
every accepted incremental directly follows the message accepted before it, or the initial
boundary. -/
def Gapless (symbol : PyStr) (p : Pipeline) (acts : List Pipeline.Act)
    (h : List ClientObs) : Prop :=
  Machine.Along Pipeline.step (RefusalKeeps symbol) p acts ∧
  ∀ es n es', emissions symbol h = es ++ .incremental n :: es' →
    ∀ l ∈ Boundary.lastSeen (p.session.lastSeq.get? symbol) es, n = l + 1

theorem Pipeline.run_visible {p p' : Pipeline} {acts : List Pipeline.Act} {h : List ClientObs}
    {symbol : PyStr} (hraw : p.session.aggregator.mode = .raw)
    (hf : p.session.filters.get? symbol = none)
    (hacc : Machine.Along Pipeline.step (Accommodates symbol) p acts)
    (hr : Machine.run Pipeline.step p acts = some (p', h)) :
    ∃ ms, Moved symbol p p' h ms ∧ ∀ mv ∈ ms, mv.Visible := by
  refine Machine.run_invariant_along
    (I := fun q g => ∃ ms, Moved symbol p q g ms ∧ ∀ mv ∈ ms, mv.Visible) ?_
    ⟨[], .nil symbol p, by simp⟩ hacc hr
  intro q a q' o g hC hI hq
  obtain ⟨ms, hms, hvis⟩ := hI
  obtain ⟨mv, hmoved, hmv⟩ := hms.snoc hq
  have hset := hms.settings
  refine ⟨ms ++ [mv], hmoved, fun m hm => ?_⟩
  rcases List.mem_append.mp hm with hm | hm
  · exact hvis m hm
  · obtain rfl := List.mem_singleton.mp hm
    exact visible_of_accommodates (hset.mode.trans hraw) (by rw [hset.filters, hf]) hC hq hmv

/-- **Refusals keep the boundary exactly where the queue has room.** In every run of a RAW client
that does not filter the symbol: refusals leave its boundary and the accepted stream has no hole if
and only if, whenever the loop takes an in-sequence event of the symbol, the policy is DROP_OLDEST
or the queue has room. -/
theorem refusals_keep_iff {symbol : PyStr} {p p' : Pipeline} {acts : List Pipeline.Act}
    {h : List ClientObs} (hraw : p.session.aggregator.mode = .raw)
    (hf : p.session.filters.get? symbol = none)
    (hr : Machine.run Pipeline.step p acts = some (p', h)) :
    Gapless symbol p acts h ↔ Machine.Along Pipeline.step (Accommodates symbol) p acts := by
  have hsteps : Machine.Along Pipeline.step (RefusalKeeps symbol) p acts ↔
      Machine.Along Pipeline.step (Accommodates symbol) p acts := by
    refine Machine.along_congr_of_invariant
      (P := fun q => q.session.aggregator.mode = .raw ∧ q.session.filters.get? symbol = none) ?_
      ⟨hraw, hf⟩ hr
    intro q a q' o hq hstep
    have hset := Pipeline.step_settings hstep
    exact ⟨⟨hset.mode.trans hq.1, by rw [hset.filters, hq.2]⟩,
      Pipeline.refusalKeeps_iff hq.1 hq.2 hstep⟩
  constructor
  · intro hgap
    exact hsteps.mp hgap.1
  · intro hacc
    obtain ⟨ms, hms, hvis⟩ := Pipeline.run_visible hraw hf hacc hr
    refine ⟨hsteps.mpr hacc, fun es n es' hes => ?_⟩
    rw [hms.emitted] at hes
    exact (hms.contiguous hraw).of_emitted hvis hes

/-- A RAW client under DISCONNECT with its boundary at 10, whose queue has room for one more. -/
def crowdedClient : Pipeline :=
  { session :=
      { clientId := "c1", policy := .disconnect, lastSeq := .set .empty "A" 10
        queue := ⟨.replicate 499 (.error "unknown action"), queueMaxSize, queueMaxSize_pos,
          by rw [List.length_replicate]; decide⟩
        writer := .waiting }
    task := .waiting }

/-- Two events, the second once the writer has taken the first. -/
def spacedActs : List Pipeline.Act :=
  [.push (.quote "A" 11), .task .take, .task .writerTake, .push (.quote "A" 12), .task .take]

theorem refusals_keep_iff_spaced :
    ∃ p' h, Machine.run Pipeline.step crowdedClient spacedActs = some (p', h) ∧
      emissions "A" h = [.incremental 11, .incremental 12] ∧
      Gapless "A" crowdedClient spacedActs h := by
  have hsome : (Machine.run Pipeline.step crowdedClient spacedActs).isSome := by decide +kernel
  have hemits : (Machine.run Pipeline.step crowdedClient spacedActs).map
      (fun r => emissions "A" r.2) = some [.incremental 11, .incremental 12] := by decide +kernel
  obtain ⟨⟨p', h⟩, hr⟩ := Option.isSome_iff_exists.mp hsome
  rw [hr, Option.map_some, Option.some.injEq] at hemits
  exact ⟨p', h, hr, hemits, (refusals_keep_iff rfl rfl hr).mpr (by decide +kernel)⟩

/-- Three events: the second finds the queue full, the third finds room. -/
def crowdedActs : List Pipeline.Act :=
  [.push (.quote "A" 11), .push (.quote "A" 12), .push (.quote "A" 13), .task .take, .task .take,
    .task .writerTake, .task .take]

/-- **A refused event leaves a hole that nothing detects**: 13 is accepted next to 11. -/
theorem refused_event_leaves_hole :
    ¬ ∀ (symbol : PyStr) (p p' : Pipeline) (acts : List Pipeline.Act) (h : List ClientObs),
      p.session.aggregator.mode = .raw → p.session.filters = .empty → p.task = .waiting →
      Machine.run Pipeline.step p acts = some (p', h) → Gapless symbol p acts h := by
  intro hall
  have hsome : (Machine.run Pipeline.step crowdedClient crowdedActs).isSome := by decide +kernel
  have hemits : (Machine.run Pipeline.step crowdedClient crowdedActs).map
      (fun r => emissions "A" r.2) = some [.incremental 11, .incremental 13] := by decide +kernel
  obtain ⟨⟨p', h⟩, hr⟩ := Option.isSome_iff_exists.mp hsome
  rw [hr, Option.map_some, Option.some.injEq] at hemits
  have hgapless := hall "A" crowdedClient p' crowdedActs h rfl rfl rfl hr
  have hgap := hgapless.2 [.incremental 11] 13 [] hemits
  exact absurd (hgap 11 rfl) (by decide)

end MarketData.Gateway
