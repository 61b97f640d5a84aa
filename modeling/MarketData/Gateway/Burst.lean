import MarketData.Gateway.Outbound

/-!
# MarketData.Gateway.Burst

**A burst of one symbol behind a slow writer.** The dispatch loop enqueues the events of a burst one
after the other, and a full DROP_OLDEST queue gives up its oldest message for each, whatever its
symbol: afterwards it holds the newest messages of all (`Ready.burst`, with
`BoundedQueue.items_foldl_putEvict`). A writer that goes on sends the queue in order
(`Pipeline.run_drain`).
-/

namespace MarketData.Gateway

/-- An event in sequence goes straight to the queue of a DROP_OLDEST session without a filter. -/
theorem ClientSession.dispatchEvent_next {s : ClientSession} {e : MarketEvent}
    (hn : ∀ l ∈ s.lastSeq.get? e.symbol, e.seq = l + 1) (hp : s.policy = .dropOldest)
    (hf : s.filters.get? e.symbol = none) :
    ∃ stats, s.dispatchEvent e = ({ s with
        lastSeq := s.lastSeq.set e.symbol e.seq
        lastPrice := s.lastPrice.set e.symbol e.bid
        queue := s.queue.putEvict (.incremental e), stats := stats }, .waiting,
      [.handled e, .accepted (.incremental e)]) := by
  have hdeliver : ({ s with lastSeq := s.lastSeq.set e.symbol e.seq } :
      ClientSession).shouldDeliver e = true := by
    simp [shouldDeliver, hf]
  unfold dispatchEvent
  rcases s.classifySequence_cases e.symbol e.seq (decide (s.aggregator.mode = .raw)) with
    ⟨last, hl, hle, -⟩ | ⟨last, hl, -, -, hne, -⟩ | ⟨-, hc⟩ | ⟨last, hl, -, -, hne, -⟩
  · have := hn last hl
    omega
  · exact absurd (hn last hl) hne
  · obtain ⟨stats, heq⟩ := enqueue_dropOldest_eq
      (s := { s with lastSeq := s.lastSeq.set e.symbol e.seq }) hp (.incremental e)
    refine ⟨stats, ?_⟩
    rw [hc]
    simp only [hdeliver, Bool.not_true, Bool.false_eq_true, if_false, heq, markDelivered]
  · exact absurd (hn last hl) hne

namespace Pipeline

/-- The loop of a RAW DROP_OLDEST session without filters is idle. -/
structure Ready (p : Pipeline) : Prop where
  waiting : p.task = .waiting
  raw : p.session.aggregator.mode = .raw
  drained : p.session.aggregator.output.items = []
  dropOldest : p.session.policy = .dropOldest
  unfiltered : ∀ symbol, p.session.filters.get? symbol = none

/-- An event is pushed and dispatched. -/
def roundActs (e : MarketEvent) : List Pipeline.Act := [.push e, .task .take]

/-- What is seen of it. -/
def roundObs (e : MarketEvent) : List ClientObs :=
  [.pushed e, .handled e, .accepted (.incremental e)]

/-- What a burst of the events `es` leaves. -/
structure Burst (es : List MarketEvent) (p p' : Pipeline) : Prop where
  ready : p'.Ready
  queue : p'.session.queue =
    (es.map Message.incremental).foldl BoundedQueue.putEvict p.session.queue
  writer : p'.session.writer = p.session.writer
  disconnected : p'.session.disconnected = p.session.disconnected
  encoding : p'.session.encoding = p.session.encoding
  lastSeq : p'.session.lastSeq = es.foldl (fun d e => d.set e.symbol e.seq) p.session.lastSeq

/-- **One event of a burst.** -/
theorem Ready.round {p : Pipeline} (hI : p.Ready) {e : MarketEvent}
    (hn : ∀ l ∈ p.session.lastSeq.get? e.symbol, e.seq = l + 1) :
    ∃ p', Machine.run step p (roundActs e) = some (p', roundObs e) ∧ Burst [e] p p' := by
  have hput : (p.session.aggregator.output.putEvict e).items = [e] := by
    have hpos := p.session.aggregator.output.pos
    rw [BoundedQueue.items_putEvict, hI.drained]
    simp [hpos]
  have hget : (p.session.aggregator.output.putEvict e).getNowait =
      some (e, (p.session.aggregator.output.putEvict e).pop) :=
    BoundedQueue.getNowait_eq_some.mpr ⟨⟨[], hput⟩, rfl⟩
  have hpush : p.session.aggregator.push e =
      { p.session.aggregator with output := p.session.aggregator.output.putEvict e } := by
    simp [AggregationBuffer.push, AggregationBuffer.putLatest, hI.raw]
  obtain ⟨stats, hd⟩ := ClientSession.dispatchEvent_next (e := e)
    (s := p.session.withOutput (p.session.aggregator.output.putEvict e).pop) hn hI.dropOldest
    (hI.unfiltered e.symbol)
  have htake : ({ p with session := { p.session with
      aggregator := p.session.aggregator.push e } } : Pipeline).step (.task .take) = some
        (⟨((p.session.withOutput (p.session.aggregator.output.putEvict e).pop).dispatchEvent e).1,
          ((p.session.withOutput (p.session.aggregator.output.putEvict e).pop).dispatchEvent
            e).2.1⟩,
        ((p.session.withOutput (p.session.aggregator.output.putEvict e).pop).dispatchEvent
          e).2.2) := by
    simp only [step, taskStep, hpush, hI.waiting, hget]
    rfl
  rw [hd] at htake
  refine ⟨_, Machine.run_cons.mpr ⟨_, _, _, rfl, Machine.run_singleton.mpr htake, rfl⟩,
    ⟨rfl, hI.raw, ?_, hI.dropOldest, hI.unfiltered⟩, rfl, rfl, rfl, rfl, rfl⟩
  show (p.session.aggregator.output.putEvict e).items.tail = []
  rw [hput]
  rfl

/-- The events of a burst are in sequence for their symbols. -/
def InSequence : Dict PyStr Int → List MarketEvent → Prop
  | _, [] => True
  | lastSeq, e :: es => (∀ l ∈ lastSeq.get? e.symbol, e.seq = l + 1) ∧
    InSequence (lastSeq.set e.symbol e.seq) es

/-- **A burst**, event by event. -/
theorem Ready.burst {p : Pipeline} (hI : p.Ready) {es : List MarketEvent}
    (hes : InSequence p.session.lastSeq es) :
    ∃ p', Machine.run step p (es.flatMap roundActs) = some (p', es.flatMap roundObs) ∧
      Burst es p p' := by
  induction es generalizing p with
  | nil => exact ⟨p, rfl, hI, rfl, rfl, rfl, rfl, rfl⟩
  | cons e es ih =>
      obtain ⟨p₁, hr₁, h₁⟩ := hI.round hes.1
      have hseq : p₁.session.lastSeq = p.session.lastSeq.set e.symbol e.seq := h₁.lastSeq
      obtain ⟨p₂, hr₂, h₂⟩ := ih h₁.ready (hseq ▸ hes.2)
      refine ⟨p₂, Machine.run_append.mpr ⟨p₁, _, _, hr₁, hr₂, rfl⟩, h₂.ready, ?_,
        h₂.writer.trans h₁.writer, h₂.disconnected.trans h₁.disconnected,
        h₂.encoding.trans h₁.encoding, ?_⟩
      · rw [h₂.queue, h₁.queue]
        rfl
      · rw [h₂.lastSeq, h₁.lastSeq]
        rfl

/-- `k` quotes of `symbol` after `n`. -/
def quotesAfter (symbol : PyStr) : Int → Nat → List MarketEvent
  | _, 0 => []
  | n, k + 1 => .quote symbol (n + 1) :: quotesAfter symbol (n + 1) k

theorem length_quotesAfter (symbol : PyStr) (n : Int) (k : Nat) :
    (quotesAfter symbol n k).length = k := by
  induction k generalizing n with
  | zero => rfl
  | succ k ih => rw [quotesAfter, List.length_cons, ih]

theorem symbol_of_mem_quotesAfter {symbol : PyStr} {n : Int} {k : Nat} {e : MarketEvent}
    (h : e ∈ quotesAfter symbol n k) : e.symbol = symbol := by
  induction k generalizing n with
  | zero => cases h
  | succ k ih =>
      rcases List.mem_cons.mp h with rfl | h
      · rfl
      · exact ih h

theorem lt_seq_of_mem_quotesAfter {symbol : PyStr} {n : Int} {k : Nat} {e : MarketEvent}
    (h : e ∈ quotesAfter symbol n k) : n < e.seq := by
  induction k generalizing n with
  | zero => cases h
  | succ k ih =>
      rcases List.mem_cons.mp h with rfl | h
      · exact Int.lt_succ n
      · exact lt_trans (Int.lt_succ n) (ih h)

theorem pairwise_quotesAfter (symbol : PyStr) (n : Int) (k : Nat) :
    (quotesAfter symbol n k).Pairwise fun e e' => e.seq < e'.seq := by
  induction k generalizing n with
  | zero => exact List.Pairwise.nil
  | succ k ih =>
      exact List.pairwise_cons.mpr ⟨fun e he => lt_seq_of_mem_quotesAfter he, ih (n + 1)⟩

/-- Successive quotes are in sequence. -/
theorem inSequence_quotesAfter {symbol : PyStr} {n : Int} {lastSeq : Dict PyStr Int}
    (hn : ∀ l ∈ lastSeq.get? symbol, l = n) (k : Nat) :
    InSequence lastSeq (quotesAfter symbol n k) := by
  induction k generalizing n lastSeq with
  | zero => trivial
  | succ k ih =>
      refine ⟨fun l hl => ?_, ih fun l hl => ?_⟩
      · rw [hn l hl]
        rfl
      · obtain rfl : n + 1 = l := Option.some.inj ((Dict.get?_set_self ..).symm.trans hl)
        rfl

/-! ### The writer goes on -/

/-- The send in progress succeeds. -/
theorem step_writerSent {p : Pipeline} {m : Message} (hw : p.session.writer = .sending m)
    (hd : p.session.disconnected = false) (hm : m.GoesOut p.session.encoding) :
    p.step (.task .writerSent) = some ({ p with session := { p.session with
      stats := { p.session.stats with sent := p.session.stats.sent + 1 }
      writer := .waiting } }, [.sent m]) := by
  simp only [step, taskStep, hw, ClientSession.writerLoop, hd, if_pos hm.1, hm.2,
    Bool.false_eq_true, if_false]

/-- The writer sends the oldest message. -/
theorem run_sendNext {p : Pipeline} (hw : p.session.writer = .waiting)
    (hd : p.session.disconnected = false) {m : Message} {ms : List Message}
    (hq : p.session.queue.items = m :: ms) (hm : m.GoesOut p.session.encoding) :
    ∃ p', Machine.run step p [.task .writerTake, .task .writerSent] = some (p', [.sent m]) ∧
      p'.session.writer = .waiting ∧ p'.session.disconnected = false ∧
      p'.session.queue.items = ms ∧ p'.task = p.task ∧
      p'.session.aggregator = p.session.aggregator ∧ p'.session.encoding = p.session.encoding := by
  have hget : p.session.queue.getNowait = some (m, p.session.queue.pop) :=
    BoundedQueue.getNowait_eq_some.mpr ⟨⟨ms, hq⟩, rfl⟩
  have htake : p.step (.task .writerTake) = some ({ p with session := { p.session with
      queue := p.session.queue.pop, writer := .sending m } }, []) := by
    simp only [step, taskStep, hw, hget]
  refine ⟨_, Machine.run_cons.mpr ⟨_, [], _, htake,
    Machine.run_singleton.mpr (step_writerSent rfl hd hm), rfl⟩, rfl, hd, ?_, rfl, rfl, rfl⟩
  show p.session.queue.items.tail = ms
  rw [hq]
  rfl

/-- The writer sends the next `k` messages. -/
def drainActs (k : Nat) : List Pipeline.Act :=
  (List.replicate k [.task .writerTake, .task .writerSent]).flatten

/-- **A writer that goes on sends the queue in order**, and nothing else changes. -/
theorem run_drain {p : Pipeline} (hw : p.session.writer = .waiting)
    (hd : p.session.disconnected = false) {ms : List Message} (hq : p.session.queue.items = ms)
    (hms : ∀ m ∈ ms, m.GoesOut p.session.encoding) :
    ∃ p', Machine.run step p (drainActs ms.length) = some (p', ms.map .sent) ∧
      p'.session.writer = .waiting ∧ p'.session.queue.items = [] ∧ p'.task = p.task ∧
      p'.session.aggregator = p.session.aggregator := by
  induction ms generalizing p with
  | nil => exact ⟨p, rfl, hw, hq, rfl, rfl⟩
  | cons m ms ih =>
      obtain ⟨hm, hms⟩ := List.forall_mem_cons.mp hms
      obtain ⟨p₁, hr₁, hw₁, hd₁, hq₁, ht₁, ha₁, he₁⟩ := run_sendNext hw hd hq hm
      obtain ⟨p₂, hr₂, hw₂, hq₂, ht₂, ha₂⟩ := ih hw₁ hd₁ hq₁ (he₁ ▸ hms)
      exact ⟨p₂, Machine.run_append.mpr ⟨p₁, _, _, hr₁, hr₂, rfl⟩, hw₂, hq₂, ht₂.trans ht₁,
        ha₂.trans ha₁⟩

theorem pushes_roundObs (es : List MarketEvent) : pushes (es.flatMap roundObs) = es := by
  induction es with
  | nil => rfl
  | cons e es ih =>
      rw [List.flatMap_cons, pushes_append, ih]
      rfl

/-- The steps of a burst. -/
theorem of_mem_roundActs {es : List MarketEvent} {a : Pipeline.Act}
    (h : a ∈ es.flatMap roundActs) : a = .task .take ∨ ∃ e ∈ es, a = .push e := by
  obtain ⟨e, he, ha⟩ := List.mem_flatMap.mp h
  simp only [roundActs, List.mem_cons, List.not_mem_nil, or_false] at ha
  rcases ha with rfl | rfl
  · exact Or.inr ⟨e, he, rfl⟩
  · exact Or.inl rfl

/-- The steps of a writer that goes on. -/
theorem of_mem_drainActs {k : Nat} {a : Pipeline.Act} (h : a ∈ drainActs k) :
    a = .task .writerTake ∨ a = .task .writerSent := by
  obtain ⟨l, hl, ha⟩ := List.mem_flatten.mp h
  rw [List.eq_of_mem_replicate hl] at ha
  simpa using ha

/-- Dispatching sends nothing. -/
theorem sends_roundObs (es : List MarketEvent) : sends (es.flatMap roundObs) = [] := by
  refine List.filterMap_eq_nil_iff.mpr fun x hx => ?_
  obtain ⟨e, -, hx⟩ := List.mem_flatMap.mp hx
  simp only [roundObs, List.mem_cons, List.not_mem_nil, or_false] at hx
  rcases hx with rfl | rfl | rfl <;> rfl

end Pipeline

/-! ### The same in the gateway -/

namespace Process

/-- The gateway steps of a client's own steps: an event is pushed by receiving it. -/
def lift (sid : SessionId) : Pipeline.Act → Act
  | .push e => .message e
  | .error text => .error sid text
  | .task a => .task sid a

/-- **A run of a subscribed client's pushes and tasks is a run of the gateway.** -/
theorem run_lift {g : Process} {sid : SessionId} {p : Pipeline} {acts : List Pipeline.Act}
    {o : List ClientObs} (hl : g.fanout = .listening)
    (hacts : ∀ a ∈ acts, (∃ t, a = .task t) ∨
      ∃ e, a = .push e ∧ sid ∈ g.registry.subscribers e.symbol)
    (hr : Machine.run Pipeline.step (g.clients sid).toPipeline acts = some (p, o)) :
    ∃ g' h, Machine.run step g (acts.map (lift sid)) = some (g', h) ∧
      (g'.clients sid).toPipeline = p ∧ viewed sid h = o ∧
      ∀ x ∈ h, (∃ y, x = .client sid y) ∨ ∃ e sessions, x = .received e sessions := by
  induction acts generalizing g o with
  | nil =>
      obtain ⟨rfl, rfl⟩ : (g.clients sid).toPipeline = p ∧ [] = o := by simpa using hr
      exact ⟨g, [], rfl, rfl, rfl, by simp⟩
  | cons a acts ih =>
      obtain ⟨p₁, o₁, o₂, hs, hr', rfl⟩ := Machine.run_cons.mp hr
      have hstep : ∃ g₁ h₁, g.step (lift sid a) = some (g₁, h₁) ∧ (g₁.clients sid).toPipeline = p₁ ∧
          viewed sid h₁ = o₁ ∧ g₁.fanout = g.fanout ∧
          (∀ symbol, g₁.registry.subscribers symbol = g.registry.subscribers symbol) ∧
          ∀ x ∈ h₁, (∃ y, x = .client sid y) ∨ ∃ e sessions, x = .received e sessions := by
        rcases hacts a List.mem_cons_self with ⟨t, rfl⟩ | ⟨e, rfl, hsub⟩
        · have hs' : (g.clients sid).taskStep t = some (p₁, o₁) := hs
          refine ⟨g.withClient sid { g.clients sid with toPipeline := p₁ }, o₁.map (.client sid),
            ?_, ?_, viewed_own sid o₁, rfl, fun _ => rfl, fun x hx => ?_⟩
          · simp only [step, lift, hs']
          · rw [clients_withClient_self]
          · obtain ⟨y, -, rfl⟩ := List.mem_map.mp hx
            exact Or.inl ⟨y, rfl⟩
        · obtain ⟨rfl, rfl⟩ := Machine.outcome hs
          refine ⟨g.fanoutEvent e, [.received e (g.registry.subscribers e.symbol)], ?_, ?_, ?_, rfl,
            fun symbol => g.registry.subscribers_bufferEvent symbol e, fun x hx => ?_⟩
          · simp only [step, lift, if_pos hl]
          · rw [clients_fanoutEvent, if_pos hsub]
            rfl
          · simp only [viewed, List.filterMap_cons, Obs.view, if_pos hsub, List.filterMap_nil]
          · exact Or.inr ⟨e, _, List.mem_singleton.mp hx⟩
      obtain ⟨g₁, h₁, hg, rfl, rfl, hf, hsub, hx₁⟩ := hstep
      have hacts' : ∀ b ∈ acts, (∃ t, b = .task t) ∨
          ∃ e, b = .push e ∧ sid ∈ g₁.registry.subscribers e.symbol := by
        intro b hb
        rcases hacts b (List.mem_cons_of_mem _ hb) with ht | ⟨e, he, hmem⟩
        · exact Or.inl ht
        · exact Or.inr ⟨e, he, (hsub e.symbol).symm ▸ hmem⟩
      obtain ⟨g', h', hr'', hp, hv, hx⟩ := ih (hf.trans hl) hacts' hr'
      refine ⟨g', h₁ ++ h', Machine.run_cons.mpr ⟨g₁, h₁, h', hg, hr'', rfl⟩, hp, ?_, ?_⟩
      · rw [viewed_append, hv]
      · exact fun x hmem => (List.mem_append.mp hmem).elim (hx₁ x) (hx x)

end Process

end MarketData.Gateway
