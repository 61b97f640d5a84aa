import MarketData.Gateway.Burst
import MarketData.Gateway.Coverage

/-!
# MarketData.Gateway.Convergence

**What a client is left with.** Two bounded queues lie between a push and the WebSocket, and both
give up their oldest entry whatever its symbol. An event that the aggregator's output keeps is
taken (`run_kept`); a loop that is still running has handled it, and by `Coverage.run` the boundary
then reaches it; and every move of the boundary
comes with a message, which the outbound queue has to keep (`run_served`). So the last message sent
of a symbol is as fresh as its newest push, unless a full queue has given up just that entry
(`converges`).
-/

namespace MarketData.Gateway

open Boundary (Emission Move)

/-! ### The last message of a symbol -/

/-- The last message of the symbol has reached `n`. -/
def Served (symbol : PyStr) (n : Int) (ms : List Message) : Prop :=
  ∃ last ∈ (market symbol ms).getLast?, n ≤ last.seq

instance (symbol : PyStr) (n : Int) (ms : List Message) : Decidable (Served symbol n ms) :=
  match h : (market symbol ms).getLast? with
  | none => isFalse fun ⟨_, hl, _⟩ => by simp [h] at hl
  | some last => decidable_of_iff (n ≤ last.seq) (by simp [Served, h])

namespace Served

variable {symbol : PyStr} {n : Int} {ms ms' : List Message}

/-- Messages of other symbols do not matter. -/
theorem append_of_nil (h : Served symbol n ms) (hnil : market symbol ms' = []) :
    Served symbol n (ms ++ ms') := by
  rw [Served, market_append, hnil, List.append_nil]
  exact h

/-- A message of the symbol that has reached `n`. -/
theorem append_singleton {e : Emission Int} (he : market symbol ms' = [e]) (hn : n ≤ e.seq) :
    Served symbol n (ms ++ ms') := by
  refine ⟨e, ?_, hn⟩
  rw [market_append, he]
  exact List.getLast?_concat ..

/-- Messages that have not reached `n` can be taken out. -/
theorem remove {gone : List Message} (h : Served symbol n (ms ++ (gone ++ ms')))
    (hgone : ∀ e ∈ market symbol gone, e.seq < n) : Served symbol n (ms ++ ms') := by
  obtain ⟨last, hlast, hn⟩ := h
  refine ⟨last, ?_, hn⟩
  rw [market_append, market_append, List.getLast?_append, List.getLast?_append] at hlast
  rw [market_append, List.getLast?_append]
  cases hms : (market symbol ms').getLast? with
  | some e => rwa [hms] at hlast
  | none =>
      cases hg : (market symbol gone).getLast? with
      | none => rwa [hms, hg] at hlast
      | some e =>
          -- the last message would be one of those taken out
          rw [hms, hg] at hlast
          obtain rfl : e = last := Option.some.inj hlast
          have hlt := hgone e (List.mem_of_getLast? hg)
          omega

end Served

/-- A visible move either does nothing or emits the new boundary. -/
theorem BoundaryStep.visible_cases {b b' : Option Int} {es : List (Emission Int)} {mv : Move Int}
    (h : BoundaryStep b b' es mv) (hv : mv.Visible) :
    (b' = b ∧ es = []) ∨ ∃ e, es = [e] ∧ b' = some e.seq := by
  obtain ⟨-, -, ht, he⟩ := h
  cases mv with
  | keep => exact Or.inl ⟨ht, he⟩
  | skip k => exact hv.elim
  | deliver k | recover k | reseed k => exact Or.inr ⟨_, he, ht⟩

/-! ### A session without special settings -/

/-- A RAW DROP_OLDEST session that does not filter `symbol`; a RAW aggregator has no window. -/
structure Plain (symbol : PyStr) (s : ClientSession) : Prop where
  raw : s.aggregator.mode = .raw
  window : s.aggregator.buffer = .empty
  dropOldest : s.policy = .dropOldest
  unfiltered : s.filters.get? symbol = none

/-- **The condition**: a put that finds its queue full does not give up an entry of the symbol
which is as new as `e`. -/
def KeepsNewest (e : MarketEvent) (p : Pipeline) (a : Pipeline.Act) : Prop :=
  match a with
  | .push _ => ∀ x ∈ p.session.aggregator.output.evicted, x.symbol = e.symbol → x.seq < e.seq
  | _ => ∀ r ∈ p.step a, accepts r.2 ≠ [] →
      ∀ m ∈ p.session.queue.evicted, ∀ x ∈ m.emission? e.symbol, x.seq < e.seq

instance (e : MarketEvent) (p : Pipeline) (a : Pipeline.Act) : Decidable (KeepsNewest e p a) := by
  unfold KeepsNewest
  split <;> infer_instance

theorem KeepsNewest.queue {e : MarketEvent} {p p' : Pipeline} {a : Pipeline.Act}
    {o : List ClientObs} (hC : KeepsNewest e p a) (h : p.step a = some (p', o))
    (ho : accepts o ≠ []) :
    ∀ m ∈ p.session.queue.evicted, ∀ x ∈ m.emission? e.symbol, x.seq < e.seq := by
  cases a with
  | push event =>
      obtain ⟨-, rfl⟩ := Machine.outcome h
      exact absurd rfl ho
  | error text => exact hC (p', o) h ho
  | task t => exact hC (p', o) h ho

/-- Everything has gone through: the output, the loop's hand, the queue and the writer's. -/
structure Settled (p : Pipeline) : Prop where
  output : p.session.aggregator.output.items = []
  waiting : p.task = .waiting
  outbound : p.session.outbound = []

namespace Pipeline

variable {p p' : Pipeline} {a : Act} {o : List ClientObs} {symbol : PyStr}

/-- Without a window there is nothing to flush. -/
theorem flush_of_window {b : AggregationBuffer} (hb : b.buffer = .empty) : b.flush = b := by
  obtain ⟨mode, buffer, output, flushTask⟩ := b
  obtain rfl : buffer = .empty := hb
  rfl

/-- Only a push pushes. -/
theorem push_of_pushed (h : p.step a = some (p', o)) {e : MarketEvent} (he : .pushed e ∈ o) :
    a = .push e := by
  cases a with
  | push event =>
      obtain ⟨-, rfl⟩ := Machine.outcome h
      obtain rfl : e = event := by simpa using he
      rfl
  | error text =>
      simp only [step, ClientSession.enqueueError_eq] at h
      obtain ⟨-, rfl⟩ := Machine.outcome h
      have hreply := List.mem_singleton.mp he
      cases hok : (p.session.enqueue (.error text)).1 <;> rw [hok] at hreply <;> cases hreply
  | task t => exact absurd he (not_pushed_of_taskStep h)

/-- **What a step leaves of the output**: it is popped by handling its oldest event, or an event is
put; the settings stay. -/
theorem step_plain (hs : Plain symbol p.session) (h : p.step a = some (p', o)) :
    Plain symbol p'.session ∧
    (p'.session.aggregator.output = p.session.aggregator.output ∨
    (∃ event ∈ takes o, ∃ rest, p.session.aggregator.output.items = event :: rest ∧
      p'.session.aggregator.output.items = rest) ∨
    ∃ event, a = .push event ∧
      p'.session.aggregator.output = p.session.aggregator.output.putEvict event) := by
  have hset := step_settings h
  have hplain : p'.session.aggregator.buffer = .empty → Plain symbol p'.session := fun hb =>
    ⟨hset.mode.trans hs.raw, hb, hset.policy.trans hs.dropOldest,
      by rw [hset.filters, hs.unfiltered]⟩
  rcases step_aggregator h with ha | ⟨event, output, ho, hget, ha⟩ | ha | ⟨event, he, ha⟩
  · exact ⟨hplain (ha ▸ hs.window), Or.inl (by rw [ha])⟩
  · obtain ⟨⟨rest, hitems⟩, rfl⟩ := BoundedQueue.getNowait_eq_some.mp hget
    refine ⟨hplain (by rw [ha]; exact hs.window), Or.inr (Or.inl ⟨event, ho, rest, hitems, ?_⟩)⟩
    rw [ha]
    show p.session.aggregator.output.items.tail = rest
    rw [hitems]
    rfl
  · rw [flush_of_window hs.window] at ha
    exact ⟨hplain (ha ▸ hs.window), Or.inl (by rw [ha])⟩
  · have hpush : p.session.aggregator.push event = p.session.aggregator.putLatest event := by
      simp only [AggregationBuffer.push, hs.raw]
    rw [hpush] at ha
    exact ⟨hplain (by rw [ha]; exact hs.window),
      Or.inr (Or.inr ⟨event, push_of_pushed h he, by rw [ha]; rfl⟩)⟩

/-- What a step other than a failed send does to the writer. -/
theorem writer_step (h : p.step a = some (p', o)) (ha : a ≠ .task .writerFailed) :
    p'.session.writer = p.session.writer ∨ p.session.writer.inHand = [] ∨ sends o ≠ [] := by
  cases a with
  | push event =>
      obtain ⟨rfl, -⟩ := Machine.outcome h
      exact Or.inl rfl
  | error text =>
      obtain ⟨rfl, -⟩ := Machine.outcome h
      exact Or.inl (p.session.enqueue_writer _)
  | task t =>
      cases taskStepped h with
      | writerFailed => exact absurd rfl ha
      | writerTook hw | writerLooped hw => exact Or.inr (Or.inl (by rw [hw]; rfl))
      | writerSent | writerUnrecorded => exact Or.inr (Or.inr (by simp [sends, ClientObs.sent?]))
      | dispatched hw hget hr hd => exact Or.inl (by cases hd <;> rfl)
      | recovered hs ht hr hd => exact Or.inl (by cases hd <;> rfl)
      | read | raised | flushed => exact Or.inl rfl

/-- **Without a failed send nothing is lost**: what was held is sent or still held, or a message is
put. -/
theorem step_conserved (h : p.step a = some (p', o)) (ha : a ≠ .task .writerFailed) :
    (accepts o = [] ∧ sends o ++ p'.session.outbound = p.session.outbound) ∨
    ∃ m, accepts o = [m] ∧ sends o = [] ∧ p'.session.outbound = p.session.outboundWith m := by
  rcases (outbound_step h).conserved with hkept | hput | ⟨-, hs, hw', m, hw⟩
  · exact Or.inl hkept
  · exact Or.inr hput
  · rcases writer_step h ha with hsame | hempty | hsent
    · rw [hsame, hw] at hw'
      cases hw'
    · rw [hw] at hempty
      cases hempty
    · exact absurd hs hsent

end Pipeline

/-! ### Kept by the aggregator, kept by the outbound queue -/

/-- A loop that has failed does nothing any more. -/
theorem Pipeline.step_failed {p p' : Pipeline} {a : Pipeline.Act} {o : List ClientObs}
    (h : p.step a = some (p', o)) (hf : p.task = .failed) : p'.task = .failed := by
  cases a with
  | push event =>
      obtain ⟨rfl, -⟩ := Machine.outcome h
      exact hf
  | error text =>
      obtain ⟨rfl, -⟩ := Machine.outcome h
      exact hf
  | task t =>
      cases taskStepped h with
      | dispatched hw => cases hf.symm.trans hw
      | read ht | recovered hs ht => cases hf.symm.trans ht
      | raised => rfl
      | flushed | writerTook | writerSent | writerUnrecorded | writerFailed | writerLooped =>
          exact hf

/-- **The exception of the log ends the loop for good.** -/
theorem Pipeline.run_unlogged {p p' : Pipeline} {acts : List Pipeline.Act} {h : List ClientObs}
    (hr : Machine.run step p acts = some (p', h)) {e : MarketEvent} (he : .unlogged e ∈ h) :
    p'.task = .failed := by
  refine Machine.run_invariant_along (C := fun _ _ => True)
    (I := fun p h => .unlogged e ∈ h → p.task = .failed) ?_ (by simp)
    (Machine.along_true p acts) hr he
  intro p a p' o h _ hI hstep he
  rcases List.mem_append.mp he with he | he
  · exact step_failed hstep (hI he)
  · rcases step_cases hstep with ⟨t, rfl, hts⟩ | ⟨-, -, -, -, ho⟩
    · rcases taskStep_cases hts with
        ⟨event, output, -, -, -, rfl, rfl⟩ | ⟨event, snapshot, hs, -, -, rfl, rfl⟩ | hbg
      · have hd := (p.session.withOutput output).dispatched event
        generalize (p.session.withOutput output).dispatchEvent event = r at hd he ⊢
        cases hd with
        | unlogged => rfl
        | stale | gap | withheld | accepted | refused => simp at he
      · have hd := p.session.recovered event.symbol snapshot
        generalize p.session.recover event.symbol snapshot = r at hd he
        cases hd <;> simp at he
      · obtain ⟨m, hm⟩ := hbg.obs _ he
        cases hm
    · rcases ho _ he with ⟨e', hx⟩ | ⟨ok, text, hx⟩
      · cases hx
      · cases ok <;> cases hx

/-- **An event the output does not give up is still there, or has been taken.** -/
theorem Pipeline.run_kept {p p' : Pipeline} {acts : List Pipeline.Act} {h : List ClientObs}
    {e : MarketEvent} (hs : Plain e.symbol p.session)
    (hkeeps : Machine.Along step (KeepsNewest e) p acts)
    (hr : Machine.run step p acts = some (p', h)) (he : .pushed e ∈ h) :
    e ∈ p'.session.aggregator.output.items ∨ e ∈ takes h := by
  have key : Plain e.symbol p'.session ∧
      (.pushed e ∈ h → e ∈ p'.session.aggregator.output.items ∨ e ∈ takes h) := by
    refine Machine.run_invariant_along (I := fun p h => Plain e.symbol p.session ∧
      (.pushed e ∈ h → e ∈ p.session.aggregator.output.items ∨ e ∈ takes h)) ?_
      ⟨hs, by simp⟩ hkeeps hr
    intro p a p' o h hC hI hstep
    obtain ⟨hs, hI⟩ := hI
    obtain ⟨hs', hout⟩ := step_plain hs hstep
    refine ⟨hs', fun he => ?_⟩
    rw [takes_append]
    rcases List.mem_append.mp he with he | he
    · rcases hI he with hmem | hdone
      · rcases hout with ho | ⟨event, hev, rest, hitems, hrest⟩ | ⟨event, rfl, ho⟩
        · exact Or.inl (ho ▸ hmem)
        · -- the oldest event is taken now
          rw [hitems] at hmem
          rcases List.mem_cons.mp hmem with rfl | hmem
          · exact Or.inr (List.mem_append_right (takes h) hev)
          · exact Or.inl (hrest ▸ hmem)
        · rw [ho]
          refine Or.inl (BoundedQueue.mem_putEvict_of_mem hmem fun hgone => ?_)
          exact lt_irrefl _ (hC e hgone rfl)
      · exact Or.inr (List.mem_append_left (takes o) hdone)
    · obtain rfl := push_of_pushed hstep he
      obtain ⟨rfl, -⟩ := Machine.outcome hstep
      refine Or.inl ?_
      show e ∈ (p.session.aggregator.push e).output.items
      simp only [AggregationBuffer.push, hs.raw, AggregationBuffer.putLatest,
        BoundedQueue.items_putEvict]
      exact List.mem_append_right _ (List.mem_singleton_self e)
  exact key.2 he

/-- **One step keeps a symbol served**: a step that moves the boundary puts a message that has
reached it, and no put takes away one that has reached `e`. -/
theorem Pipeline.step_served {p p' : Pipeline} {a : Pipeline.Act} {o : List ClientObs}
    {e : MarketEvent} {ms : List Message} (hs : Plain e.symbol p.session)
    (hC : KeepsNewest e p a) (ha : a ≠ .task .writerFailed) (h : p.step a = some (p', o))
    (hI : ∀ l ∈ p.session.lastSeq.get? e.symbol, e.seq ≤ l →
      Served e.symbol e.seq (ms ++ p.session.outbound)) :
    ∀ l ∈ p'.session.lastSeq.get? e.symbol, e.seq ≤ l →
      Served e.symbol e.seq (ms ++ sends o ++ p'.session.outbound) := by
  intro l hl hle
  obtain ⟨mv, hmv, -, hvis⟩ := step_move h e.symbol
  have hcases := hmv.visible_cases (hvis hs.dropOldest hs.unfiltered)
  rw [← market_accepts] at hcases
  rw [List.append_assoc]
  rcases step_conserved h ha with ⟨haccepts, hout⟩ | ⟨m, haccepts, hsends, hout⟩
  · -- without a put the boundary stays
    rw [haccepts] at hcases
    rw [hout]
    rcases hcases with ⟨hb, -⟩ | ⟨x, hx, -⟩
    · exact hI l (hb ▸ hl) hle
    · exact absurd hx (by simp [market])
  · have hput : Served e.symbol e.seq (ms ++ p.session.outbound ++ [m]) := by
      rw [haccepts] at hcases
      rcases hcases with ⟨hb, hm⟩ | ⟨x, hx, hb⟩
      · exact (hI l (hb ▸ hl) hle).append_of_nil hm
      · obtain rfl : x.seq = l := Option.some.inj (hb.symm.trans hl)
        exact .append_singleton hx hle
    -- the queue gives up an older message at most
    rw [hsends, hout, List.nil_append, ClientSession.outboundWith, ← List.append_assoc]
    rw [ClientSession.outbound, List.append_assoc, List.append_assoc,
      ← BoundedQueue.evicted_append_putEvict, ← List.append_assoc] at hput
    refine hput.remove fun x hx => ?_
    obtain ⟨gone, hgone, hx⟩ := List.mem_filterMap.mp hx
    exact hC.queue h (by simp [haccepts]) gone (Option.mem_toList.mp hgone) x hx

theorem Pipeline.run_served {p p' : Pipeline} {acts : List Pipeline.Act} {h : List ClientObs}
    {e : MarketEvent} {ms : List Message} (hs : Plain e.symbol p.session)
    (hkeeps : Machine.Along step (KeepsNewest e) p acts) (hsent : .task .writerFailed ∉ acts)
    (hr : Machine.run step p acts = some (p', h))
    (h0 : ∀ l ∈ p.session.lastSeq.get? e.symbol, e.seq ≤ l →
      Served e.symbol e.seq (ms ++ p.session.outbound)) :
    ∀ l ∈ p'.session.lastSeq.get? e.symbol, e.seq ≤ l →
      Served e.symbol e.seq (ms ++ sends h ++ p'.session.outbound) := by
  have key : Plain e.symbol p'.session ∧ ∀ l ∈ p'.session.lastSeq.get? e.symbol, e.seq ≤ l →
      Served e.symbol e.seq (ms ++ sends h ++ p'.session.outbound) := by
    refine Machine.run_invariant_along (C := fun p a => KeepsNewest e p a ∧ a ≠ .task .writerFailed)
      (I := fun p h => Plain e.symbol p.session ∧ ∀ l ∈ p.session.lastSeq.get? e.symbol, e.seq ≤ l →
        Served e.symbol e.seq (ms ++ sends h ++ p.session.outbound)) ?_ ⟨hs, ?_⟩
      (Machine.along_and.mpr ⟨hkeeps, Machine.along_ne hsent p⟩) hr
    · intro p a p' o h hC hI hstep
      obtain ⟨hs, hI⟩ := hI
      refine ⟨(step_plain hs hstep).1, ?_⟩
      rw [sends_append, ← List.append_assoc]
      exact step_served hs hC.1 hC.2 hstep hI
    · simpa [sends] using h0
  exact key.2

/-! ### What the client is left with -/

/-- A session that an activation has just seeded is served up to its boundary. -/
theorem Seeded.served {s s' : ClientSession} {symbol : PyStr} {snapshot : SnapshotData}
    {o : List ClientObs} (h : Seeded s symbol (some snapshot) s' o)
    (hsym : snapshot.symbol = symbol) (ms : List Message) {n : Int} :
    ∀ l ∈ s'.lastSeq.get? symbol, n ≤ l → Served symbol n (ms ++ s'.outbound) := by
  intro l hl hle
  cases h with
  | accepted snapshot q stats d hok hq =>
      obtain rfl : snapshot.seq = l := Option.some.inj ((Dict.get?_set_self ..).symm.trans hl)
      rw [ClientSession.outbound, hq, BoundedQueue.items_putEvict, ← List.append_assoc,
        ← List.append_assoc]
      refine .append_singleton (e := .snapshot snapshot.seq) ?_ hle
      simp [market, Message.emission?, hsym]

/-- **A client converges to the newest push of a symbol that the queues do not give up.** Run a RAW
DROP_OLDEST client that does not filter the symbol, with snapshot reads at least as fresh as the
events that caused them and no failed send, from a state in which no gap of the symbol is being
recovered; `before` is what it was sent earlier. Once everything has gone through, the last message
sent of the symbol has reached every pushed event `e` that no full queue gave up, nor what came
in its place. -/
theorem converges (before : List Message) {p p' : Pipeline} {acts : List Pipeline.Act}
    {h : List ClientObs} {e : MarketEvent} (hs : Plain e.symbol p.session)
    (hidle : p.task.symbol? ≠ some e.symbol)
    (hstart : ∀ l ∈ p.session.lastSeq.get? e.symbol, e.seq ≤ l →
      Served e.symbol e.seq (before ++ p.session.outbound))
    (hreads : Machine.Along Pipeline.step (ReadsCover e.symbol) p acts)
    (hsent : .task .writerFailed ∉ acts)
    (hkeeps : Machine.Along Pipeline.step (KeepsNewest e) p acts)
    (hr : Machine.run Pipeline.step p acts = some (p', h)) (he : .pushed e ∈ h)
    (hsettled : Settled p') : Served e.symbol e.seq (before ++ sends h) := by
  have hhandled : .handled e ∈ h := by
    rcases Pipeline.run_kept hs hkeeps hr he with hmem | hdone
    · rw [hsettled.output] at hmem
      cases hmem
    · refine (mem_takes.mp hdone).resolve_right fun hraised => ?_
      cases hsettled.waiting.symm.trans (Pipeline.run_unlogged hr hraised)
  obtain ⟨l, hl, hle⟩ := ((Coverage.run hs.raw hs.dropOldest hidle hreads hr).processed e hhandled
    rfl).resolve_left (by simp [hsettled.waiting, DispatchTask.event?])
  have hserved := Pipeline.run_served hs hkeeps hsent hr hstart l hl hle
  rwa [hsettled.outbound, List.append_nil] at hserved

/-- A session as the handshake leaves it: A is seeded at 10, and the snapshot is on its way. -/
def subscribedClient : Pipeline :=
  { session := (({ clientId := "c0", writer := .waiting } : ClientSession).seed "A"
      (some (.fromEvent (.quote "A" 10)))).2.1
    task := .waiting }

/-- Events of two symbols; the lost event 12 of A is recovered by a read that returns 14. -/
def recoveredActs : List Pipeline.Act :=
  [.push (.quote "A" 11), .push (.quote "B" 1), .push (.quote "A" 13), .task .take, .task .take,
    .task .take, .task .writerTake, .task .writerSent,
    .task (.read (.value (some (.fromEvent (.quote "A" 14))))), .task .resume,
    .task .writerTake, .task .writerSent, .task .writerTake, .task .writerSent,
    .task .writerTake, .task .writerSent]

theorem converges_recovered :
    ∃ p h, Machine.run Pipeline.step subscribedClient recoveredActs = some (p, h) ∧ Settled p ∧
      market "A" (sends h) = [.snapshot 10, .incremental 11, .snapshot 14] ∧
      Served "A" 13 (sends h) := by
  have hrun : ∃ p h, Machine.run Pipeline.step subscribedClient recoveredActs = some (p, h) ∧
      .pushed (.quote "A" 13) ∈ h ∧ Settled p ∧
      market "A" (sends h) = [.snapshot 10, .incremental 11, .snapshot 14] :=
    ⟨_, _, rfl, by decide, ⟨rfl, rfl, rfl⟩, rfl⟩
  obtain ⟨p, h, hr, he, hsettled, hmarket⟩ := hrun
  exact ⟨p, h, hr, hsettled, hmarket, converges [] (e := .quote "A" 13) ⟨rfl, rfl, rfl, rfl⟩
    (by decide) (by decide) (by decide) (by decide) (by decide) hr he hsettled⟩

/-- Only a read can miss the event that caused it. -/
theorem readsCover_of_ne {symbol : PyStr} {p : Pipeline} {a : Pipeline.Act}
    (ha : ∀ r, a ≠ .task (.read r)) : ReadsCover symbol p a := by
  unfold ReadsCover
  split
  · exact absurd rfl (ha _)
  · trivial

/-- A session without any data yet. -/
def freshClient : Pipeline :=
  { session := { clientId := "c0", writer := .waiting }, task := .waiting }

/-- **A quiet symbol's last value can be lost.** One event of A, then 500 of B, while the writer is
slow: the last of them finds the outbound queue full, and its oldest message is all the client
would have been sent of A. -/
theorem quiet_symbol_lost :
    ∃ acts p h, Machine.run Pipeline.step freshClient acts = some (p, h) ∧
      (∀ symbol, Plain symbol freshClient.session) ∧
      (∀ symbol, Machine.Along Pipeline.step (ReadsCover symbol) freshClient acts) ∧
      .task .writerFailed ∉ acts ∧
      (pushes h).Pairwise (fun e e' => e.symbol = e'.symbol → e.seq < e'.seq) ∧
      .pushed (.quote "A" 1) ∈ h ∧ Settled p ∧ market "A" (sends h) = [] := by
  have hB : ∀ e ∈ Pipeline.quotesAfter "B" 0 500, e.symbol = "B" :=
    fun e he => Pipeline.symbol_of_mem_quotesAfter he
  have hfresh : ∀ l ∈ (freshClient.session.lastSeq.set "A" 1).get? "B", l = 0 := by
    intro l hl
    rw [Dict.get?_set_ne _ _ (by decide)] at hl
    cases hl
  have hes : Pipeline.InSequence freshClient.session.lastSeq
      (.quote "A" 1 :: Pipeline.quotesAfter "B" 0 500) :=
    ⟨fun _ hl => absurd hl (by simp [freshClient]), Pipeline.inSequence_quotesAfter hfresh 500⟩
  obtain ⟨p₁, hr₁, hb⟩ := Pipeline.Ready.burst (p := freshClient)
    ⟨rfl, rfl, rfl, rfl, fun _ => rfl⟩ hes
  have hqueue : p₁.session.queue.items = (Pipeline.quotesAfter "B" 0 500).map .incremental := by
    rw [hb.queue, BoundedQueue.items_foldl_putEvict, List.length_map, List.length_cons,
      Pipeline.length_quotesAfter]
    show (Message.incremental (.quote "A" 1) ::
      (Pipeline.quotesAfter "B" 0 500).map .incremental).drop
      (0 + (500 + 1) - queueMaxSize) = _
    rw [show 0 + (500 + 1) - queueMaxSize = 1 by decide, List.drop_succ_cons, List.drop_zero]
  have hout : ∀ m ∈ (Pipeline.quotesAfter "B" 0 500).map Message.incremental,
      m.GoesOut p₁.session.encoding := by
    rw [hb.encoding]
    decide +kernel
  obtain ⟨p₂, hr₂, hw, hq, ht, ha⟩ := Pipeline.run_drain hb.writer hb.disconnected hqueue hout
  have hacts : ∀ a ∈ (MarketEventOf.quote "A" 1 :: Pipeline.quotesAfter "B" 0 500).flatMap
      Pipeline.roundActs ++ Pipeline.drainActs ((Pipeline.quotesAfter "B" 0 500).map
        Message.incremental).length,
      (∀ r, a ≠ .task (.read r)) ∧ a ≠ .task .writerFailed := by
    intro a ha
    rcases List.mem_append.mp ha with ha | ha
    · rcases Pipeline.of_mem_roundActs ha with rfl | ⟨e, -, rfl⟩ <;> simp
    · rcases Pipeline.of_mem_drainActs ha with rfl | rfl <;> simp
  refine ⟨_, p₂, _, Machine.run_append.mpr ⟨p₁, _, _, hr₁, hr₂, rfl⟩, fun _ => ⟨rfl, rfl, rfl, rfl⟩,
    fun symbol => ?_, fun hmem => (hacts _ hmem).2 rfl, ?_, ?_,
    ⟨?_, ht.trans hb.ready.waiting, ?_⟩, ?_⟩
  · exact (Machine.along_of_forall (C := fun a => ∀ r, a ≠ .task (.read r))
      (fun a ha => (hacts a ha).1) freshClient).mono fun _ _ => readsCover_of_ne
  · have hnone : pushes ((Pipeline.quotesAfter "B" 0 500).map
        (ClientObs.sent ∘ Message.incremental)) = [] := by
      refine List.filterMap_eq_nil_iff.mpr fun x hx => ?_
      obtain ⟨e, -, rfl⟩ := List.mem_map.mp hx
      rfl
    rw [pushes_append, Pipeline.pushes_roundObs, List.map_map, hnone, List.append_nil]
    refine List.pairwise_cons.mpr ⟨fun e he heq => ?_, ?_⟩
    · rw [hB e he] at heq
      exact absurd heq (by decide)
    · refine (Pipeline.pairwise_quotesAfter "B" 0 500).imp ?_
      intro e e' hlt _
      exact hlt
  · refine List.mem_append_left _ (List.mem_flatMap.mpr ⟨_, List.mem_cons_self, ?_⟩)
    exact List.mem_cons_self
  · rw [ha]
    exact hb.ready.drained
  · rw [ClientSession.outbound, hw, hq]
    rfl
  · rw [sends_append, Pipeline.sends_roundObs, List.nil_append]
    refine List.filterMap_eq_nil_iff.mpr fun m hm => ?_
    obtain ⟨x, hx, hxm⟩ := List.mem_filterMap.mp hm
    obtain ⟨y, hy, rfl⟩ := List.mem_map.mp hx
    obtain ⟨e, he, rfl⟩ := List.mem_map.mp hy
    obtain rfl := Option.some.inj hxm
    simp [Message.emission?, hB e he]

end MarketData.Gateway
