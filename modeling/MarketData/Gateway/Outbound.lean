import MarketData.Gateway.Resubscribe

/-!
# MarketData.Gateway.Outbound

**From `enqueue` to the WebSocket.** A message that `enqueue` has accepted is in the outbound
queue, then in the writer's hand, then sent; a full DROP_OLDEST queue gives up its oldest message
for the new one, and a writer that stops loses what it holds. `Outbound` is the inversion: what any
step of a session does to the queue and the writer. Everything sent or still held is therefore a
subsequence of what was accepted (`run_sends`), in the same order.
-/

namespace MarketData.Gateway

open Boundary (Emission)

/-! ### Pushed, accepted, held, sent -/

/-- The message `enqueue` has accepted. -/
def ClientObs.accepted? : ClientObs → Option Message
  | .accepted m => some m
  | _ => none

/-- The message the writer has sent. -/
def ClientObs.sent? : ClientObs → Option Message
  | .sent m => some m
  | _ => none

/-- The event pushed to the aggregator. -/
def ClientObs.pushed? : ClientObs → Option MarketEvent
  | .pushed e => some e
  | _ => none

/-- The events pushed to the aggregator, in order. -/
def pushes (h : List ClientObs) : List MarketEvent := h.filterMap ClientObs.pushed?

/-- The messages `enqueue` accepted, in order. -/
def accepts (h : List ClientObs) : List Message := h.filterMap ClientObs.accepted?

/-- The messages the writer sent, in order. -/
def sends (h : List ClientObs) : List Message := h.filterMap ClientObs.sent?

theorem pushes_append (h h' : List ClientObs) : pushes (h ++ h') = pushes h ++ pushes h' :=
  List.filterMap_append

theorem accepts_append (h h' : List ClientObs) : accepts (h ++ h') = accepts h ++ accepts h' :=
  List.filterMap_append

theorem sends_append (h h' : List ClientObs) : sends (h ++ h') = sends h ++ sends h' :=
  List.filterMap_append

/-- Nothing pushed is accepted yet. -/
theorem accepts_pushed (events : List MarketEvent) : accepts (events.map .pushed) = [] := by
  refine List.filterMap_eq_nil_iff.mpr fun x hx => ?_
  obtain ⟨e, -, rfl⟩ := List.mem_map.mp hx
  rfl

/-- Nothing pushed is sent yet. -/
theorem sends_pushed (events : List MarketEvent) : sends (events.map .pushed) = [] := by
  refine List.filterMap_eq_nil_iff.mpr fun x hx => ?_
  obtain ⟨e, -, rfl⟩ := List.mem_map.mp hx
  rfl

/-- The market content of messages, as the boundary of `symbol` sees it. -/
def market (symbol : PyStr) (ms : List Message) : List (Emission Int) :=
  ms.filterMap (Message.emission? symbol)

theorem market_append (symbol : PyStr) (ms ms' : List Message) :
    market symbol (ms ++ ms') = market symbol ms ++ market symbol ms' :=
  List.filterMap_append

/-- What a symbol's boundary sees accepted is the market content of what was accepted. -/
theorem market_accepts (symbol : PyStr) (h : List ClientObs) :
    market symbol (accepts h) = emissions symbol h := by
  rw [market, accepts, List.filterMap_filterMap, emissions]
  refine List.filterMap_congr fun o _ => ?_
  cases o <;> rfl

/-- The message in the writer's hand. -/
def WriterTask.inHand : WriterTask → List Message
  | .sending m => [m]
  | _ => []

/-- The accepted messages that are neither sent nor lost, in the order they will be sent. -/
def ClientSession.outbound (s : ClientSession) : List Message := s.writer.inHand ++ s.queue.items

/-- The accepted messages that are held once `m` has been put. -/
def ClientSession.outboundWith (s : ClientSession) (m : Message) : List Message :=
  s.writer.inHand ++ (s.queue.putEvict m).items

/-! ### One step -/

/-- **What a step does to the queue and the writer.** -/
inductive Outbound (s s' : ClientSession) (o : List ClientObs) : Prop
  /-- Nothing; or the writer stops. -/
  | still (hq : s'.queue = s.queue) (hw : s'.writer = s.writer ∨ s'.writer = .stopped)
      (ha : accepts o = []) (hs : sends o = [])
  /-- A message is accepted; a full queue gives up its oldest one. -/
  | put (m : Message) (hq : s'.queue = s.queue.putEvict m) (hw : s'.writer = s.writer)
      (ha : accepts o = [m]) (hs : sends o = [])
  /-- The writer takes the oldest message. -/
  | taken (m : Message) (hw : s.writer = .waiting) (hq : s.queue.items = m :: s'.queue.items)
      (hw' : s'.writer = .sending m) (ha : accepts o = []) (hs : sends o = [])
  /-- The writer sends the message in its hand. -/
  | sent (m : Message) (hw : s.writer = .sending m) (hq : s'.queue = s.queue)
      (hw' : s'.writer = .waiting ∨ s'.writer = .stopped) (ha : accepts o = [])
      (hs : sends o = [m])

namespace Outbound

variable {s s' : ClientSession} {o : List ClientObs}

theorem refl (hq : s'.queue = s.queue) (hw : s'.writer = s.writer) : Outbound s s' [] :=
  .still hq (Or.inl hw) rfl rfl

/-- **Sent and held messages follow the order of acceptance.** -/
theorem sublist (h : Outbound s s' o) :
    (sends o ++ s'.outbound).Sublist (s.outbound ++ accepts o) := by
  unfold ClientSession.outbound
  cases h with
  | still hq hw ha hs =>
      rw [hq, ha, hs, List.nil_append, List.append_nil]
      rcases hw with hw | hw <;> rw [hw]
      exact List.sublist_append_right ..
  | put m hq hw ha hs =>
      rw [hq, hw, ha, hs, List.nil_append, BoundedQueue.items_putEvict, List.append_assoc]
      refine (List.Sublist.append ?_ (List.Sublist.refl [m])).append_left _
      split
      · exact List.Sublist.refl _
      · exact List.tail_sublist _
  | taken m hw hq hw' ha hs =>
      rw [hw, hw', hq, ha, hs, List.append_nil]
      exact List.Sublist.refl _
  | sent m hw hq hw' ha hs =>
      rw [hw, hq, ha, hs, List.append_nil]
      rcases hw' with hw' | hw' <;> rw [hw'] <;> exact List.Sublist.refl _

/-- **Nothing is lost but on purpose**: what was held is sent or still held; or a message is put;
or a writer stops with a message in its hand. -/
theorem conserved (h : Outbound s s' o) :
    (accepts o = [] ∧ sends o ++ s'.outbound = s.outbound) ∨
    (∃ m, accepts o = [m] ∧ sends o = [] ∧ s'.outbound = s.outboundWith m) ∨
    (accepts o = [] ∧ sends o = [] ∧ s'.writer = .stopped ∧ ∃ m, s.writer = .sending m) := by
  unfold ClientSession.outbound
  cases h with
  | still hq hw ha hs =>
      rcases hw with hw | hw
      · exact Or.inl ⟨ha, by rw [hs, hq, hw, List.nil_append]⟩
      · cases hw' : s.writer with
        | sending m => exact Or.inr (Or.inr ⟨ha, hs, hw, m, rfl⟩)
        | notStarted | waiting | stopped => exact Or.inl ⟨ha, by rw [hs, hq, hw]; rfl⟩
  | put m hq hw ha hs =>
      exact Or.inr (Or.inl ⟨m, ha, hs, by rw [hq, hw, ClientSession.outboundWith]⟩)
  | taken m hw hq hw' ha hs =>
      exact Or.inl ⟨ha, by rw [hs, hw, hw', hq]; rfl⟩
  | sent m hw hq hw' ha hs =>
      refine Or.inl ⟨ha, ?_⟩
      rw [hs, hw, hq]
      rcases hw' with hw' | hw' <;> rw [hw'] <;> rfl

/-- A writer that has stopped neither starts again nor sends. -/
theorem stopped (h : Outbound s s' o) (hw : s.writer = .stopped) :
    s'.writer = .stopped ∧ sends o = [] := by
  cases h with
  | still hq hw' ha hs => exact ⟨hw'.elim (fun h => h.trans hw) id, hs⟩
  | put m hq hw' ha hs => exact ⟨hw'.trans hw, hs⟩
  | taken m hw' | sent m hw' => cases hw.symm.trans hw'

end Outbound

/-! ### The functions that enqueue -/

namespace ClientSession

theorem outbound_enqueueError (s : ClientSession) (text : PyStr) :
    Outbound s (s.enqueueError text).1 (s.enqueueError text).2 := by
  rw [enqueueError_eq]
  have hq := s.enqueue_queue (.error text)
  have hw := s.enqueue_writer (.error text)
  cases hok : (s.enqueue (.error text)).1 with
  | true =>
      rw [hok] at hq
      exact .put _ hq hw rfl rfl
  | false =>
      rw [hok] at hq
      exact .still hq (Or.inl hw) rfl rfl

theorem outbound_dispatchEvent (s : ClientSession) (output : BoundedQueue MarketEvent)
    (event : MarketEvent) :
    Outbound s ((s.withOutput output).dispatchEvent event).1
      ((s.withOutput output).dispatchEvent event).2.2 := by
  have hd := (s.withOutput output).dispatched event
  generalize (s.withOutput output).dispatchEvent event = r at hd
  cases hd with
  | stale | gap | unlogged | withheld => exact .still rfl (Or.inl rfl) rfl rfl
  | accepted q stats d hn hd hq => exact .put _ hq rfl rfl rfl
  | refused q stats d hn hd hp hq => exact .still hq (Or.inl rfl) rfl rfl

theorem outbound_recover (s : ClientSession) (gap : PyStr) (snapshot : Option SnapshotData) :
    Outbound s (s.recover gap snapshot).1 (s.recover gap snapshot).2 := by
  have hr := s.recovered gap snapshot
  generalize s.recover gap snapshot = r at hr
  cases hr with
  | ignored h => exact .still rfl (Or.inl rfl) rfl rfl
  | accepted q stats d hn hq => exact .put _ hq rfl rfl rfl
  | refused q stats d hn hp hq => exact .still hq (Or.inl rfl) rfl rfl

end ClientSession

/-! ### Every step of a session -/

theorem ClientSession.writer_writerLoop (s : ClientSession) :
    s.writerLoop.writer = .waiting ∨ s.writerLoop.writer = .stopped := by
  cases hd : s.disconnected <;> simp [writerLoop, hd]

theorem ClientSession.writer_close (s : ClientSession) :
    s.close.writer = s.writer ∨ s.close.writer = .stopped := by
  cases hw : s.writer <;> simp [close, hw]

theorem Pipeline.outbound_taskStep {p p' : Pipeline} {a : TaskAct} {o : List ClientObs}
    (h : p.taskStep a = some (p', o)) : Outbound p.session p'.session o := by
  cases taskStepped h with
  | @dispatched event output r hw hget hr hd =>
      subst hr
      exact p.session.outbound_dispatchEvent output event
  | @recovered gapped snapshot r hs ht hr hd =>
      subst hr
      exact p.session.outbound_recover gapped.symbol snapshot
  | read | raised | flushed => exact .refl rfl rfl
  | @writerTook m queue hw hget =>
      obtain ⟨⟨rest, hitems⟩, rfl⟩ := BoundedQueue.getNowait_eq_some.mp hget
      refine .taken m hw ?_ rfl rfl rfl
      show p.session.queue.items = m :: p.session.queue.pop.items
      rw [BoundedQueue.items_pop, hitems]
      rfl
  | writerSent hw => exact .sent _ hw rfl (ClientSession.writer_writerLoop _) rfl rfl
  | writerUnrecorded hw => exact .sent _ hw rfl (Or.inr rfl) rfl rfl
  | writerFailed hw => exact .still rfl (Or.inr rfl) rfl rfl
  | writerLooped hw => exact .still rfl (hw ▸ p.session.writer_writerLoop) rfl rfl

theorem Pipeline.outbound_step {p p' : Pipeline} {a : Pipeline.Act} {o : List ClientObs}
    (h : p.step a = some (p', o)) : Outbound p.session p'.session o := by
  cases a with
  | push event =>
      obtain ⟨rfl, rfl⟩ := Machine.outcome h
      exact .still rfl (Or.inl rfl) rfl rfl
  | error text =>
      obtain ⟨rfl, rfl⟩ := Machine.outcome h
      exact p.session.outbound_enqueueError text
  | task a => exact outbound_taskStep h

theorem Replied.outbound {sid : SessionId} {s s' : ClientSession} {obs : List Obs} {text : PyStr}
    (h : Replied sid s text s' obs) : Outbound s s' (viewed sid obs) := by
  obtain ⟨refused, stats, d, -⟩ := h
  rw [viewed_own]
  have hnone : ∀ (f : ClientObs → Option Message), (∀ m, f (.refused m) = none) →
      (refused.map fun snapshot => ClientObs.refused (.snapshot snapshot)).filterMap f = [] := by
    intro f hf
    refine List.filterMap_eq_nil_iff.mpr fun o ho => ?_
    obtain ⟨snapshot, -, rfl⟩ := List.mem_map.mp ho
    exact hf _
  have ha :
      ∀ o, accepts ((refused.map fun snapshot => ClientObs.refused (.snapshot snapshot)) ++ o) =
      accepts o := fun o => by rw [accepts_append, accepts, hnone _ fun _ => rfl, List.nil_append]
  have hs : ∀ o, sends ((refused.map fun snapshot => ClientObs.refused (.snapshot snapshot)) ++ o) =
      sends o := fun o => by rw [sends_append, sends, hnone _ fun _ => rfl, List.nil_append]
  rcases ClientSession.outbound_enqueueError { s with stats := stats, disconnected := d } text with
    ⟨hq, hw, ha', hs'⟩ | ⟨m, hq, hw, ha', hs'⟩ | ⟨m, hw, hq, hw', ha', hs'⟩ |
    ⟨m, hw, hq, hw', ha', hs'⟩
  · exact .still hq hw ((ha _).trans ha') ((hs _).trans hs')
  · exact .put m hq hw ((ha _).trans ha') ((hs _).trans hs')
  · exact .taken m hw hq hw' ((ha _).trans ha') ((hs _).trans hs')
  · exact .sent m hw hq hw' ((ha _).trans ha') ((hs _).trans hs')

theorem Called.outbound {sid : SessionId} {σ σ' : Scope} {a : CallAct} {obs : List Obs}
    (h : Called sid σ a σ' obs) :
    Outbound σ.client.session σ'.client.session (viewed sid obs) := by
  cases h with
  | rejected hc hn hs =>
      rw [viewed_returned]
      exact hs.outbound
  | unavailable hc hs | failed hc hs => exact hs.outbound
  | @activated symbol filter snapshot hsym i s o hc hi ho hs =>
      rw [viewed_activation]
      have ha : accepts (o ++ (i.released snapshot).map .pushed) = accepts o := by
        rw [accepts_append, accepts_pushed, List.append_nil]
      have hs' : sends (o ++ (i.released snapshot).map .pushed) = sends o := by
        rw [sends_append, sends_pushed, List.append_nil]
      cases hs with
      | absent => exact .still rfl (Or.inl rfl) ha hs'
      | accepted snapshot q stats d hok hq => exact .put _ hq rfl ha hs'
  | closing hc =>
      exact .still rfl (ClientSession.writer_close _) rfl rfl
  | _ => exact .refl rfl rfl

/-- **Every step of the gateway, for a connected session.** -/
theorem Stepped.outbound {g g' : Process} {a : Act} {obs : List Obs} (h : Stepped g a g' obs)
    {sid : SessionId} (hon : (g.clients sid).connected = true) :
    Outbound (g.clients sid).session (g'.clients sid).session (viewed sid obs) := by
  rcases h.client sid with ⟨ca, σ, rfl, rfl, hc⟩ | hc
  · rw [Process.clients_withScope_self]
    exact hc.outbound
  · generalize g'.clients sid = c' at hc
    generalize viewed sid obs = o at hc
    cases hc with
    | idle | cancelled | stopped => exact .refl rfl rfl
    | connected hc => exact absurd (hc.symm.trans hon) Bool.false_ne_true
    | pipeline hp => exact Pipeline.outbound_step hp

/-- No step brings anything to the WebSocket that has not been accepted before. -/
theorem Stepped.sublist {g g' : Process} {a : Act} {obs : List Obs} (h : Stepped g a g' obs)
    (sid : SessionId) :
    (sends (viewed sid obs) ++ (g'.clients sid).session.outbound).Sublist
      ((g.clients sid).session.outbound ++ accepts (viewed sid obs)) := by
  rcases h.client sid with ⟨ca, σ, rfl, rfl, hc⟩ | hc
  · rw [Process.clients_withScope_self]
    exact hc.outbound.sublist
  · generalize g'.clients sid = c' at hc
    generalize viewed sid obs = o at hc
    cases hc with
    | idle | cancelled | stopped => exact (Outbound.refl rfl rfl).sublist
    | connected hc => exact List.nil_sublist _
    | pipeline hp => exact (Pipeline.outbound_step hp).sublist

/-- **What was sent, followed by what is held, is a subsequence of what was accepted.** -/
theorem Process.run_sends {keyPrefix : String} {g : Process} {acts : List Act} {h : List Obs}
    (hr : Machine.run step (.initial keyPrefix) acts = some (g, h)) (sid : SessionId) :
    (sends (viewed sid h) ++ (g.clients sid).session.outbound).Sublist
    (accepts (viewed sid h)) := by
  refine Machine.run_invariant (I := fun g h => (sends (viewed sid h) ++
    (g.clients sid).session.outbound).Sublist (accepts (viewed sid h))) ?_ (List.nil_sublist _) hr
  intro g a g' o h hI hs
  have hstep := (stepped hs).sublist sid
  rw [viewed_append, sends_append, accepts_append, List.append_assoc]
  refine (hstep.append_left (sends (viewed sid h))).trans ?_
  rw [← List.append_assoc]
  exact hI.append_right (accepts (viewed sid o))

end MarketData.Gateway
