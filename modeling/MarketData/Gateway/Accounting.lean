import MarketData.Gateway.Outbound

/-!
# MarketData.Gateway.Accounting

**The outbound queue keeps accounts.** One session, as a machine of two parties: whoever calls
`enqueue`, and the writer loop. One counter (`dropped`) stands for two different losses, an evicted
message under DROP_OLDEST and a refused one under DISCONNECT; a send that fails leaves its message
in no counter at all. `Accounts` is what any interleaving keeps: each call of `enqueue` is sent,
dropped, queued, in the writer's hand or lost in the failed send (`outbound_accounting`).
-/

namespace MarketData.Gateway

/-! ### The machine -/

/-- A step of the writer loop. -/
inductive WriterAct
  | take
  | sent
  | failed
  | timeout
  deriving DecidableEq

/-- The same step among those of a client's tasks. -/
def WriterAct.task : WriterAct → TaskAct
  | .take => .writerTake
  | .sent => .writerSent
  | .failed => .writerFailed
  | .timeout => .writerTimeout

/-- What can happen to an outbound queue. -/
inductive OutboundAct
  | enqueue (m : Message)
  | writer (a : WriterAct)
  deriving DecidableEq

/-- The message an action enqueues. -/
def OutboundAct.message? : OutboundAct → Option Message
  | .enqueue m => some m
  | .writer _ => none

/-- The messages `enqueue` was called with, in order. -/
def enqueued (acts : List OutboundAct) : List Message := acts.filterMap OutboundAct.message?

/-- How many sends failed. -/
def failures (acts : List OutboundAct) : Nat := acts.count (.writer .failed)

namespace ClientSession

/-- The queue machine of a session. -/
def outboundStep (s : ClientSession) : OutboundAct → Option (ClientSession × List ClientObs)
  | .enqueue m => some ((s.enqueue m).2, [.enqueued (s.enqueue m).1 m])
  | .writer a => (Pipeline.taskStep ⟨s, .notStarted⟩ a.task).map fun r => (r.1.session, r.2)

/-- A session that has not enqueued anything yet. -/
structure Fresh (s : ClientSession) : Prop where
  sent : s.stats.sent = 0
  dropped : s.stats.dropped = 0
  queue : s.queue.items = []
  writer : s.writer.inHand = []

/-- **What a step of the queue machine does.** -/
inductive QueueStepped (s : ClientSession) :
    OutboundAct → ClientSession × List ClientObs → Prop
  /-- The queue has room. -/
  | room (m : Message) (hlt : s.queue.items.length < s.queue.maxsize) :
      QueueStepped s (.enqueue m) ({ s with queue := s.queue.putEvict m }, [.accepted m])
  /-- The queue is full: its oldest message goes. -/
  | evicted (m : Message) (hfull : s.queue.items.length = s.queue.maxsize)
      (hp : s.policy = .dropOldest) :
      QueueStepped s (.enqueue m) ({ s with
        queue := s.queue.putEvict m
        stats := { s.stats with dropped := s.stats.dropped + 1 } }, [.accepted m])
  /-- The queue is full: the new message is refused. -/
  | refused (m : Message) (hfull : s.queue.items.length = s.queue.maxsize)
      (hp : s.policy = .disconnect) :
      QueueStepped s (.enqueue m) ({ s with
        stats := { s.stats with dropped := s.stats.dropped + 1 }
        disconnected :=
          s.disconnected || decide (slowClientDropLimit ≤ s.stats.dropped + 1) }, [.refused m])
  | taken (m : Message) (rest : List Message) (hw : s.writer = .waiting)
      (hitems : s.queue.items = m :: rest) :
      QueueStepped s (.writer .take) ({ s with queue := s.queue.pop, writer := .sending m }, [])
  | sent (m : Message) (hw : s.writer = .sending m) :
      QueueStepped s (.writer .sent)
        (writerLoop { s with stats := { s.stats with sent := s.stats.sent + 1 } }, [.sent m])
  /-- The message is sent, and recording its latency raises. -/
  | unrecorded (m : Message) (hw : s.writer = .sending m) :
      QueueStepped s (.writer .sent) ({ s with
        stats := { s.stats with sent := s.stats.sent + 1 }
        disconnected := true
        writer := .stopped }, [.sent m])
  | failed (m : Message) (hw : s.writer = .sending m) :
      QueueStepped s (.writer .failed) ({ s with disconnected := true, writer := .stopped }, [])
  | timeout (hw : s.writer = .waiting) : QueueStepped s (.writer .timeout) (s.writerLoop, [])

theorem queueStepped {s s' : ClientSession} {a : OutboundAct} {o : List ClientObs}
    (h : s.outboundStep a = some (s', o)) : QueueStepped s a (s', o) := by
  cases a with
  | enqueue m =>
      obtain ⟨rfl, rfl⟩ := Machine.outcome h
      rcases s.enqueue_cases m with ⟨hlt, heq⟩ | ⟨hfull, hp, heq⟩ | ⟨hfull, hp, heq⟩
      · rw [heq]
        exact .room m hlt
      · rw [heq]
        exact .evicted m hfull hp
      · rw [heq]
        exact .refused m hfull hp
  | writer a =>
      obtain ⟨⟨p, o⟩, hr, hrs⟩ := Option.map_eq_some_iff.mp h
      obtain ⟨rfl, rfl⟩ := Prod.mk.inj hrs
      cases a with
      | take =>
          cases Pipeline.taskStepped hr with
          | writerTook hw hget =>
              obtain ⟨⟨rest, hitems⟩, rfl⟩ := BoundedQueue.getNowait_eq_some.mp hget
              exact .taken _ rest hw hitems
      | sent =>
          cases Pipeline.taskStepped hr with
          | writerSent hw _ _ => exact .sent _ hw
          | writerUnrecorded hw _ _ => exact .unrecorded _ hw
      | failed =>
          cases Pipeline.taskStepped hr with
          | writerFailed hw => exact .failed _ hw
      | timeout =>
          cases Pipeline.taskStepped hr with
          | writerLooped hw => exact .timeout hw

end ClientSession

/-! ### One step -/

/-- The calls that are in a counter, in the queue or in the writer's hand. -/
def ClientSession.accounted (s : ClientSession) : Nat :=
  s.stats.sent + s.stats.dropped + s.queue.items.length + s.writer.inHand.length

namespace ClientSession.QueueStepped

variable {s s' : ClientSession} {a : OutboundAct} {o : List ClientObs}

/-- The writer's hand is empty at the head of its loop. -/
theorem inHand_writerLoop (s : ClientSession) : s.writerLoop.writer.inHand = [] := by
  rcases s.writer_writerLoop with hw | hw <;> rw [hw] <;> rfl

/-- **Every step balances**: only a call adds to the accounts, only a failed send takes from
them. -/
theorem balance (h : QueueStepped s a (s', o)) :
    s'.accounted + (if a = .writer .failed then 1 else 0) =
      s.accounted + a.message?.toList.length := by
  unfold accounted
  cases h with
  | room m hlt =>
      have hput := BoundedQueue.length_putEvict_of_lt m hlt
      simp only [reduceCtorEq, if_false, OutboundAct.message?, Option.toList, List.length_singleton]
      omega
  | evicted m hfull hp =>
      have hput := BoundedQueue.length_putEvict_of_full m hfull
      simp only [reduceCtorEq, if_false, OutboundAct.message?, Option.toList, List.length_singleton]
      omega
  | refused m hfull hp =>
      simp only [reduceCtorEq, if_false, OutboundAct.message?, Option.toList, List.length_singleton]
      omega
  | taken m rest hw hitems =>
      have hpop : s.queue.pop.items = rest := by
        rw [BoundedQueue.items_pop, hitems]
        rfl
      rw [hpop, hitems, hw]
      simp only [WriterTask.inHand, List.length_cons, List.length_nil, OutboundAct.message?,
        Option.toList, OutboundAct.writer.injEq, reduceCtorEq, if_false]
      omega
  | sent m hw =>
      rw [inHand_writerLoop, hw]
      simp only [writerLoop, WriterTask.inHand, List.length_cons, List.length_nil,
        OutboundAct.message?, Option.toList, OutboundAct.writer.injEq, reduceCtorEq, if_false]
      omega
  | unrecorded m hw =>
      rw [hw]
      simp only [WriterTask.inHand, List.length_cons, List.length_nil, OutboundAct.message?,
        Option.toList, OutboundAct.writer.injEq, reduceCtorEq, if_false]
      omega
  | failed m hw =>
      rw [hw]
      simp only [WriterTask.inHand, List.length_cons, List.length_nil, OutboundAct.message?,
        Option.toList, if_true]
  | timeout hw =>
      rw [inHand_writerLoop, hw]
      simp only [writerLoop, WriterTask.inHand, List.length_nil, OutboundAct.message?,
        Option.toList, OutboundAct.writer.injEq, reduceCtorEq, if_false]

/-- A failed send needs a writer and stops it; a stopped writer stays stopped. -/
theorem stopped (h : QueueStepped s a (s', o)) :
    (a = .writer .failed → s.writer ≠ .stopped ∧ s'.writer = .stopped) ∧
    (s.writer = .stopped → s'.writer = .stopped) := by
  cases h with
  | room m hlt | evicted m hfull hp | refused m hfull hp =>
      exact ⟨fun ha => OutboundAct.noConfusion ha, id⟩
  | taken m rest hw hitems | sent m hw | timeout hw =>
      refine ⟨fun ha => ?_, fun hstop => ?_⟩
      · cases ha
      · cases hw.symm.trans hstop
  | unrecorded m hw =>
      refine ⟨fun ha => ?_, fun _ => rfl⟩
      cases ha
  | failed m hw =>
      refine ⟨fun _ => ⟨fun hstop => ?_, rfl⟩, fun _ => rfl⟩
      cases hw.symm.trans hstop

/-- The settings of a session and the capacity of its queue stay. -/
theorem settings (h : QueueStepped s a (s', o)) :
    s'.policy = s.policy ∧ s'.queue.maxsize = s.queue.maxsize := by
  cases h with
  | room m hlt | evicted m hfull hp => exact ⟨rfl, BoundedQueue.maxsize_putEvict _ m⟩
  | refused m hfull hp | taken m rest hw hitems | sent m hw | unrecorded m hw | failed m hw
  | timeout hw =>
      exact ⟨rfl, rfl⟩

/-- A step accepts the message of its call, or nothing. -/
theorem accepts_sublist (h : QueueStepped s a (s', o)) :
    (accepts o).Sublist a.message?.toList := by
  cases h with
  | room m hlt | evicted m hfull hp => exact List.Sublist.refl [m]
  | refused m hfull hp => exact List.nil_sublist [m]
  | taken m rest hw hitems | sent m hw | unrecorded m hw | failed m hw | timeout hw =>
      exact List.Sublist.refl []

theorem outbound (h : QueueStepped s a (s', o)) : Outbound s s' o := by
  cases h with
  | room m hlt | evicted m hfull hp => exact .put m rfl rfl rfl rfl
  | refused m hfull hp => exact .still rfl (Or.inl rfl) rfl rfl
  | taken m rest hw hitems =>
      refine .taken m hw ?_ rfl rfl rfl
      rw [BoundedQueue.items_pop, hitems]
      rfl
  | sent m hw => exact .sent m hw rfl (writer_writerLoop _) rfl rfl
  | unrecorded m hw => exact .sent m hw rfl (Or.inr rfl) rfl rfl
  | failed m hw => exact .still rfl (Or.inr rfl) rfl rfl
  | timeout hw => exact .still rfl (hw ▸ s.writer_writerLoop) rfl rfl

/-- **Under DISCONNECT nothing accepted goes but in a failed send.** -/
theorem kept (h : QueueStepped s a (s', o)) (hp : s.policy = .disconnect) :
    ∃ lost, lost.length = (if a = .writer .failed then 1 else 0) ∧
      s.outbound ++ accepts o = sends o ++ lost ++ s'.outbound := by
  unfold ClientSession.outbound
  cases h with
  | room m hlt =>
      refine ⟨[], rfl, ?_⟩
      show _ = s.writer.inHand ++ (s.queue.putEvict m).items
      rw [BoundedQueue.items_putEvict, if_pos hlt, ← List.append_assoc]
      rfl
  | evicted m hfull hp' => cases hp.symm.trans hp'
  | refused m hfull hp' => exact ⟨[], rfl, List.append_nil _⟩
  | taken m rest hw hitems =>
      refine ⟨[], rfl, ?_⟩
      show _ = [m] ++ s.queue.items.tail
      rw [hw, hitems]
      exact List.append_nil _
  | sent m hw =>
      refine ⟨[], rfl, ?_⟩
      rw [inHand_writerLoop, hw]
      exact List.append_nil _
  | unrecorded m hw =>
      refine ⟨[], rfl, ?_⟩
      rw [hw]
      exact List.append_nil _
  | failed m hw =>
      refine ⟨[m], rfl, ?_⟩
      rw [hw]
      exact List.append_nil _
  | timeout hw =>
      refine ⟨[], rfl, ?_⟩
      rw [inHand_writerLoop, hw]
      exact List.append_nil _

end ClientSession.QueueStepped

/-! ### The accounts -/

theorem enqueued_concat (acts : List OutboundAct) (a : OutboundAct) :
    enqueued (acts ++ [a]) = enqueued acts ++ a.message?.toList := by
  rw [enqueued, List.filterMap_append, enqueued]
  cases a <;> rfl

theorem failures_concat (acts : List OutboundAct) (a : OutboundAct) :
    failures (acts ++ [a]) = failures acts + if a = .writer .failed then 1 else 0 := by
  rw [failures, List.count_append, List.count_singleton, failures]
  simp only [beq_iff_eq]

/-- What holds after the actions `acts` and the observations `h` have led from `s₀` to `s`. -/
structure Accounts (s₀ s : ClientSession) (acts : List OutboundAct) (h : List ClientObs) :
    Prop where
  policy : s.policy = s₀.policy
  maxsize : s.queue.maxsize = s₀.queue.maxsize
  /-- Every call is accounted for. -/
  balance : (enqueued acts).length = s.accounted + failures acts
  /-- A send fails once at most, and then the writer has stopped. -/
  failed : failures acts = 0 ∨ (failures acts = 1 ∧ s.writer = .stopped)
  order : (sends h ++ s.outbound).Sublist (enqueued acts)
  /-- Under DISCONNECT what was accepted is sent, lost in the failed send, or held. -/
  kept : s.policy = .disconnect →
    ∃ lost, lost.length = failures acts ∧ accepts h = sends h ++ lost ++ s.outbound

namespace Accounts

variable {s₀ s s' : ClientSession} {acts : List OutboundAct} {h o : List ClientObs}

theorem nil (hs : s.Fresh) : Accounts s s [] [] := by
  have hout : s.outbound = [] := by
    rw [ClientSession.outbound, hs.queue, hs.writer, List.append_nil]
  refine ⟨rfl, rfl, ?_, Or.inl rfl, ?_, fun _ => ⟨[], rfl, ?_⟩⟩
  · rw [ClientSession.accounted, hs.sent, hs.dropped, hs.queue, hs.writer]
    rfl
  · rw [hout]
    exact List.Sublist.refl _
  · rw [hout]
    rfl

/-- **One step keeps the accounts.** -/
theorem step {a : OutboundAct} (hI : Accounts s₀ s acts h)
    (hs : ClientSession.QueueStepped s a (s', o)) : Accounts s₀ s' (acts ++ [a]) (h ++ o) := by
  obtain ⟨hpol, hmax, hbal, hfail, hord, hkept⟩ := hI
  obtain ⟨hpol', hmax'⟩ := hs.settings
  obtain ⟨hfailed, hstop⟩ := hs.stopped
  refine ⟨hpol'.trans hpol, hmax'.trans hmax, ?_, ?_, ?_, fun hp => ?_⟩
  · have hstep := hs.balance
    rw [enqueued_concat, failures_concat, List.length_append]
    omega
  · rw [failures_concat]
    by_cases ha : a = .writer .failed
    · obtain ⟨hrun, hstopped⟩ := hfailed ha
      have hnone := hfail.resolve_right fun hf => hrun hf.2
      rw [if_pos ha, hnone]
      exact Or.inr ⟨rfl, hstopped⟩
    · rw [if_neg ha]
      exact hfail.imp id fun hf => ⟨hf.1, hstop hf.2⟩
  · rw [enqueued_concat, sends_append, List.append_assoc]
    refine (hs.outbound.sublist.append_left (sends h)).trans ?_
    rw [← List.append_assoc]
    exact hord.append hs.accepts_sublist
  · have hp' : s.policy = .disconnect := hpol'.symm.trans hp
    obtain ⟨lost, hlost, hacc⟩ := hkept hp'
    obtain ⟨lost', hlost', hout⟩ := hs.kept hp'
    refine ⟨lost ++ lost', by rw [failures_concat, List.length_append, hlost, hlost'], ?_⟩
    -- after a failed send nothing is sent
    have hcomm : lost ++ sends o = sends o ++ lost := by
      rcases hfail with hnone | ⟨-, hstopped⟩
      · rw [List.eq_nil_of_length_eq_zero (hlost.trans hnone), List.append_nil]
        rfl
      · rw [(hs.outbound.stopped hstopped).2, List.append_nil]
        rfl
    calc accepts (h ++ o) = sends h ++ lost ++ (s.outbound ++ accepts o) := by
          rw [accepts_append, hacc, List.append_assoc]
      _ = sends h ++ (lost ++ sends o) ++ lost' ++ s'.outbound := by
          rw [hout]
          simp only [List.append_assoc]
      _ = sends (h ++ o) ++ (lost ++ lost') ++ s'.outbound := by
          rw [hcomm, sends_append]
          simp only [List.append_assoc]

theorem run (hs : s₀.Fresh) (hr : Machine.run ClientSession.outboundStep s₀ acts = some (s, h)) :
    Accounts s₀ s acts h :=
  Machine.run_invariant_traced (C := fun _ _ => True) (I := Accounts s₀)
    (fun _ _ _ _ _ _ _ hI hstep => hI.step (ClientSession.queueStepped hstep)) (.nil hs)
    (Machine.along_true s₀ acts) hr

end Accounts

/-! ### The accounting guarantee -/

/-- A taken message is being sent, or its send has failed. -/
def Unsent (s : ClientSession) (acts : List OutboundAct) : Prop :=
  s.writer.inHand ≠ [] ∨ .writer .failed ∈ acts

instance (s : ClientSession) (acts : List OutboundAct) : Decidable (Unsent s acts) :=
  inferInstanceAs (Decidable (_ ∨ _))

/-- The message in the writer's hand and the failed send are never two. -/
theorem Accounts.unsent {s₀ s : ClientSession} {acts : List OutboundAct} {h : List ClientObs}
    (hI : Accounts s₀ s acts h) :
    s.writer.inHand.length + failures acts = if Unsent s acts then 1 else 0 := by
  have hmem : .writer .failed ∈ acts ↔ 0 < failures acts := List.count_pos_iff.symm
  rcases hI.failed with hnone | ⟨hone, hstopped⟩
  · have hiff : Unsent s acts ↔ s.writer.inHand ≠ [] := by
      rw [Unsent, hmem, hnone]
      simp
    rw [hnone]
    cases hw : s.writer with
    | sending m =>
        rw [if_pos (hiff.mpr (by simp [hw, WriterTask.inHand]))]
        rfl
    | notStarted | waiting | stopped =>
        rw [if_neg (by simp [hiff, hw, WriterTask.inHand])]
        rfl
  · have hunsent : Unsent s acts := Or.inr (hmem.mpr (by omega))
    rw [if_pos hunsent, hone, hstopped]
    rfl

/-- A call under DROP_OLDEST returns true and leaves the last messages. -/
def EnqueuesLast (s : ClientSession) (a : OutboundAct) : Prop :=
  ∀ m, a = .enqueue m → (s.enqueue m).1 = true ∧
    (s.enqueue m).2.queue.items = (s.queue.items ++ [m]).rtake s.queue.maxsize

/-- A call signals disconnect under DISCONNECT only, and at the limit. -/
def SignalsLate (s : ClientSession) (a : OutboundAct) : Prop :=
  ∀ m, a = .enqueue m → s.disconnected = false → (s.enqueue m).2.disconnected = true →
    s.policy = .disconnect ∧ slowClientDropLimit ≤ (s.enqueue m).2.stats.dropped

theorem enqueuesLast {s : ClientSession} (hp : s.policy = .dropOldest) (a : OutboundAct) :
    EnqueuesLast s a := by
  intro m _
  refine ⟨ClientSession.enqueue_dropOldest hp m, ?_⟩
  rw [ClientSession.enqueue_queue, ClientSession.enqueue_dropOldest hp, if_pos rfl,
    BoundedQueue.items_putEvict_rtake]

theorem signalsLate (s : ClientSession) (a : OutboundAct) : SignalsLate s a := by
  intro m _ hbefore hafter
  rcases s.enqueue_cases m with ⟨-, heq⟩ | ⟨-, -, heq⟩ | ⟨-, hp, heq⟩
  · rw [heq] at hafter
    exact absurd (hbefore.symm.trans hafter) Bool.false_ne_true
  · rw [heq] at hafter
    exact absurd (hbefore.symm.trans hafter) Bool.false_ne_true
  · rw [heq] at hafter ⊢
    dsimp only at hafter
    rw [hbefore, Bool.false_or] at hafter
    exact ⟨hp, of_decide_eq_true hafter⟩

/-- **Outbound queue accounting and order.** In every interleaving of calls of `enqueue` with the
writer's steps, from a fresh session of either policy and any capacity: the calls are what was sent,
dropped, is queued, and one more if a taken message is being sent or its send has failed; the queue
never exceeds its capacity; what is sent follows the order of the calls; under DROP_OLDEST every
call succeeds and leaves the last messages; under DISCONNECT the accepted messages are those sent,
the one lost in the failed send and those still held, in this order, so none is evicted and no
refused one is sent; and a call signals disconnect at the drop limit only. -/
theorem outbound_accounting {s s' : ClientSession} {acts : List OutboundAct} {h : List ClientObs}
    (hs : s.Fresh) (hr : Machine.run ClientSession.outboundStep s acts = some (s', h)) :
    (enqueued acts).length = s'.stats.sent + s'.stats.dropped + s'.queue.items.length +
      (if Unsent s' acts then 1 else 0) ∧
    s'.queue.items.length ≤ s.queue.maxsize ∧
    (sends h).Sublist (enqueued acts) ∧
    (s.policy = .dropOldest → Machine.Along ClientSession.outboundStep
      (fun q a => q.queue.maxsize = s.queue.maxsize ∧ EnqueuesLast q a) s acts) ∧
    (s.policy = .disconnect → ∃ lost, lost.length = failures acts ∧
      accepts h = sends h ++ lost ++ s'.writer.inHand ++ s'.queue.items) ∧
    Machine.Along ClientSession.outboundStep SignalsLate s acts := by
  have hI := Accounts.run hs hr
  refine ⟨?_, ?_, ?_, fun hp => ?_, fun hp => ?_, ?_⟩
  · rw [← hI.unsent, hI.balance, ClientSession.accounted]
    omega
  · exact hI.maxsize ▸ s'.queue.bound
  · exact (List.sublist_append_left ..).trans hI.order
  · refine Machine.Along.imp_of_run (C := fun _ _ => True)
      (P := fun q => q.policy = s.policy ∧ q.queue.maxsize = s.queue.maxsize) ?_ ⟨rfl, rfl⟩
      (Machine.along_true s acts) hr
    intro q a q' o hq _ hstep
    obtain ⟨hpol, hmax⟩ := (ClientSession.queueStepped hstep).settings
    exact ⟨⟨hpol.trans hq.1, hmax.trans hq.2⟩, hq.2, enqueuesLast (hq.1.trans hp) a⟩
  · obtain ⟨lost, hlost, hacc⟩ := hI.kept (hI.policy.trans hp)
    refine ⟨lost, hlost, ?_⟩
    rw [hacc, ClientSession.outbound, ← List.append_assoc]
  · exact (Machine.along_true s acts).mono fun q a _ => signalsLate q a

/-- A DROP_OLDEST session with a queue of two. -/
def smallSession : ClientSession :=
  { clientId := "c1", queue := .empty 2 (by decide), writer := .waiting }

/-- Three calls on a queue of two, a take, another call, and a failing send. -/
def accountedActs : List OutboundAct :=
  [.enqueue (.error "1"), .enqueue (.error "2"), .enqueue (.error "3"), .writer .take,
    .enqueue (.error "4"), .writer .sent, .writer .take, .writer .failed, .enqueue (.error "5")]

theorem outbound_accounting_small :
    ∃ s' h, Machine.run ClientSession.outboundStep smallSession accountedActs = some (s', h) ∧
      sends h = [.error "2"] ∧ s'.stats.sent = 1 ∧ s'.stats.dropped = 1 ∧
      s'.queue.items.length = 2 ∧ (enqueued accountedActs).length = 1 + 1 + 2 + 1 :=
  ⟨_, _, rfl, rfl, rfl, rfl, rfl,
    (@outbound_accounting smallSession _ accountedActs _ ⟨rfl, rfl, rfl, rfl⟩ rfl).1⟩

end MarketData.Gateway
