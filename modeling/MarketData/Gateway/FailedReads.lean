import MarketData.Gateway.ChannelLaw
import MarketData.Gateway.Connection

/-!
# MarketData.Gateway.FailedReads

**The dispatch loop and its snapshot reads.** `client_dispatch_loop` reads a snapshot at every gap.
A read that finds nothing is skipped: the boundary stays, and the loop goes on to the next event. A
read that raises is caught nowhere (`_subscribe` catches the same one): the exception leaves the
`async for` and ends the task, and with it the delivery of every symbol of the session. So does the
log of a gap, when a number in it has more digits than `str` writes. In any run of the gateway the
loop survives exactly if neither happens (`dispatch_survives_iff`).
-/

namespace MarketData.Gateway

/-! ### The loop runs -/

/-- The loop has started and not ended. -/
def DispatchTask.Running : DispatchTask → Prop
  | .waiting | .reading _ | .resuming _ _ _ => True
  | _ => False

/-- The loop is about to see a read that found nothing or raised. -/
def DispatchTask.ReadFailed : DispatchTask → Prop
  | .resuming _ .raised _ | .resuming _ (.value none) _ => True
  | _ => False

/-- The loop is about to see a read that raised. -/
def DispatchTask.ReadRaised : DispatchTask → Prop
  | .resuming _ .raised _ => True
  | _ => False

/-- **The loop goes on** from `p` to `p'`: the boundaries and baselines stay, it waits for the next
event, and takes it if there is one. -/
structure GoesOn (p p' : Pipeline) : Prop where
  lastSeq : p'.session.lastSeq = p.session.lastSeq
  lastPrice : p'.session.lastPrice = p.session.lastPrice
  waiting : p'.task = .waiting
  next : ∀ event ∈ p'.session.aggregator.output.items.head?,
    ∃ q o, p'.taskStep .take = some (q, o) ∧ takes o = [event]

namespace Pipeline

variable {p p' : Pipeline} {o : List ClientObs}

/-- A waiting loop takes the next event. -/
theorem take_of_waiting (hw : p.task = .waiting) {event : MarketEvent}
    (he : event ∈ p.session.aggregator.output.items.head?) :
    ∃ q o, p.taskStep .take = some (q, o) ∧ takes o = [event] := by
  have hget : p.session.aggregator.output.getNowait =
      some (event, p.session.aggregator.output.pop) := by
    rw [BoundedQueue.getNowait, Option.mem_def.mp he]
    rfl
  have htake : p.taskStep .take = some
      (⟨((p.session.withOutput p.session.aggregator.output.pop).dispatchEvent event).1,
        ((p.session.withOutput p.session.aggregator.output.pop).dispatchEvent event).2.1⟩,
        ((p.session.withOutput p.session.aggregator.output.pop).dispatchEvent event).2.2) := by
    simp only [taskStep, hw, hget]
  exact ⟨_, _, htake, ClientSession.takes_dispatchEvent ..⟩

/-- **What the loop does with the next event**: it ends if the log of its gap raises, and runs on
otherwise. -/
theorem running_take (h : p.taskStep .take = some (p', o)) : p.task.Running ∧
    ∃ event ∈ p.session.aggregator.output.items.head?,
      (p.session.UnloggedGap event ∧ p'.task = .failed) ∨
      (¬ p.session.UnloggedGap event ∧ p'.task.Running) := by
  obtain ⟨event, rest, hw, hitems, rfl, -⟩ := take_cases h
  have hd := (p.session.withOutput p.session.aggregator.output.pop).dispatched event
  have hfailed := hd.failed_iff
  refine ⟨hw ▸ trivial, event, by rw [hitems]; rfl, ?_⟩
  by_cases hgap : p.session.UnloggedGap event
  · exact Or.inl ⟨hgap, hfailed.mpr hgap⟩
  · refine Or.inr ⟨hgap, ?_⟩
    have hno := mt hfailed.mp hgap
    generalize (p.session.withOutput p.session.aggregator.output.pop).dispatchEvent event = r
      at hd hno ⊢
    cases hd with
    | unlogged => exact absurd rfl hno
    | stale | gap | withheld | accepted | refused => trivial

/-- **What resuming after a read does**: it ends the loop if the read raised, and goes on if it
found nothing. -/
theorem resume_cases (h : p.taskStep .resume = some (p', o)) :
    (p.task.ReadRaised ∧ p'.task = .failed) ∨
    (¬ p.task.ReadRaised ∧ p'.task.Running ∧ (p.task.ReadFailed → GoesOn p p')) := by
  cases taskStepped h with
  | @recovered gapped snapshot r hs ht hr hd =>
      subst hr
      rw [ht]
      refine Or.inr ⟨id, trivial, fun hfailed => ?_⟩
      cases snapshot with
      | some snapshot => exact hfailed.elim
      | none => exact ⟨rfl, rfl, rfl, fun event he => take_of_waiting rfl he⟩
  | raised hs ht =>
      rw [ht]
      exact Or.inl ⟨trivial, rfl⟩

/-- **No other step ends a running loop.** -/
theorem running_of_ne {a : TaskAct} (hrun : p.task.Running) (htake : a ≠ .take)
    (hresume : a ≠ .resume) (h : p.taskStep a = some (p', o)) : p'.task.Running := by
  cases taskStepped h with
  | recovered | raised => exact absurd rfl hresume
  | dispatched => exact absurd rfl htake
  | read => trivial
  | flushed | writerTook | writerSent | writerUnrecorded | writerFailed | writerLooped => exact hrun

end Pipeline

/-! ### One step of the gateway -/

/-- **What a step of the gateway should keep** of the loop of `sid`: a running loop ends by
cancellation only, and goes on after a failed read. -/
def LoopSurvives (sid : SessionId) (g : Process) (a : Act) : Prop :=
  ∀ g' obs, g.step a = some (g', obs) → (g.clients sid).task.Running →
    ((g'.clients sid).task.Running ∨ a = .cancelDispatch sid) ∧
    (a = .task sid .resume → (g.clients sid).task.ReadFailed →
      GoesOn (g.clients sid).toPipeline (g'.clients sid).toPipeline)

/-- **The condition**: when the loop of `sid` resumes, its read has not raised, and the event it
takes is no gap whose log raises. -/
def NothingRaised (sid : SessionId) (g : Process) : Act → Prop
  | .task sid' .resume => sid' = sid → ¬ (g.clients sid).task.ReadRaised
  | .task sid' .take => sid' = sid →
    ∀ event ∈ (g.clients sid).session.aggregator.output.items.head?,
      ¬ (g.clients sid).session.UnloggedGap event
  | _ => True

instance : (t : DispatchTask) → Decidable t.ReadRaised
  | .resuming _ .raised _ => isTrue trivial
  | .resuming _ (.value _) _ | .notStarted | .waiting | .reading _ | .cancelled | .failed =>
    isFalse id

instance (sid : SessionId) (g : Process) : (a : Act) → Decidable (NothingRaised sid g a)
  | .task _ .resume => inferInstanceAs (Decidable (_ → ¬ _))
  | .task _ .take => inferInstanceAs (Decidable (_ → ∀ event ∈ _, ¬ _))
  | .task _ .flush | .task _ (.read _) | .task _ .writerTake | .task _ .writerSent
  | .task _ .writerFailed | .task _ .writerTimeout | .connect .. | .call .. | .error ..
  | .cancelDispatch _ | .stopAggregator _ | .fanout _ | .message _ => isTrue trivial

namespace Stepped

variable {g g' : Process} {a : Act} {obs : List Obs} {sid : SessionId}

/-- No other step of the gateway ends a running loop. -/
theorem running (h : Stepped g a g' obs) (hrun : (g.clients sid).task.Running)
    (htake : a ≠ .task sid .take) (hresume : a ≠ .task sid .resume)
    (hcancel : a ≠ .cancelDispatch sid) :
    (g'.clients sid).task.Running := by
  have hsame : ∀ {sid' : SessionId} {c : Client}, (sid' = sid → c.task.Running) →
      ((g.withClient sid' c).clients sid).task.Running := by
    intro sid' c hc
    by_cases hs : sid = sid'
    · subst hs
      rw [Process.clients_withClient_self]
      exact hc rfl
    · rw [Process.clients_withClient_ne g sid' c hs]
      exact hrun
  cases h with
  | connect hc => exact hsame fun _ => trivial
  | @call sid' ca σ _ hc =>
      by_cases hs : sid = sid'
      · subst hs
        obtain ⟨-, -, htask, -⟩ := hc.identity
        rw [Process.clients_withScope_self, htask]
        exact hrun
      · rw [Process.clients_withScope_ne g sid' σ hs]
        exact hrun
  | @task sid' ta p o hp =>
      refine hsame fun hs => ?_
      subst hs
      exact Pipeline.running_of_ne hrun (fun hta => htake (hta ▸ rfl))
        (fun hta => hresume (hta ▸ rfl)) hp
  | @replied sid' text hc =>
      refine hsame fun hs => ?_
      subst hs
      exact hrun
  | @cancelled sid' =>
      refine hsame fun hs => ?_
      subst hs
      exact absurd rfl hcancel
  | @stopped sid' =>
      refine hsame fun hs => ?_
      subst hs
      exact hrun
  | fanout hf => exact hrun
  | message hl =>
      show ((if sid ∈ g.registry.subscribers _ then (g.clients sid).push _ else g.clients sid
        : Client)).task.Running
      split
      · exact hrun
      · exact hrun

/-- What the gateway does when the loop of `sid` resumes. -/
theorem resumed (h : Stepped g (.task sid .resume) g' obs) :
    ((g.clients sid).task.ReadRaised ∧ (g'.clients sid).task = .failed) ∨
    (¬ (g.clients sid).task.ReadRaised ∧ (g'.clients sid).task.Running ∧
      ((g.clients sid).task.ReadFailed →
        GoesOn (g.clients sid).toPipeline (g'.clients sid).toPipeline)) := by
  cases h with
  | task hp =>
      rw [Process.clients_withClient_self]
      exact Pipeline.resume_cases hp

/-- What the gateway does when the loop of `sid` takes an event. -/
theorem took (h : Stepped g (.task sid .take) g' obs) : (g.clients sid).task.Running ∧
    ∃ event ∈ (g.clients sid).session.aggregator.output.items.head?,
      ((g.clients sid).session.UnloggedGap event ∧ (g'.clients sid).task = .failed) ∨
      (¬ (g.clients sid).session.UnloggedGap event ∧ (g'.clients sid).task.Running) := by
  cases h with
  | task hp =>
      rw [Process.clients_withClient_self]
      exact Pipeline.running_take hp

end Stepped

/-- A loop that fails in a step of its own does not survive it. -/
theorem LoopSurvives.not_failed {g g' : Process} {t : TaskAct} {obs : List Obs} {sid : SessionId}
    (hsurvives : LoopSurvives sid g (.task sid t)) (h : g.step (.task sid t) = some (g', obs))
    (hrun : (g.clients sid).task.Running) : (g'.clients sid).task ≠ .failed := by
  intro hfailed
  rcases (hsurvives g' obs h hrun).1 with hrun' | hcancel
  · rw [hfailed] at hrun'
    exact hrun'
  · cases hcancel

/-- **One step**: the loop survives exactly if it neither resumes a read that raised nor takes a gap
whose log raises. -/
theorem loopSurvives_iff {g g' : Process} {a : Act} {obs : List Obs} {sid : SessionId}
    (h : g.step a = some (g', obs)) : LoopSurvives sid g a ↔ NothingRaised sid g a := by
  constructor
  · intro hsurvives
    cases a with
    | task sid' t =>
        cases t with
        | resume =>
            rintro rfl hraised
            have hrun : (g.clients sid').task.Running := by
              revert hraised
              cases (g.clients sid').task with
              | resuming => exact fun _ => trivial
              | _ => exact False.elim
            rcases (Process.stepped h).resumed with ⟨-, hfailed⟩ | ⟨hno, -⟩
            · exact hsurvives.not_failed h hrun hfailed
            · exact hno hraised
        | take =>
            rintro rfl event hevent hgap
            obtain ⟨hrun, event', hevent', ⟨-, hfailed⟩ | ⟨hno, -⟩⟩ := (Process.stepped h).took
            · exact hsurvives.not_failed h hrun hfailed
            · obtain rfl := Option.mem_unique hevent hevent'
              exact hno hgap
        | _ => trivial
    | _ => trivial
  · intro hno g₁ obs₁ h₁ hrun
    have hstep := Process.stepped h₁
    by_cases ha : a = .task sid .resume
    · subst ha
      rcases hstep.resumed with ⟨hraised, -⟩ | ⟨-, hrun', hgo⟩
      · exact absurd hraised (hno rfl)
      · exact ⟨Or.inl hrun', fun _ => hgo⟩
    · refine ⟨?_, fun hresume => absurd hresume ha⟩
      by_cases htake : a = .task sid .take
      · subst htake
        obtain ⟨-, event, hevent, ⟨hgap, -⟩ | ⟨-, hrun'⟩⟩ := hstep.took
        · exact absurd hgap (hno rfl event hevent)
        · exact Or.inl hrun'
      · by_cases hcancel : a = .cancelDispatch sid
        · exact Or.inr hcancel
        · exact Or.inl (hstep.running hrun htake ha hcancel)

/-! ### A whole run -/

/-- **The dispatch loop survives failed recovery exactly if no read of its raises, and no log.** In
every run of the gateway and for every session: its running loop ends by cancellation only, and goes
on after every failed read with its boundaries and baselines unchanged, if and only if no read of
the loop has raised when it resumes, and it takes no gap whose log raises. -/
theorem dispatch_survives_iff {g g' : Process} {acts : List Act} {h : List Obs}
    (hr : Machine.run Process.step g acts = some (g', h)) (sid : SessionId) :
    Machine.Along Process.step (LoopSurvives sid) g acts ↔
      Machine.Along Process.step (NothingRaised sid) g acts :=
  Machine.along_congr_of_run (fun _ _ _ _ hs => loopSurvives_iff hs) hr

/-- A loop that survives every step and is not cancelled still runs. -/
theorem running_of_survives {g g' : Process} {acts : List Act} {h : List Obs} {sid : SessionId}
    (hsurvives : Machine.Along Process.step (LoopSurvives sid) g acts)
    (hcancel : .cancelDispatch sid ∉ acts) (hrun : (g.clients sid).task.Running)
    (hr : Machine.run Process.step g acts = some (g', h)) : (g'.clients sid).task.Running := by
  have hboth := Machine.along_and.mpr ⟨hsurvives, Machine.along_ne hcancel g⟩
  refine Machine.run_invariant_along (I := fun g _ => (g.clients sid).task.Running) ?_ hrun hboth hr
  intro g₁ a g₂ o _ hC hI hs
  exact (hC.1 g₂ o hs hI).1.resolve_right hC.2

/-- A gap whose read finds nothing, and the event after it. -/
def emptyReadActs : List Act :=
  [.message (.quote "A" 5), .task 0 .take, .message (.quote "A" 7), .task 0 .take,
    .task 0 (.read (.value none)), .task 0 .resume, .message (.quote "A" 6), .task 0 .take]

theorem dispatch_survives_iff_empty :
    ∃ g h₀ g' h, Machine.run Process.step (.initial "") openingActs = some (g, h₀) ∧
      Machine.run Process.step g emptyReadActs = some (g', h) ∧
      (g'.clients 0).session.lastSeq.get? "A" = some 6 ∧
      Machine.Along Process.step (LoopSurvives 0) g emptyReadActs := by
  have hrun : ∃ g h₀ g' h, Machine.run Process.step (.initial "") openingActs = some (g, h₀) ∧
      Machine.run Process.step g emptyReadActs = some (g', h) ∧
      (g'.clients 0).session.lastSeq.get? "A" = some 6 ∧
      Machine.Along Process.step (NothingRaised 0) g emptyReadActs :=
    ⟨_, _, _, _, rfl, rfl, rfl, by decide⟩
  obtain ⟨g, h₀, g', h, hr₀, hr, hseq, hno⟩ := hrun
  exact ⟨g, h₀, g', h, hr₀, hr, hseq, (dispatch_survives_iff hr 0).mpr hno⟩

/-- A gap whose read raises. -/
def raisedReadActs : List Act :=
  [.message (.quote "A" 5), .task 0 .take, .message (.quote "A" 7), .task 0 .take,
    .task 0 (.read .raised), .task 0 .resume]

/-- **A read that raises ends the loop**: nobody has cancelled it, and it takes no further event. -/
theorem raised_read_ends_loop :
    ¬ ∀ (keyPrefix : String) (g : Process) (acts : List Act) (h : List Obs) (sid : SessionId),
      Machine.run Process.step (.initial keyPrefix) acts = some (g, h) →
      Machine.Along Process.step (LoopSurvives sid) (.initial keyPrefix) acts := by
  intro hall
  have hrun : ∃ g h₀ g' h, Machine.run Process.step (.initial "") openingActs = some (g, h₀) ∧
      Machine.run Process.step g raisedReadActs = some (g', h) ∧
      (g.clients 0).task = .waiting ∧ (g'.clients 0).task = .failed :=
    ⟨_, _, _, _, rfl, rfl, rfl, rfl⟩
  obtain ⟨g, h₀, g', h, hr₀, hr, hwaiting, hfailed⟩ := hrun
  have hwhole := hall "" g' (openingActs ++ raisedReadActs) (h₀ ++ h) 0
    (Machine.run_append.mpr ⟨g, h₀, h, hr₀, hr, rfl⟩)
  have hlater := ((Machine.along_append hr₀).mp hwhole).2
  have hrunning := running_of_survives hlater (by simp [raisedReadActs]) (hwaiting ▸ trivial) hr
  rw [hfailed] at hrunning
  exact hrunning

end MarketData.Gateway
