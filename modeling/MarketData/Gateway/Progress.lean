import Mathlib.Data.Prod.Lex
import MarketData.Gateway.Frames
import MarketData.Gateway.Resubscribe
import MarketData.Lib.Liveness

/-!
# MarketData.Gateway.Progress

**What the gateway gets done.** `pubsub_lock` is held across calls of Redis, so one session that
waits for Redis holds up the subscriptions, the unsubscriptions and the teardown of every other
one, and the `fanout_loop` as well.

They are held up and never stuck. The lock is held only while its holder awaits Redis (`Held`,
the converse of `Locking`), and whatever Redis answers sets it free. With the lock free every
call can go on, and each of its steps brings it closer to its return, the bounded retries of
`_ensure_pubsub_subscription` included. So on every path on which the scheduler is fair and
Redis answers, each call returns, and each teardown comes to its end (`connections_settle`).
-/

namespace MarketData.Gateway

/-! ### The lock has a holder -/

/-- Whoever holds `pubsub_lock` awaits Redis. -/
structure Held (g : Process) : Prop where
  session : ∀ sid, g.channels.pubsubLock = some (.session sid) →
    (g.clients sid).call.AwaitsRedis
  fanout : g.channels.pubsubLock = some .fanout →
    ∃ channels, g.fanout = .subscribing channels

namespace Held

theorem initial (keyPrefix : String) : Held (.initial keyPrefix) :=
  ⟨fun _ h => (nomatch h), fun h => (nomatch h)⟩

/-- A step of a call ends with the lock its own and Redis asked, with the lock free, or with the
lock as it was, somebody else's. -/
theorem called {sid : SessionId} {σ σ' : Scope} {a : CallAct} {obs : List Obs}
    (h : Called sid σ a σ' obs)
    (hI : σ.channels.pubsubLock = some (.session sid) → σ.client.call.AwaitsRedis) :
    (σ'.channels.pubsubLock = some (.session sid) ∧ σ'.client.call.AwaitsRedis) ∨
    σ'.channels.pubsubLock = none ∨
    (σ'.channels.pubsubLock = σ.channels.pubsubLock ∧
      σ.channels.pubsubLock ≠ some (.session sid)) := by
  have hnot : ∀ {call}, σ.client.call = call → ¬ call.AwaitsRedis →
      σ.channels.pubsubLock ≠ some (.session sid) := fun hc hno hl => hno (hc ▸ hI hl)
  cases h with
  | attempted hc hl =>
      obtain ⟨lock, ok, heq, ⟨rfl, rfl⟩ | ⟨-, rfl⟩⟩ := σ.channels.subscribePubsubSymbol_cases sid _
      · rw [heq]
        exact Or.inl ⟨rfl, trivial⟩
      · rw [heq]
        exact Or.inr (Or.inl hl)
  | answered ok hc => exact Or.inr (Or.inl (Channels.lock_subscribeAnswered ..))
  | released hc hl =>
      rcases σ.channels.unsubscribePubsubSymbol_cases sid _ with
        ⟨-, heq⟩ | ⟨_, _, _, lock, awaiting, -, heq, ⟨rfl, rfl⟩ | ⟨-, rfl⟩⟩
      · rw [heq]
        exact Or.inr (Or.inl hl)
      · rw [heq]
        exact Or.inl ⟨rfl, trivial⟩
      · rw [heq]
        exact Or.inr (Or.inl hl)
  | dropped ok hc => exact Or.inr (Or.inl rfl)
  | parsed hc | rejected hc | overflowed hc | unsubscribeBegun hc | cleanupBegun hc | slept hc
  | unavailable hc | registered hc | read hc | failed hc | activated hc | rolledBack hc | inUse hc
  | unused hc | lastUnsubscribed hc | unsubscribed hc | cleaned hc | finished hc | closing hc
  | closed hc => exact Or.inr (Or.inr ⟨rfl, hnot hc id⟩)

/-- `fanout_loop` holds the lock in `_subscribe_desired_channels` only. -/
theorem fanoutStep {c c' : Channels} {task task' : Channels.FanoutTask} {a : Channels.FanoutAct}
    (h : c.fanoutStep task a = some (c', task'))
    (hI : c.pubsubLock = some .fanout → ∃ channels, task = .subscribing channels)
    (hl : c'.pubsubLock = some .fanout) : ∃ channels, task' = .subscribing channels := by
  unfold Channels.fanoutStep at h
  split at h
  case h_1 =>
    split at h <;> cases h
    obtain ⟨_, heq⟩ := hI hl
    cases heq
  case h_2 =>
    split at h
    · rename_i hfree
      dsimp only at h
      split at h
      · cases h
        exact absurd (hfree.symm.trans hl) (by simp)
      · cases h
        exact ⟨_, rfl⟩
    · cases h
  case h_3 | h_4 =>
    cases h
    cases hl
  case h_8 =>
    split at h
    · rename_i hfree
      cases h
      exact absurd (hfree.symm.trans hl) (by simp)
    · cases h
  case h_11 => cases h
  all_goals
    cases h
    obtain ⟨_, heq⟩ := hI hl
    cases heq

/-- **Every step leaves the lock free or with a holder that awaits Redis.** -/
theorem step {g g' : Process} {a : Act} {obs : List Obs} (hI : Held g)
    (h : Stepped g a g' obs) : Held g' := by
  have houtside : OutsideCalls g g' → g'.channels.pubsubLock = g.channels.pubsubLock →
      g'.fanout = g.fanout → Held g' := by
    intro ho hl hf
    refine ⟨fun sid hsid => ?_, fun hfan => ?_⟩
    · rw [ho.call]
      exact hI.session sid (hl ▸ hsid)
    · rw [hf]
      exact hI.fanout (hl ▸ hfan)
  have hout := h.call_or_outside
  cases h with
  | @call sid _ σ _ h =>
      have hlock := called h (hI.session sid)
      refine ⟨fun sid' hsid' => ?_, fun hfan => ?_⟩
      · rw [Process.channels_withScope] at hsid'
        rcases hlock with ⟨hl, hawaits⟩ | hl | ⟨hl, hne⟩
        · obtain rfl : sid = sid' := by simpa [hsid'] using hl.symm
          rwa [Process.clients_withScope_self]
        · rw [hl] at hsid'
          cases hsid'
        · rw [hl] at hsid'
          have hs : sid' ≠ sid := by
            rintro rfl
            exact hne hsid'
          rw [Process.clients_withScope_ne g sid σ hs]
          exact hI.session sid' hsid'
      · rw [Process.channels_withScope] at hfan
        rcases hlock with ⟨hl, -⟩ | hl | ⟨hl, -⟩
        · rw [hl] at hfan
          cases hfan
        · rw [hl] at hfan
          cases hfan
        · exact hI.fanout (hl ▸ hfan)
  | @fanout _ channels task h =>
      refine ⟨fun sid hsid => ?_, fanoutStep h hI.fanout⟩
      obtain ⟨-, -, -, hlock⟩ := Channels.fanoutStep_frame h
      rcases hlock with hl | ⟨-, hl⟩ | ⟨-, hl⟩
      · exact hI.session sid (hl ▸ hsid)
      · cases hl.symm.trans hsid
      · cases hl.symm.trans hsid
  | connect hc => exact houtside (hout.resolve_left (by simp)).2 rfl rfl
  | message h => exact houtside (hout.resolve_left (by simp)).2 rfl rfl
  | task h => exact houtside (hout.resolve_left (by simp)).2 rfl rfl
  | replied hc => exact houtside (hout.resolve_left (by simp)).2 rfl rfl
  | cancelled => exact houtside (hout.resolve_left (by simp)).2 rfl rfl
  | stopped => exact houtside (hout.resolve_left (by simp)).2 rfl rfl

end Held

/-- Whatever Redis answers to a session, the lock is free again. -/
theorem Stepped.lock_of_redis {g g' : Process} {sid : SessionId} {ok : Bool} {obs : List Obs}
    (h : Stepped g (.call sid (.redis ok)) g' obs) : g'.channels.pubsubLock = none := by
  cases h with
  | call hc =>
      cases hc with
      | answered _ hc => exact Channels.lock_subscribeAnswered ..
      | dropped _ hc => rfl

/-- Whatever Redis answers to `fanout_loop`, the lock is free again. -/
theorem Stepped.lock_of_subscribed {g g' : Process} {ok : Bool} {obs : List Obs}
    (h : Stepped g (.fanout (.subscribed ok)) g' obs) : g'.channels.pubsubLock = none := by
  cases h with
  | fanout hf =>
      generalize g.fanout = task at hf
      cases task <;> cases ok <;> cases hf <;> rfl

/-! ### A call can go on -/

/-- **A call under way is stopped by nothing but a lock that somebody else holds.** -/
theorem Scope.resumes (σ : Scope) (sid : SessionId) (hbusy : σ.client.call ≠ .idle)
    (hl : σ.channels.pubsubLock = none ∨ σ.client.call.AwaitsRedis) :
    ∃ a, CallAct.Continues a = true ∧ (σ.step sid a).isSome = true := by
  cases hc : σ.client.call with
  | idle => exact absurd hc hbusy
  | ensuring symbol filter attempt =>
      have hfree := hl.resolve_right (by rw [hc]; exact id)
      exact ⟨.go, rfl, by simp only [step, hc, if_pos hfree, Option.isSome_some]⟩
  | releasing symbols result =>
      refine ⟨.go, rfl, ?_⟩
      cases symbols with
      | nil => simp only [step, hc, Option.isSome_some]
      | cons symbol rest =>
          have hfree := hl.resolve_right (by rw [hc]; exact id)
          simp only [step, hc, if_pos hfree, Option.isSome_some]
  | confirming | dropping =>
      exact ⟨.redis true, rfl, by simp only [step, hc, Option.isSome_some]⟩
  | reading symbol filter =>
      have hsym : (ReadResult.value none).OfSymbol symbol := trivial
      exact ⟨.read (.value none), rfl, by simp only [step, hc, dif_pos hsym, Option.isSome_some]⟩
  | cleaning =>
      have horder := Finset.nodup_toList σ.client.session.subscriptions
      refine ⟨.clean σ.client.session.subscriptions.toList, rfl, ?_⟩
      simp only [step, hc, if_pos (And.intro horder (Finset.toList_toFinset _)), Option.isSome_some]
  | sleeping | registering | activating | rollingBack | checkingUnused | unsubscribing | closing =>
      exact ⟨.go, rfl, by simp only [step, hc, Option.isSome_some]⟩

/-- **`_cleanup` runs on to its return**: the critical section that finds the symbols, a symbol
given up, `session.close()`, or the return. -/
theorem Called.remaining_cleanup {sid : SessionId} {σ σ' : Scope} {a : CallAct} {obs : List Obs}
    (h : Called sid σ a σ' obs) (hn : σ.client.call.inCleanup = true) :
    (σ.client.call = .cleaning ∧ σ'.client.call ≠ .cleaning) ∨
    (σ.client.call ≠ .cleaning ∧ σ'.client.call ≠ .cleaning ∧
      σ'.client.call.remaining < σ.client.call.remaining) ∨ σ'.client.call = .idle := by
  cases h with
  | cleaned hc ho => exact Or.inl ⟨hc, by simp⟩
  | released hc hl =>
      rw [hc, Scope.call_goto]
      refine Or.inr (Or.inl ⟨by simp, ?_, ?_⟩)
      · split <;> simp
      · split <;> simp only [Call.remaining, List.length_cons] <;> omega
  | dropped ok hc =>
      rw [hc, Scope.call_goto]
      refine Or.inr (Or.inl ⟨by simp, by simp, ?_⟩)
      simp only [Call.remaining]
      omega
  | closing hc =>
      rw [hc]
      refine Or.inr (Or.inl ⟨by simp, by simp, ?_⟩)
      simp only [Scope.call_goto, Call.remaining, List.length_nil]
      omega
  | finished | closed => exact Or.inr (Or.inr rfl)
  | parsed hc | rejected hc | overflowed hc | unsubscribeBegun hc | cleanupBegun hc
  | attempted hc | answered ok hc | slept hc | unavailable hc | registered hc | read hc
  | failed hc | activated hc | rolledBack hc | inUse hc | unused hc | lastUnsubscribed hc
  | unsubscribed hc =>
      rw [hc] at hn
      cases hn

/-! ### What a step of the server is to a session -/

/-- The session in whose name a step is taken. -/
def ServerAct.session? : ServerAct → Option SessionId
  | .connect sid .. | .reply sid _ | .subscribe sid _ _ | .unsubscribe sid _ | .call sid _
  | .leave sid | .cancel sid | .awaited sid => some sid
  | .task _ _ | .fanout _ | .message _ => none

/-- The step is one of the session's coroutine that nobody outside has to ask for: its call runs
on, or its teardown does. -/
def ServerAct.Drives (sid : SessionId) : ServerAct → Prop
  | .call sid' _ | .cancel sid' | .awaited sid' => sid' = sid
  | _ => False

namespace Server

variable {s t : Server} {sid : SessionId} {h o : List Obs}

/-- The gateway after steps that are not the session's. -/
theorem client_of_run {g g' : Process} {acts : List Act}
    (hr : Machine.run Process.step g acts = some (g', o)) (hne : ∀ a ∈ acts, a.owner? ≠ some sid) :
    (g'.clients sid).call = (g.clients sid).call ∧
      (g'.clients sid).connected = (g.clients sid).connected := by
  refine Machine.run_invariant_along (C := fun _ a => Act.owner? a ≠ some sid)
    (I := fun g' _ => (g'.clients sid).call = (g.clients sid).call ∧
      (g'.clients sid).connected = (g.clients sid).connected) ?_ ⟨rfl, rfl⟩
    (Machine.along_of_forall hne g) hr
  intro g₁ a g₂ o _ hne hI hs
  have hb := (Process.stepped hs).bystander hne
  exact ⟨hb.call.trans hI.1, hb.connected.trans hI.2⟩

/-- **A step in another name leaves the session where it is.** -/
theorem bystander {a : ServerAct} (hs : s.step a = some (t, o)) (hne : a.session? ≠ some sid) :
    t.handlers sid = s.handlers sid ∧
      (t.gateway.clients sid).call = (s.gateway.clients sid).call ∧
      (t.gateway.clients sid).connected = (s.gateway.clients sid).connected := by
  have hback : ∀ {a : Act}, a.owner? = none → s.background a = some (t, o) →
      t.handlers sid = s.handlers sid ∧
        (t.gateway.clients sid).call = (s.gateway.clients sid).call ∧
        (t.gateway.clients sid).connected = (s.gateway.clients sid).connected := by
    intro a ha hs
    obtain ⟨hg, hh⟩ := of_background hs
    have hne : a.owner? ≠ some sid := by
      rw [ha]
      exact (Option.some_ne_none sid).symm
    have hb := (Process.stepped hg).bystander hne
    exact ⟨by rw [hh], hb.call, hb.connected⟩
  have hexec : ∀ {sid' acts next}, some sid' ≠ some sid → (∀ a ∈ acts, a.owner? ≠ some sid) →
      s.exec sid' acts next = some (t, o) → t.handlers sid = s.handlers sid ∧
        (t.gateway.clients sid).call = (s.gateway.clients sid).call ∧
        (t.gateway.clients sid).connected = (s.gateway.clients sid).connected := by
    intro sid' acts next hsid hacts hs
    obtain ⟨hr, -, hother⟩ := of_exec hs
    exact ⟨hother sid fun heq => hsid (congrArg some heq.symm), client_of_run hr hacts⟩
  cases stepped hs with
  | task hs => exact hback rfl hs
  | fanout hs => exact hback rfl hs
  | message hs => exact hback rfl hs
  | replied _ hs =>
      refine hexec hne (fun a ha => ?_) hs
      rw [List.mem_singleton.mp ha]
      exact fun h => (nomatch h)
  | left _ _ hs | leaked _ _ hs => exact hexec hne (fun a ha => absurd ha List.not_mem_nil) hs
  | tornDown _ _ hs =>
      refine hexec hne (fun a ha => ?_) hs
      rcases List.mem_cons.mp ha with rfl | ha
      · exact hne
      · rw [List.mem_singleton.mp ha]
        exact hne
  | connected _ hs | subscribed _ hs | unsubscribed _ hs | called _ _ hs | cleaned _ _ hs
  | cancelled _ hs =>
      refine hexec hne (fun a ha => ?_) hs
      rw [List.mem_singleton.mp ha]
      exact hne

/-- The gateway steps of a step of the server. -/
theorem gateway_run {a : ServerAct} (hs : s.step a = some (t, o)) :
    ∃ acts, Machine.run Process.step s.gateway acts = some (t.gateway, o) := by
  cases stepped hs with
  | task hs | fanout hs | message hs =>
      exact ⟨_, Machine.run_singleton.mpr (of_background hs).1⟩
  | connected _ hs | replied _ hs | subscribed _ hs | unsubscribed _ hs | called _ _ hs
  | cleaned _ _ hs | left _ _ hs | cancelled _ hs | leaked _ _ hs | tornDown _ _ hs =>
      exact ⟨_, (of_exec hs).1⟩

/-- What a step of a session's own asks of where it is, and where it leads. -/
inductive OwnStep (s t : Server) (sid : SessionId) : ServerAct → Prop
  | connected {clientId mode} (hh : s.handlers sid = .absent) (ht : t.handlers sid = .serving)
      (hon : (t.gateway.clients sid).connected = true) :
      OwnStep s t sid (.connect sid clientId mode encoding)
  /-- A frame, or the client's leaving. -/
  | asked {a} (ha : ¬ a.Drives sid) (hh : s.handlers sid = .serving)
      (hc : (s.gateway.clients sid).call = .idle)
      (ht : t.handlers sid = .serving ∨ t.handlers sid = .leaving) : OwnStep s t sid a
  | called {ca} (hh : s.handlers sid = .serving) (ht : t.handlers sid = .serving)
      (hlt : (t.gateway.clients sid).call.remaining < (s.gateway.clients sid).call.remaining) :
      OwnStep s t sid (.call sid ca)
  | cleaned {ca} (hh : s.handlers sid = .cleaning) (ht : t.handlers sid = .cleaning)
      (hc : ((s.gateway.clients sid).call = .cleaning ∧ (t.gateway.clients sid).call ≠ .cleaning) ∨
        ((s.gateway.clients sid).call ≠ .cleaning ∧ (t.gateway.clients sid).call ≠ .cleaning ∧
          (t.gateway.clients sid).call.remaining < (s.gateway.clients sid).call.remaining)) :
      OwnStep s t sid (.call sid ca)
  | finished {a} (ha : a.Drives sid)
      (hh : s.handlers sid = .cleaning ∨ s.handlers sid = .cancelling)
      (ht : t.handlers sid = .finished) (hc : (t.gateway.clients sid).call = .idle) :
      OwnStep s t sid a
  | cancelled (hh : s.handlers sid = .leaving) (ht : t.handlers sid = .cancelling) :
      OwnStep s t sid (.cancel sid)
  | tornDown (hh : s.handlers sid = .cancelling) (ht : t.handlers sid = .cleaning)
      (hc : (t.gateway.clients sid).call = .cleaning) : OwnStep s t sid (.awaited sid)

/-- **Every step of a session's own is one of these.** -/
theorem ownStep (hI : Lives s h) {a : ServerAct} (hs : s.step a = some (t, o))
    (hown : a.session? = some sid) : OwnStep s t sid a := by
  cases stepped hs with
  | task | fanout | message => cases hown
  | connected hh hs =>
      obtain rfl := Option.some.inj hown
      obtain ⟨hr, hself, -⟩ := of_exec hs
      obtain ⟨-, hclient⟩ := (Process.stepped (Machine.run_singleton.mp hr)).client_connect
      exact .connected hh hself (by rw [hclient]; rfl)
  | replied hh hs =>
      obtain rfl := Option.some.inj hown
      obtain ⟨hr, hself, -⟩ := of_exec hs
      exact .asked id hh (Process.stepped (Machine.run_singleton.mp hr)).client_replied.2.2.2
        (Or.inl hself)
  | subscribed hh hs | unsubscribed hh hs =>
      obtain rfl := Option.some.inj hown
      obtain ⟨-, -, -, hidle, hself⟩ := of_request hs
      refine .asked id hh hidle ?_
      rw [hself]
      split
      · exact Or.inr rfl
      · exact Or.inl rfl
  | @called sid' ca _ _ hcont hh hs' =>
      obtain rfl := Option.some.inj hown
      have hL := hI.lifecycle sid'
      rw [hh] at hL
      cases hL with
      | serving hcall hcl =>
          refine .called hh ?_ (remaining_lt_of_call hs hh hcall)
          refine serving_of_other hs hh (fun cmd heq => ?_) fun heq => (nomatch heq)
          cases cmd <;> cases heq
  | @cleaned sid' ca _ _ hcont hh hs =>
      obtain rfl := Option.some.inj hown
      obtain ⟨hr, hself, -⟩ := of_exec hs
      obtain ⟨σ, hclient, -, hc⟩ := (Process.stepped (Machine.run_singleton.mp hr)).client_called
      have hL := hI.lifecycle sid'
      rw [hh] at hL
      cases hL with
      | cleaning hcall htorn hgone hcl =>
          have hcases := hc.remaining_cleanup hcall
          rw [← hclient] at hcases
          by_cases hidle : (t.gateway.clients sid').call = .idle
          · exact .finished rfl (Or.inl hh) (hself.trans (if_pos hidle)) hidle
          · refine .cleaned hh (hself.trans (if_neg hidle)) ?_
            exact hcases.imp_right fun h => h.resolve_right hidle
  | left hh hidle hs =>
      obtain rfl := Option.some.inj hown
      exact .asked id hh hidle (Or.inr (of_exec hs).2.1)
  | cancelled hh hs =>
      obtain rfl := Option.some.inj hown
      exact .cancelled hh (of_exec hs).2.1
  | @leaked sid' _ _ hh ht hs =>
      obtain rfl := Option.some.inj hown
      obtain ⟨hr, hself, -⟩ := of_exec hs
      obtain ⟨hg, -⟩ : s.gateway = t.gateway ∧ [] = o := by simpa using hr
      have hL := hI.lifecycle sid'
      rw [hh] at hL
      cases hL with
      | cancelling hcall htask hcl =>
          exact .finished rfl (Or.inr hh) hself (by rw [← hg]; exact hcall)
  | tornDown hh ht hs =>
      obtain rfl := Option.some.inj hown
      obtain ⟨hr, hself, -⟩ := of_exec hs
      obtain ⟨g₁, o₁, o₂, hg₁, hg₂, -⟩ := Machine.run_cons.mp hr
      refine .tornDown hh hself ?_
      rw [(Process.stepped (Machine.run_singleton.mp hg₂)).cleanup_begun]

/-! ### Where a connection can rest -/

/-- A session that has begun is connected, and one that has ended has no call. -/
structure Attached (s : Server) (sid : SessionId) : Prop where
  connected : s.handlers sid ≠ .absent → (s.gateway.clients sid).connected = true
  ended : s.handlers sid = .finished → (s.gateway.clients sid).call = .idle

theorem Attached.step (hI : Lives s h) (hA : Attached s sid) {a : ServerAct}
    (hs : s.step a = some (t, o)) : Attached t sid := by
  by_cases hown : a.session? = some sid
  · have hon : s.handlers sid ≠ .absent → (t.gateway.clients sid).connected = true := by
      intro hne
      obtain ⟨acts, hr⟩ := gateway_run hs
      exact Machine.run_preserves (P := fun g => (g.clients sid).connected = true)
        (fun _ _ _ _ hI hs => (Process.stepped hs).connected hI) (hA.connected hne) hr
    cases ownStep hI hs hown with
    | connected hh ht hon => exact ⟨fun _ => hon, fun hfin => (nomatch ht.symm.trans hfin)⟩
    | asked ha hh hc ht =>
        refine ⟨fun _ => hon (by simp [hh]), fun hfin => ?_⟩
        rw [hfin] at ht
        simp at ht
    | finished ha hh ht hc =>
        refine ⟨fun _ => hon ?_, fun _ => hc⟩
        rcases hh with hh | hh <;> simp [hh]
    | called hh ht | cleaned hh ht | cancelled hh ht | tornDown hh ht =>
        exact ⟨fun _ => hon (by simp [hh]), fun hfin => (nomatch ht.symm.trans hfin)⟩
  · obtain ⟨hh, hc, hon⟩ := bystander hs hown
    exact ⟨fun hne => hon.trans (hA.connected (hh ▸ hne)),
      fun hfin => hc.trans (hA.ended (hh ▸ hfin))⟩

/-- What the progress of the server rests on, in every state of every run. -/
structure Live (s : Server) : Prop where
  lives : ∃ h, Lives s h
  held : Held s.gateway
  attached : ∀ sid, Attached s sid

namespace Live

theorem initial (keyPrefix : String) : Live (.initial keyPrefix) where
  lives := ⟨[], .initial keyPrefix⟩
  held := .initial keyPrefix
  attached _ := ⟨fun h => absurd rfl h, fun h => (nomatch h)⟩

theorem step {a : ServerAct} (hI : Live s) (hs : s.step a = some (t, o)) : Live t := by
  obtain ⟨h, hL⟩ := hI.lives
  obtain ⟨acts, hr⟩ := gateway_run hs
  exact ⟨⟨h ++ o, hL.step hs⟩,
    Machine.run_preserves (P := Held) (fun _ _ _ _ hI hs => hI.step (Process.stepped hs))
      hI.held hr,
    fun sid => (hI.attached sid).step hL hs⟩

end Live

/-- Nothing of the session's is under way: it has not connected, it has ended, or its receive loop
awaits a frame. -/
def Settled (sid : SessionId) (s : Server) : Prop :=
  (s.gateway.clients sid).call = .idle ∧
    (s.handlers sid = .absent ∨ s.handlers sid = .serving ∨ s.handlers sid = .finished)

/-- How far the handler of a session with this call is from its end. -/
def stage (call : Call) : Handler → ℕ
  | .serving => 4
  | .leaving => 3
  | .cancelling => 2
  | .cleaning => if call = .cleaning then 1 else 0
  | .absent | .finished => 0

/-- How much a session has to go: its stage first, then its call. How many symbols `_cleanup` has
to give up is known only once its critical section has run. -/
def rank (sid : SessionId) (s : Server) : ℕ ×ₗ ℕ :=
  toLex (stage (s.gateway.clients sid).call (s.handlers sid),
    (s.gateway.clients sid).call.remaining)

theorem rank_lt_of_stage
    (hlt : stage (t.gateway.clients sid).call (t.handlers sid) <
      stage (s.gateway.clients sid).call (s.handlers sid)) : rank sid t < rank sid s :=
  Prod.Lex.toLex_lt_toLex.mpr (Or.inl hlt)

theorem rank_lt_of_remaining
    (hst : stage (t.gateway.clients sid).call (t.handlers sid) =
      stage (s.gateway.clients sid).call (s.handlers sid))
    (hlt : (t.gateway.clients sid).call.remaining < (s.gateway.clients sid).call.remaining) :
    rank sid t < rank sid s :=
  Prod.Lex.toLex_lt_toLex.mpr (Or.inr ⟨hst, hlt⟩)

/-- **An unsettled session takes no step but those that drive it, and each brings it closer to
rest.** -/
theorem rank_lt (hI : Lives s h) {a : ServerAct} (hs : s.step a = some (t, o))
    (hown : a.session? = some sid) (hun : ¬ Settled sid s) :
    Settled sid t ∨ rank sid t < rank sid s := by
  cases ownStep hI hs hown with
  | connected hh ht hon =>
      have hL := hI.lifecycle sid
      rw [hh] at hL
      cases hL with
      | absent hoff hcl => exact absurd ⟨((hI.handshakes sid).absent hoff).1, Or.inl hh⟩ hun
  | asked ha hh hc ht => exact absurd ⟨hc, Or.inr (Or.inl hh)⟩ hun
  | called hh ht hlt =>
      refine Or.inr (rank_lt_of_remaining ?_ hlt)
      rw [hh, ht]
      rfl
  | cleaned hh ht hc =>
      refine Or.inr ?_
      rcases hc with ⟨hbefore, hafter⟩ | ⟨hbefore, hafter, hlt⟩
      · refine rank_lt_of_stage ?_
        rw [hh, ht, stage, stage, if_pos hbefore, if_neg hafter]
        exact Nat.zero_lt_one
      · refine rank_lt_of_remaining ?_ hlt
        rw [hh, ht, stage, stage, if_neg hbefore, if_neg hafter]
  | finished ha hh ht hc => exact Or.inl ⟨hc, Or.inr (Or.inr ht)⟩
  | cancelled hh ht =>
      refine Or.inr (rank_lt_of_stage ?_)
      rw [hh, ht, stage, stage]
      decide
  | tornDown hh ht hc =>
      refine Or.inr (rank_lt_of_stage ?_)
      rw [hh, ht, hc, stage, stage, if_pos rfl]
      decide

/-- **With the lock free an unsettled session can go on.** -/
theorem enabled (hI : Live s) (hun : ¬ Settled sid s) (hl : s.gateway.channels.pubsubLock = none) :
    Machine.Enabled Server.step (ServerAct.Drives sid) s := by
  obtain ⟨h, hL⟩ := hI.lives
  have hon := (hI.attached sid).connected
  -- a call under way runs on
  have hcall : (s.gateway.clients sid).call ≠ .idle →
      s.handlers sid = .serving ∨ s.handlers sid = .cleaning →
      Machine.Enabled Server.step (ServerAct.Drives sid) s := by
    intro hbusy hh
    obtain ⟨ca, hcont, hsome⟩ := (s.gateway.scope sid).resumes sid hbusy (Or.inl hl)
    obtain ⟨⟨σ, obs⟩, hstep⟩ := Option.isSome_iff_exists.mp hsome
    have hrun : Machine.run Process.step s.gateway [.call sid ca] =
        some (s.gateway.withScope sid σ, obs) := by
      refine Machine.run_singleton.mpr ?_
      simp only [Process.step, hstep]
    refine ⟨.call sid ca, rfl, ?_⟩
    rcases hh with hh | hh <;>
      simp only [Server.step, if_pos hcont, hh, exec, hrun, Option.isSome_some]
  have hphase := hL.lifecycle sid
  generalize hh : s.handlers sid = handler at hphase hon hcall
  cases hphase with
  | absent hoff hcl => exact absurd ⟨((hL.handshakes sid).absent hoff).1, Or.inl hh⟩ hun
  | serving hn hcl =>
      refine hcall (fun hidle => ?_) (Or.inl rfl)
      exact hun ⟨hidle, Or.inr (Or.inl hh)⟩
  | leaving hidle hcl =>
      refine ⟨.cancel sid, rfl, ?_⟩
      simp only [Server.step, if_pos hh, exec, Machine.run, Process.step, Option.isSome_some]
  | cancelling hidle htask hcl =>
      refine ⟨.awaited sid, rfl, ?_⟩
      simp only [Server.step, if_pos hh]
      split
      · simp only [exec, Machine.run_nil, Option.isSome_some]
      · simp only [exec, Machine.run, Process.step, Scope.step, Process.scope,
          Process.clients_withClient_self, Client.withSession]
        rw [hidle]
        simp only [if_pos (hon (by simp)), Option.isSome_some]
  | cleaning hin htorn hgone hcl =>
      refine hcall (fun hidle => ?_) (Or.inr rfl)
      rw [hidle] at hin
      cases hin
  | leaked htask hcl => exact absurd ⟨(hI.attached sid).ended hh, Or.inr (Or.inr hh)⟩ hun
  | finished htorn hgone hcl =>
      exact absurd ⟨(hI.attached sid).ended hh, Or.inr (Or.inr hh)⟩ hun

theorem lock_of_redis {ok : Bool} (hs : s.step (.call sid (.redis ok)) = some (t, o)) :
    t.gateway.channels.pubsubLock = none := by
  cases stepped hs with
  | called _ _ hs | cleaned _ _ hs =>
      exact (Process.stepped (Machine.run_singleton.mp (of_exec hs).1)).lock_of_redis

theorem lock_of_subscribed {ok : Bool} (hs : s.step (.fanout (.subscribed ok)) = some (t, o)) :
    t.gateway.channels.pubsubLock = none := by
  cases stepped hs with
  | fanout hs => exact (Process.stepped (of_background hs).1).lock_of_subscribed

/-- The client has left, and the handler is on its way to its end. -/
def Ending (sid : SessionId) (s : Server) : Prop :=
  s.handlers sid ≠ .absent ∧ s.handlers sid ≠ .serving

theorem Ending.step (hI : Lives s h) (he : Ending sid s) {a : ServerAct}
    (hs : s.step a = some (t, o)) : Ending sid t := by
  by_cases hown : a.session? = some sid
  · cases ownStep hI hs hown with
    | connected hh => exact absurd hh he.1
    | asked ha hh | called hh => exact absurd hh he.2
    | cleaned hh ht | finished ha hh ht | cancelled hh ht | tornDown hh ht =>
        exact ⟨by simp [ht], by simp [ht]⟩
  · rw [Ending, (bystander hs hown).1]
    exact he

end Server

/-! ### Every path -/

/-- What is asked of the scheduler, of Redis and of the snapshot store. -/
structure Scheduled (x : Machine.Path Server.step) (sid : SessionId) : Prop where
  /-- The session's coroutine runs again and again if it can, and what it reads arrives. -/
  drives : x.Fair (ServerAct.Drives sid)
  /-- Redis answers every session, or raises. -/
  sessions : ∀ n sid', ((x.state n).gateway.clients sid').call.AwaitsRedis →
    ∃ k ≥ n, ∃ ok, x.act k = some (.call sid' (.redis ok))
  /-- Redis answers `fanout_loop`, or raises. -/
  fanout : ∀ n channels, (x.state n).gateway.fanout = .subscribing channels →
    ∃ k ≥ n, ∃ ok, x.act k = some (.fanout (.subscribed ok))

namespace Scheduled

variable {x : Machine.Path Server.step} {sid : SessionId}

/-- **The lock is set free again and again.** -/
theorem lock_freed (hx : Scheduled x sid) (hI : ∀ n, (x.state n).Live) (n : ℕ) :
    ∃ k ≥ n, (x.state k).gateway.channels.pubsubLock = none := by
  cases hl : (x.state n).gateway.channels.pubsubLock with
  | none => exact ⟨n, le_rfl, hl⟩
  | some holder =>
      cases holder with
      | fanout =>
          obtain ⟨channels, hsub⟩ := (hI n).held.fanout hl
          obtain ⟨k, hk, ok, hact⟩ := hx.fanout n channels hsub
          obtain ⟨o, hs⟩ := Machine.Path.stepped hact
          exact ⟨k + 1, by omega, Server.lock_of_subscribed hs⟩
      | session sid' =>
          obtain ⟨k, hk, ok, hact⟩ := hx.sessions n sid' ((hI n).held.session sid' hl)
          obtain ⟨o, hs⟩ := Machine.Path.stepped hact
          exact ⟨k + 1, by omega, Server.lock_of_redis hs⟩

theorem settles (hx : Scheduled x sid) (hI : ∀ n, (x.state n).Live) :
    x.LeadsTo 0 Server.Live (Server.Settled sid) := by
  have hstep : ∀ s a t o, s.Live → ¬ Server.Settled sid s → Server.step s a = some (t, o) →
      Server.Settled sid t ∨ Server.rank sid t < Server.rank sid s ∨
        (¬ a.Drives sid ∧ Server.rank sid t = Server.rank sid s) := by
    intro s a t o hI hun hs
    obtain ⟨h, hL⟩ := hI.lives
    by_cases hown : a.session? = some sid
    · exact (Server.rank_lt hL hs hown hun).imp_right Or.inl
    · obtain ⟨hh, hc, -⟩ := Server.bystander hs hown
      refine Or.inr (Or.inr ⟨fun hd => hown ?_, ?_⟩)
      · cases a <;> cases hd <;> rfl
      · rw [Server.rank, Server.rank, hh, hc]
  refine .of_rank (C := fun _ _ => True) (Server.rank sid)
    (fun _ _ _ _ => trivial) ?_ ?_ hx.drives ?_
  · intro s a t o _ hI hun hs
    rcases hstep s a t o hI hun hs with h | h | ⟨-, h⟩
    · exact Or.inl h
    · exact Or.inr ⟨hI.step hs, h.le⟩
    · exact Or.inr ⟨hI.step hs, h.le⟩
  · intro s a t o _ hI hun hd hs
    rcases hstep s a t o hI hun hs with h | h | ⟨hno, -⟩
    · exact Or.inl h
    · exact Or.inr h
    · exact absurd hd hno
  · intro n _ hun
    obtain ⟨k, hk, hl⟩ := hx.lock_freed hI n
    exact ⟨k, hk, Server.enabled (hI k) (hun k hk).2 hl⟩

end Scheduled

/-- **Every call returns and every teardown ends.** On every path of the server on which a
session's coroutine is run fairly and Redis answers, whatever it answers and whatever the other
clients do: each `_subscribe`, `_unsubscribe` and `_cleanup` of the session returns, and once its
client has left, its handler ends, with the session out of the registries unless its dispatch
task has failed. -/
theorem connections_settle {keyPrefix : String} {x : Machine.Path Server.step} {sid : SessionId}
    (h0 : x.state 0 = .initial keyPrefix) (hx : Scheduled x sid) :
    (∀ n, ∃ k ≥ n, ((x.state k).gateway.clients sid).call = .idle) ∧
    ∀ n, Server.Ending sid (x.state n) → ∃ k ≥ n, (x.state k).handlers sid = .finished ∧
      (((x.state k).gateway.clients sid).task ≠ .failed →
        Gone sid (x.state k).gateway.registry) := by
  have hI : ∀ n, (x.state n).Live := by
    refine Machine.Path.always (fun _ _ _ _ hI hs => hI.step hs) ?_
    rw [h0]
    exact .initial keyPrefix
  refine ⟨fun n => ?_, fun n he => ?_⟩
  · obtain ⟨k, hk, hset⟩ := hx.settles hI n (Nat.zero_le n) (hI n)
    exact ⟨k, hk, hset.1⟩
  · obtain ⟨k, hk, -, hset⟩ := hx.settles hI n (Nat.zero_le n) (hI n)
    have hek : Server.Ending sid (x.state k) := by
      refine (Machine.Path.stays (C := fun _ _ => True) (I := fun s => s.Live ∧ Server.Ending sid s)
        (fun _ _ _ _ => trivial) (fun s a t o _ hI hs => ?_) ⟨hI n, he⟩ k hk).2
      obtain ⟨h, hL⟩ := hI.1.lives
      exact ⟨hI.1.step hs, hI.2.step hL hs⟩
    have hfin := (hset.resolve_left hek.1).resolve_left hek.2
    obtain ⟨h, hL⟩ := (hI k).lives
    have hphase := hL.lifecycle sid
    rw [hfin] at hphase
    refine ⟨k, hk, hfin, fun hok => ?_⟩
    cases hphase with
    | leaked htask hcl => exact absurd htask hok
    | finished htorn hgone hcl => exact hgone

/-- The lock at each moment of a connection that is opened, used and torn down: `fanout_loop` has
it, and later the teardown. -/
theorem lock_disconnect (n : ℕ) :
    (Machine.stateAfter Server.step (.initial "") disconnectActs n).gateway.channels.pubsubLock =
      if n = 5 then some .fanout else if n = 20 then some (.session 0) else none := by
  have hsmall : ∀ n < 23,
      (Machine.stateAfter Server.step (.initial "") disconnectActs n).gateway.channels.pubsubLock =
        if n = 5 then some .fanout else if n = 20 then some (.session 0) else none := by
    decide +kernel
  by_cases hn : n < 23
  · exact hsmall n hn
  · have hrun : ∃ s h, Machine.run Server.step (.initial "") disconnectActs = some (s, h) ∧
        s.gateway.channels.pubsubLock = none := ⟨_, _, rfl, rfl⟩
    obtain ⟨s, h, hr, hl⟩ := hrun
    rw [Machine.stateAfter_of_le hr (n := n) (not_lt.mp hn), hl, if_neg (by omega),
      if_neg (by omega)]

/-- The connection is torn down, and on the path that goes on from there nothing is missed. -/
theorem connections_settle_disconnect :
    ∃ x : Machine.Path Server.step, x.act 5 = some (.fanout (.subscribed true)) ∧
      x.act 20 = some (.call 0 (.redis true)) ∧ Server.Ending 0 (x.state 16) ∧
      ∃ k ≥ 16, (x.state k).handlers 0 = .finished := by
  have hrun : ∃ s h, Machine.run Server.step (.initial "") disconnectActs = some (s, h) ∧
      s.handlers 0 = .finished := ⟨_, _, rfl, rfl⟩
  obtain ⟨s, h, hr, hfin⟩ := hrun
  have hlocking : ∀ n, Locking ((Machine.Path.ofRun hr).state n).gateway := by
    refine Machine.Path.always (I := fun (s : Server) => Locking s.gateway)
      (fun s a t o hI hs => ?_)
      (.initial "")
    obtain ⟨acts, hg⟩ := Server.gateway_run hs
    exact Machine.run_preserves (P := Locking)
      (fun _ _ _ _ hI hs => hI.step (Process.stepped hs)) hI hg
  have hx : Scheduled (Machine.Path.ofRun hr) 0 := by
    refine ⟨Machine.Path.fair_ofRun hr ?_, fun n sid hawaits => ?_, fun n channels hsub => ?_⟩
    · -- where it ends, nothing is left for the session to do
      rintro ⟨a, hd, hsome⟩
      cases a with
      | call sid ca =>
          obtain rfl : sid = 0 := hd
          simp [Server.step, hfin] at hsome
      | cancel sid | awaited sid =>
          obtain rfl : sid = 0 := hd
          simp [Server.step, hfin] at hsome
      | _ => exact hd
    · have hl := (hlocking n).sessions sid hawaits
      rw [Machine.Path.state_ofRun, lock_disconnect] at hl
      split at hl
      · cases hl
      · split at hl
        · rename_i hn
          cases hl
          exact ⟨20, by omega, true, rfl⟩
        · cases hl
    · have hl := (hlocking n).fanout channels hsub
      rw [Machine.Path.state_ofRun, lock_disconnect] at hl
      split at hl
      · exact ⟨5, by omega, true, rfl⟩
      · split at hl <;> cases hl
  have hending : Server.Ending 0
      (Machine.stateAfter Server.step (.initial "") disconnectActs 16) := by
    constructor <;> decide +kernel
  obtain ⟨k, hk, hdone, -⟩ := (connections_settle (Machine.stateAfter_zero _ _) hx).2 16 hending
  exact ⟨Machine.Path.ofRun hr, rfl, rfl, hending, k, hk, hdone⟩

end MarketData.Gateway
