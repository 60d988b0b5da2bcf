import Batsim.Turns
import Batsim.Threads

/-!
Which events each message makes the server append, and when.
-/

namespace Batsim

open Checked Sim StepSystem

/-- The notification at the end of the submissions of a kind. -/
def SubmitterType.endNotification : SubmitterType → ProtocolEvent
  | .jobSubmitter => .notify "no_more_static_job_to_submit"
  | .eventSubmitter => .notify "no_more_external_event_to_occur"

/-- The events that the server may append while it handles a message. -/
def IPMessage.mayAppend : IPMessage → ProtocolEvent → Bool
  | .jobSubmitted _ jobs, .jobSubmitted id _ _ => jobs.any fun p => p.id = id
  | .jobRegisteredByDP p, .jobSubmitted id _ _ => p.id = id
  | .jobCompleted p, .jobCompleted id _ _ _ => p.id = id
  | .killingDone _ _, .jobCompleted _ _ _ _ => true
  | .killingDone ids _, .jobKilled ids' => ids' = ids
  | .pstateModification _ _, .resourceStateChanged _ _ => true
  | .switchedOn _ _, .resourceStateChanged _ _ => true
  | .switchedOff _ _, .resourceStateChanged _ _ => true
  | .waitingDone, .requestedCall => true
  | .submitterBye _ type _, e => e = type.endNotification
  | .fromJobMsg id message, .fromJobMessage id' message' => id' = id ∧ message' = message
  | .schedTellMeEnergy, .answerEnergy => true
  | .schedTellMeCarbonFootprint, .answerCarbonFootprint => true
  | .schedTellMeWaterFootprint, .answerWaterFootprint => true
  | .eventOccurred _ _, e => e.isExternal
  | _, _ => false

/-- `s'` comes from `s` by appending events that satisfy `P`, at the date of the clock. -/
structure Appends (P : ProtocolEvent → Prop) (s s' : Sim) : Prop where
  clock : s'.clock = s.clock
  events : ∃ es, s'.history.appended = s.history.appended ++ es ∧
    ∀ e ∈ es, e.timestamp = s.clock ∧ P e.event

namespace Appends

variable {P Q : ProtocolEvent → Prop} {s s' s'' : Sim}

theorem nothing (hclock : s'.clock = s.clock)
    (happended : s'.history.appended = s.history.appended) : Appends P s s' :=
  ⟨hclock, [], by simp [happended], by simp⟩

theorem refl (s : Sim) : Appends P s s := nothing rfl rfl

theorem one {e : ProtocolEvent} (hclock : s'.clock = s.clock)
    (happended : s'.history.appended = s.history.appended ++ [⟨s.clock, e⟩]) (he : P e) :
    Appends P s s' :=
  ⟨hclock, _, happended, by simpa using he⟩

theorem trans (h : Appends P s s') (h' : Appends P s' s'') : Appends P s s'' := by
  obtain ⟨es, happended, hes⟩ := h.events
  obtain ⟨es', happended', hes'⟩ := h'.events
  refine ⟨h'.clock.trans h.clock, es ++ es', ?_, ?_⟩
  · rw [happended', happended, List.append_assoc]
  · intro e he
    rcases List.mem_append.mp he with he | he
    · exact hes e he
    · rw [← h.clock]
      exact hes' e he

theorem mono (h : Appends P s s') (himp : ∀ e, P e → Q e) : Appends Q s s' := by
  obtain ⟨es, happended, hes⟩ := h.events
  exact ⟨h.clock, es, happended, fun e he => ⟨(hes e he).1, himp _ (hes e he).2⟩⟩

theorem forEach {α : Type} {f : Sim → α → Except String Sim} {xs : List α}
    (hstep : ∀ x ∈ xs, ∀ t t', f t x = .ok t' → Appends P t t')
    (h : Checked.forEach f s xs = .ok s') : Appends P s s' := by
  refine forEach_preserves (P := fun t => Appends P s t) (refl s) ?_ h
  intro x hx t t' ht hrun
  exact ht.trans (hstep x hx t t' hrun)

theorem of_append {e : ProtocolEvent} (he : P e) (h : s.append e = .ok s') : Appends P s s' := by
  obtain ⟨-, rfl⟩ := append_eq_ok.mp h
  exact one rfl rfl he

end Appends

/-! ### One lemma for each handler that appends -/

section handlers

variable {cfg : Config} {s s' : Sim}

theorem submit_appended (s : Sim) (submitter : Submitter) (p : JobPtr) :
    (s.submit submitter p).clock = s.clock ∧
      (s.submit submitter p).history.appended = s.history.appended := by
  unfold submit track noteResubmission
  split <;> split <;> exact ⟨rfl, rfl⟩

theorem submitJob_appends {submitter : Submitter} {p : JobPtr}
    (h : submitJob cfg submitter s p = .ok s') :
    Appends (fun e => ∃ job profile, e = .jobSubmitted p.id job profile) s s' := by
  obtain ⟨-, job, profile, rfl⟩ := submitJob_effect h
  obtain ⟨hclock, happended⟩ := submit_appended s submitter p
  refine .one hclock ?_ ⟨job, profile, rfl⟩
  rw [← happended, ← hclock]
  rfl

theorem serverOnJobSubmitted_appends {name : String} {jobs : List JobPtr}
    (h : serverOnJobSubmitted cfg s name jobs = .ok s') :
    Appends (fun e => IPMessage.mayAppend (.jobSubmitted name jobs) e = true) s s' := by
  obtain rfl | ⟨submitter, -, hrun⟩ := serverOnJobSubmitted_effect h
  · exact .refl _
  · refine .forEach ?_ hrun
    intro p hp t t' hstep
    refine (submitJob_appends hstep).mono ?_
    rintro e ⟨job, profile, rfl⟩
    simp only [IPMessage.mayAppend, List.any_eq_true, decide_eq_true_eq]
    exact ⟨p, hp, rfl⟩

theorem serverOnRegisterJob_appends {p : JobPtr} (h : serverOnRegisterJob cfg s p = .ok s') :
    Appends (fun e => IPMessage.mayAppend (.jobRegisteredByDP p) e = true) s s' := by
  obtain rfl | ⟨job, profile, rfl⟩ := serverOnRegisterJob_effect h
  · exact .nothing rfl rfl
  · exact .one rfl rfl (by simp [IPMessage.mayAppend])

theorem countJobCompletion_appends {p : JobPtr} (h : countJobCompletion s p = .ok s') :
    Appends (fun e => IPMessage.mayAppend (.jobCompleted p) e = true) s s' := by
  obtain ⟨-, -, rfl⟩ := countJobCompletion_effect h
  exact .one rfl rfl (by simp [IPMessage.mayAppend, completionOf])

theorem serverOnJobCompleted_appends {p : JobPtr} (h : serverOnJobCompleted s p = .ok s') :
    Appends (fun e => IPMessage.mayAppend (.jobCompleted p) e = true) s s' := by
  obtain ⟨submitter, -, rfl⟩ | ⟨-, hcount⟩ := serverOnJobCompleted_effect h
  · exact .nothing rfl rfl
  · exact countJobCompletion_appends hcount

theorem countKilledJob_appends {id : JobIdentifier} (h : countKilledJob s id = .ok s') :
    Appends (fun e => ∃ q state alloc code, e = .jobCompleted q state alloc code) s s' := by
  obtain ⟨p, -, ⟨-, rfl⟩ | ⟨-, -, rfl⟩⟩ := countKilledJob_effect h
  · exact .refl _
  · exact .one rfl rfl ⟨_, _, _, _, rfl⟩

theorem serverOnKillingDone_appends {ids : List JobIdentifier} {acknowledge : Bool}
    (h : serverOnKillingDone s ids acknowledge = .ok s') :
    Appends (fun e => IPMessage.mayAppend (.killingDone ids acknowledge) e = true) s s' := by
  obtain ⟨t, ht, rfl⟩ := serverOnKillingDone_effect h
  have hloop : Appends (fun e => IPMessage.mayAppend (.killingDone ids acknowledge) e = true) s t := by
    refine .forEach ?_ ht
    intro id _ u u' hstep
    refine (countKilledJob_appends hstep).mono ?_
    rintro e ⟨q, state, alloc, code, rfl⟩
    rfl
  cases acknowledge with
  | false => exact hloop.trans (.nothing rfl rfl)
  | true => exact hloop.trans (.one (e := .jobKilled ids) rfl rfl (by simp [IPMessage.mayAppend]))

theorem occur_appends {e : ExternalEvent} (h : occur s e = .ok s') :
    Appends (fun e => e.isExternal = true) s s' := by
  obtain ⟨t, ht, hs'⟩ := occur_effect h
  have hmake : ∀ {make : Sim → Nat → Except String Sim} {ids : List Nat},
      make = makeAvailable ∨ make = makeUnavailable → forEach make s ids = .ok t →
        Appends (fun e : ProtocolEvent => e.isExternal = true) s t := by
    intro make ids hmake hrun
    refine .forEach ?_ hrun
    intro id _ u u' hstep
    obtain rfl | rfl := hmake
    · obtain ⟨_, machines, -, -, -, rfl⟩ := makeAvailable_effect hstep
      exact .nothing rfl rfl
    · obtain ⟨_, machines, -, -, -, rfl⟩ := makeUnavailable_effect hstep
      exact .nothing rfl rfl
  have hfirst : Appends (fun e : ProtocolEvent => e.isExternal = true) s t := by
    obtain rfl | ⟨ids, -, hrun⟩ | ⟨ids, -, hrun⟩ := ht
    · exact .refl _
    · exact hmake (.inl rfl) hrun
    · exact hmake (.inr rfl) hrun
  obtain rfl | ⟨event, hevent, rfl⟩ := hs'
  · exact hfirst
  · exact hfirst.trans (.one rfl rfl hevent)

theorem acknowledge_appends (s : Sim) (pstate : Int) (done : Option IntervalSet) :
    Appends (fun e => ∃ machines state, e = .resourceStateChanged machines state) s
      (s.acknowledge pstate done) := by
  cases done with
  | none => exact .refl s
  | some all => exact .one rfl rfl ⟨_, _, rfl⟩

theorem switchMachine_appends {newPstate : Int} {id : Nat}
    (h : switchMachine newPstate s id = .ok s') :
    Appends (fun e => ∃ machines state, e = .resourceStateChanged machines state) s s' := by
  obtain ⟨m, -, ⟨-, -, m', switches, done, -, -, rfl⟩ | ⟨-, -, machines, -, rfl⟩ |
    ⟨-, -, machines, -, rfl⟩ | ⟨-, rfl⟩⟩ := switchMachine_effect h
  · have hset : Appends (fun e => ∃ machines state, e = .resourceStateChanged machines state) s
        (s.setSwitches (s.machines.put id m') switches) := .nothing rfl rfl
    exact hset.trans (acknowledge_appends _ newPstate done)
  · exact .nothing rfl rfl
  · exact .nothing rfl rfl
  · exact .nothing rfl rfl

theorem serverOnPstateModification_appends {ids : IntervalSet} {newPstate : Int}
    (h : serverOnPstateModification cfg s ids newPstate = .ok s') :
    Appends (fun e => IPMessage.mayAppend (.pstateModification ids newPstate) e = true) s s' := by
  obtain ⟨-, first, m, -, hrun⟩ := serverOnPstateModification_effect h
  have hloop := Appends.forEach (fun id _ t t' hstep => switchMachine_appends hstep) hrun
  have hfirst : Appends (fun e => IPMessage.mayAppend (.pstateModification ids newPstate) e = true)
      s (s.requestSwitches (s.machines.put first (m.touchPstate newPstate)) ids newPstate) :=
    .nothing rfl rfl
  refine hfirst.trans (hloop.mono ?_)
  rintro e ⟨machines, state, rfl⟩
  rfl

theorem serverOnSwitched_appends {id : Nat} {newPstate : Int}
    (h : serverOnSwitched s id newPstate = .ok s') :
    Appends (fun e => ∃ machines state, e = .resourceStateChanged machines state) s s' := by
  obtain ⟨m, switches, done, -, -, -, rfl⟩ := serverOnSwitched_cases h
  have hack := acknowledge_appends { s with currentSwitches := switches } newPstate done
  exact ⟨hack.clock, hack.events⟩

/-- The goodbye of a submitter is told to the scheduler when it is the last one of its kind. -/
theorem serverOnSubmitterBye_appended {name : String} {type : SubmitterType} {isWorkflow : Bool}
    (h : serverOnSubmitterBye s name type isWorkflow = .ok s') :
    s'.clock = s.clock ∧ s'.history.appended = s.history.appended ++
      if (s.data.submitterCounters type).nbSubmittersFinished + 1 =
          (s.data.submitterCounters type).expectedNbSubmitters then
        [⟨s.clock, type.endNotification⟩] else [] := by
  simp only [serverOnSubmitterBye, bind_eq_ok, xbtAssert_eq_ok] at h
  obtain ⟨_, -, h⟩ := h
  by_cases hlast : (s.data.submitterCounters type).nbSubmittersFinished + 1 =
      (s.data.submitterCounters type).expectedNbSubmitters
  · cases type with
    | eventSubmitter =>
      simp only [hlast, decide_true, if_true, append_eq_ok] at h
      obtain ⟨-, rfl⟩ := h
      simp only [if_pos hlast]
      exact ⟨rfl, rfl⟩
    | jobSubmitter =>
      simp only [hlast, decide_true, if_true, bind_eq_ok, append_eq_ok, Except.ok.injEq] at h
      obtain ⟨_, ⟨-, rfl⟩, rfl⟩ := h
      simp only [if_pos hlast]
      cases isWorkflow <;> exact ⟨rfl, rfl⟩
  · cases type with
    | eventSubmitter =>
      simp only [hlast, decide_false, Bool.false_eq_true, if_false, Except.ok.injEq] at h
      subst h
      simp [hlast]
    | jobSubmitter =>
      simp only [hlast, decide_false, Bool.false_eq_true, if_false, bind_eq_ok,
        Except.ok.injEq] at h
      obtain ⟨_, rfl, rfl⟩ := h
      cases isWorkflow <;> simp [hlast]

/-- The request to call the scheduler is told at once. -/
theorem serverOnWaitingDone_appended (h : serverOnWaitingDone s = .ok s') :
    s'.clock = s.clock ∧ s'.history.appended = s.history.appended ++ [⟨s.clock, .requestedCall⟩] := by
  simp only [serverOnWaitingDone, bind_eq_ok, append_eq_ok, Except.ok.injEq] at h
  obtain ⟨_, ⟨-, rfl⟩, rfl⟩ := h
  exact ⟨rfl, rfl⟩

theorem serverOnKillJobs_appended {ids : List JobIdentifier}
    (h : serverOnKillJobs s ids = .ok s') :
    s'.clock = s.clock ∧ s'.history.appended = s.history.appended := by
  obtain ⟨t, toKill, hrun, rfl⟩ := serverOnKillJobs_effect h
  have hloop : t.clock = s.clock ∧ t.history.appended = s.history.appended := by
    refine forEach_preserves (P := fun acc : Sim × List JobIdentifier =>
      acc.1.clock = s.clock ∧ acc.1.history.appended = s.history.appended) ⟨rfl, rfl⟩ ?_ hrun
    rintro id - acc acc' hacc hstep
    obtain ⟨p, -, ⟨-, rfl⟩ | ⟨-, -, rfl⟩⟩ := requestKill_effect hstep
    · exact hacc
    · exact hacc
  unfold launchKiller
  split <;> exact hloop

/-- What the server appends while it handles a message is what the message may make it append. -/
theorem handleMessage_appends {m : IPMessage} (h : handleMessage cfg s m = .ok s') :
    Appends (fun e => m.mayAppend e = true) s s' := by
  cases m with
  | jobSubmitted name jobs => exact serverOnJobSubmitted_appends h
  | jobRegisteredByDP p => exact serverOnRegisterJob_appends h
  | jobCompleted p => exact serverOnJobCompleted_appends h
  | pstateModification ids pstate => exact serverOnPstateModification_appends h
  | switchedOn id pstate | switchedOff id pstate =>
    refine (serverOnSwitched_appends h).mono ?_
    rintro e ⟨machines, state, rfl⟩
    rfl
  | waitingDone =>
    obtain ⟨hclock, happended⟩ := serverOnWaitingDone_appended h
    exact .one hclock happended rfl
  | killingDone ids acknowledge => exact serverOnKillingDone_appends h
  | submitterBye name type isWorkflow =>
    obtain ⟨hclock, happended⟩ := serverOnSubmitterBye_appended h
    split at happended
    · exact .one hclock happended (by simp [IPMessage.mayAppend])
    · exact .nothing hclock (by simpa using happended)
  | fromJobMsg id message =>
    simp only [handleMessage, serverOnFromJobMsg, bind_eq_ok] at h
    obtain ⟨_, -, h⟩ := h
    exact .of_append (by simp [IPMessage.mayAppend]) h
  | schedTellMeEnergy =>
    simp only [handleMessage, serverOnSchedTellMeEnergy, bind_eq_ok] at h
    obtain ⟨_, -, h⟩ := h
    exact .of_append rfl h
  | schedTellMeCarbonFootprint =>
    simp only [handleMessage, serverOnSchedTellMeCarbonFootprint, bind_eq_ok] at h
    obtain ⟨_, -, h⟩ := h
    exact .of_append rfl h
  | schedTellMeWaterFootprint =>
    simp only [handleMessage, serverOnSchedTellMeWaterFootprint, bind_eq_ok] at h
    obtain ⟨_, -, h⟩ := h
    exact .of_append rfl h
  | eventOccurred name events =>
    have hloop : Appends (fun e => e.isExternal = true) s s' :=
      .forEach (fun e _ t t' hstep => occur_appends hstep) h
    exact hloop.mono fun e he => by simpa [IPMessage.mayAppend] using he
  -- the other handlers append nothing
  | profileRegisteredByDP _ _ =>
    simp only [handleMessage, serverOnRegisterProfile, Except.ok.injEq] at h
    exact h ▸ .refl s
  | schedExecuteJob a =>
    obtain ⟨-, -, -, rfl⟩ := serverOnExecuteJob_effect h
    exact .nothing rfl rfl
  | schedChangeJobState id state =>
    obtain ⟨p, -, -, -, -, rfl⟩ := serverOnChangeJobState_effect h
    exact .nothing rfl rfl
  | toJobMsg id message =>
    simp only [handleMessage, serverOnToJobMsg, bind_eq_ok, Except.ok.injEq] at h
    obtain ⟨p, -, rfl⟩ := h
    exact .nothing rfl rfl
  | schedRejectJob id =>
    obtain ⟨p, -, -, rfl⟩ := serverOnRejectJob_effect h
    exact .nothing rfl rfl
  | schedKillJob ids =>
    obtain ⟨hclock, happended⟩ := serverOnKillJobs_appended h
    exact .nothing hclock happended
  | schedCallMeLater date =>
    obtain ⟨-, rfl⟩ := serverOnCallMeLater_effect h
    exact .nothing rfl rfl
  | schedSetJobMetadata id metadata =>
    simp only [handleMessage, serverOnSetJobMetadata, bind_eq_ok, Except.ok.injEq] at h
    obtain ⟨p, -, rfl⟩ := h
    exact .nothing rfl rfl
  | schedReady =>
    simp only [handleMessage, serverOnSchedReady, Except.ok.injEq] at h
    exact h ▸ .nothing rfl rfl
  | submitterHello name callback type =>
    simp only [handleMessage, serverOnSubmitterHello, bind_eq_ok, xbtAssert_eq_ok,
      Except.ok.injEq] at h
    obtain ⟨_, -, _, -, rfl⟩ := h
    exact .nothing rfl rfl
  | endDynamicRegister =>
    simp only [handleMessage, serverOnEndDynamicRegister, Except.ok.injEq] at h
    exact h ▸ .nothing rfl rfl
  | continueDynamicRegister =>
    simp only [handleMessage, serverOnContinueDynamicRegister, Except.ok.injEq] at h
    exact h ▸ .nothing rfl rfl

end handlers

/-! ### Steps -/

/-- What a step does to the messages handled and to the events appended: nothing, the start of the
simulation, or a whole turn, whose end may tell the scheduler that the simulation ends. -/
inductive StepAppends (cfg : Config) (s s' : Sim) : Prop
  | nothing : s'.history.handled = s.history.handled →
      s'.history.appended = s.history.appended → StepAppends cfg s s'
  | start : s'.history.handled = s.history.handled →
      s'.history.appended = s.history.appended ++ [⟨s.clock, .simulationBegins⟩] →
      StepAppends cfg s s'
  | turn (m : IPMessage) (es last : List DatedEvent) :
      s'.history.handled = s.history.handled ++ [m] →
      s'.history.appended = s.history.appended ++ (es ++ last) →
      (∀ e ∈ es, e.timestamp = s.clock ∧ m.mayAppend e.event = true) →
      (last = [] ∨ last = [⟨s.clock, .simulationEnds⟩]) → StepAppends cfg s s'

theorem endOfTurn_appended {cfg : Config} {u s' : Sim} (h : endOfTurn cfg u = .ok s') :
    s'.history.handled = u.history.handled ∧ s'.clock = u.clock ∧
      ∃ last, s'.history.appended = u.history.appended ++ last ∧
        (last = [] ∨ last = [⟨u.clock, .simulationEnds⟩]) := by
  obtain rfl | ⟨workloads, hflush⟩ | hfinish := endOfTurn_cases h
  · exact ⟨rfl, rfl, [], by simp, .inl rfl⟩
  · rw [hflush.eq]
    exact ⟨rfl, rfl, [], by simp [messageSent], .inl rfl⟩
  · rw [hfinish.eq]
    exact ⟨rfl, rfl, _, rfl, .inr rfl⟩

/-- The end of the turn of the message `m`. -/
theorem StepAppends.of_turn {cfg : Config} {s t s' : Sim} {m : IPMessage}
    (happends : Appends (fun e => m.mayAppend e = true) s t)
    (hhandled : t.history.handled = s.history.handled)
    (hend : endOfTurn cfg (t.noteHandled m) = .ok s') : StepAppends cfg s s' := by
  obtain ⟨es, happended, hes⟩ := happends.events
  obtain ⟨hhandled', -, last, happended', hlast⟩ := endOfTurn_appended hend
  refine .turn m es last ?_ ?_ hes ?_
  · rw [hhandled', ← hhandled]
    rfl
  · rw [happended', ← List.append_assoc, ← happended]
    rfl
  · rw [← happends.clock]
    exact hlast

/-- Time passes, and actors are woken, only when no actor can run. -/
theorem run_clock {cfg : Config} {guard : Sim → Choice → Prop} {s s' : Sim} {o : Outcome}
    (hr : Reaches (batsim cfg) guard s) (hstep : (batsim cfg).step s (.run o) = .ok s') :
    s'.clock = s.clock ∧ ∀ e ∈ s'.pool.woken, e ∈ s.pool.woken := by
  cases step_kind hstep with
  | turn o m pool hnext hturn =>
    obtain ⟨ts, bs, hpool, -⟩ := turn_pool hturn
    have hwoken : s'.pool.woken = pool.woken := by rw [hpool]
    refine ⟨?_, fun e he => Pool.mem_woken_of_next? hnext (hwoken ▸ he)⟩
    obtain ⟨t, ht, ⟨-, rfl⟩ | ⟨-, hend⟩⟩ := turn_cases hturn
    all_goals obtain ⟨_, hhandled⟩ := handleMessage_effect ht
    · exact hhandled.keeps.clock
    · exact (endOfTurn_appended hend).2.1.trans hhandled.keeps.clock
  | callback o p mailbox pool hnext hrun =>
    obtain ⟨ts, hpool, -⟩ := callback_pool hrun
    have hwoken : s'.pool.woken = pool.woken := by rw [hpool]
    refine ⟨?_, fun e he => Pool.mem_woken_of_next? hnext (hwoken ▸ he)⟩
    obtain ⟨t, ht, hend⟩ := serverCallback_cases hrun
    exact (endOfTurn_appended hend).2.1.trans (serverOnCallbackReceived_frame ht).1.clock
  | start o pool hnext hrun =>
    rw [serverProcess_effect hrun]
    exact ⟨rfl, fun e he => Pool.mem_woken_of_next? hnext he⟩
  | actor o t pool ht hnext hrun =>
    have howned := reaches_owned hr
    obtain ⟨hmoves, hkeeps⟩ := runThread_moves (s := { s with pool := pool }) howned ht hrun
    exact ⟨hkeeps.clock, fun e he => Pool.mem_woken_of_next? hnext (hmoves.mem_woken he)⟩

theorem step_appends {cfg : Config} {guard : Sim → Choice → Prop} {s s' : Sim} {c : Choice}
    (hr : Reaches (batsim cfg) guard s) (hstep : (batsim cfg).step s c = .ok s') :
    StepAppends cfg s s' := by
  cases step_kind hstep with
  | solve clock receive wakes rest order pool hcan hsolve hs' =>
    subst hs'
    exact .nothing rfl rfl
  | turn o m pool hnext hturn =>
    obtain ⟨t, ht, hor⟩ := turn_cases hturn
    have happends := handleMessage_appends ht
    obtain ⟨_, hhandled⟩ := handleMessage_effect ht
    obtain ⟨hback, rfl⟩ | ⟨-, hend⟩ := hor
    · obtain ⟨p, submitter, rfl, horigin, rfl⟩ := handleMessage_callsBack hback ht
      exact .nothing rfl rfl
    · have happends' : Appends (fun e => m.mayAppend e = true) s t :=
        ⟨happends.clock, happends.events⟩
      exact .of_turn happends' hhandled.keeps.handled hend
  | callback o p mailbox pool hnext hrun =>
    obtain ⟨t, ht, hend⟩ := serverCallback_cases hrun
    have happends : Appends (fun e => IPMessage.mayAppend (.jobCompleted p) e = true) s t := by
      have hcount := countJobCompletion_appends ht
      exact ⟨hcount.clock, hcount.events⟩
    exact .of_turn happends (serverOnCallbackReceived_frame ht).1.handled hend
  | start o pool hnext hrun =>
    rw [serverProcess_effect hrun]
    exact .start rfl rfl
  | actor o t pool ht hnext hrun =>
    have howned := reaches_owned hr
    obtain ⟨-, hkeeps⟩ := runThread_moves (s := { s with pool := pool }) howned ht hrun
    exact .nothing hkeeps.handled hkeeps.appended

end Batsim
