import Batsim.Server

/-!
What the handlers of the server leave alone, and what each of them does to the rest.
-/

namespace Batsim

open Checked

/-- The events that tell how jobs end and that the simulation ends. -/
def ProtocolEvent.isAccount : ProtocolEvent → Bool
  | .simulationEnds | .jobCompleted _ _ _ _ | .jobKilled _ => true
  | _ => false

/-- The events that tell about external events. -/
def ProtocolEvent.isExternal : ProtocolEvent → Bool
  | .notifyResourceEvent _ _ | .notifyGenericEvent _ => true
  | _ => false

theorem ProtocolEvent.isAccount_of_isExternal {e : ProtocolEvent} (h : e.isExternal = true) :
    e.isAccount = false := by
  cases e <;> first | rfl | cases h

namespace Sim

/-- The simulation once the event is appended. -/
def logged (s : Sim) (e : ProtocolEvent) : Sim :=
  { s with
    writer := { events := s.writer.events ++ [⟨s.clock, e⟩], isEmpty := false, lastDate := s.clock }
    history := { s.history with appended := s.history.appended ++ [⟨s.clock, e⟩] } }

theorem append_eq_ok {s s' : Sim} {e : ProtocolEvent} :
    s.append e = .ok s' ↔ s.writer.lastDate ≤ s.clock ∧ s' = s.logged e := by
  simp only [append, bind_eq_ok, ProtocolWriter.append_eq_ok, Except.ok.injEq]
  constructor
  · rintro ⟨_, ⟨hdate, rfl⟩, rfl⟩
    exact ⟨hdate, rfl⟩
  · rintro ⟨hdate, rfl⟩
    exact ⟨_, ⟨hdate, rfl⟩, rfl⟩

/-- `s'` comes from `s` by appending the events `es`. -/
structure Logs (s s' : Sim) (es : List DatedEvent) : Prop where
  appended : s'.history.appended = s.history.appended ++ es
  events : s'.writer.events = s.writer.events ++ es
  isEmpty : s'.writer.isEmpty = (s.writer.isEmpty && es.isEmpty)

theorem Logs.nil {s s' : Sim} (happended : s'.history.appended = s.history.appended)
    (hwriter : s'.writer = s.writer) : Logs s s' [] :=
  ⟨by simp [happended], by simp [hwriter], by simp [hwriter]⟩

theorem Logs.trans {s s' s'' : Sim} {es es' : List DatedEvent} (h : Logs s s' es)
    (h' : Logs s' s'' es') : Logs s s'' (es ++ es') where
  appended := by rw [h'.appended, h.appended, List.append_assoc]
  events := by rw [h'.events, h.events, List.append_assoc]
  isEmpty := by
    rw [h'.isEmpty, h.isEmpty, Bool.and_assoc]
    cases es <;> cases es' <;> rfl

theorem logs_logged (s : Sim) (e : ProtocolEvent) : Logs s (s.logged e) [⟨s.clock, e⟩] :=
  ⟨rfl, rfl, by simp [logged]⟩

/-- What no handler changes: only the end of a turn sends a message, and only the actors touch
the tasks and call the machines at the start and the end of a job. -/
structure Keeps (s s' : Sim) : Prop where
  clock : s'.clock = s.clock
  woken : s'.pool.woken = s.pool.woken
  mailbox : s'.pool.mailbox = s.pool.mailbox
  workloads : s'.workloads = s.workloads
  ptask : s'.ptask = s.ptask
  exited : s'.exited = s.exited
  endOfSimulationSent : s'.data.endOfSimulationSent = s.data.endOfSimulationSent
  handled : s'.history.handled = s.history.handled
  runs : s'.history.runs = s.history.runs
  ends : s'.history.ends = s.history.ends
  silentEnds : s'.history.silentEnds = s.history.silentEnds
  sent : s'.history.sent = s.history.sent
  readyWhenSent : s'.history.readyWhenSent = s.history.readyWhenSent
  replies : s'.history.replies = s.history.replies
  logs : ∃ es, Logs s s' es ∧ ∀ e ∈ es, e.event ≠ .simulationEnds

/-- The jobs are as before, up to what only the scheduler and the jobs themselves read. -/
structure SameJobs (s s' : Sim) : Prop where
  state : ∀ p, (s'.job p).state = (s.job p).state
  killRequested : ∀ p, (s'.job p).killRequested = (s.job p).killRequested
  allocation : ∀ p, (s'.job p).allocation = (s.job p).allocation
  task : ∀ p, (s'.job p).task = (s.job p).task
  executionActors : ∀ p, (s'.job p).executionActors = (s.job p).executionActors
  nextActor : s'.nextActor = s.nextActor
  callbackBox : s'.callbackBox = s.callbackBox
  nbCompletedJobs : s'.data.nbCompletedJobs = s.data.nbCompletedJobs
  nbSubmittedJobs : s'.data.nbSubmittedJobs = s.data.nbSubmittedJobs
  nbRunningJobs : s'.data.nbRunningJobs = s.data.nbRunningJobs
  originOfJobs : s'.data.originOfJobs = s.data.originOfJobs
  jobsToBeDeleted : s'.data.jobsToBeDeleted = s.data.jobsToBeDeleted
  submitted : s'.history.submitted = s.history.submitted
  started : s'.history.started = s.history.started
  counted : s'.history.counted = s.history.counted
  pushed : s'.history.pushed = s.history.pushed
  resubmitted : s'.history.resubmitted = s.history.resubmitted
  tracked : s'.history.tracked = s.history.tracked
  callbacks : s'.history.callbacks = s.history.callbacks
  killRequests : s'.history.killRequests = s.history.killRequests
  countedKilled : s'.history.countedKilled = s.history.countedKilled
  accounts : ∃ es, Logs s s' es ∧ ∀ e ∈ es, e.event.isAccount = false

/-- The machines are as before. -/
structure SameMachines (s s' : Sim) : Prop where
  machines : s'.machines = s.machines
  unavailable : s'.history.unavailable = s.history.unavailable

/-- The submitters known to the server are as before. -/
structure SameSubmitters (s s' : Sim) : Prop where
  submitters : s'.data.submitters = s.data.submitters
  submitterCounters : s'.data.submitterCounters = s.data.submitterCounters
  nbWorkflowSubmittersFinished :
    s'.data.nbWorkflowSubmittersFinished = s.data.nbWorkflowSubmittersFinished

/-- The exchange with the scheduler is as before. -/
structure SameExchange (s s' : Sim) : Prop where
  schedReady : s'.data.schedReady = s.data.schedReady
  endOfSimulationAckReceived :
    s'.data.endOfSimulationAckReceived = s.data.endOfSimulationAckReceived

/-- The numbers of switches, waiters and killers are as before. -/
structure SameActivities (s s' : Sim) : Prop where
  nbSwitchingMachines : s'.data.nbSwitchingMachines = s.data.nbSwitchingMachines
  nbWaiters : s'.data.nbWaiters = s.data.nbWaiters
  nbKillers : s'.data.nbKillers = s.data.nbKillers

/-- All that `Keeps` is about. -/
def kept (s : Sim) :=
  (s.clock, s.pool.woken, s.pool.mailbox, s.workloads, s.ptask, s.exited,
    s.data.endOfSimulationSent, s.history.handled, s.history.runs, s.history.ends,
    s.history.silentEnds, s.history.sent, s.history.readyWhenSent, s.history.replies,
    s.history.appended, s.writer)

/-- All that `SameJobs` is about. -/
def accounted (s : Sim) :=
  (s.job, s.nextActor, s.callbackBox, s.data.nbCompletedJobs, s.data.nbSubmittedJobs,
    s.data.nbRunningJobs, s.data.originOfJobs, s.data.jobsToBeDeleted, s.history.submitted,
    s.history.started, s.history.counted, s.history.pushed, s.history.resubmitted,
    s.history.tracked, s.history.callbacks, s.history.killRequests, s.history.countedKilled,
    s.history.appended, s.writer)

section transitivity

variable {s s' s'' : Sim}

theorem Keeps.of_kept (h : s'.kept = s.kept) : Keeps s s' := by
  simp only [kept, Prod.mk.injEq] at h
  obtain ⟨hclock, hwoken, hmailbox, hworkloads, hptask, hexited, hsent, hhandled, hruns, hends,
    hsilent, hmessages, hready, hreplies, happended, hwriter⟩ := h
  exact ⟨hclock, hwoken, hmailbox, hworkloads, hptask, hexited, hsent, hhandled, hruns, hends,
    hsilent, hmessages, hready, hreplies, [], .nil happended hwriter, by simp⟩

theorem SameJobs.of_accounted (h : s'.accounted = s.accounted) : SameJobs s s' := by
  simp only [accounted, Prod.mk.injEq] at h
  obtain ⟨hjob, hactor, hbox, hcompleted, hsubmitted, hrunning, horigin, hdeleted, hsubmissions,
    hstarted, hcounted, hpushed, hresubmitted, htracked, hcallbacks, hkills, hkilled, happended,
    hwriter⟩ := h
  exact ⟨fun p => by rw [hjob], fun p => by rw [hjob], fun p => by rw [hjob], fun p => by rw [hjob],
    fun p => by rw [hjob], hactor, hbox, hcompleted, hsubmitted, hrunning, horigin, hdeleted,
    hsubmissions, hstarted, hcounted, hpushed, hresubmitted, htracked, hcallbacks, hkills, hkilled,
    [], .nil happended hwriter, by simp⟩

theorem Keeps.refl (s : Sim) : Keeps s s :=
  .of_kept rfl

theorem Keeps.trans (h : Keeps s s') (h' : Keeps s' s'') : Keeps s s'' := by
  obtain ⟨es, hlogs, hes⟩ := h.logs
  obtain ⟨es', hlogs', hes'⟩ := h'.logs
  refine ⟨h'.clock.trans h.clock, h'.woken.trans h.woken, h'.mailbox.trans h.mailbox,
    h'.workloads.trans h.workloads, h'.ptask.trans h.ptask, h'.exited.trans h.exited,
    h'.endOfSimulationSent.trans h.endOfSimulationSent, h'.handled.trans h.handled,
    h'.runs.trans h.runs, h'.ends.trans h.ends, h'.silentEnds.trans h.silentEnds,
    h'.sent.trans h.sent, h'.readyWhenSent.trans h.readyWhenSent, h'.replies.trans h.replies,
    es ++ es', hlogs.trans hlogs', ?_⟩
  intro e he
  exact (List.mem_append.mp he).elim (hes e) (hes' e)

theorem SameJobs.refl (s : Sim) : SameJobs s s :=
  .of_accounted rfl

theorem SameJobs.trans (h : SameJobs s s') (h' : SameJobs s' s'') : SameJobs s s'' := by
  obtain ⟨es, hlogs, hes⟩ := h.accounts
  obtain ⟨es', hlogs', hes'⟩ := h'.accounts
  refine ⟨fun p => (h'.state p).trans (h.state p),
    fun p => (h'.killRequested p).trans (h.killRequested p),
    fun p => (h'.allocation p).trans (h.allocation p), fun p => (h'.task p).trans (h.task p),
    fun p => (h'.executionActors p).trans (h.executionActors p), h'.nextActor.trans h.nextActor,
    h'.callbackBox.trans h.callbackBox, h'.nbCompletedJobs.trans h.nbCompletedJobs,
    h'.nbSubmittedJobs.trans h.nbSubmittedJobs, h'.nbRunningJobs.trans h.nbRunningJobs,
    h'.originOfJobs.trans h.originOfJobs, h'.jobsToBeDeleted.trans h.jobsToBeDeleted,
    h'.submitted.trans h.submitted, h'.started.trans h.started, h'.counted.trans h.counted,
    h'.pushed.trans h.pushed, h'.resubmitted.trans h.resubmitted, h'.tracked.trans h.tracked,
    h'.callbacks.trans h.callbacks, h'.killRequests.trans h.killRequests,
    h'.countedKilled.trans h.countedKilled, es ++ es', hlogs.trans hlogs', ?_⟩
  intro e he
  exact (List.mem_append.mp he).elim (hes e) (hes' e)

theorem SameMachines.refl (s : Sim) : SameMachines s s := ⟨rfl, rfl⟩

theorem SameMachines.trans (h : SameMachines s s') (h' : SameMachines s' s'') :
    SameMachines s s'' :=
  ⟨h'.machines.trans h.machines, h'.unavailable.trans h.unavailable⟩

theorem SameSubmitters.refl (s : Sim) : SameSubmitters s s := ⟨rfl, rfl, rfl⟩

theorem SameSubmitters.trans (h : SameSubmitters s s') (h' : SameSubmitters s' s'') :
    SameSubmitters s s'' :=
  ⟨h'.submitters.trans h.submitters, h'.submitterCounters.trans h.submitterCounters,
    h'.nbWorkflowSubmittersFinished.trans h.nbWorkflowSubmittersFinished⟩

theorem SameExchange.refl (s : Sim) : SameExchange s s := ⟨rfl, rfl⟩

theorem SameExchange.trans (h : SameExchange s s') (h' : SameExchange s' s'') :
    SameExchange s s'' :=
  ⟨h'.schedReady.trans h.schedReady,
    h'.endOfSimulationAckReceived.trans h.endOfSimulationAckReceived⟩

theorem SameActivities.refl (s : Sim) : SameActivities s s := ⟨rfl, rfl, rfl⟩

theorem SameActivities.trans (h : SameActivities s s') (h' : SameActivities s' s'') :
    SameActivities s s'' :=
  ⟨h'.nbSwitchingMachines.trans h.nbSwitchingMachines, h'.nbWaiters.trans h.nbWaiters,
    h'.nbKillers.trans h.nbKillers⟩

/-- Nothing changed that jobs, machines or actors depend on. -/
structure Quiet (s s' : Sim) : Prop where
  keeps : Keeps s s'
  jobs : SameJobs s s'
  machines : SameMachines s s'
  pool : s'.pool = s.pool

theorem Quiet.refl (s : Sim) : Quiet s s := ⟨.refl s, .refl s, .refl s, rfl⟩

theorem Quiet.trans (h : Quiet s s') (h' : Quiet s' s'') : Quiet s s'' :=
  ⟨h.keeps.trans h'.keeps, h.jobs.trans h'.jobs, h.machines.trans h'.machines,
    h'.pool.trans h.pool⟩

end transitivity

theorem keeps_logged (s : Sim) {e : ProtocolEvent} (he : e ≠ .simulationEnds) :
    Keeps s (s.logged e) :=
  ⟨rfl, rfl, rfl, rfl, rfl, rfl, rfl, rfl, rfl, rfl, rfl, rfl, rfl, rfl,
    _, logs_logged s e, by simpa using he⟩

theorem quiet_logged (s : Sim) {e : ProtocolEvent} (he : e.isAccount = false) :
    Quiet s (s.logged e) where
  keeps := keeps_logged s (by rintro rfl; cases he)
  jobs := ⟨fun _ => rfl, fun _ => rfl, fun _ => rfl, fun _ => rfl, fun _ => rfl, rfl, rfl, rfl,
    rfl, rfl, rfl, rfl, rfl, rfl, rfl, rfl, rfl, rfl, rfl, rfl, rfl, _, logs_logged s e,
    by simpa using he⟩
  machines := ⟨rfl, rfl⟩
  pool := rfl

theorem quiet_append {s s' : Sim} {e : ProtocolEvent} (h : s.append e = .ok s')
    (he : e.isAccount = false) : Quiet s s' ∧ SameSubmitters s s' ∧ SameExchange s s' ∧
      SameActivities s s' := by
  obtain ⟨-, rfl⟩ := append_eq_ok.mp h
  exact ⟨quiet_logged s he, ⟨rfl, rfl, rfl⟩, ⟨rfl, rfl⟩, ⟨rfl, rfl, rfl⟩⟩

/-- A change of the server's data that nothing depends on. -/
theorem quiet_data (s : Sim) (d : ServerData) (switches : CurrentSwitches) (finished : Bool)
    (hend : d.endOfSimulationSent = s.data.endOfSimulationSent)
    (hcompleted : d.nbCompletedJobs = s.data.nbCompletedJobs)
    (hsubmitted : d.nbSubmittedJobs = s.data.nbSubmittedJobs)
    (hrunning : d.nbRunningJobs = s.data.nbRunningJobs)
    (horigin : d.originOfJobs = s.data.originOfJobs)
    (hdeleted : d.jobsToBeDeleted = s.data.jobsToBeDeleted) :
    Quiet s { s with
      data := d
      currentSwitches := switches
      registrationSchedFinished := finished } where
  keeps := ⟨rfl, rfl, rfl, rfl, rfl, rfl, hend, rfl, rfl, rfl, rfl, rfl, rfl, rfl, [],
    .nil rfl rfl, by simp⟩
  jobs := ⟨fun _ => rfl, fun _ => rfl, fun _ => rfl, fun _ => rfl, fun _ => rfl, rfl, rfl,
    hcompleted, hsubmitted, hrunning, horigin, hdeleted, rfl, rfl, rfl, rfl, rfl, rfl, rfl, rfl,
    rfl, [], .nil rfl rfl, by simp⟩
  machines := ⟨rfl, rfl⟩
  pool := rfl

/-- A change of a job that nothing depends on. -/
theorem quiet_setJob (s : Sim) (p : JobPtr) (j : Job) (hstate : j.state = (s.job p).state)
    (hkill : j.killRequested = (s.job p).killRequested)
    (halloc : j.allocation = (s.job p).allocation) (htask : j.task = (s.job p).task)
    (hactors : j.executionActors = (s.job p).executionActors) : Quiet s (s.setJob p j) := by
  have hjob : ∀ {α : Type} (f : Job → α), f j = f (s.job p) →
      ∀ q, f ((s.setJob p j).job q) = f (s.job q) := by
    intro α f hf q
    by_cases hq : q = p
    · simp [setJob, hq, hf]
    · simp [setJob, hq]
  exact ⟨.of_kept rfl, ⟨hjob _ hstate, hjob _ hkill, hjob _ halloc, hjob _ htask, hjob _ hactors, rfl, rfl,
    rfl, rfl, rfl, rfl, rfl, rfl, rfl, rfl, rfl, rfl, rfl, rfl, rfl, rfl, [], .nil rfl rfl,
    by simp⟩, ⟨rfl, rfl⟩, rfl⟩

end Sim

open Sim

/-! ### Messages about nobody's job -/

theorem registeredJob_eq_ok {s : Sim} {id : JobIdentifier} {msg : String} {p : JobPtr} :
    registeredJob s id msg = .ok p ↔ s.jobAt id = .ok p := by
  simp only [registeredJob, bind_eq_ok, xbtAssert_eq_ok]
  constructor
  · rintro ⟨_, -, _, -, h⟩
    exact h
  · intro h
    refine ⟨true, ?_, (), rfl, h⟩
    obtain ⟨wl, hwl, hp⟩ := Workloads.jobAt_eq_ok.mp h
    exact Workloads.jobIsRegistered_eq_ok.mpr
      ⟨wl, hwl, Jobs.exists?_eq_true.mpr (wl.jobs.met_of_lookup _ _ hp)⟩

/-- A submitter says hello: only the server's view of the submitters changes. -/
theorem serverOnSubmitterHello_effect {s s' : Sim} {name : String} {callback : Bool}
    {type : SubmitterType} (h : serverOnSubmitterHello s name callback type = .ok s') :
    s.data.endOfSimulationSent = false ∧ s.data.submitters.lookup name = none ∧
      s'.data.submitters = s.data.submitters.insert name ⟨name, callback⟩ ∧
      (∀ t, (s'.data.submitterCounters t).nbSubmittersFinished =
        (s.data.submitterCounters t).nbSubmittersFinished) ∧
      (∀ t, (s'.data.submitterCounters t).expectedNbSubmitters =
        (s.data.submitterCounters t).expectedNbSubmitters) ∧
      s'.data.nbWorkflowSubmittersFinished = s.data.nbWorkflowSubmittersFinished ∧
      Quiet s s' ∧ SameExchange s s' ∧ SameActivities s s' := by
  simp only [serverOnSubmitterHello, bind_eq_ok, xbtAssert_eq_ok, Except.ok.injEq] at h
  obtain ⟨_, hend, _, hname, rfl⟩ := h
  refine ⟨hend, hname, rfl, fun t => ?_, fun t => ?_, rfl,
    quiet_data s _ _ _ rfl rfl rfl rfl rfl rfl, ⟨rfl, rfl⟩, ⟨rfl, rfl, rfl⟩⟩
  all_goals by_cases ht : t = type <;> simp [ht]

/-- A submitter says goodbye: it is one of the finished submitters. -/
theorem serverOnSubmitterBye_effect {s s' : Sim} {name : String} {type : SubmitterType}
    {isWorkflow : Bool} (h : serverOnSubmitterBye s name type isWorkflow = .ok s') :
    s.data.submitters.lookup name ≠ none ∧
      s'.data.submitters = s.data.submitters.erase name ∧
      (∀ t, (s'.data.submitterCounters t).nbSubmittersFinished =
        (s.data.submitterCounters t).nbSubmittersFinished + if t = type then 1 else 0) ∧
      (∀ t, (s'.data.submitterCounters t).expectedNbSubmitters =
        (s.data.submitterCounters t).expectedNbSubmitters) ∧
      s'.data.nbWorkflowSubmittersFinished = s.data.nbWorkflowSubmittersFinished +
        (if type = .jobSubmitter ∧ isWorkflow = true then 1 else 0) ∧
      Quiet s s' ∧ SameExchange s s' ∧ SameActivities s s' := by
  simp only [serverOnSubmitterBye, bind_eq_ok, xbtAssert_eq_ok] at h
  obtain ⟨_, hname, h⟩ := h
  refine ⟨hname, ?_⟩
  generalize hs₁ : ({ s with data := _ } : Sim) = s₁ at h
  have hfirst : s₁.data.submitters = s.data.submitters.erase name ∧
      (∀ t, (s₁.data.submitterCounters t).nbSubmittersFinished =
        (s.data.submitterCounters t).nbSubmittersFinished + if t = type then 1 else 0) ∧
      (∀ t, (s₁.data.submitterCounters t).expectedNbSubmitters =
        (s.data.submitterCounters t).expectedNbSubmitters) ∧
      s₁.data.nbWorkflowSubmittersFinished = s.data.nbWorkflowSubmittersFinished ∧
      Quiet s s₁ ∧ SameExchange s s₁ ∧ SameActivities s s₁ := by
    subst hs₁
    refine ⟨rfl, fun t => ?_, fun t => ?_, rfl, quiet_data s _ _ _ rfl rfl rfl rfl rfl rfl,
      ⟨rfl, rfl⟩, ⟨rfl, rfl, rfl⟩⟩
    all_goals by_cases ht : t = type <;> simp [ht]
  obtain ⟨hsubmitters, hfinished, hexpected, hworkflows, hquiet, hexchange, hactivities⟩ := hfirst
  have hnotify : ∀ {b : Bool} {e : String} {t : Sim},
      (if b = true then s₁.append (.notify e) else .ok s₁) = .ok t →
        Quiet s₁ t ∧ SameSubmitters s₁ t ∧ SameExchange s₁ t ∧ SameActivities s₁ t := by
    intro b e t ht
    split at ht
    · exact quiet_append ht rfl
    · rw [Except.ok.injEq] at ht
      exact ht ▸ ⟨.refl _, .refl _, .refl _, .refl _⟩
  cases type with
  | eventSubmitter =>
    obtain ⟨hq, hs, he, ha⟩ := hnotify h
    refine ⟨hs.submitters.trans hsubmitters, fun t => by rw [hs.submitterCounters, hfinished],
      fun t => by rw [hs.submitterCounters, hexpected], ?_, hquiet.trans hq, hexchange.trans he,
      hactivities.trans ha⟩
    rw [hs.nbWorkflowSubmittersFinished, hworkflows]
    simp
  | jobSubmitter =>
    simp only [bind_eq_ok, Except.ok.injEq] at h
    obtain ⟨t, ht, rfl⟩ := h
    obtain ⟨hq, hs, he, ha⟩ := hnotify ht
    have hcount := hs.nbWorkflowSubmittersFinished.trans hworkflows
    have hlast : ∀ n, Quiet t { t with data := { t.data with
        nbWorkflowSubmittersFinished := n } } := fun n => quiet_data t _ _ _ rfl rfl rfl rfl rfl rfl
    split
    · next hworkflow =>
      exact ⟨hs.submitters.trans hsubmitters,
        fun u => by rw [← hfinished, ← hs.submitterCounters],
        fun u => by rw [← hexpected, ← hs.submitterCounters], by simp [hcount, hworkflow],
        (hquiet.trans hq).trans (hlast _), (hexchange.trans he).trans ⟨rfl, rfl⟩,
        (hactivities.trans ha).trans ⟨rfl, rfl, rfl⟩⟩
    · next hworkflow =>
      exact ⟨hs.submitters.trans hsubmitters, fun u => by rw [hs.submitterCounters, hfinished],
        fun u => by rw [hs.submitterCounters, hexpected], by simp [hcount, hworkflow],
        hquiet.trans hq, hexchange.trans he, hactivities.trans ha⟩

theorem serverOnWaitingDone_effect {s s' : Sim} (h : serverOnWaitingDone s = .ok s') :
    s'.data.nbWaiters = s.data.nbWaiters - 1 ∧ s'.data.nbKillers = s.data.nbKillers ∧
      s'.data.nbSwitchingMachines = s.data.nbSwitchingMachines ∧
      Quiet s s' ∧ SameSubmitters s s' ∧ SameExchange s s' := by
  simp only [serverOnWaitingDone, bind_eq_ok, append_eq_ok, Except.ok.injEq] at h
  obtain ⟨_, ⟨-, rfl⟩, rfl⟩ := h
  exact ⟨rfl, rfl, rfl,
    (quiet_logged s rfl).trans (quiet_data _ _ _ _ rfl rfl rfl rfl rfl rfl), ⟨rfl, rfl, rfl⟩,
    ⟨rfl, rfl⟩⟩

theorem serverOnSchedReady_effect {s s' : Sim} (h : serverOnSchedReady s = .ok s') :
    s'.data.schedReady = true ∧
      s'.data.endOfSimulationAckReceived =
        (s.data.endOfSimulationSent || s.data.endOfSimulationAckReceived) ∧
      s'.writer = s.writer ∧ Quiet s s' ∧ SameSubmitters s s' ∧ SameActivities s s' := by
  simp only [serverOnSchedReady, Except.ok.injEq] at h
  subst h
  refine ⟨rfl, ?_, rfl, quiet_data _ _ _ _ rfl rfl rfl rfl rfl rfl, ⟨rfl, rfl, rfl⟩,
    ⟨rfl, rfl, rfl⟩⟩
  cases s.data.endOfSimulationSent <;> simp

theorem serverOnSwitched_effect {s s' : Sim} {id : Nat} {pstate : Int}
    (h : serverOnSwitched s id pstate = .ok s') :
    s'.data.nbSwitchingMachines = s.data.nbSwitchingMachines - 1 ∧
      s'.data.nbWaiters = s.data.nbWaiters ∧ s'.data.nbKillers = s.data.nbKillers ∧
      Quiet s s' ∧ SameSubmitters s s' ∧ SameExchange s s' := by
  simp only [serverOnSwitched, bind_eq_ok, Except.ok.injEq] at h
  obtain ⟨m, -, _, -, ⟨switches, done⟩, -, t, ht, rfl⟩ := h
  have hswitches : ∀ cs, Quiet s { s with currentSwitches := cs } := fun cs =>
    quiet_data s s.data cs _ rfl rfl rfl rfl rfl rfl
  have hlast : Quiet t { t with data := { t.data with
      nbSwitchingMachines := t.data.nbSwitchingMachines - 1 } } :=
    quiet_data t _ _ _ rfl rfl rfl rfl rfl rfl
  cases done with
  | none =>
    simp only [Except.ok.injEq] at ht
    subst ht
    exact ⟨rfl, rfl, rfl, (hswitches _).trans hlast, ⟨rfl, rfl, rfl⟩, ⟨rfl, rfl⟩⟩
  | some all =>
    obtain ⟨-, rfl⟩ := append_eq_ok.mp ht
    exact ⟨rfl, rfl, rfl, ((hswitches _).trans (quiet_logged _ rfl)).trans hlast, ⟨rfl, rfl, rfl⟩,
      ⟨rfl, rfl⟩⟩

theorem serverOnSetJobMetadata_effect {s s' : Sim} {id : JobIdentifier} {metadata : String}
    (h : serverOnSetJobMetadata s id metadata = .ok s') :
    Quiet s s' ∧ SameSubmitters s s' ∧ SameExchange s s' ∧ SameActivities s s' := by
  simp only [serverOnSetJobMetadata, bind_eq_ok, Except.ok.injEq] at h
  obtain ⟨p, -, rfl⟩ := h
  exact ⟨quiet_setJob s p _ rfl rfl rfl rfl rfl, ⟨rfl, rfl, rfl⟩, ⟨rfl, rfl⟩, ⟨rfl, rfl, rfl⟩⟩

theorem serverOnToJobMsg_effect {s s' : Sim} {id : JobIdentifier} {message : String}
    (h : serverOnToJobMsg s id message = .ok s') :
    Quiet s s' ∧ SameSubmitters s s' ∧ SameExchange s s' ∧ SameActivities s s' := by
  simp only [serverOnToJobMsg, bind_eq_ok, Except.ok.injEq] at h
  obtain ⟨p, -, rfl⟩ := h
  exact ⟨quiet_setJob s p _ rfl rfl rfl rfl rfl, ⟨rfl, rfl, rfl⟩, ⟨rfl, rfl⟩, ⟨rfl, rfl, rfl⟩⟩

theorem quiet_registrationSchedFinished (s : Sim) (b : Bool) :
    Quiet s { s with registrationSchedFinished := b } :=
  quiet_data s s.data _ b rfl rfl rfl rfl rfl rfl

end Batsim
