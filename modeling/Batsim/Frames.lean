import Batsim.Handlers
import Batsim.System

/-!
What the handling of a message leaves alone, by the type of the message.
-/

namespace Batsim

open Checked Sim

namespace Sim

section operations

variable (s : Sim) (p : JobPtr)

theorem keeps_setJob (j : Job) : Keeps s (s.setJob p j) :=
  .of_kept rfl

theorem keeps_submit (submitter : Submitter) : Keeps s (s.submit submitter p) := by
  have htrack : Keeps s (s.track submitter p) := by
    unfold track
    split
    · exact .of_kept rfl
    · exact .refl s
  have hnote : ∀ t : Sim, Keeps t (t.noteResubmission p) := by
    intro t
    unfold noteResubmission
    split
    · exact .refl t
    · exact .of_kept rfl
  exact (htrack.trans (hnote _)).trans (.of_kept rfl)

theorem keeps_countSubmitted : Keeps s (s.countSubmitted p) :=
  .of_kept rfl

theorem keeps_completeJob : Keeps s (s.completeJob p) := by
  have hcount : Keeps s (s.endRunning.countCompleted p) :=
    .of_kept rfl
  have hlog : Keeps (s.endRunning.countCompleted p)
      ((s.endRunning.countCompleted p).logged (s.completionOf p)) :=
    keeps_logged _ (by simp [completionOf])
  exact (hcount.trans hlog).trans (.of_kept rfl)

theorem keeps_setMachines (machines : Machines) (unavailable : List Nat) :
    Keeps s (s.setMachines machines unavailable) :=
  .of_kept rfl

theorem sameJobs_setMachines (machines : Machines) (unavailable : List Nat) :
    SameJobs s (s.setMachines machines unavailable) :=
  .of_accounted rfl

end operations

end Sim

/-! ### External events and switches -/

/-- Making a machine available or unavailable touches nothing but the machines. -/
theorem make_frame {make : Sim → Nat → Except String Sim}
    (hmake : make = makeAvailable ∨ make = makeUnavailable) {s s' : Sim} {id : Nat}
    (h : make s id = .ok s') : Keeps s s' ∧ SameJobs s s' ∧ s'.pool = s.pool ∧
      SameSubmitters s s' ∧ SameExchange s s' ∧ SameActivities s s' := by
  have hset : ∃ machines unavailable, s' = s.setMachines machines unavailable := by
    obtain rfl | rfl := hmake
    · obtain ⟨_, machines, -, -, -, rfl⟩ := makeAvailable_effect h
      exact ⟨machines, _, rfl⟩
    · obtain ⟨_, machines, -, -, -, rfl⟩ := makeUnavailable_effect h
      exact ⟨machines, _, rfl⟩
  obtain ⟨machines, unavailable, rfl⟩ := hset
  exact ⟨keeps_setMachines s machines unavailable, sameJobs_setMachines s machines unavailable,
    rfl, ⟨rfl, rfl, rfl⟩, ⟨rfl, rfl⟩, ⟨rfl, rfl, rfl⟩⟩

theorem occur_frame {s s' : Sim} {e : ExternalEvent} (h : occur s e = .ok s') :
    Keeps s s' ∧ SameJobs s s' ∧ s'.pool = s.pool ∧ SameSubmitters s s' ∧ SameExchange s s' ∧
      SameActivities s s' := by
  obtain ⟨t, ht, hs'⟩ := occur_effect h
  have hloop : ∀ {make : Sim → Nat → Except String Sim} {ids : List Nat},
      make = makeAvailable ∨ make = makeUnavailable → forEach make s ids = .ok t →
        Keeps s t ∧ SameJobs s t ∧ t.pool = s.pool ∧ SameSubmitters s t ∧ SameExchange s t ∧
          SameActivities s t := by
    intro make ids hmake hrun
    refine forEach_preserves (P := fun t => Keeps s t ∧ SameJobs s t ∧ t.pool = s.pool ∧
      SameSubmitters s t ∧ SameExchange s t ∧ SameActivities s t)
      ⟨.refl s, .refl s, rfl, .refl s, .refl s, .refl s⟩ ?_ hrun
    rintro id - t t' ⟨hk, hj, hp, hs, he, ha⟩ hstep
    obtain ⟨hk', hj', hp', hs', he', ha'⟩ := make_frame hmake hstep
    exact ⟨hk.trans hk', hj.trans hj', hp'.trans hp, hs.trans hs', he.trans he', ha.trans ha'⟩
  have hfirst : Keeps s t ∧ SameJobs s t ∧ t.pool = s.pool ∧ SameSubmitters s t ∧
      SameExchange s t ∧ SameActivities s t := by
    obtain rfl | ⟨ids, -, hrun⟩ | ⟨ids, -, hrun⟩ := ht
    · exact ⟨.refl _, .refl _, rfl, .refl _, .refl _, .refl _⟩
    · exact hloop (.inl rfl) hrun
    · exact hloop (.inr rfl) hrun
  obtain rfl | ⟨event, hevent, rfl⟩ := hs'
  · exact hfirst
  · obtain ⟨hk, hj, hp, hs, he, ha⟩ := hfirst
    have hquiet := quiet_logged t (ProtocolEvent.isAccount_of_isExternal hevent)
    exact ⟨hk.trans hquiet.keeps, hj.trans hquiet.jobs, hp, hs.trans ⟨rfl, rfl, rfl⟩,
      he.trans ⟨rfl, rfl⟩, ha.trans ⟨rfl, rfl, rfl⟩⟩

theorem serverOnEventOccurred_frame {s s' : Sim} {events : List ExternalEvent}
    (h : serverOnEventOccurred s events = .ok s') :
    Keeps s s' ∧ SameJobs s s' ∧ s'.pool = s.pool ∧ SameSubmitters s s' ∧ SameExchange s s' ∧
      SameActivities s s' := by
  rw [serverOnEventOccurred_eq] at h
  refine forEach_preserves (P := fun t => Keeps s t ∧ SameJobs s t ∧ t.pool = s.pool ∧
    SameSubmitters s t ∧ SameExchange s t ∧ SameActivities s t)
    ⟨.refl s, .refl s, rfl, .refl s, .refl s, .refl s⟩ ?_ h
  rintro e - t t' ⟨hk, hj, hp, hs, he, ha⟩ hstep
  obtain ⟨hk', hj', hp', hs', he', ha'⟩ := occur_frame hstep
  exact ⟨hk.trans hk', hj.trans hj', hp'.trans hp, hs.trans hs', he.trans he', ha.trans ha'⟩

/-- The actors that switch a machine, where they start. -/
def Thread.startsSwitch : Thread → Bool
  | switchOn _ _ | switchOff _ _ => true
  | _ => false

/-- A request to switch machines creates the actors of the switches it counts. -/
structure Switches (s s' : Sim) (ts : List Thread) : Prop where
  keeps : Keeps s s'
  jobs : SameJobs s s'
  submitters : SameSubmitters s s'
  exchange : SameExchange s s'
  pool : s'.pool = { s.pool with fresh := s.pool.fresh ++ ts }
  starts : ∀ t ∈ ts, t.startsSwitch = true
  nbSwitchingMachines : s'.data.nbSwitchingMachines = s.data.nbSwitchingMachines + ts.length
  nbWaiters : s'.data.nbWaiters = s.data.nbWaiters
  nbKillers : s'.data.nbKillers = s.data.nbKillers
  unavailable : s'.history.unavailable = s.history.unavailable

theorem Switches.trans {s s' s'' : Sim} {ts ts' : List Thread} (h : Switches s s' ts)
    (h' : Switches s' s'' ts') : Switches s s'' (ts ++ ts') where
  keeps := h.keeps.trans h'.keeps
  jobs := h.jobs.trans h'.jobs
  submitters := h.submitters.trans h'.submitters
  exchange := h.exchange.trans h'.exchange
  pool := by rw [h'.pool, h.pool, List.append_assoc]
  starts t ht := (List.mem_append.mp ht).elim (h.starts t) (h'.starts t)
  nbSwitchingMachines := by
    rw [h'.nbSwitchingMachines, h.nbSwitchingMachines, List.length_append]
    push_cast
    omega
  nbWaiters := h'.nbWaiters.trans h.nbWaiters
  nbKillers := h'.nbKillers.trans h.nbKillers
  unavailable := h'.unavailable.trans h.unavailable

/-- The machines, the switches under way and the counts for the tracer are replaced. -/
theorem switches_setMachines (s : Sim) (machines : Machines) (switches : CurrentSwitches)
    (grouped machineSwitches : Nat) : Switches s { s with
      machines := machines
      currentSwitches := switches
      nbGroupedSwitches := grouped
      nbMachineSwitches := machineSwitches } [] where
  keeps := .of_kept rfl
  jobs := .of_accounted rfl
  submitters := ⟨rfl, rfl, rfl⟩
  exchange := ⟨rfl, rfl⟩
  pool := by simp
  starts := by simp
  nbSwitchingMachines := by simp
  nbWaiters := rfl
  nbKillers := rfl
  unavailable := rfl

theorem switches_logged (s : Sim) {e : ProtocolEvent} (he : e.isAccount = false) :
    Switches s (s.logged e) [] where
  keeps := (quiet_logged s he).keeps
  jobs := (quiet_logged s he).jobs
  submitters := ⟨rfl, rfl, rfl⟩
  exchange := ⟨rfl, rfl⟩
  pool := by simp [logged]
  starts := by simp
  nbSwitchingMachines := by simp [logged]
  nbWaiters := rfl
  nbKillers := rfl
  unavailable := rfl

theorem switches_launchSwitch (s : Sim) (machines : Machines) {t : Thread}
    (ht : t.startsSwitch = true) : Switches s (s.launchSwitch machines t) [t] where
  keeps := .of_kept rfl
  jobs := .of_accounted rfl
  submitters := ⟨rfl, rfl, rfl⟩
  exchange := ⟨rfl, rfl⟩
  pool := rfl
  starts := by simpa using ht
  nbSwitchingMachines := rfl
  nbWaiters := rfl
  nbKillers := rfl
  unavailable := rfl

theorem switchMachine_frame {newPstate : Int} {s s' : Sim} {id : Nat}
    (h : switchMachine newPstate s id = .ok s') : ∃ ts, Switches s s' ts := by
  obtain ⟨m, -, ⟨-, -, m', switches, done, -, -, rfl⟩ | ⟨-, -, machines, -, rfl⟩ |
    ⟨-, -, machines, -, rfl⟩ | ⟨-, rfl⟩⟩ := switchMachine_effect h
  · have hset := switches_setMachines s (s.machines.put id m') switches s.nbGroupedSwitches
      s.nbMachineSwitches
    cases done with
    | none => exact ⟨_, hset⟩
    | some all => exact ⟨_, hset.trans (switches_logged _ rfl)⟩
  · exact ⟨_, switches_launchSwitch s machines rfl⟩
  · exact ⟨_, switches_launchSwitch s machines rfl⟩
  · exact ⟨_, switches_setMachines s _ _ s.nbGroupedSwitches s.nbMachineSwitches⟩

theorem serverOnPstateModification_frame {cfg : Config} {s s' : Sim} {ids : IntervalSet}
    {newPstate : Int} (h : serverOnPstateModification cfg s ids newPstate = .ok s') :
    ∃ ts, Switches s s' ts := by
  obtain ⟨-, first, m, -, hrun⟩ := serverOnPstateModification_effect h
  refine forEach_preserves (P := fun t => ∃ ts, Switches s t ts)
    ⟨_, switches_setMachines s _ _ _ _⟩ ?_ hrun
  rintro id - t t' ⟨ts, hts⟩ hstep
  obtain ⟨ts', hts'⟩ := switchMachine_frame hstep
  exact ⟨ts ++ ts', hts.trans hts'⟩

/-! ### The other messages -/

theorem submitJob_frame {cfg : Config} {submitter : Submitter} {s s' : Sim} {p : JobPtr}
    (h : submitJob cfg submitter s p = .ok s') : Keeps s s' ∧ SameMachines s s' ∧
      s'.pool = s.pool ∧ SameSubmitters s s' ∧ SameExchange s s' ∧ SameActivities s s' := by
  obtain ⟨-, job, profile, rfl⟩ := submitJob_effect h
  refine ⟨(keeps_submit s p submitter).trans (keeps_logged _ (by simp)), ?_⟩
  unfold submit track noteResubmission
  split <;> split <;> exact ⟨⟨rfl, rfl⟩, rfl, ⟨rfl, rfl, rfl⟩, ⟨rfl, rfl⟩, ⟨rfl, rfl, rfl⟩⟩

theorem serverOnJobSubmitted_frame {cfg : Config} {s s' : Sim} {name : String}
    {jobs : List JobPtr} (h : serverOnJobSubmitted cfg s name jobs = .ok s') :
    Keeps s s' ∧ SameMachines s s' ∧ s'.pool = s.pool ∧ SameSubmitters s s' ∧
      SameExchange s s' ∧ SameActivities s s' := by
  obtain rfl | ⟨submitter, -, hrun⟩ := serverOnJobSubmitted_effect h
  · exact ⟨.refl _, .refl _, rfl, .refl _, .refl _, .refl _⟩
  · refine forEach_preserves (P := fun t => Keeps s t ∧ SameMachines s t ∧ t.pool = s.pool ∧
      SameSubmitters s t ∧ SameExchange s t ∧ SameActivities s t)
      ⟨.refl _, .refl _, rfl, .refl _, .refl _, .refl _⟩ ?_ hrun
    rintro p - t t' ⟨hk, hm, hp, hs, he, ha⟩ hstep
    obtain ⟨hk', hm', hp', hs', he', ha'⟩ := submitJob_frame hstep
    exact ⟨hk.trans hk', hm.trans hm', hp'.trans hp, hs.trans hs', he.trans he', ha.trans ha'⟩

theorem countJobCompletion_frame {s s' : Sim} {p : JobPtr} (h : countJobCompletion s p = .ok s') :
    Keeps s s' ∧ SameMachines s s' ∧ s'.pool = s.pool ∧ SameSubmitters s s' ∧
      SameExchange s s' ∧ SameActivities s s' := by
  obtain ⟨-, -, rfl⟩ := countJobCompletion_effect h
  exact ⟨keeps_completeJob s p, ⟨rfl, rfl⟩, rfl, ⟨rfl, rfl, rfl⟩, ⟨rfl, rfl⟩, ⟨rfl, rfl, rfl⟩⟩

theorem countKilledJob_frame {s s' : Sim} {id : JobIdentifier}
    (h : countKilledJob s id = .ok s') : Keeps s s' ∧ SameMachines s s' ∧ s'.pool = s.pool ∧
      SameSubmitters s s' ∧ SameExchange s s' ∧ SameActivities s s' := by
  obtain ⟨p, -, ⟨-, rfl⟩ | ⟨-, -, rfl⟩⟩ := countKilledJob_effect h
  · exact ⟨.refl _, .refl _, rfl, .refl _, .refl _, .refl _⟩
  · have hnote : Keeps s (s.noteCountedKilled p) :=
      .of_kept rfl
    exact ⟨hnote.trans (keeps_completeJob _ p), ⟨rfl, rfl⟩, rfl, ⟨rfl, rfl, rfl⟩, ⟨rfl, rfl⟩,
      ⟨rfl, rfl, rfl⟩⟩

theorem countKilledJobs_frame {s s' : Sim} {ids : List JobIdentifier}
    (h : forEach countKilledJob s ids = .ok s') : Keeps s s' ∧ SameMachines s s' ∧
      s'.pool = s.pool ∧ SameSubmitters s s' ∧ SameExchange s s' ∧ SameActivities s s' := by
  refine forEach_preserves (P := fun t => Keeps s t ∧ SameMachines s t ∧ t.pool = s.pool ∧
    SameSubmitters s t ∧ SameExchange s t ∧ SameActivities s t)
    ⟨.refl _, .refl _, rfl, .refl _, .refl _, .refl _⟩ ?_ h
  rintro id - t t' ⟨hk, hm, hp, hs, he, ha⟩ hstep
  obtain ⟨hk', hm', hp', hs', he', ha'⟩ := countKilledJob_frame hstep
  exact ⟨hk.trans hk', hm.trans hm', hp'.trans hp, hs.trans hs', he.trans he', ha.trans ha'⟩

/-- The acknowledgment of a kill changes no job and no machine. -/
theorem serverOnKillingDone_frame {s s' : Sim} {ids : List JobIdentifier} {acknowledge : Bool}
    (h : serverOnKillingDone s ids acknowledge = .ok s') : Keeps s s' ∧ SameMachines s s' ∧
      s'.pool = s.pool ∧ SameSubmitters s s' ∧ SameExchange s s' ∧
      s'.data.nbSwitchingMachines = s.data.nbSwitchingMachines ∧
      s'.data.nbWaiters = s.data.nbWaiters ∧ s'.data.nbKillers = s.data.nbKillers - 1 := by
  obtain ⟨t, ht, rfl⟩ := serverOnKillingDone_effect h
  obtain ⟨hk, hm, hp, hs, he, ha⟩ := countKilledJobs_frame ht
  have hack : Keeps t (if acknowledge then t.logged (.jobKilled ids) else t) := by
    split
    · exact keeps_logged t (by simp)
    · exact .refl t
  have hlast : ∀ u : Sim, u.data = t.data → Keeps u { u with
      data := { t.data with nbKillers := t.data.nbKillers - 1 } } := fun u hu =>
    ⟨rfl, rfl, rfl, rfl, rfl, rfl, by rw [hu], rfl, rfl, rfl, rfl, rfl, rfl, rfl, [],
      .nil rfl rfl, by simp⟩
  refine ⟨(hk.trans hack).trans (hlast _ (by split <;> rfl)), ?_⟩
  split <;> exact ⟨hm.trans ⟨rfl, rfl⟩, hp, hs.trans ⟨rfl, rfl, rfl⟩, he.trans ⟨rfl, rfl⟩,
    ha.nbSwitchingMachines, ha.nbWaiters, by rw [← ha.nbKillers]⟩

theorem requestKill_frame {s s' : Sim} {toKill toKill' : List JobIdentifier} {id : JobIdentifier}
    (h : requestKill (s, toKill) id = .ok (s', toKill')) : Keeps s s' ∧ SameMachines s s' ∧
      s'.pool = s.pool ∧ SameSubmitters s s' ∧ SameExchange s s' ∧ SameActivities s s' := by
  obtain ⟨p, -, ⟨-, heq⟩ | ⟨-, -, heq⟩⟩ := requestKill_effect h
  · cases heq
    exact ⟨.refl _, .refl _, rfl, .refl _, .refl _, .refl _⟩
  · cases heq
    exact ⟨keeps_setJob s p _, ⟨rfl, rfl⟩, rfl, ⟨rfl, rfl, rfl⟩, ⟨rfl, rfl⟩, ⟨rfl, rfl, rfl⟩⟩

theorem requestKills_frame {s s' : Sim} {toKill ids : List JobIdentifier}
    (h : forEach requestKill (s, []) ids = .ok (s', toKill)) : Keeps s s' ∧ SameMachines s s' ∧
      s'.pool = s.pool ∧ SameSubmitters s s' ∧ SameExchange s s' ∧ SameActivities s s' := by
  let P : Sim × List JobIdentifier → Prop := fun acc => Keeps s acc.1 ∧ SameMachines s acc.1 ∧
    acc.1.pool = s.pool ∧ SameSubmitters s acc.1 ∧ SameExchange s acc.1 ∧ SameActivities s acc.1
  suffices hloop : P (s', toKill) from hloop
  refine forEach_preserves (P := P) ⟨.refl _, .refl _, rfl, .refl _, .refl _, .refl _⟩ ?_ h
  rintro id - ⟨t, k⟩ ⟨t', k'⟩ ⟨hk, hm, hp, hs, he, ha⟩ hstep
  obtain ⟨hk', hm', hp', hs', he', ha'⟩ := requestKill_frame hstep
  exact ⟨hk.trans hk', hm.trans hm', hp'.trans hp, hs.trans hs', he.trans he', ha.trans ha'⟩

/-- A kill request creates a killer and counts it, if it has something to kill. -/
theorem serverOnKillJobs_frame {s s' : Sim} {ids : List JobIdentifier}
    (h : serverOnKillJobs s ids = .ok s') : Keeps s s' ∧ SameMachines s s' ∧
      SameSubmitters s s' ∧ SameExchange s s' ∧
      s'.data.nbSwitchingMachines = s.data.nbSwitchingMachines ∧
      s'.data.nbWaiters = s.data.nbWaiters ∧
      ((s'.pool = s.pool ∧ s'.data.nbKillers = s.data.nbKillers) ∨
        ∃ toKill, s'.pool = s.pool.spawn (.killer toKill true) ∧
          s'.data.nbKillers = s.data.nbKillers + 1) := by
  obtain ⟨t, toKill, ht, rfl⟩ := serverOnKillJobs_effect h
  obtain ⟨hk, hm, hp, hs, he, ha⟩ := requestKills_frame ht
  have hnote : Keeps t (t.noteKillRequest ids toKill) :=
    .of_kept rfl
  unfold launchKiller
  split
  · exact ⟨hk.trans hnote, hm.trans ⟨rfl, rfl⟩, hs.trans ⟨rfl, rfl, rfl⟩, he.trans ⟨rfl, rfl⟩,
      ha.nbSwitchingMachines, ha.nbWaiters, .inl ⟨hp, ha.nbKillers⟩⟩
  · refine ⟨(hk.trans hnote).trans (.of_kept rfl), hm.trans ⟨rfl, rfl⟩, hs.trans ⟨rfl, rfl, rfl⟩,
      he.trans ⟨rfl, rfl⟩, ha.nbSwitchingMachines, ha.nbWaiters, .inr ⟨toKill, ?_, ?_⟩⟩
    · rw [← hp]
      rfl
    · rw [← ha.nbKillers]
      rfl

theorem keeps_launch (s : Sim) (a : SchedulingAllocation) : Keeps s (s.launch a) :=
  .of_kept rfl

/-! ### All messages -/

/-- The messages that change the state of machines. -/
def IPMessage.touchesMachines : IPMessage → Bool
  | .pstateModification _ _ | .eventOccurred _ _ => true
  | _ => false

/-- The messages whose handling concerns jobs. -/
def IPMessage.touchesJobs : IPMessage → Bool
  | .jobSubmitted _ _ | .jobRegisteredByDP _ | .jobCompleted _ | .schedExecuteJob _
  | .schedChangeJobState _ _ | .schedRejectJob _ | .schedKillJob _ | .killingDone _ _ => true
  | _ => false

/-- The messages about the submitters themselves. -/
def IPMessage.touchesSubmitters : IPMessage → Bool
  | .submitterHello _ _ _ | .submitterBye _ _ _ => true
  | _ => false

/-- The end of a killer, of a waiter, of a switch. -/
def IPMessage.endsKiller : IPMessage → Bool
  | .killingDone _ _ => true
  | _ => false

def IPMessage.endsWaiter : IPMessage → Bool
  | .waitingDone => true
  | _ => false

def IPMessage.endsSwitch : IPMessage → Bool
  | .switchedOn _ _ | .switchedOff _ _ => true
  | _ => false

namespace Thread

def isKiller : Thread → Bool
  | killer _ _ => true
  | _ => false

def isWaiter : Thread → Bool
  | waiter _ | waiting _ => true
  | _ => false

def isSwitch : Thread → Bool
  | switchOn _ _ | switchingOn _ _ | switchOff _ _ | switchingOff _ _ => true
  | _ => false

/-- The actors that the handling of a message creates. -/
def launchedBy : IPMessage → Thread → Bool
  | .schedExecuteJob a, executeJob b => b.allocation = a
  | .schedKillJob _, killer _ _ => true
  | .schedCallMeLater date, waiter date' => date' = date
  | .pstateModification _ _, switchOn _ _ => true
  | .pstateModification _ _, switchOff _ _ => true
  | _, _ => false

end Thread

/-- The handling of a message, which creates the actors `ts`. -/
structure Handled (m : IPMessage) (s s' : Sim) (ts : List Thread) : Prop where
  keeps : Keeps s s'
  jobs : m.touchesJobs = false → SameJobs s s'
  machines : m.touchesMachines = false → SameMachines s s'
  submitters : m.touchesSubmitters = false → SameSubmitters s s'
  exchange : m ≠ .schedReady → SameExchange s s'
  fresh : s'.pool.fresh = s.pool.fresh ++ ts
  blocked : callsBack s m = false → s'.pool.blocked = s.pool.blocked
  launched : ∀ t ∈ ts, t.launchedBy m = true
  nbKillers : s'.data.nbKillers =
    s.data.nbKillers + ts.countP Thread.isKiller - (if m.endsKiller then 1 else 0)
  nbWaiters : s'.data.nbWaiters =
    s.data.nbWaiters + ts.countP Thread.isWaiter - (if m.endsWaiter then 1 else 0)
  nbSwitchingMachines : s'.data.nbSwitchingMachines =
    s.data.nbSwitchingMachines + ts.countP Thread.isSwitch - (if m.endsSwitch then 1 else 0)

/-- A handler that creates no actor and ends none. -/
theorem Handled.of_same {m : IPMessage} {s s' : Sim} (hkeeps : Keeps s s')
    (hjobs : m.touchesJobs = false → SameJobs s s')
    (hmachines : m.touchesMachines = false → SameMachines s s') (hpool : s'.pool = s.pool)
    (hsubmitters : m.touchesSubmitters = false → SameSubmitters s s')
    (hexchange : m ≠ .schedReady → SameExchange s s') (hactivities : SameActivities s s')
    (hkiller : m.endsKiller = false) (hwaiter : m.endsWaiter = false)
    (hswitch : m.endsSwitch = false) : Handled m s s' [] where
  keeps := hkeeps
  jobs := hjobs
  machines := hmachines
  submitters := hsubmitters
  exchange := hexchange
  fresh := by simp [hpool]
  blocked _ := by rw [hpool]
  launched := by simp
  nbKillers := by simp [hactivities.nbKillers, hkiller]
  nbWaiters := by simp [hactivities.nbWaiters, hwaiter]
  nbSwitchingMachines := by simp [hactivities.nbSwitchingMachines, hswitch]

theorem Handled.of_quiet {m : IPMessage} {s s' : Sim}
    (h : Quiet s s' ∧ SameSubmitters s s' ∧ SameExchange s s' ∧ SameActivities s s')
    (hkiller : m.endsKiller = false) (hwaiter : m.endsWaiter = false)
    (hswitch : m.endsSwitch = false) : Handled m s s' [] :=
  .of_same h.1.keeps (fun _ => h.1.jobs) (fun _ => h.1.machines) h.1.pool (fun _ => h.2.1)
    (fun _ => h.2.2.1) h.2.2.2 hkiller hwaiter hswitch

theorem serverOnSwitched_handled {m : IPMessage} {s s' : Sim} {id : Nat} {pstate : Int}
    (h : serverOnSwitched s id pstate = .ok s') (hkiller : m.endsKiller = false)
    (hwaiter : m.endsWaiter = false) (hswitch : m.endsSwitch = true) : Handled m s s' [] := by
  obtain ⟨hn, hw, hk, hq, hs, he⟩ := serverOnSwitched_effect h
  exact { keeps := hq.keeps, jobs := fun _ => hq.jobs, machines := fun _ => hq.machines
          submitters := fun _ => hs, exchange := fun _ => he, fresh := by simp [hq.pool]
          blocked := fun _ => by rw [hq.pool]
          launched := by simp, nbKillers := by simp [hk, hkiller]
          nbWaiters := by simp [hw, hwaiter], nbSwitchingMachines := by simp [hn, hswitch] }

theorem Switches.handled {s s' : Sim} {ts : List Thread} {ids : IntervalSet} {pstate : Int}
    (h : Switches s s' ts) : Handled (.pstateModification ids pstate) s s' ts := by
  have hkind : ∀ t ∈ ts, t.isKiller = false ∧ t.isWaiter = false ∧ t.isSwitch = true ∧
      t.launchedBy (.pstateModification ids pstate) = true := by
    intro t ht
    have hstarts := h.starts t ht
    cases t <;> simp_all [Thread.startsSwitch, Thread.isKiller, Thread.isWaiter,
      Thread.isSwitch, Thread.launchedBy]
  have hkillers : ts.countP Thread.isKiller = 0 :=
    List.countP_eq_zero.mpr fun t ht => by simp [(hkind t ht).1]
  have hwaiters : ts.countP Thread.isWaiter = 0 :=
    List.countP_eq_zero.mpr fun t ht => by simp [(hkind t ht).2.1]
  have hswitches : ts.countP Thread.isSwitch = ts.length :=
    List.countP_eq_length.mpr fun t ht => (hkind t ht).2.2.1
  exact { keeps := h.keeps, jobs := fun _ => h.jobs, machines := by simp [IPMessage.touchesMachines]
          submitters := fun _ => h.submitters, exchange := fun _ => h.exchange
          fresh := by rw [h.pool], blocked := fun _ => by rw [h.pool]
          launched := fun t ht => (hkind t ht).2.2.2
          nbKillers := by simp [h.nbKillers, hkillers, IPMessage.endsKiller]
          nbWaiters := by simp [h.nbWaiters, hwaiters, IPMessage.endsWaiter]
          nbSwitchingMachines := by
            simp [h.nbSwitchingMachines, hswitches, IPMessage.endsSwitch] }

theorem handleMessage_effect {cfg : Config} {s s' : Sim} {m : IPMessage}
    (h : handleMessage cfg s m = .ok s') : ∃ ts, Handled m s s' ts := by
  cases m with
  | jobSubmitted name jobs =>
    obtain ⟨hk, hm, hp, hs, he, ha⟩ := serverOnJobSubmitted_frame h
    exact ⟨[], .of_same hk (by simp [IPMessage.touchesJobs]) (fun _ => hm) hp (fun _ => hs)
      (fun _ => he) ha rfl rfl rfl⟩
  | jobRegisteredByDP p =>
    have hk : Keeps s s' ∧ SameMachines s s' ∧ s'.pool = s.pool ∧ SameSubmitters s s' ∧
        SameExchange s s' ∧ SameActivities s s' := by
      obtain rfl | ⟨job, profile, rfl⟩ := serverOnRegisterJob_effect h
      · exact ⟨keeps_countSubmitted s p, ⟨rfl, rfl⟩, rfl, ⟨rfl, rfl, rfl⟩, ⟨rfl, rfl⟩,
          ⟨rfl, rfl, rfl⟩⟩
      · exact ⟨(keeps_countSubmitted s p).trans (keeps_logged _ (by simp)), ⟨rfl, rfl⟩, rfl,
          ⟨rfl, rfl, rfl⟩, ⟨rfl, rfl⟩, ⟨rfl, rfl, rfl⟩⟩
    obtain ⟨hk, hm, hp, hs, he, ha⟩ := hk
    exact ⟨[], .of_same hk (by simp [IPMessage.touchesJobs]) (fun _ => hm) hp (fun _ => hs)
      (fun _ => he) ha rfl rfl rfl⟩
  | profileRegisteredByDP _ _ =>
    simp only [handleMessage, serverOnRegisterProfile, Except.ok.injEq] at h
    exact ⟨[], h ▸ .of_quiet ⟨.refl s, .refl s, .refl s, .refl s⟩ rfl rfl rfl⟩
  | jobCompleted p =>
    obtain ⟨submitter, horigin, rfl⟩ | ⟨-, hcount⟩ := serverOnJobCompleted_effect h
    · exact ⟨[], .of_kept rfl, by simp [IPMessage.touchesJobs], fun _ => ⟨rfl, rfl⟩,
        fun _ => ⟨rfl, rfl, rfl⟩, fun _ => ⟨rfl, rfl⟩, by simp, by simp [callsBack, horigin],
        by simp, by simp [IPMessage.endsKiller], by simp [IPMessage.endsWaiter],
        by simp [IPMessage.endsSwitch]⟩
    · obtain ⟨hk, hm, hp, hs, he, ha⟩ := countJobCompletion_frame hcount
      exact ⟨[], .of_same hk (by simp [IPMessage.touchesJobs]) (fun _ => hm) hp (fun _ => hs)
        (fun _ => he) ha rfl rfl rfl⟩
  | pstateModification ids pstate =>
    obtain ⟨ts, hts⟩ := serverOnPstateModification_frame h
    exact ⟨ts, hts.handled⟩
  | schedExecuteJob a =>
    obtain ⟨-, -, -, rfl⟩ := serverOnExecuteJob_effect h
    exact ⟨[.executeJob ⟨s.nextActor, a⟩], keeps_launch s a, by simp [IPMessage.touchesJobs],
      fun _ => ⟨rfl, rfl⟩, fun _ => ⟨rfl, rfl, rfl⟩, fun _ => ⟨rfl, rfl⟩, rfl, fun _ => rfl,
      by simp [Thread.launchedBy],
      by simp [IPMessage.endsKiller, Thread.isKiller, launch, setJob, countRunning],
      by simp [IPMessage.endsWaiter, Thread.isWaiter, launch, setJob, countRunning],
      by simp [IPMessage.endsSwitch, Thread.isSwitch, launch, setJob, countRunning]⟩
  | schedChangeJobState id state =>
    obtain ⟨p, -, -, -, -, rfl⟩ := serverOnChangeJobState_effect h
    exact ⟨[], .of_same (.of_kept rfl) (by simp [IPMessage.touchesJobs]) (fun _ => ⟨rfl, rfl⟩) rfl
      (fun _ => ⟨rfl, rfl, rfl⟩) (fun _ => ⟨rfl, rfl⟩) ⟨rfl, rfl, rfl⟩ rfl rfl rfl⟩
  | toJobMsg _ _ => exact ⟨[], .of_quiet (serverOnToJobMsg_effect h) rfl rfl rfl⟩
  | fromJobMsg _ _ =>
    simp only [handleMessage, serverOnFromJobMsg, bind_eq_ok] at h
    obtain ⟨_, -, h⟩ := h
    exact ⟨[], .of_quiet (quiet_append h rfl) rfl rfl rfl⟩
  | schedRejectJob id =>
    obtain ⟨p, -, -, rfl⟩ := serverOnRejectJob_effect h
    exact ⟨[], .of_same (.of_kept rfl) (by simp [IPMessage.touchesJobs]) (fun _ => ⟨rfl, rfl⟩) rfl
      (fun _ => ⟨rfl, rfl, rfl⟩) (fun _ => ⟨rfl, rfl⟩) ⟨rfl, rfl, rfl⟩ rfl rfl rfl⟩
  | schedKillJob ids =>
    obtain ⟨hk, hm, hs, he, hswitch, hwait, ⟨hp, hn⟩ | ⟨toKill, hp, hn⟩⟩ :=
      serverOnKillJobs_frame h
    · exact ⟨[], .of_same hk (by simp [IPMessage.touchesJobs]) (fun _ => hm) hp (fun _ => hs)
        (fun _ => he) ⟨hswitch, hwait, hn⟩ rfl rfl rfl⟩
    · exact ⟨[.killer toKill true], hk, by simp [IPMessage.touchesJobs], fun _ => hm,
        fun _ => hs, fun _ => he, by simp [hp], fun _ => by simp [hp], by simp [Thread.launchedBy],
        by simp [hn, IPMessage.endsKiller, Thread.isKiller],
        by simp [hwait, IPMessage.endsWaiter, Thread.isWaiter],
        by simp [hswitch, IPMessage.endsSwitch, Thread.isSwitch]⟩
  | schedCallMeLater date =>
    obtain ⟨-, rfl⟩ := serverOnCallMeLater_effect h
    exact ⟨[.waiter date], .of_kept rfl, fun _ => .of_accounted rfl, fun _ => ⟨rfl, rfl⟩,
      fun _ => ⟨rfl, rfl, rfl⟩, fun _ => ⟨rfl, rfl⟩, rfl, fun _ => rfl, by simp [Thread.launchedBy],
      by simp [IPMessage.endsKiller, Thread.isKiller],
      by simp [IPMessage.endsWaiter, Thread.isWaiter],
      by simp [IPMessage.endsSwitch, Thread.isSwitch]⟩
  | schedTellMeEnergy =>
    simp only [handleMessage, serverOnSchedTellMeEnergy, bind_eq_ok] at h
    obtain ⟨_, -, h⟩ := h
    exact ⟨[], .of_quiet (quiet_append h rfl) rfl rfl rfl⟩
  | schedTellMeCarbonFootprint =>
    simp only [handleMessage, serverOnSchedTellMeCarbonFootprint, bind_eq_ok] at h
    obtain ⟨_, -, h⟩ := h
    exact ⟨[], .of_quiet (quiet_append h rfl) rfl rfl rfl⟩
  | schedTellMeWaterFootprint =>
    simp only [handleMessage, serverOnSchedTellMeWaterFootprint, bind_eq_ok] at h
    obtain ⟨_, -, h⟩ := h
    exact ⟨[], .of_quiet (quiet_append h rfl) rfl rfl rfl⟩
  | schedSetJobMetadata _ _ => exact ⟨[], .of_quiet (serverOnSetJobMetadata_effect h) rfl rfl rfl⟩
  | schedReady =>
    obtain ⟨-, -, -, hq, hs, ha⟩ := serverOnSchedReady_effect h
    exact ⟨[], .of_same hq.keeps (fun _ => hq.jobs) (fun _ => hq.machines) hq.pool (fun _ => hs)
      (by simp) ha rfl rfl rfl⟩
  | waitingDone =>
    obtain ⟨hw, hk, hn, hq, hs, he⟩ := serverOnWaitingDone_effect h
    exact ⟨[], hq.keeps, fun _ => hq.jobs, fun _ => hq.machines, fun _ => hs, fun _ => he,
      by simp [hq.pool], fun _ => by rw [hq.pool], by simp, by simp [hk, IPMessage.endsKiller],
      by simp [hw, IPMessage.endsWaiter], by simp [hn, IPMessage.endsSwitch]⟩
  | killingDone ids acknowledge =>
    obtain ⟨hk, hm, hp, hs, he, hn, hw, hkillers⟩ := serverOnKillingDone_frame h
    exact ⟨[], hk, by simp [IPMessage.touchesJobs], fun _ => hm, fun _ => hs, fun _ => he,
      by simp [hp], fun _ => by rw [hp], by simp, by simp [hkillers, IPMessage.endsKiller],
      by simp [hw, IPMessage.endsWaiter], by simp [hn, IPMessage.endsSwitch]⟩
  | submitterHello _ _ _ =>
    obtain ⟨-, -, -, -, -, -, hq, he, ha⟩ := serverOnSubmitterHello_effect h
    exact ⟨[], .of_same hq.keeps (fun _ => hq.jobs) (fun _ => hq.machines) hq.pool
      (by simp [IPMessage.touchesSubmitters]) (fun _ => he) ha rfl rfl rfl⟩
  | submitterBye _ _ _ =>
    obtain ⟨-, -, -, -, -, hq, he, ha⟩ := serverOnSubmitterBye_effect h
    exact ⟨[], .of_same hq.keeps (fun _ => hq.jobs) (fun _ => hq.machines) hq.pool
      (by simp [IPMessage.touchesSubmitters]) (fun _ => he) ha rfl rfl rfl⟩
  | switchedOn _ _ => exact ⟨[], serverOnSwitched_handled h rfl rfl rfl⟩
  | switchedOff _ _ => exact ⟨[], serverOnSwitched_handled h rfl rfl rfl⟩
  | endDynamicRegister =>
    simp only [handleMessage, serverOnEndDynamicRegister, Except.ok.injEq] at h
    exact ⟨[], h ▸ .of_quiet ⟨quiet_registrationSchedFinished s true, ⟨rfl, rfl, rfl⟩, ⟨rfl, rfl⟩,
      ⟨rfl, rfl, rfl⟩⟩ rfl rfl rfl⟩
  | continueDynamicRegister =>
    simp only [handleMessage, serverOnContinueDynamicRegister, Except.ok.injEq] at h
    exact ⟨[], h ▸ .of_quiet ⟨quiet_registrationSchedFinished s false, ⟨rfl, rfl, rfl⟩, ⟨rfl, rfl⟩,
      ⟨rfl, rfl, rfl⟩⟩ rfl rfl rfl⟩
  | eventOccurred name events =>
    obtain ⟨hk, hj, hp, hs, he, ha⟩ := serverOnEventOccurred_frame h
    exact ⟨[], .of_same hk (fun _ => hj) (by simp [IPMessage.touchesMachines]) hp (fun _ => hs)
      (fun _ => he) ha rfl rfl rfl⟩

end Batsim
