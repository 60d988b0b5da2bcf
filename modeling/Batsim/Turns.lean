import Batsim.Frames
import Batsim.Registration

/-!
The turns of the server: what the end of a turn does, and what a whole turn is made of.
-/

namespace Batsim

open Checked Sim

namespace Sim

/-- The simulation once the events of the writer are on their way to the scheduler. -/
def messageSent (s : Sim) : Sim :=
  { s with
    writer := s.writer.clear
    pool := s.pool.spawn (.requestReply s.writer.events)
    data := { s.data with schedReady := false }
    history := { s.history with
      sent := s.history.sent ++ [s.writer.events]
      readyWhenSent := s.history.readyWhenSent ++ [s.data.schedReady] } }

/-- A message may be sent now. -/
def CanSend (s : Sim) : Prop :=
  s.data.schedReady = true ∧ s.data.endOfSimulationAckReceived = false ∧ s.pool.mailbox = []

end Sim

theorem generateAndSendMessage_eq_ok {s s' : Sim} :
    generateAndSendMessage s = .ok s' ↔ s.writer.lastDate ≤ s.clock ∧ s' = s.messageSent := by
  simp only [generateAndSendMessage, bind_eq_ok, ProtocolWriter.generateCurrentMessage_eq_ok,
    Except.ok.injEq]
  constructor
  · rintro ⟨_, ⟨hdate, rfl⟩, rfl⟩
    exact ⟨hdate, rfl⟩
  · rintro ⟨hdate, rfl⟩
    exact ⟨_, ⟨hdate, rfl⟩, rfl⟩

/-- The end of a turn that sends what the writer holds, and forgets jobs. -/
structure Flushes (cfg : Config) (s s' : Sim) (workloads : Workloads) : Prop where
  canSend : s.CanSend
  nonempty : s.writer.isEmpty = false
  deleted : s.workloads.deleteJobs s.job s.data.jobsToBeDeleted cfg.garbageCollectProfiles =
    .ok workloads
  eq : s' = { s.messageSent with
    workloads := workloads
    data := { s.messageSent.data with jobsToBeDeleted := [] }
    exited := false }

/-- The end of a turn that tells the scheduler that the simulation ends. -/
structure Finishes (cfg : Config) (s s' : Sim) : Prop where
  canSend : s.CanSend
  empty : s.writer.isEmpty = true
  finished : isSimulationFinished cfg s = true
  notSent : s.data.endOfSimulationSent = false
  eq : s' = { (s.logged .simulationEnds).messageSent with
    data := { (s.logged .simulationEnds).messageSent.data with endOfSimulationSent := true }
    exited := false }

theorem endOfTurn_cases {cfg : Config} {s s' : Sim} (h : endOfTurn cfg s = .ok s') :
    s' = { s with exited := s.data.endOfSimulationAckReceived } ∨
      (∃ workloads, Flushes cfg s s' workloads) ∨ Finishes cfg s s' := by
  simp only [endOfTurn, bind_eq_ok, Except.ok.injEq] at h
  obtain ⟨t, ht, rfl⟩ := h
  split at ht
  · next hcan =>
    obtain ⟨hready, hack, hmailbox⟩ := hcan
    split at ht
    · next hnonempty =>
      simp only [bind_eq_ok, generateAndSendMessage_eq_ok] at ht
      obtain ⟨_, ⟨-, rfl⟩, ht⟩ := ht
      split at ht
      · simp only [bind_eq_ok, Except.ok.injEq] at ht
        obtain ⟨workloads, hdeleted, rfl⟩ := ht
        exact .inr (.inl ⟨workloads, ⟨hready, hack, hmailbox⟩, hnonempty, hdeleted,
          by simp [messageSent, hack]⟩)
      · next hnone =>
        simp only [messageSent, ne_eq, Decidable.not_not] at hnone
        rw [Except.ok.injEq] at ht
        subst ht
        exact .inr (.inl ⟨s.workloads, ⟨hready, hack, hmailbox⟩, hnonempty,
          by rw [hnone]; rfl, by simp [messageSent, hack, hnone]⟩)
    · next hempty =>
      split at ht
      · next hfinished =>
        simp only [bind_eq_ok, append_eq_ok, generateAndSendMessage_eq_ok,
          Except.ok.injEq] at ht
        obtain ⟨_, ⟨-, rfl⟩, _, ⟨-, rfl⟩, rfl⟩ := ht
        exact .inr (.inr ⟨⟨hready, hack, hmailbox⟩, by simpa using hempty, hfinished.1,
          hfinished.2, by simp [messageSent, logged, hack]⟩)
      · rw [Except.ok.injEq] at ht
        exact .inl (by rw [ht])
  · rw [Except.ok.injEq] at ht
    exact .inl (by rw [ht])

/-- `server_process` up to its loop sends the first message. -/
theorem serverProcess_effect {cfg : Config} {s s' : Sim} (h : serverProcess cfg s = .ok s') :
    s' = { (s.logged .simulationBegins).messageSent with
      data := { (s.logged .simulationBegins).messageSent.data with
        submitterCounters := fun
          | .jobSubmitter => { expectedNbSubmitters := s.workloads.nbStaticWorkloads }
          | .eventSubmitter => { expectedNbSubmitters := cfg.eventLists.length }
        jobsToBeDeleted := [] } } := by
  simp only [serverProcess, bind_eq_ok, append_eq_ok, generateAndSendMessage_eq_ok,
    Except.ok.injEq] at h
  obtain ⟨_, ⟨-, rfl⟩, _, ⟨-, rfl⟩, rfl⟩ := h
  rfl

/-- A turn handles its message and ends, unless the handler blocks on a callback. -/
theorem turn_cases {cfg : Config} {s s' : Sim} {m : IPMessage} (h : turn cfg s m = .ok s') :
    ∃ t, handleMessage cfg s m = .ok t ∧
      ((callsBack s m = true ∧ s' = t) ∨
        (callsBack s m = false ∧ endOfTurn cfg (t.noteHandled m) = .ok s')) := by
  simp only [turn, bind_eq_ok] at h
  obtain ⟨t, ht, h⟩ := h
  refine ⟨t, ht, ?_⟩
  split at h
  · next hblocked =>
    rw [Except.ok.injEq] at h
    exact .inl ⟨hblocked, h.symm⟩
  · next hblocked => exact .inr ⟨by simpa using hblocked, h⟩

theorem callsBack_eq_true {s : Sim} {m : IPMessage} :
    callsBack s m = true ↔
      ∃ p submitter, m = .jobCompleted p ∧ s.data.originOfJobs.lookup p.id = some submitter := by
  cases m with
  | jobCompleted p => simp [callsBack, Option.isSome_iff_exists]
  | _ => simp [callsBack]

/-- The turn that blocks on a callback. -/
theorem handleMessage_callsBack {cfg : Config} {s s' : Sim} {m : IPMessage}
    (hm : callsBack s m = true) (h : handleMessage cfg s m = .ok s') :
    ∃ p submitter, m = .jobCompleted p ∧
      s.data.originOfJobs.lookup p.id = some submitter ∧
      s' = { s with
        pool := s.pool.block (.serverCallback p submitter.mailbox)
        callbackBox := Function.update s.callbackBox submitter.mailbox
          (s.callbackBox submitter.mailbox ++ [p.id])
        history := { s.history with
          callbacks := s.history.callbacks ++ [(submitter.mailbox, p.id)] } } := by
  obtain ⟨p, submitter, rfl, horigin⟩ := callsBack_eq_true.mp hm
  obtain ⟨submitter', horigin', rfl⟩ | ⟨hnone, -⟩ := serverOnJobCompleted_effect h
  · exact ⟨p, submitter', rfl, horigin', rfl⟩
  · rw [horigin] at hnone
    cases hnone

/-- The end of the turn that was blocked on a callback. -/
theorem serverCallback_cases {cfg : Config} {s s' : Sim} {p : JobPtr} {mailbox : String}
    {o : Outcome} (h : runThread cfg s o (.serverCallback p mailbox) = .ok s') :
    ∃ t, serverOnCallbackReceived s p = .ok t ∧
      endOfTurn cfg (t.noteHandled (.jobCompleted p)) = .ok s' := by
  simpa only [runThread, bind_eq_ok] using h

/-- The simulation when the callback about `p` is received. -/
def Sim.untrack (s : Sim) (p : JobPtr) : Sim :=
  { s with data := { s.data with originOfJobs := s.data.originOfJobs.erase p.id } }

theorem serverOnCallbackReceived_effect {s s' : Sim} {p : JobPtr}
    (h : serverOnCallbackReceived s p = .ok s') :
    0 < s.data.nbRunningJobs ∧ (s.job p).isComplete = true ∧
      s' = (s.untrack p).completeJob p :=
  countJobCompletion_effect h

theorem serverOnCallbackReceived_frame {s s' : Sim} {p : JobPtr}
    (h : serverOnCallbackReceived s p = .ok s') : Keeps s s' ∧ SameMachines s s' ∧
      s'.pool = s.pool ∧ SameSubmitters s s' ∧ SameExchange s s' ∧ SameActivities s s' := by
  have huntrack : Keeps s (s.untrack p) :=
    .of_kept rfl
  obtain ⟨hk, hm, hp, hs, he, ha⟩ := countJobCompletion_frame (s := s.untrack p) h
  exact ⟨huntrack.trans hk, ⟨hm.machines, hm.unavailable⟩, hp,
    ⟨hs.submitters, hs.submitterCounters, hs.nbWorkflowSubmittersFinished⟩,
    ⟨he.schedReady, he.endOfSimulationAckReceived⟩,
    ⟨ha.nbSwitchingMachines, ha.nbWaiters, ha.nbKillers⟩⟩

end Batsim
