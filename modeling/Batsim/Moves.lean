import Batsim.ActorEffects
import Batsim.Frames

/-!
What a run of an actor may do to the pool of threads, and what it leaves alone.
-/

namespace Batsim

open Checked Workloads

/-- The messages that a thread may send, each with the thread that goes on once it is received. -/
inductive Thread.Puts : Thread → IPMessage → Option Thread → Prop
  | firstReply (message : List DatedEvent) (now : Date) (m : IPMessage) (sender : Option Thread) :
      (∀ u, sender = some u → ∃ rest, u = .applyReply now rest) → m.fromScheduler = true →
      Puts (.requestReply message) m sender
  | reply (now : Date) (todo : List ReplyItem) (m : IPMessage) (sender : Option Thread) :
      (∀ u, sender = some u → ∃ rest, u = .applyReply now rest) →
      (∃ i ∈ todo, m ∈ i.messages) → Puts (.applyReply now todo) m sender
  | completed (t : Thread) (a : ExecutionActor) : t.actor? = some a → t ≠ .notified a →
      Puts t (.jobCompleted a.allocation.job) (some (.notified a))
  | fromJob (t : Thread) (a : ExecutionActor) (message : String) : t.actor? = some a →
      t ≠ .notified a →
      Puts t (.fromJobMsg a.allocation.job.id message) (some (.executing a .other))
  | killed (ids : List JobIdentifier) (acknowledge : Bool) :
      Puts (.killer ids acknowledge) (.killingDone ids acknowledge) none
  | waited (t : Thread) : t.isWaiter = true → Puts t .waitingDone none
  | switchedOn (id : Nat) (pstate : Int) :
      Puts (.switchingOn id pstate) (.switchedOn id pstate) none
  | switchedOff (id : Nat) (pstate : Int) :
      Puts (.switchingOff id pstate) (.switchedOff id pstate) none
  | jobHello (w : String) : Puts (.jobSubmitter w .started)
      (.submitterHello (w ++ "_submitter") false .jobSubmitter) (some (.jobSubmitter w .greeted))
  | jobBye (w : String) (phase : SubmitterPhase JobPtr) : phase ≠ .started →
      Puts (.jobSubmitter w phase) (.submitterBye (w ++ "_submitter") .jobSubmitter false) none
  | jobs (w : String) (phase : SubmitterPhase JobPtr) (batch remaining : List JobPtr)
      (date : Date) : phase ≠ .started → batch ≠ [] →
      Puts (.jobSubmitter w phase) (.jobSubmitted (w ++ "_submitter") batch)
        (some (.jobSubmitter w (.sent date remaining)))
  | eventHello (l : String) : Puts (.eventSubmitter l .started)
      (.submitterHello (l ++ "_submitter") false .eventSubmitter)
      (some (.eventSubmitter l .greeted))
  | eventBye (l : String) (phase : SubmitterPhase ExternalEvent) : phase ≠ .started →
      Puts (.eventSubmitter l phase) (.submitterBye (l ++ "_submitter") .eventSubmitter false) none
  | events (l : String) (phase : SubmitterPhase ExternalEvent)
      (batch remaining : List ExternalEvent) (date : Date) : phase ≠ .started →
      Puts (.eventSubmitter l phase) (.eventOccurred (l ++ "_submitter") batch)
        (some (.eventSubmitter l (.sent date remaining)))
  | workflowHello (run : WorkflowRun) : Puts (.workflowSubmitter run .started)
      (.submitterHello (run.workflow.name ++ "_submitter") true .jobSubmitter)
      (some (.workflowSubmitter run .greeted))
  | workflowBye (run : WorkflowRun) (phase : WorkflowPhase) : phase ≠ .started →
      Puts (.workflowSubmitter run phase)
        (.submitterBye (run.workflow.name ++ "_submitter") .jobSubmitter true) none
  | workflowJob (run run' : WorkflowRun) (phase : WorkflowPhase) (id : JobIdentifier) (i : Nat) :
      phase ≠ .started → run'.workflow = run.workflow →
      Puts (.workflowSubmitter run phase)
        (.jobSubmitted (run.workflow.name ++ "_submitter") [⟨run.workflow.name, id⟩])
        (some (.workflowSubmitter run' (.submitted id i)))

/-- The threads as which a thread may wait for time to pass. -/
inductive Thread.Waits : Thread → Thread → Prop
  | reply (t : Thread) (now : Date) (rest : List ReplyItem) :
      (∃ message, t = .requestReply message) ∨ (∃ todo, t = .applyReply now todo) →
      Waits t (.applyReply now rest)
  | leaf (t : Thread) (a : ExecutionActor) (l : Leaf) : t.actor? = some a → t ≠ .notified a →
      Waits t (.executing a l)
  | waiter (date date' : Date) : Waits (.waiter date) (.waiting date')
  | switchOn (id : Nat) (pstate : Int) : Waits (.switchOn id pstate) (.switchingOn id pstate)
  | switchOff (id : Nat) (pstate : Int) : Waits (.switchOff id pstate) (.switchingOff id pstate)
  | jobs (w : String) (phase : SubmitterPhase JobPtr) (date : Date) (p : JobPtr)
      (rest : List JobPtr) : phase ≠ .started →
      Waits (.jobSubmitter w phase) (.jobSubmitter w (.asleep date p rest))
  | events (l : String) (phase : SubmitterPhase ExternalEvent) (date : Date) (e : ExternalEvent)
      (rest : List ExternalEvent) : phase ≠ .started →
      Waits (.eventSubmitter l phase) (.eventSubmitter l (.asleep date e rest))
  | workflowStart (run run' : WorkflowRun) (date : Date) : run'.workflow = run.workflow →
      Waits (.workflowSubmitter run .greeted) (.workflowSubmitter run' (.asleep date))
  | workflow (run run' : WorkflowRun) (phase : WorkflowPhase) : phase ≠ .started →
      run'.workflow = run.workflow →
      Waits (.workflowSubmitter run phase) (.workflowSubmitter run' .waiting)

/-- A thread that executes no job goes on as one that executes none. -/
theorem Thread.Puts.actor_of_sender {t u : Thread} {m : IPMessage} {a : ExecutionActor}
    (h : t.Puts m (some u)) (hu : u.actor? = some a) : ∃ b, t.actor? = some b := by
  cases h with
  | firstReply _ _ _ _ hsender _ =>
    obtain ⟨rest, rfl⟩ := hsender _ rfl
    cases hu
  | reply _ _ _ _ hsender _ =>
    obtain ⟨rest, rfl⟩ := hsender _ rfl
    cases hu
  | completed _ b hb _ => exact ⟨b, hb⟩
  | fromJob _ b _ hb _ => exact ⟨b, hb⟩
  | _ => cases hu

theorem Thread.Waits.actor_of_waiting {t u : Thread} {a : ExecutionActor} (h : t.Waits u)
    (hu : u.actor? = some a) : ∃ b, t.actor? = some b := by
  cases h with
  | leaf _ b _ hb _ => exact ⟨b, hb⟩
  | _ => cases hu

/-- The threads that may end. -/
def Thread.mayEnd : Thread → Bool
  | waiting _ | waiter _ | notified _ | executeJob _ | executing _ _ | cancelled _
  | requestReply _ | applyReply _ _ => true
  | _ => false

/-- What the loop of a killer may do to the pool. -/
inductive KillSteps : Pool IPMessage Thread → Pool IPMessage Thread → Prop
  | refl (p : Pool IPMessage Thread) : KillSteps p p
  | interrupt {p q : Pool IPMessage Thread} (n : Nat) : KillSteps p q →
      KillSteps p (q.interrupt (Thread.waitsOnPtask n) Thread.cancel)
  | kill {p q : Pool IPMessage Thread} (actors : List Nat) : KillSteps p q →
      KillSteps p (q.kill (Thread.isActorIn actors))

/-- What a run of the thread `t` does to the pool it has left. -/
inductive Thread.Moves (t : Thread) (p : Pool IPMessage Thread) : Pool IPMessage Thread → Prop
  | ends : t.mayEnd = true → Moves t p p
  | puts (q : Pool IPMessage Thread) (m : IPMessage) (sender : Option Thread) : t.Puts m sender →
      (q = p ∨ (t.isKiller = true ∧ KillSteps p q)) → Moves t p (q.put m sender)
  | waits (u : Thread) : t.Waits u → Moves t p (p.block u)

/-- What no actor but the server touches. -/
structure ActorKeeps (s s' : Sim) : Prop where
  clock : s'.clock = s.clock
  data : s'.data = s.data
  writer : s'.writer = s.writer
  exited : s'.exited = s.exited
  nextActor : s'.nextActor = s.nextActor
  currentSwitches : s'.currentSwitches = s.currentSwitches
  handled : s'.history.handled = s.history.handled
  submitted : s'.history.submitted = s.history.submitted
  started : s'.history.started = s.history.started
  counted : s'.history.counted = s.history.counted
  pushed : s'.history.pushed = s.history.pushed
  resubmitted : s'.history.resubmitted = s.history.resubmitted
  tracked : s'.history.tracked = s.history.tracked
  callbacks : s'.history.callbacks = s.history.callbacks
  killRequests : s'.history.killRequests = s.history.killRequests
  countedKilled : s'.history.countedKilled = s.history.countedKilled
  appended : s'.history.appended = s.history.appended
  sent : s'.history.sent = s.history.sent
  readyWhenSent : s'.history.readyWhenSent = s.history.readyWhenSent
  unavailable : s'.history.unavailable = s.history.unavailable

namespace ActorKeeps

variable {s s' s'' : Sim}

theorem refl (s : Sim) : ActorKeeps s s := by
  constructor <;> rfl

theorem trans (h : ActorKeeps s s') (h' : ActorKeeps s' s'') : ActorKeeps s s'' :=
  ⟨h'.clock.trans h.clock, h'.data.trans h.data, h'.writer.trans h.writer,
    h'.exited.trans h.exited, h'.nextActor.trans h.nextActor,
    h'.currentSwitches.trans h.currentSwitches, h'.handled.trans h.handled,
    h'.submitted.trans h.submitted, h'.started.trans h.started, h'.counted.trans h.counted,
    h'.pushed.trans h.pushed, h'.resubmitted.trans h.resubmitted, h'.tracked.trans h.tracked,
    h'.callbacks.trans h.callbacks, h'.killRequests.trans h.killRequests,
    h'.countedKilled.trans h.countedKilled, h'.appended.trans h.appended, h'.sent.trans h.sent,
    h'.readyWhenSent.trans h.readyWhenSent, h'.unavailable.trans h.unavailable⟩

end ActorKeeps

theorem actorKeeps_endJob (s : Sim) (p : JobPtr) (j : Job) (machines : Machines) :
    ActorKeeps s (s.endJob p j machines) := by
  constructor <;> rfl

theorem actorKeeps_noteSilentEnd (s : Sim) (p : JobPtr) : ActorKeeps s (s.noteSilentEnd p) := by
  constructor <;> rfl

theorem actorKeeps_eraseActor (s : Sim) (a : ExecutionActor) : ActorKeeps s (eraseActor s a) := by
  constructor <;> rfl

theorem actorKeeps_put (s : Sim) (m : IPMessage) (sender : Option Thread) :
    ActorKeeps s (s.put m sender) := by
  constructor <;> rfl

theorem actorKeeps_block (s : Sim) (t : Thread) : ActorKeeps s (s.block t) := by
  constructor <;> rfl

theorem Adds.keeps {s s' : Sim} {new : Option (JobPtr × Job)} (h : Adds s s' new) :
    ActorKeeps s s' := by
  rw [h.eq]
  cases new <;> constructor <;> rfl

theorem Adds.pool {s s' : Sim} {new : Option (JobPtr × Job)} (h : Adds s s' new) :
    s'.pool = s.pool := by
  rw [h.eq]
  cases new <;> rfl

/-! ### Readers -/

theorem noteSent_pool (s : Sim) (m : IPMessage) : (s.noteSent m).pool = s.pool := by
  unfold Sim.noteSent
  split <;> rfl

theorem noteSent_keeps (s : Sim) (m : IPMessage) : ActorKeeps s (s.noteSent m) := by
  unfold Sim.noteSent
  split <;> constructor <;> rfl

/-- Sending at a date is to wait or to offer the message. -/
theorem sendAtTime_cases (now : Date) (s : Sim) (date : Date) (m : IPMessage)
    (rest : List ReplyItem) :
    sendAtTime now s date m rest = s.block (.applyReply now (.send date m :: rest)) ∨
      sendAtTime now s date m rest =
        (s.put m (if rest = [] then none else some (.applyReply now rest))).noteSent m := by
  unfold sendAtTime
  split
  · exact .inl rfl
  · exact .inr rfl

theorem sendAtTime_keeps (now : Date) (s : Sim) (date : Date) (m : IPMessage)
    (rest : List ReplyItem) : ActorKeeps s (sendAtTime now s date m rest) := by
  obtain h | h := sendAtTime_cases now s date m rest <;> rw [h]
  · exact actorKeeps_block s _
  · exact (actorKeeps_put s m _).trans (noteSent_keeps _ m)

theorem applyReply_moves {cfg : Config} {now : Date} {s s' : Sim} {todo : List ReplyItem}
    {t : Thread} (howned : s.workloads.Owned) (h : applyReply cfg now s todo = .ok s')
    (ht : (∃ message, t = .requestReply message ∧ ∀ i ∈ todo, ∀ m ∈ i.messages,
        m.fromScheduler = true) ∨ t = .applyReply now todo) :
    t.Moves s.pool s'.pool ∧ ActorKeeps s s' := by
  have hend : t.mayEnd = true := by
    obtain ⟨message, rfl, -⟩ | rfl := ht <;> rfl
  obtain ⟨rfl, -⟩ | ⟨skipped, item, tail, u, new, date, m, ms, rfl, -, hitem, hadds, -, rfl⟩ :=
    applyReply_effect howned h
  · exact ⟨.ends hend, .refl _⟩
  · refine ⟨?_, hadds.keeps.trans (sendAtTime_keeps now u date m _)⟩
    have hm : ∃ i ∈ skipped ++ item :: tail, m ∈ i.messages :=
      ⟨item, by simp, by simp [hitem]⟩
    obtain hsend | hsend := sendAtTime_cases now u date m (ms.map (.send date) ++ tail)
    · rw [hsend, Sim.block, hadds.pool]
      refine .waits _ (.reply t now _ ?_)
      obtain ⟨message, rfl, -⟩ | rfl := ht
      · exact .inl ⟨message, rfl⟩
      · exact .inr ⟨_, rfl⟩
    · rw [hsend, noteSent_pool, Sim.put, hadds.pool]
      refine .puts _ m _ ?_ (.inl rfl)
      have hsender : ∀ v, (if ms.map (ReplyItem.send date) ++ tail = [] then none
          else some (Thread.applyReply now (ms.map (.send date) ++ tail))) = some v →
          ∃ rest, v = .applyReply now rest := by
        intro v hv
        split at hv
        · cases hv
        · cases hv
          exact ⟨_, rfl⟩
      obtain ⟨message, rfl, hfrom⟩ | rfl := ht
      · obtain ⟨i, hi, hmi⟩ := hm
        exact .firstReply message now m _ hsender (hfrom i hi m hmi)
      · exact .reply now _ m _ hsender hm

theorem todo_fromScheduler {r : Reply} {i : ReplyItem} (hi : i ∈ r.todo) {m : IPMessage}
    (hm : m ∈ i.messages) : m.fromScheduler = true := by
  simp only [Reply.todo, List.mem_append, List.mem_map, List.mem_singleton] at hi
  obtain ⟨e, -, rfl⟩ | rfl := hi
  · exact SchedulerEventData.fromScheduler_of_mem hm
  · simp only [ReplyItem.messages, List.mem_singleton] at hm
    rw [hm]
    rfl

/-! ### Jobs and killers -/

theorem finishJob_moves {s s' : Sim} {a : ExecutionActor} {returnCode : Int} {t : Thread}
    (ht : t.actor? = some a) (hnot : t ≠ .notified a) (h : finishJob s a returnCode = .ok s') :
    t.Moves s.pool s'.pool ∧ ActorKeeps s s' := by
  obtain ⟨j, machines, -, -, -, -, -, ⟨-, -, rfl⟩ | ⟨-, -, rfl⟩⟩ := finishJob_effect h
  · rw [pool_put, pool_endJob]
    exact ⟨.puts _ _ _ (.completed t a ht hnot) (.inl rfl),
      (actorKeeps_endJob s a.allocation.job j machines).trans (actorKeeps_put _ _ _)⟩
  · have hends : t.mayEnd = true := by
      cases t <;> simp_all [Thread.actor?, Thread.mayEnd]
    rw [pool_eraseActor, pool_noteSilentEnd, pool_endJob]
    exact ⟨.ends hends, ((actorKeeps_endJob s a.allocation.job j machines).trans
      (actorKeeps_noteSilentEnd _ _)).trans (actorKeeps_eraseActor _ a)⟩

theorem executeTask_moves {s s' : Sim} {a : ExecutionActor} {step : TaskStep} {t : Thread}
    (ht : t.actor? = some a) (hnot : t ≠ .notified a) (h : executeTask s a step = .ok s') :
    t.Moves s.pool s'.pool ∧ ActorKeeps s s' := by
  obtain ⟨l, -, rfl⟩ | ⟨message, -, rfl⟩ | ⟨returnCode, -, hfinish⟩ := executeTask_effect h
  · exact ⟨.waits _ (.leaf t a l ht hnot), by constructor <;> rfl⟩
  · exact ⟨.puts _ _ _ (.fromJob t a message ht hnot) (.inl rfl), by constructor <;> rfl⟩
  · exact finishJob_moves ht hnot hfinish

theorem killJob_frame {s s' : Sim} {id : JobIdentifier} (h : killJob s id = .ok s') :
    (s'.pool = s.pool ∨ (∃ n, s'.pool = s.pool.interrupt (Thread.waitsOnPtask n) Thread.cancel) ∨
        ∃ actors, s'.pool = s.pool.kill (Thread.isActorIn actors)) ∧
      ActorKeeps s s' ∧ s'.workloads = s.workloads ∧
      s'.history.replies = s.history.replies := by
  obtain ⟨p, -, -, -, -, ⟨-, rfl⟩ | ⟨n, -, -, ⟨-, rfl⟩ | ⟨-, -, j, machines, -, -, -, -, -, -, rfl⟩⟩⟩ :=
    killJob_effect h
  · exact ⟨.inl rfl, by constructor <;> rfl, rfl, rfl⟩
  · exact ⟨.inr (.inl ⟨n, rfl⟩), by constructor <;> rfl, rfl, rfl⟩
  · exact ⟨.inr (.inr ⟨_, rfl⟩), by constructor <;> rfl, rfl, rfl⟩

theorem killJobs_frame {s s' : Sim} {ids : List JobIdentifier}
    (h : forEach killJob s ids = .ok s') :
    KillSteps s.pool s'.pool ∧ ActorKeeps s s' ∧ s'.workloads = s.workloads ∧
      s'.history.replies = s.history.replies := by
  refine forEach_preserves (P := fun t => KillSteps s.pool t.pool ∧ ActorKeeps s t ∧
    t.workloads = s.workloads ∧ t.history.replies = s.history.replies)
    ⟨.refl _, by constructor <;> rfl, rfl, rfl⟩ ?_ h
  rintro id - t t' ⟨hpool, hkeeps, hw, hr⟩ hstep
  obtain ⟨hpool', hkeeps', hw', hr'⟩ := killJob_frame hstep
  refine ⟨?_, hkeeps.trans hkeeps', hw'.trans hw, hr'.trans hr⟩
  obtain heq | ⟨n, heq⟩ | ⟨actors, heq⟩ := hpool' <;> rw [heq]
  · exact hpool
  · exact .interrupt n hpool
  · exact .kill actors hpool

/-! ### Submitters -/

theorem staticJobSubmitterProcess_moves {s s' : Sim} {w : String} {phase : SubmitterPhase JobPtr}
    (h : staticJobSubmitterProcess s w phase = .ok s') :
    (Thread.jobSubmitter w phase).Moves s.pool s'.pool ∧ ActorKeeps s s' := by
  have hdoes : ∀ {items : List JobPtr}, phase ≠ .started →
      (jobSubmitterKind s w).Does s items s' →
      (Thread.jobSubmitter w phase).Moves s.pool s'.pool ∧ ActorKeeps s s' := by
    intro items hphase hdoes
    cases hdoes with
    | bye _ => exact ⟨.puts _ _ _ (.jobBye w phase hphase) (.inl rfl), by constructor <;> rfl⟩
    | send batch remaining date hbatch _ =>
      exact ⟨.puts _ _ _ (.jobs w phase batch remaining date hphase hbatch) (.inl rfl),
        by constructor <;> rfl⟩
    | sleep date p rest _ => exact ⟨.waits _ (.jobs w phase date p rest hphase),
        by constructor <;> rfl⟩
  obtain ⟨rfl, rfl⟩ | ⟨rfl, list, -, hd⟩ | ⟨hstarted, -, hd⟩ := SubmitterKind.resume_effect _ h
  · exact ⟨.puts _ _ _ (.jobHello w) (.inl rfl), by constructor <;> rfl⟩
  · exact hdoes (by simp) hd
  · exact hdoes hstarted hd

theorem staticEventSubmitterProcess_moves {cfg : Config} {s s' : Sim} {l : String}
    {phase : SubmitterPhase ExternalEvent}
    (h : staticEventSubmitterProcess cfg s l phase = .ok s') :
    (Thread.eventSubmitter l phase).Moves s.pool s'.pool ∧ ActorKeeps s s' := by
  have hdoes : ∀ {items : List ExternalEvent}, phase ≠ .started →
      (eventSubmitterKind l).Does s items s' →
      (Thread.eventSubmitter l phase).Moves s.pool s'.pool ∧ ActorKeeps s s' := by
    intro items hphase hdoes
    cases hdoes with
    | bye _ => exact ⟨.puts _ _ _ (.eventBye l phase hphase) (.inl rfl), by constructor <;> rfl⟩
    | send batch remaining date _ _ =>
      exact ⟨.puts _ _ _ (.events l phase batch remaining date hphase) (.inl rfl),
        by constructor <;> rfl⟩
    | sleep date e rest _ => exact ⟨.waits _ (.events l phase date e rest hphase),
        by constructor <;> rfl⟩
  obtain ⟨rfl, rfl⟩ | ⟨rfl, list, -, hd⟩ | ⟨hstarted, -, hd⟩ := SubmitterKind.resume_effect _ h
  · exact ⟨.puts _ _ _ (.eventHello l) (.inl rfl), by constructor <;> rfl⟩
  · exact hdoes (by simp) hd
  · exact hdoes hstarted hd

/-- The loop of a workflow submitter, entered with local variables `run'` of the same workflow. -/
theorem workflowLoop_moves {cfg : Config} {s s' : Sim} {run run' : WorkflowRun}
    {phase : WorkflowPhase} (h : workflowLoop cfg s run' = .ok s') (hphase : phase ≠ .started)
    (hrun : run'.workflow = run.workflow) :
    (Thread.workflowSubmitter run phase).Moves s.pool s'.pool ∧ ActorKeeps s s' := by
  have hdoes := workflowLoop_effect h
  cases hdoes with
  | send t id j run'' i hrun'' _ _ _ hadds =>
    refine ⟨?_, hadds.keeps.trans (by constructor <;> rfl)⟩
    rw [Sim.put, hadds.pool, hrun]
    exact .puts _ _ _ (.workflowJob run run'' phase id i hphase (hrun''.trans hrun)) (.inl rfl)
  | wait _ => exact ⟨.waits _ (.workflow run run' phase hphase hrun), by constructor <;> rfl⟩
  | bye _ =>
    rw [hrun]
    exact ⟨.puts _ _ _ (.workflowBye run phase hphase) (.inl rfl), by constructor <;> rfl⟩

theorem workflowSubmitterProcess_moves {cfg : Config} {s s' : Sim} {run : WorkflowRun}
    {phase : WorkflowPhase} (h : workflowSubmitterProcess cfg s run phase = .ok s') :
    (Thread.workflowSubmitter run phase).Moves s.pool s'.pool ∧ ActorKeeps s s' := by
  cases phase with
  | started =>
    simp only [workflowSubmitterProcess, Except.ok.injEq] at h
    subst h
    exact ⟨.puts _ _ _ (.workflowHello run) (.inl rfl), by constructor <;> rfl⟩
  | greeted =>
    simp only [workflowSubmitterProcess, Except.ok.injEq] at h
    subst h
    exact ⟨.waits _ (.workflowStart run _ _ rfl), by constructor <;> rfl⟩
  | asleep date => exact workflowLoop_moves h (by simp) rfl
  | submitted id i => exact workflowLoop_moves h (by simp) rfl
  | waiting =>
    simp only [workflowSubmitterProcess] at h
    split at h
    · cases h
    · split at h
      · cases h
      · split at h
        · cases h
        · have hphase : WorkflowPhase.waiting ≠ .started := by simp
          have hloop := workflowLoop_moves h hphase (rfl : _ = run.workflow)
          exact ⟨hloop.1, ActorKeeps.trans (by constructor <;> rfl) hloop.2⟩

/-! ### All actors -/

/-- The server, before its loop or in the middle of a turn. -/
def Thread.isServer : Thread → Bool
  | serverProcess | serverCallback _ _ => true
  | _ => false

theorem endOfWait_moves {s : Sim} {t : Thread} (ht : t.isWaiter = true) :
    t.Moves s.pool (endOfWait s).pool ∧ ActorKeeps s (endOfWait s) := by
  obtain ⟨heq, -⟩ | ⟨heq, -⟩ := endOfWait_cases s <;> rw [heq]
  · refine ⟨.ends ?_, by constructor <;> rfl⟩
    cases t <;> simp_all [Thread.isWaiter, Thread.mayEnd]
  · exact ⟨.puts _ _ _ (.waited t ht) (.inl rfl), by constructor <;> rfl⟩

/-- A run of an actor that is not the server is a move, and leaves the server's data alone. -/
theorem runThread_moves {cfg : Config} {s s' : Sim} {o : Outcome} {t : Thread}
    (howned : s.workloads.Owned) (ht : t.isServer = false)
    (h : runThread cfg s o t = .ok s') : t.Moves s.pool s'.pool ∧ ActorKeeps s s' := by
  cases t with
  | serverProcess => cases ht
  | serverCallback p mailbox => cases ht
  | requestReply message =>
    cases o with
    | reply r =>
      obtain ⟨hmoves, hkeeps⟩ := applyReply_moves (t := .requestReply message)
        (s := { s with history := { s.history with replies := s.history.replies ++ [(r, [])] } })
        howned (requestReply_effect h)
        (.inl ⟨message, rfl, fun i hi m hm => todo_fromScheduler hi hm⟩)
      exact ⟨hmoves, ActorKeeps.trans (by constructor <;> rfl) hkeeps⟩
    | _ => simp [runThread] at h
  | applyReply now todo => exact applyReply_moves howned h (.inr rfl)
  | executeJob a =>
    cases o with
    | task step =>
      simp only [runThread, bind_eq_ok] at h
      obtain ⟨u, hu, h⟩ := h
      obtain ⟨machines, -, rfl⟩ := startJob_effect hu
      obtain ⟨hmoves, hkeeps⟩ := executeTask_moves (t := .executeJob a) rfl (by simp) h
      exact ⟨hmoves, ActorKeeps.trans (by constructor <;> rfl) hkeeps⟩
    | _ => simp [runThread] at h
  | executing a l =>
    cases o with
    | task step => exact executeTask_moves (t := .executing a l) rfl (by simp) h
    | _ => simp [runThread] at h
  | cancelled a => exact finishJob_moves (t := .cancelled a) rfl (by simp) h
  | notified a =>
    simp only [runThread, Except.ok.injEq] at h
    subst h
    exact ⟨.ends rfl, by constructor <;> rfl⟩
  | killer ids acknowledge =>
    obtain ⟨u, hu, rfl⟩ := killerProcess_effect h
    obtain ⟨hpool, hkeeps, -, -⟩ := killJobs_frame hu
    exact ⟨.puts _ _ _ (.killed ids acknowledge) (.inr ⟨rfl, hpool⟩),
      hkeeps.trans (by constructor <;> rfl)⟩
  | waiter date =>
    simp only [runThread, Except.ok.injEq] at h
    subst h
    obtain ⟨d, heq⟩ | heq := waiterProcess_cases s date <;> rw [heq]
    · exact ⟨.waits _ (.waiter date d), by constructor <;> rfl⟩
    · exact endOfWait_moves rfl
  | waiting date =>
    simp only [runThread, Except.ok.injEq] at h
    subst h
    exact endOfWait_moves rfl
  | switchOn id pstate =>
    obtain ⟨m, sleep, -, -, -, rfl⟩ := switchOnMachineProcess_effect h
    exact ⟨.waits _ (.switchOn id pstate), by constructor <;> rfl⟩
  | switchingOn id pstate =>
    obtain ⟨m, machines, -, -, -, rfl⟩ := endOfSwitch_effect h
    exact ⟨.puts _ _ _ (.switchedOn id pstate) (.inl rfl), by constructor <;> rfl⟩
  | switchOff id pstate =>
    obtain ⟨m, sleep, -, -, -, rfl⟩ := switchOffMachineProcess_effect h
    exact ⟨.waits _ (.switchOff id pstate), by constructor <;> rfl⟩
  | switchingOff id pstate =>
    obtain ⟨m, machines, -, -, -, rfl⟩ := endOfSwitch_effect h
    exact ⟨.puts _ _ _ (.switchedOff id pstate) (.inl rfl), by constructor <;> rfl⟩
  | jobSubmitter w phase => exact staticJobSubmitterProcess_moves h
  | eventSubmitter l phase => exact staticEventSubmitterProcess_moves h
  | workflowSubmitter run phase => exact workflowSubmitterProcess_moves h

end Batsim
