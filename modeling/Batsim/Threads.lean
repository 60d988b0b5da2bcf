import Batsim.Moves
import Batsim.Turns

/-!
Where each thread may be: what holds of the store and of the pool in every state of every run.
-/

namespace Batsim

open Checked Workloads Sim StepSystem

/-! ### The kinds of steps -/

/-- What a step is, by who runs: time, the server in one of its three places, another actor. -/
inductive StepKind (cfg : Config) (s s' : Sim) : Choice → Prop
  | solve (clock : Date) (receive : Bool) (wakes rest : List Thread)
      (order : List (Entry IPMessage Thread)) (pool : Pool IPMessage Thread) :
      canSolve s clock receive wakes rest = true →
      s.pool.solve receive wakes rest order = some pool →
      s' = { s with clock := clock, pool := pool } →
      StepKind cfg s s' (.solve clock receive wakes rest order)
  | turn (o : Outcome) (m : IPMessage) (pool : Pool IPMessage Thread) :
      s.pool.next? = some (.deliver m, pool) → turn cfg { s with pool := pool } m = .ok s' →
      StepKind cfg s s' (.run o)
  | callback (o : Outcome) (p : JobPtr) (mailbox : String) (pool : Pool IPMessage Thread) :
      s.pool.next? = some (.resume (.serverCallback p mailbox), pool) →
      runThread cfg { s with pool := pool } o (.serverCallback p mailbox) = .ok s' →
      StepKind cfg s s' (.run o)
  | start (o : Outcome) (pool : Pool IPMessage Thread) :
      s.pool.next? = some (.resume .serverProcess, pool) →
      serverProcess cfg { s with pool := pool } = .ok s' → StepKind cfg s s' (.run o)
  | actor (o : Outcome) (t : Thread) (pool : Pool IPMessage Thread) : t.isServer = false →
      s.pool.next? = some (.resume t, pool) →
      runThread cfg { s with pool := pool } o t = .ok s' → StepKind cfg s s' (.run o)

theorem step_kind {cfg : Config} {s s' : Sim} {c : Choice}
    (h : (batsim cfg).step s c = .ok s') : StepKind cfg s s' c := by
  obtain ⟨clock, receive, wakes, rest, order, pool, rfl, hcan, hpool, hs'⟩ |
    ⟨o, m, pool, rfl, hnext, hturn⟩ | ⟨o, t, pool, rfl, hnext, hrun⟩ := step_cases h
  · exact .solve clock receive wakes rest order pool hcan hpool hs'
  · exact .turn o m pool hnext hturn
  · cases t with
    | serverProcess => exact .start o pool hnext hrun
    | serverCallback p mailbox => exact .callback o p mailbox pool hnext hrun
    | _ => exact .actor o _ pool rfl hnext hrun

/-! ### The store -/

theorem sendAtTime_workloads (now : Date) (s : Sim) (date : Date) (m : IPMessage)
    (rest : List ReplyItem) : (sendAtTime now s date m rest).workloads = s.workloads := by
  unfold sendAtTime Sim.noteSent
  split
  · rfl
  · split <;> rfl

/-- An actor adds at most one job to the store, and never removes one. -/
theorem runThread_registers {cfg : Config} {s s' : Sim} {o : Outcome} {t : Thread}
    (howned : s.workloads.Owned) (ht : t.isServer = false) (h : runThread cfg s o t = .ok s') :
    ∃ new, Registers s.workloads s'.workloads new := by
  have hreply : ∀ {u u' : Sim} {now : Date} {todo : List ReplyItem},
      applyReply cfg now u todo = .ok u' → u.workloads.Owned →
        ∃ new, Registers u.workloads u'.workloads new := by
    intro u u' now todo hrun hu
    obtain ⟨rfl, -⟩ | ⟨_, _, tail, v, new, date, m, ms, -, -, -, hadds, -, rfl⟩ :=
      applyReply_effect hu hrun
    · exact ⟨none, .refl _⟩
    · refine ⟨new.map Prod.fst, ?_⟩
      rw [sendAtTime_workloads]
      exact hadds.registers
  have hloop : ∀ {u : Sim} {run : WorkflowRun}, workflowLoop cfg u run = .ok s' →
      u.workloads = s.workloads → ∃ new, Registers s.workloads s'.workloads new := by
    intro u run hrun hu
    have hdoes := workflowLoop_effect hrun
    cases hdoes with
    | send v id j run' i _ _ _ _ hadds => exact ⟨_, hu ▸ hadds.registers⟩
    | wait _ => exact ⟨none, hu ▸ .refl _⟩
    | bye _ => exact ⟨none, hu ▸ .refl _⟩
  have hfinish : ∀ {u : Sim} {a : ExecutionActor} {rc : Int}, finishJob u a rc = .ok s' →
      s'.workloads = u.workloads := by
    intro u a rc hrun
    obtain ⟨j, machines, -, -, -, -, -, ⟨-, -, rfl⟩ | ⟨-, -, rfl⟩⟩ := finishJob_effect hrun <;> rfl
  have htask : ∀ {u : Sim} {a : ExecutionActor} {step : TaskStep}, executeTask u a step = .ok s' →
      s'.workloads = u.workloads := by
    intro u a step hrun
    obtain ⟨l, -, rfl⟩ | ⟨message, -, rfl⟩ | ⟨returnCode, -, hrun⟩ := executeTask_effect hrun
    · rfl
    · rfl
    · exact hfinish hrun
  have hsame : s'.workloads = s.workloads → ∃ new, Registers s.workloads s'.workloads new :=
    fun heq => ⟨none, heq ▸ .refl _⟩
  cases t with
  | serverProcess => cases ht
  | serverCallback p mailbox => cases ht
  | requestReply message =>
    cases o with
    | reply r =>
      have hregisters := hreply (requestReply_effect h) howned
      exact hregisters
    | _ => simp [runThread] at h
  | applyReply now todo => exact hreply h howned
  | executeJob a =>
    cases o with
    | task step =>
      simp only [runThread, bind_eq_ok] at h
      obtain ⟨u, hu, h⟩ := h
      obtain ⟨machines, -, rfl⟩ := startJob_effect hu
      exact hsame ((htask h).trans rfl)
    | _ => simp [runThread] at h
  | executing a l =>
    cases o with
    | task step => exact hsame (htask h)
    | _ => simp [runThread] at h
  | cancelled a => exact hsame (hfinish h)
  | notified a =>
    simp only [runThread, Except.ok.injEq] at h
    exact hsame (h ▸ rfl)
  | killer ids acknowledge =>
    obtain ⟨u, hu, rfl⟩ := killerProcess_effect h
    exact hsame (killJobs_frame hu).2.2.1
  | waiter date =>
    simp only [runThread, Except.ok.injEq] at h
    subst h
    refine hsame ?_
    unfold waiterProcess endOfWait
    split
    · rfl
    · split <;> rfl
  | waiting date =>
    simp only [runThread, Except.ok.injEq] at h
    subst h
    refine hsame ?_
    unfold endOfWait
    split <;> rfl
  | switchOn id pstate =>
    obtain ⟨m, sleep, -, -, -, rfl⟩ := switchOnMachineProcess_effect h
    exact hsame rfl
  | switchingOn id pstate =>
    obtain ⟨m, machines, -, -, -, rfl⟩ := endOfSwitch_effect h
    exact hsame rfl
  | switchOff id pstate =>
    obtain ⟨m, sleep, -, -, -, rfl⟩ := switchOffMachineProcess_effect h
    exact hsame rfl
  | switchingOff id pstate =>
    obtain ⟨m, machines, -, -, -, rfl⟩ := endOfSwitch_effect h
    exact hsame rfl
  | jobSubmitter w phase =>
    have hdoes : ∀ {items : List JobPtr}, (jobSubmitterKind s w).Does s items s' →
        s'.workloads = s.workloads := by
      intro items hdoes
      cases hdoes <;> rfl
    obtain ⟨-, rfl⟩ | ⟨-, list, -, hd⟩ | ⟨-, -, hd⟩ := SubmitterKind.resume_effect _ h
    · exact hsame rfl
    · exact hsame (hdoes hd)
    · exact hsame (hdoes hd)
  | eventSubmitter l phase =>
    have hdoes : ∀ {items : List ExternalEvent}, (eventSubmitterKind l).Does s items s' →
        s'.workloads = s.workloads := by
      intro items hdoes
      cases hdoes <;> rfl
    obtain ⟨-, rfl⟩ | ⟨-, list, -, hd⟩ | ⟨-, -, hd⟩ := SubmitterKind.resume_effect _ h
    · exact hsame rfl
    · exact hsame (hdoes hd)
    · exact hsame (hdoes hd)
  | workflowSubmitter run phase =>
    cases phase with
    | started | greeted =>
      simp only [runThread, workflowSubmitterProcess, Except.ok.injEq] at h
      exact hsame (h ▸ rfl)
    | asleep date => exact hloop h rfl
    | submitted id i => exact hloop h rfl
    | waiting =>
      simp only [runThread, workflowSubmitterProcess] at h
      repeat' split at h
      any_goals cases h
      exact hloop h rfl

theorem endOfTurn_owned {cfg : Config} {s s' : Sim} (h : endOfTurn cfg s = .ok s')
    (howned : s.workloads.Owned) : s'.workloads.Owned := by
  obtain rfl | ⟨workloads, hflush⟩ | hfinish := endOfTurn_cases h
  · exact howned
  · rw [hflush.eq]
    exact (deleteJobs_effect hflush.deleted howned).1
  · rw [hfinish.eq]
    exact howned

theorem endOfTurn_met {cfg : Config} {s s' : Sim} (h : endOfTurn cfg s = .ok s')
    (howned : s.workloads.Owned) (p : JobPtr) : s'.workloads.Met p ↔ s.workloads.Met p := by
  obtain rfl | ⟨workloads, hflush⟩ | hfinish := endOfTurn_cases h
  · rfl
  · rw [hflush.eq]
    exact (deleteJobs_effect hflush.deleted howned).2.2 p
  · rw [hfinish.eq]
    rfl

/-- The workloads that a run starts with own their jobs. -/
theorem loadWorkloads_owned {workloads : List WorkloadDescription}
    {workflows : List WorkflowDescription} {ws : Workloads}
    (h : loadWorkloadsAndWorkflows workloads workflows = .ok ws) : ws.Owned := by
  simp only [loadWorkloadsAndWorkflows, bind_eq_ok] at h
  obtain ⟨ws₁, hfirst, hsecond⟩ := h
  have hinsert : ∀ {ws ws' : Workloads} {name : String} {wl : Workload},
      ws.insertWorkload name wl = .ok ws' → ws.Owned →
      (∀ id p, wl.jobs.jobs.lookup id = some p → p.workload = name) → ws'.Owned := by
    intro ws ws' name wl hins howned hwl n w id p hw hp
    simp only [insertWorkload, bind_eq_ok, Except.ok.injEq] at hins
    obtain ⟨_, -, _, -, rfl⟩ := hins
    rw [lookup_set] at hw
    split at hw
    · next hn =>
      rw [Option.some.injEq] at hw
      subst hw hn
      exact hwl id p hp
    · exact howned n w id p hw hp
  have hempty : (⟨∅⟩ : Workloads).Owned := by
    intro n w id p hw
    simp at hw
  have hfiles : ws₁.Owned := by
    refine forEach_preserves (P := Owned) hempty ?_ hfirst
    rintro d - t t' howned hstep
    simp only [bind_eq_ok] at hstep
    obtain ⟨jobs, hload, hins⟩ := hstep
    refine hinsert hins howned ?_
    have hjobs : ∀ id p, jobs.jobs.lookup id = some p → p.workload = d.name := by
      refine forEach_preserves
        (P := fun js : Jobs => ∀ id p, js.jobs.lookup id = some p → p.workload = d.name)
        (by simp [Jobs.empty]) ?_ hload
      intro q hq js js' hjs hadd id p hp
      simp only [bind_eq_ok, Except.ok.injEq] at hadd
      obtain ⟨_, -, rfl⟩ := hadd
      rw [Jobs.lookup_insert] at hp
      split at hp
      · rw [Option.some.injEq] at hp
        obtain ⟨j, -, rfl⟩ := List.mem_map.mp hq
        exact hp ▸ rfl
      · exact hjs id p hp
    exact hjobs
  refine forEach_preserves (P := Owned) hfiles ?_ hsecond
  rintro d - t t' howned hins
  exact hinsert hins howned (by simp [Jobs.empty])

section runs

variable {cfg : Config} {guard : Sim → Choice → Prop} {s s' : Sim}

/-- In every state of every run, the workloads own the jobs that they store. -/
theorem reaches_owned (h : Reaches (batsim cfg) guard s) : s.workloads.Owned := by
  refine h.invariant (P := fun s => s.workloads.Owned) ?_ ?_
  · exact loadWorkloads_owned cfg.workloads_loaded
  · intro s s' c _ howned _ hstep
    cases step_kind hstep with
    | solve _ _ _ _ _ _ _ _ hs' => exact hs' ▸ howned
    | turn o m pool _ hturn =>
      obtain ⟨t, ht, ⟨-, rfl⟩ | ⟨-, hend⟩⟩ := turn_cases hturn
      all_goals obtain ⟨_, hhandled⟩ := handleMessage_effect ht
      all_goals have hsame := hhandled.keeps.workloads
      · exact hsame ▸ howned
      · exact endOfTurn_owned hend (hsame ▸ howned)
    | callback o p mailbox pool _ hrun =>
      obtain ⟨t, ht, hend⟩ := serverCallback_cases hrun
      have hsame := (serverOnCallbackReceived_frame ht).1.workloads
      exact endOfTurn_owned hend (hsame ▸ howned)
    | start o pool _ hrun =>
      rw [serverProcess_effect hrun]
      exact howned
    | actor o t pool ht _ hrun =>
      obtain ⟨new, hregisters⟩ := runThread_registers (s := { s with pool := pool }) howned ht hrun
      exact hregisters.owned howned

end runs

/-! ### Where threads are -/

/-- The threads that are created, not resumed. -/
def Thread.startsFresh : Thread → Bool
  | serverProcess | requestReply _ | executeJob _ | cancelled _ | killer _ _ | waiter _
  | switchOn _ _ | switchOff _ _ | jobSubmitter _ .started | eventSubmitter _ .started
  | workflowSubmitter _ .started => true
  | _ => false

def Thread.isCallback : Thread → Bool
  | serverCallback _ _ => true
  | _ => false

/-- Where the threads of a simulation may be. -/
structure Placed (p : Pool IPMessage Thread) : Prop where
  fresh : ∀ t ∈ p.fresh, t.startsFresh = true
  mailbox : ∀ m t, (m, some t) ∈ p.mailbox → ∃ u : Thread, u.Puts m (some t)
  blocked : ∀ t ∈ p.blocked, t.isCallback = true ∨ ∃ u : Thread, u.Waits t
  woken : ∀ t, .resume t ∈ p.woken → t.startsFresh = false
  /-- an actor that has told the server about the end of its job goes on in the same round -/
  notified : ∀ a, .resume (.notified a) ∈ p.woken → ∀ m, .deliver m ∈ p.woken →
    m = .jobCompleted a.allocation.job
  /-- the server is in one place -/
  single : (p.woken.filterMap Entry.message?).length + p.count Thread.isServer ≤ 1
  /-- nothing was created in a round before the server runs -/
  settled : ((∃ m, .deliver m ∈ p.woken) ∨ ∃ t, .resume t ∈ p.woken ∧ t.isServer = true) →
    p.fresh = []

theorem Thread.Puts.sender_startsFresh {u t : Thread} {m : IPMessage} (h : u.Puts m (some t)) :
    t.startsFresh = false ∧ t.isServer = false := by
  cases h with
  | firstReply message now m sender hsender _ =>
    obtain ⟨rest, rfl⟩ := hsender _ rfl
    exact ⟨rfl, rfl⟩
  | reply now todo m sender hsender _ =>
    obtain ⟨rest, rfl⟩ := hsender _ rfl
    exact ⟨rfl, rfl⟩
  | _ => exact ⟨rfl, rfl⟩

theorem Thread.Waits.startsFresh {u t : Thread} (h : u.Waits t) :
    t.startsFresh = false ∧ t.isServer = false ∧ ∀ a, t ≠ .notified a := by
  cases h <;> exact ⟨rfl, rfl, by simp⟩

theorem Thread.Puts.sender_notified {u : Thread} {m : IPMessage} {a : ExecutionActor}
    (h : u.Puts m (some (.notified a))) : m = .jobCompleted a.allocation.job := by
  cases h with
  | firstReply message now m sender hsender _ =>
    obtain ⟨rest, hrest⟩ := hsender _ rfl
    cases hrest
  | reply now todo m sender hsender _ =>
    obtain ⟨rest, hrest⟩ := hsender _ rfl
    cases hrest
  | completed => rfl

theorem Thread.waitsOnPtask_eq_true {n : Nat} {t : Thread} (h : t.waitsOnPtask n = true) :
    ∃ a, t = .executing a .ptask ∧ a.number = n := by
  cases t with
  | executing a l =>
    cases l with
    | ptask => exact ⟨a, rfl, by simpa [waitsOnPtask] using h⟩
    | other => cases h
  | _ => cases h

theorem Thread.launchedBy_startsFresh {m : IPMessage} {t : Thread} (h : t.launchedBy m = true) :
    t.startsFresh = true ∧ t.isServer = false := by
  cases m <;> cases t <;> first | exact ⟨rfl, rfl⟩ | cases h

namespace Placed

variable {p q p' : Pool IPMessage Thread}

theorem count_isServer_eq_zero {t : Thread} (h : p.count Thread.isServer = 0)
    (ht : t ∈ p.threads) : t.isServer = false :=
  Pool.count_eq_zero.mp h t ht

/-- Letting time pass. -/
theorem solve {s : Sim} {clock : Date} {receive : Bool} {wakes rest : List Thread}
    {order : List (Entry IPMessage Thread)} (h : Placed s.pool)
    (hcan : canSolve s clock receive wakes rest = true)
    (hsolve : s.pool.solve receive wakes rest order = some p') : Placed p' := by
  have hdelivers := Pool.delivers_solve hsolve
  have hcount := Pool.count_solve hsolve Thread.isServer
  have hresume := fun t => Pool.resume_mem_woken_solve hsolve (t := t)
  obtain ⟨hwoken, hfresh, hblocked, hreceive, -, hp'⟩ := Pool.solve_cases hsolve
  have hwakes : ∀ t ∈ wakes, t ∈ s.pool.blocked := fun t ht =>
    hblocked.mem_iff.mp (List.mem_append_left _ ht)
  have hhead : ∀ m t, s.pool.mailbox.head? = some (m, some t) → (m, some t) ∈ s.pool.mailbox :=
    fun m t => List.mem_of_head?
  refine ⟨by simp [hp'], ?_, ?_, ?_, ?_, ?_, fun _ => by simp [hp']⟩
  · intro m t hmem
    refine h.mailbox m t ?_
    simp only [hp'] at hmem
    split at hmem
    · exact List.mem_of_mem_tail hmem
    · exact hmem
  · intro t ht
    simp only [hp'] at ht
    exact h.blocked t (hblocked.mem_iff.mp (List.mem_append_right _ ht))
  · intro t ht
    obtain hwake | ⟨-, m, hm⟩ := (hresume t).mp ht
    · obtain hcallback | ⟨u, hu⟩ := h.blocked t (hwakes t hwake)
      · cases t <;> first | rfl | cases hcallback
      · exact hu.startsFresh.1
    · obtain ⟨u, hu⟩ := h.mailbox m t (hhead m t hm)
      exact hu.sender_startsFresh.1
  · -- a notified actor was waiting on the message that is delivered with it
    intro a ha m hm
    obtain hwake | ⟨hrec, m', hm'⟩ := (hresume _).mp ha
    · obtain hcallback | ⟨u, hu⟩ := h.blocked _ (hwakes _ hwake)
      · cases hcallback
      · exact absurd rfl (hu.startsFresh.2.2 a)
    · obtain ⟨u, hu⟩ := h.mailbox m' _ (hhead m' _ hm')
      have hone : m ∈ p'.woken.filterMap Entry.message? := by
        simpa [List.mem_filterMap] using hm
      rw [hdelivers, if_pos hrec] at hone
      cases hmail : s.pool.mailbox with
      | nil => simp [hmail] at hm'
      | cons x xs =>
        simp only [hmail, List.head?_cons, Option.some.injEq] at hm'
        simp only [hmail, List.map_cons, List.take_succ_cons, List.take_zero,
          List.mem_singleton, hm'] at hone
        rw [hone]
        exact hu.sender_notified
  · have hsingle := h.single
    simp only [hwoken, List.filterMap_nil, List.length_nil, Nat.zero_add] at hsingle
    rw [hdelivers, hcount]
    cases receive with
    | false => simpa using hsingle
    | true =>
      -- the server receives only while it is not blocked on a callback
      have hnone : s.pool.count Thread.isServer = 0 := by
        rw [Pool.count_eq_zero]
        intro t ht
        simp only [canSolve, Bool.not_true, Bool.false_or, Bool.and_eq_true, List.all_eq_true,
          Bool.not_eq_true'] at hcan
        rcases Pool.mem_threads.mp ht with hw | hf | ⟨m, hm⟩ | hb
        · simp [hwoken] at hw
        · simp [hfresh] at hf
        · obtain ⟨u, hu⟩ := h.mailbox m t hm
          exact hu.sender_startsFresh.2
        · obtain hcallback | ⟨u, hu⟩ := h.blocked t hb
          · have hno := hcan.2.2 t hb
            cases t <;> simp_all [Thread.isCallback, Thread.callsBack?]
          · exact hu.startsFresh.2.1
      rw [hnone]
      exact List.length_take_le 1 (s.pool.mailbox.map Prod.fst)

/-- Taking a thread that is not the server out of the pool. -/
theorem next {t : Thread} (h : Placed p) (ht : t.isServer = false)
    (hnext : p.next? = some (.resume t, q)) : Placed q := by
  have hcount := Pool.count_next?_resume hnext Thread.isServer
  simp only [ht, Bool.false_eq_true, if_false, Nat.add_zero] at hcount
  obtain ⟨es, hwoken, rfl⟩ | ⟨hwoken, u, ts, hfresh, -, rfl⟩ := Pool.next?_cases hnext
  · have hmem : ∀ e, e ∈ es → e ∈ p.woken := fun e he => by simp [hwoken, he]
    refine ⟨h.fresh, h.mailbox, h.blocked, fun t ht => h.woken t (hmem _ ht),
      fun a ha m hm => h.notified a (hmem _ ha) m (hmem _ hm), ?_, fun hserver => h.settled ?_⟩
    · have hsingle := h.single
      rw [hcount, hwoken, Entry.filterMap_message?_resume] at hsingle
      exact hsingle
    · obtain ⟨m, hm⟩ | ⟨t, ht, hserver⟩ := hserver
      · exact .inl ⟨m, hmem _ hm⟩
      · exact .inr ⟨t, hmem _ ht, hserver⟩
  · refine ⟨fun t ht => h.fresh t (by simp [hfresh, ht]), h.mailbox, h.blocked, h.woken,
      h.notified, ?_, fun hserver => ?_⟩
    · have hsingle := h.single
      rw [hcount] at hsingle
      exact hsingle
    · simp [hwoken] at hserver

/-- A thread that was just created runs after the round has run. -/
theorem woken_eq_nil {t : Thread} (h : Placed p) (ht : t.startsFresh = true)
    (hnext : p.next? = some (.resume t, q)) : p.woken = [] ∧ q.woken = [] := by
  obtain ⟨es, hwoken, -⟩ | ⟨hwoken, u, ts, -, -, rfl⟩ := Pool.next?_cases hnext
  · have hstale := h.woken t (by simp [hwoken])
    rw [ht] at hstale
    cases hstale
  · exact ⟨hwoken, hwoken⟩

theorem put {m : IPMessage} {sender : Option Thread} {u : Thread} (h : Placed p)
    (hu : u.Puts m sender) : Placed (p.put m sender) where
  fresh := h.fresh
  mailbox m' t hmem := by
    rw [Pool.mailbox_put, List.mem_append, List.mem_singleton, Prod.mk.injEq] at hmem
    obtain hmem | ⟨rfl, rfl⟩ := hmem
    · exact h.mailbox m' t hmem
    · exact ⟨u, hu⟩
  blocked := h.blocked
  woken := h.woken
  notified := h.notified
  single := by
    have hsender : sender.any Thread.isServer = false := by
      cases sender with
      | none => rfl
      | some t => exact hu.sender_startsFresh.2
    simpa [hsender] using h.single
  settled := h.settled

theorem block {t u : Thread} (h : Placed p) (hu : t.Waits u) : Placed (p.block u) where
  fresh := h.fresh
  mailbox := h.mailbox
  blocked v hv := by
    rw [Pool.blocked_block, List.mem_append, List.mem_singleton] at hv
    obtain hv | rfl := hv
    · exact h.blocked v hv
    · exact .inr ⟨t, hu⟩
  woken := h.woken
  notified := h.notified
  single := by simpa [hu.startsFresh.2.1] using h.single
  settled := h.settled

theorem killSteps (h : Placed p) (hwoken : p.woken = []) (hsteps : KillSteps p q) :
    Placed q ∧ q.woken = [] := by
  induction hsteps with
  | refl => exact ⟨h, hwoken⟩
  | @interrupt q n _ ih =>
    obtain ⟨hq, hqwoken⟩ := ih
    have hhit : ∀ t ∈ q.blocked, t.waitsOnPtask n = true →
        t.cancel.startsFresh = true ∧ t.cancel.isServer = t.isServer := by
      intro t _ ht
      obtain ⟨a, rfl, -⟩ := Thread.waitsOnPtask_eq_true ht
      exact ⟨rfl, rfl⟩
    refine ⟨⟨?_, hq.mailbox, ?_, hq.woken, hq.notified, ?_, fun hserver => ?_⟩, hqwoken⟩
    · intro t ht
      rcases List.mem_append.mp ht with ht | ht
      · exact hq.fresh t ht
      · obtain ⟨u, hu, rfl⟩ := List.mem_map.mp ht
        obtain ⟨hmem, hhits⟩ := List.mem_filter.mp hu
        exact (hhit u hmem hhits).1
    · exact fun t ht => hq.blocked t (List.mem_filter.mp ht).1
    · rw [Pool.count_interrupt q _ _ (fun t ht hhits => (hhit t ht hhits).2)]
      exact hq.single
    · simp [Pool.interrupt, hqwoken] at hserver
  | @kill q actors _ ih =>
    obtain ⟨hq, hqwoken⟩ := ih
    have hempty : (q.kill (Thread.isActorIn actors)).woken = [] := by simp [Pool.kill, hqwoken]
    refine ⟨⟨?_, ?_, ?_, by simp [hempty], by simp [hempty], ?_, by simp [hempty]⟩, hempty⟩
    · exact fun t ht => hq.fresh t (List.mem_filter.mp ht).1
    · exact fun m t hmem => hq.mailbox m t (List.mem_filter.mp hmem).1
    · exact fun t ht => hq.blocked t (List.mem_filter.mp ht).1
    · have hsingle := hq.single
      have hle : (q.kill (Thread.isActorIn actors)).count Thread.isServer ≤
          q.count Thread.isServer := by
        rw [Pool.count_kill]
        refine Pool.count_le_of_imp fun t _ ht => ?_
        simp only [Bool.and_eq_true] at ht
        exact ht.1
      simp only [hempty, List.filterMap_nil, List.length_nil, Nat.zero_add]
      omega

/-- A move of an actor. -/
theorem moves {t : Thread} (h : Placed p) (ht : t.isServer = false)
    (hnext : p.next? = some (.resume t, q)) (hmoves : t.Moves q p') : Placed p' := by
  have hq := h.next ht hnext
  cases hmoves with
  | ends => exact hq
  | waits u hu => exact hq.block hu
  | puts q' m sender hputs hkill =>
    obtain rfl | ⟨hkiller, hsteps⟩ := hkill
    · exact hq.put hputs
    · have hfresh : t.startsFresh = true := by cases t <;> first | rfl | cases hkiller
      exact (hq.killSteps (h.woken_eq_nil hfresh hnext).2 hsteps).1.put hputs

/-- A turn of the server, from the pool `q` that it leaves: it creates the threads `ts`, and it
may block on a callback. -/
theorem serverRuns {e : Entry IPMessage Thread} {ts bs : List Thread} (h : Placed p)
    (hnext : p.next? = some (e, q))
    (he : (∃ m, e = .deliver m) ∨ ∃ t, e = .resume t ∧ t.isServer = true)
    (hts : ∀ t ∈ ts, t.startsFresh = true ∧ t.isServer = false)
    (hbs : bs = [] ∨ ∃ job mailbox, bs = [.serverCallback job mailbox])
    (hwoken : p'.woken = q.woken) (hmailbox : p'.mailbox = q.mailbox)
    (hfresh : p'.fresh = q.fresh ++ ts) (hblocked : p'.blocked = q.blocked ++ bs) :
    Placed p' := by
  -- the server is nowhere else
  have hnone : (∀ m, .deliver m ∉ q.woken) ∧ q.count Thread.isServer = 0 := by
    have hsingle := h.single
    obtain ⟨m, rfl⟩ | ⟨t, rfl, ht⟩ := he
    · have hcount := Pool.count_next?_deliver hnext Thread.isServer
      obtain ⟨-, -, -, hhead⟩ := Pool.next?_deliver hnext
      rw [hhead, Entry.filterMap_message?_deliver, List.length_cons] at hsingle
      refine ⟨fun m hm => ?_, by omega⟩
      have hlen : (q.woken.filterMap Entry.message?).length = 0 := by omega
      have hmem : m ∈ q.woken.filterMap Entry.message? := by simpa using hm
      rw [List.length_eq_zero_iff.mp hlen] at hmem
      simp at hmem
    · have hcount := Pool.count_next?_resume hnext Thread.isServer
      rw [ht] at hcount
      simp only [if_true] at hcount
      refine ⟨fun m hm => ?_, by omega⟩
      have hmem : m ∈ p.woken.filterMap Entry.message? := by
        obtain ⟨es, hes, rfl⟩ | ⟨hes, u, us, -, -, rfl⟩ := Pool.next?_cases hnext
        · simpa [hes] using hm
        · simp [hes] at hm
      have hpos := List.length_pos_of_mem hmem
      omega
  obtain ⟨hdeliver, hserver⟩ := hnone
  have hq : (∀ t ∈ q.fresh, t.startsFresh = true) ∧
      ∀ t, .resume t ∈ q.woken → t.startsFresh = false := by
    obtain ⟨es, hes, rfl⟩ | ⟨hes, u, us, hus, -, rfl⟩ := Pool.next?_cases hnext
    · exact ⟨h.fresh, fun t ht => h.woken t (by simp [hes, ht])⟩
    · exact ⟨fun t ht => h.fresh t (by simp [hus, ht]), h.woken⟩
  have hserverThread : ∀ t, .resume t ∈ q.woken → t.isServer = false := fun t ht =>
    count_isServer_eq_zero hserver (Pool.mem_threads.mpr (.inl ht))
  refine ⟨?_, ?_, ?_, ?_, ?_, ?_, ?_⟩
  · intro t ht
    rw [hfresh] at ht
    exact (List.mem_append.mp ht).elim (hq.1 t) fun ht => (hts t ht).1
  · rw [hmailbox, Pool.next?_mailbox hnext]
    exact h.mailbox
  · intro t ht
    rw [hblocked, Pool.next?_blocked hnext] at ht
    rcases List.mem_append.mp ht with ht | ht
    · exact h.blocked t ht
    · obtain rfl | ⟨job, mailbox, rfl⟩ := hbs
      · cases ht
      · rw [List.mem_singleton.mp ht]
        exact .inl rfl
  · rw [hwoken]
    exact hq.2
  · intro a _ m hm
    rw [hwoken] at hm
    exact absurd hm (hdeliver m)
  · have hmessages : q.woken.filterMap Entry.message? = [] := by
      rw [List.filterMap_eq_nil_iff]
      intro e he
      cases e with
      | deliver m => exact absurd he (hdeliver m)
      | resume t => rfl
    have hcount : p'.count Thread.isServer ≤ bs.length := by
      have hzero : ts.countP Thread.isServer = 0 :=
        List.countP_eq_zero.mpr fun t ht => by simp [(hts t ht).2]
      have hle := List.countP_le_length (l := bs) (p := Thread.isServer)
      simp only [Pool.count, Pool.threads, List.countP_append] at hserver
      simp only [Pool.count, Pool.threads, List.countP_append, hwoken, hmailbox, hfresh, hblocked]
      omega
    have hlen : bs.length ≤ 1 := by
      obtain rfl | ⟨job, mailbox, rfl⟩ := hbs <;> simp
    simp only [hwoken, hmessages, List.length_nil, Nat.zero_add]
    omega
  · rintro (⟨m, hm⟩ | ⟨t, ht, hts⟩)
    · exact absurd (hwoken ▸ hm) (hdeliver m)
    · rw [hserverThread t (hwoken ▸ ht)] at hts
      cases hts

end Placed

theorem endOfTurn_pool {cfg : Config} {s s' : Sim} (h : endOfTurn cfg s = .ok s') :
    ∃ ts, s'.pool = { s.pool with fresh := s.pool.fresh ++ ts } ∧
      ∀ t ∈ ts, ∃ message, t = .requestReply message := by
  obtain rfl | ⟨workloads, hflush⟩ | hfinish := endOfTurn_cases h
  · exact ⟨[], by simp, by simp⟩
  · exact ⟨[.requestReply s.writer.events], by rw [hflush.eq]; rfl, by simp⟩
  · exact ⟨[.requestReply (s.logged .simulationEnds).writer.events], by rw [hfinish.eq]; rfl,
      by simp⟩

/-- What the handling of a message does to the pool. -/
theorem handleMessage_pool {cfg : Config} {s s' : Sim} {m : IPMessage}
    (h : handleMessage cfg s m = .ok s') :
    ∃ ts bs, s'.pool = { s.pool with
        fresh := s.pool.fresh ++ ts, blocked := s.pool.blocked ++ bs } ∧
      (∀ t ∈ ts, t.launchedBy m = true) ∧
      ((callsBack s m = false ∧ bs = []) ∨ ∃ job mailbox, bs = [.serverCallback job mailbox]) := by
  cases hback : callsBack s m with
  | true =>
    obtain ⟨p, submitter, -, -, rfl⟩ := handleMessage_callsBack hback h
    exact ⟨[], [.serverCallback p submitter.mailbox], by simp [Pool.block], by simp,
      .inr ⟨_, _, rfl⟩⟩
  | false =>
    obtain ⟨ts, hhandled⟩ := handleMessage_effect h
    refine ⟨ts, [], ?_, hhandled.launched, .inl ⟨rfl, rfl⟩⟩
    rw [← hhandled.fresh, List.append_nil, ← hhandled.blocked hback]
    simp only [← hhandled.keeps.woken, ← hhandled.keeps.mailbox]

/-- What a turn of the server does to the pool it has left. -/
theorem turn_pool {cfg : Config} {s s' : Sim} {m : IPMessage} (h : turn cfg s m = .ok s') :
    ∃ ts bs, s'.pool = { s.pool with
        fresh := s.pool.fresh ++ ts, blocked := s.pool.blocked ++ bs } ∧
      (∀ t ∈ ts, t.launchedBy m = true ∨ ∃ message, t = .requestReply message) ∧
      (bs = [] ∨ ∃ job mailbox, bs = [.serverCallback job mailbox]) := by
  obtain ⟨t, ht, hend⟩ := turn_cases h
  obtain ⟨ts, bs, hpool, hts, hbs⟩ := handleMessage_pool ht
  obtain ⟨-, rfl⟩ | ⟨-, hend⟩ := hend
  · exact ⟨ts, bs, hpool, fun t ht => .inl (hts t ht), hbs.imp_left And.right⟩
  · obtain ⟨us, hend, hus⟩ := endOfTurn_pool hend
    refine ⟨ts ++ us, bs, ?_, ?_, hbs.imp_left And.right⟩
    · rw [hend]
      simp [noteHandled, hpool]
    · intro u hu
      rcases List.mem_append.mp hu with hu | hu
      · exact .inl (hts u hu)
      · exact .inr (hus u hu)

/-- What the end of a turn that was blocked on a callback does to the pool. -/
theorem callback_pool {cfg : Config} {s s' : Sim} {o : Outcome} {p : JobPtr} {mailbox : String}
    (h : runThread cfg s o (.serverCallback p mailbox) = .ok s') :
    ∃ ts, s'.pool = { s.pool with fresh := s.pool.fresh ++ ts, blocked := s.pool.blocked ++ [] } ∧
      ∀ t ∈ ts, ∃ message, t = .requestReply message := by
  obtain ⟨t, ht, hend⟩ := serverCallback_cases h
  obtain ⟨-, -, hsame, -⟩ := serverOnCallbackReceived_frame ht
  obtain ⟨ts, hpool, hts⟩ := endOfTurn_pool hend
  refine ⟨ts, ?_, hts⟩
  rw [hpool]
  simp [noteHandled, hsame]

section runs

variable {cfg : Config} {guard : Sim → Choice → Prop} {s s' : Sim}

/-- In every state of every run, the threads are where they may be. -/
theorem reaches_placed (h : Reaches (batsim cfg) guard s) : Placed s.pool := by
  refine h.invariant (P := fun s => Placed s.pool) ?_ ?_
  · have hstarts : ∀ t ∈ initialThreads cfg, t.startsFresh = true ∧
        (t.isServer = true ↔ t = .serverProcess) := by
      intro t ht
      simp only [initialThreads, List.mem_append, List.mem_map, List.mem_singleton] at ht
      obtain ((⟨d, -, rfl⟩ | ⟨d, -, rfl⟩) | ⟨d, -, rfl⟩) | rfl := ht <;> simp [Thread.startsFresh,
        Thread.isServer]
    refine ⟨fun t ht => (hstarts t ht).1, by simp [batsim, start], by simp [batsim, start],
      by simp [batsim, start], by simp [batsim, start], ?_, by simp [batsim, start]⟩
    have hcount : ∀ {α : Type} (f : α → Thread) (l : List α),
        (∀ a, (f a).isServer = false) → (l.map f).countP Thread.isServer = 0 := by
      intro α f l hf
      simp [List.countP_eq_zero, hf]
    simp only [batsim, start, Pool.count, Pool.threads, initialThreads, List.filterMap_nil,
      List.nil_append, List.append_nil, List.countP_append, List.length_nil, Nat.zero_add]
    rw [hcount _ _ (fun _ => rfl), hcount _ _ (fun _ => rfl), hcount _ _ (fun _ => rfl)]
    rfl
  · intro s s' c hr hplaced _ hstep
    cases step_kind hstep with
    | solve clock receive wakes rest order pool hcan hsolve hs' =>
      rw [hs']
      exact hplaced.solve hcan hsolve
    | turn o m pool hnext hturn =>
      obtain ⟨ts, bs, hpool, hts, hbs⟩ := turn_pool hturn
      refine hplaced.serverRuns hnext (.inl ⟨m, rfl⟩) (fun t ht => ?_) hbs
        (by rw [hpool]) (by rw [hpool]) (by rw [hpool]) (by rw [hpool])
      obtain hlaunched | ⟨message, rfl⟩ := hts t ht
      · exact Thread.launchedBy_startsFresh hlaunched
      · exact ⟨rfl, rfl⟩
    | callback o p mailbox pool hnext hrun =>
      obtain ⟨ts, hpool, hts⟩ := callback_pool hrun
      refine hplaced.serverRuns hnext (.inr ⟨_, rfl, rfl⟩) (fun t ht => ?_) (.inl rfl)
        (by rw [hpool]) (by rw [hpool]) (by rw [hpool]) (by rw [hpool])
      obtain ⟨message, rfl⟩ := hts t ht
      exact ⟨rfl, rfl⟩
    | start o pool hnext hrun =>
      rw [serverProcess_effect hrun]
      have hnone : ([] : List Thread) = [] ∨
          ∃ job mailbox, [] = [Thread.serverCallback job mailbox] := .inl rfl
      exact hplaced.serverRuns hnext (.inr ⟨_, rfl, rfl⟩) (fun t ht => by
        rw [List.mem_singleton.mp ht]
        exact ⟨rfl, rfl⟩) hnone rfl rfl rfl (by simp [messageSent, logged])
    | actor o t pool ht hnext hrun =>
      have howned : s.workloads.Owned := reaches_owned hr
      exact hplaced.moves ht hnext
        (runThread_moves (s := { s with pool := pool }) howned ht hrun).1

end runs

/-! ### New threads -/

theorem KillSteps.mem_threads {p q : Pool IPMessage Thread} (h : KillSteps p q) {u : Thread}
    (hu : u ∈ q.threads) :
    u ∈ p.threads ∨ ∃ a, u = .cancelled a ∧ .executing a .ptask ∈ p.threads := by
  induction h generalizing u with
  | refl => exact .inl hu
  | interrupt n _ ih =>
    rcases (Pool.mem_threads_interrupt _ _ _).mp hu with hw | hf | hm | ⟨v, hv, hhit, rfl⟩ | ⟨hb, -⟩
    · exact ih (Pool.mem_threads.mpr (.inl hw))
    · exact ih (Pool.mem_threads.mpr (.inr (.inl hf)))
    · exact ih (Pool.mem_threads.mpr (.inr (.inr (.inl hm))))
    · obtain ⟨a, rfl, -⟩ := Thread.waitsOnPtask_eq_true hhit
      obtain hold | ⟨b, hb, -⟩ := ih (Pool.mem_threads.mpr (.inr (.inr (.inr hv))))
      · exact .inr ⟨a, rfl, hold⟩
      · cases hb
    · exact ih (Pool.mem_threads.mpr (.inr (.inr (.inr hb))))
  | kill actors _ ih => exact ih ((Pool.mem_threads_kill _ _).mp hu).1

/-- The threads after a move were there before, or are what the thread goes on as. -/
theorem Thread.Moves.mem_threads {t u : Thread} {q p' : Pool IPMessage Thread}
    (h : t.Moves q p') (hu : u ∈ p'.threads) :
    u ∈ q.threads ∨ (∃ m, t.Puts m (some u)) ∨ t.Waits u ∨
      ∃ a, u = .cancelled a ∧ .executing a .ptask ∈ q.threads := by
  cases h with
  | ends => exact .inl hu
  | waits v hv =>
    obtain rfl | hmem := (Pool.mem_threads_block _ _).mp hu
    · exact .inr (.inr (.inl hv))
    · exact .inl hmem
  | puts q' m sender hputs hkill =>
    obtain rfl | hmem := (Pool.mem_threads_put _ _ _).mp hu
    · exact .inr (.inl ⟨m, hputs⟩)
    · obtain rfl | ⟨-, hsteps⟩ := hkill
      · exact .inl hmem
      · obtain hold | hcancelled := hsteps.mem_threads hmem
        · exact .inl hold
        · exact .inr (.inr (.inr hcancelled))

theorem KillSteps.sublist {p q : Pool IPMessage Thread} (h : KillSteps p q) :
    q.mailbox.Sublist p.mailbox ∧ q.woken.Sublist p.woken := by
  induction h with
  | refl => exact ⟨.refl _, .refl _⟩
  | interrupt n _ ih => exact ih
  | kill actors _ ih =>
    exact ⟨List.filter_sublist.trans ih.1, List.filter_sublist.trans ih.2⟩

/-- A run of an actor offers at most what the actor puts. -/
theorem Thread.Moves.mem_mailbox {t : Thread} {q p : Pool IPMessage Thread} (h : t.Moves q p)
    {m : IPMessage} {sender : Option Thread} (hm : (m, sender) ∈ p.mailbox) :
    (m, sender) ∈ q.mailbox ∨ t.Puts m sender := by
  cases h with
  | ends | waits => exact .inl hm
  | puts q' m' sender' hputs hkill =>
    rcases List.mem_append.mp hm with hm | hm
    · obtain rfl | ⟨-, hsteps⟩ := hkill
      · exact .inl hm
      · exact .inl (hsteps.sublist.1.subset hm)
    · cases List.mem_singleton.mp hm
      exact .inr hputs

theorem Thread.Moves.mem_woken {t : Thread} {q p : Pool IPMessage Thread} (h : t.Moves q p)
    {e : Entry IPMessage Thread} (he : e ∈ p.woken) : e ∈ q.woken := by
  cases h with
  | ends | waits => exact he
  | puts q' m' sender' hputs hkill =>
    obtain rfl | ⟨-, hsteps⟩ := hkill
    · exact he
    · exact hsteps.sublist.2.subset he

/-- The threads after a turn of the server were there before, or were created by the turn. -/
theorem mem_threads_of_pool {p q : Pool IPMessage Thread} {ts bs : List Thread} {u : Thread}
    (hp : p = { q with fresh := q.fresh ++ ts, blocked := q.blocked ++ bs }) :
    u ∈ p.threads ↔ u ∈ q.threads ∨ u ∈ ts ∨ u ∈ bs := by
  rw [hp, Pool.mem_threads, Pool.mem_threads]
  simp only [List.mem_append]
  tauto

theorem count_of_pool {p q : Pool IPMessage Thread} {ts bs : List Thread} {r : Thread → Bool}
    (hp : p = { q with fresh := q.fresh ++ ts, blocked := q.blocked ++ bs }) :
    p.count r = q.count r + ts.countP r + bs.countP r := by
  simp only [hp, Pool.count, Pool.threads, List.countP_append]
  omega

/-! ### Before the server starts -/

/-- The first message of a submitter, with the thread that goes on once it is received. -/
def Thread.greeting : Thread → IPMessage × Option Thread
  | jobSubmitter w _ => (.submitterHello (w ++ "_submitter") false .jobSubmitter,
      some (.jobSubmitter w .greeted))
  | eventSubmitter l _ => (.submitterHello (l ++ "_submitter") false .eventSubmitter,
      some (.eventSubmitter l .greeted))
  | workflowSubmitter run _ =>
    (.submitterHello (run.workflow.name ++ "_submitter") true .jobSubmitter,
      some (.workflowSubmitter run .greeted))
  | _ => (.schedReady, none)

/-- Until the server starts, the actors have only greeted. -/
def Unstarted (cfg : Config) (s : Sim) : Prop :=
  ∃ done todo, initialThreads cfg = done ++ todo ∧ s = { Batsim.start cfg with
    pool := { woken := [], fresh := todo, mailbox := done.map Thread.greeting, blocked := [] } }

/-- The actors that start before the server. -/
def initialSubmitters (cfg : Config) : List Thread :=
  cfg.workloadDescriptions.map (fun d => .jobSubmitter d.name .started) ++
    cfg.workflowDescriptions.map (fun d =>
      .workflowSubmitter { workflow := d, nbParentCompleted := d.tasks.map fun _ => 0 } .started) ++
    cfg.eventLists.map (fun d => .eventSubmitter d.name .started)

theorem initialThreads_eq (cfg : Config) :
    initialThreads cfg = initialSubmitters cfg ++ [.serverProcess] := rfl

theorem initialSubmitters_greet {cfg : Config} {t : Thread} (ht : t ∈ initialSubmitters cfg) :
    t.isServer = false ∧ ∀ {s s' : Sim} {o : Outcome}, runThread cfg s o t = .ok s' →
      s' = s.put t.greeting.1 t.greeting.2 := by
  simp only [initialSubmitters, List.mem_append, List.mem_map] at ht
  obtain (⟨d, -, rfl⟩ | ⟨d, -, rfl⟩) | ⟨d, -, rfl⟩ := ht
  all_goals
    refine ⟨rfl, fun h => ?_⟩
    simp only [runThread, staticJobSubmitterProcess, staticEventSubmitterProcess,
      workflowSubmitterProcess, SubmitterKind.resume, Except.ok.injEq] at h
    exact h.symm

theorem serverProcess_not_mem_done {cfg : Config} {done todo : List Thread}
    (h : initialThreads cfg = done ++ todo) (htodo : todo ≠ []) :
    (∀ t ∈ done, t ∈ initialSubmitters cfg) ∧
      (∀ t rest, todo = t :: rest → t ∈ initialSubmitters cfg ∨ t = .serverProcess ∧ rest = []) := by
  have hinit : initialSubmitters cfg = done ++ todo.dropLast := by
    have hdrop := congrArg List.dropLast h
    rwa [initialThreads_eq, List.dropLast_concat, List.dropLast_append_of_ne_nil htodo] at hdrop
  refine ⟨fun t ht => by simp [hinit, ht], fun t rest htr => ?_⟩
  subst htr
  cases rest with
  | nil =>
    have hlast := congrArg List.getLast? h
    rw [initialThreads_eq, List.getLast?_concat, List.getLast?_concat, Option.some.injEq] at hlast
    exact .inr ⟨hlast.symm, rfl⟩
  | cons u rest => exact .inl (by simp [hinit])

theorem greeting_sender {t : Thread} : t.greeting.2 ≠ some .serverProcess := by
  cases t <;> simp [Thread.greeting]

/-- No step creates the server. -/
theorem serverProcess_not_created {cfg : Config} {s s' : Sim} {c : Choice}
    (howned : s.workloads.Owned) (hstep : (batsim cfg).step s c = .ok s')
    (h : Thread.serverProcess ∈ s'.pool.threads) : Thread.serverProcess ∈ s.pool.threads := by
  have hrest : ∀ {e : Entry IPMessage Thread} {q : Pool IPMessage Thread} {u : Thread},
      s.pool.next? = some (e, q) → u ∈ q.threads → u ∈ s.pool.threads := by
    intro e q u hnext hu
    cases e with
    | deliver m => rwa [← (Pool.next?_deliver hnext).1]
    | resume t => exact (Pool.next?_resume hnext).1.mem_iff.mpr (List.mem_cons_of_mem _ hu)
  cases step_kind hstep with
  | solve clock receive wakes rest order pool hcan hsolve hs' =>
    subst hs'
    exact (Pool.threads_solve hsolve).mem_iff.mp h
  | turn o m pool hnext hturn =>
    obtain ⟨ts, bs, hpool, hts, hbs⟩ := turn_pool hturn
    obtain hold | hnew | hback := (mem_threads_of_pool hpool).mp h
    · exact hrest hnext hold
    · obtain hlaunched | ⟨message, heq⟩ := hts _ hnew
      · exact absurd (Thread.launchedBy_startsFresh hlaunched).2 (by simp [Thread.isServer])
      · cases heq
    · obtain rfl | ⟨job, mailbox, rfl⟩ := hbs <;> simp at hback
  | callback o p mailbox pool hnext hrun =>
    obtain ⟨ts, hpool, hts⟩ := callback_pool hrun
    obtain hold | hnew | hback := (mem_threads_of_pool hpool).mp h
    · exact hrest hnext hold
    · obtain ⟨message, heq⟩ := hts _ hnew
      cases heq
    · cases hback
  | start o pool hnext hrun => exact (Pool.next?_resume hnext).1.mem_iff.mpr (by simp)
  | actor o t pool ht hnext hrun =>
    have hmoves := (runThread_moves (s := { s with pool := pool }) howned ht hrun).1
    obtain hold | ⟨m, hputs⟩ | hwaits | ⟨a, heq, -⟩ := hmoves.mem_threads h
    · exact hrest hnext hold
    · exact absurd hputs.sender_startsFresh.1 (by simp [Thread.startsFresh])
    · exact absurd hwaits.startsFresh.1 (by simp [Thread.startsFresh])
    · cases heq

theorem reaches_unstarted {cfg : Config} {guard : Sim → Choice → Prop} {s : Sim}
    (h : Reaches (batsim cfg) guard s) (hserver : Thread.serverProcess ∈ s.pool.threads) :
    Unstarted cfg s := by
  induction h with
  | start => exact ⟨[], initialThreads cfg, rfl, rfl⟩
  | @step s s' c hr _ hstep ih =>
    obtain ⟨done, todo, hsplit, rfl⟩ := ih (serverProcess_not_created (reaches_owned hr) hstep hserver)
    have hthere := serverProcess_not_created (reaches_owned hr) hstep hserver
    cases todo with
    | nil =>
      simp only [Pool.threads, List.filterMap_nil, List.nil_append, List.append_nil,
        List.mem_filterMap, List.mem_map] at hthere
      obtain ⟨_, ⟨t, -, rfl⟩, ht⟩ := hthere
      exact absurd ht greeting_sender
    | cons t todo =>
      obtain ⟨hdone, hhead⟩ := serverProcess_not_mem_done hsplit (by simp)
      cases step_kind hstep with
      | solve clock receive wakes rest order pool hcan hsolve hs' =>
        obtain ⟨-, hfresh, -⟩ := Pool.solve_cases hsolve
        cases hfresh
      | turn o m pool hnext hturn => simp [Pool.next?] at hnext
      | callback o p mailbox pool hnext hrun =>
        simp only [Pool.next?, Option.some.injEq, Prod.mk.injEq, Entry.resume.injEq] at hnext
        obtain ⟨rfl, -⟩ := hnext
        obtain hsub | ⟨heq, -⟩ := hhead _ _ rfl
        · exact absurd (initialSubmitters_greet hsub).1 (by simp [Thread.isServer])
        · cases heq
      | start o pool hnext hrun =>
        simp only [Pool.next?, Option.some.injEq, Prod.mk.injEq, Entry.resume.injEq] at hnext
        obtain ⟨rfl, rfl⟩ := hnext
        obtain hsub | ⟨-, rfl⟩ := hhead _ _ rfl
        · exact absurd (initialSubmitters_greet hsub).1 (by simp [Thread.isServer])
        · -- the server has started: it is no longer before its loop
          rw [serverProcess_effect hrun] at hserver
          rcases Pool.mem_threads.mp hserver with hw | hf | ⟨m, hm⟩ | hb
          · simp [messageSent, logged] at hw
          · simp [messageSent, logged] at hf
          · obtain ⟨t, -, ht⟩ := List.mem_map.mp hm
            exact absurd (congrArg Prod.snd ht) greeting_sender
          · simp [messageSent, logged] at hb
      | actor o u pool hu hnext hrun =>
        simp only [Pool.next?, Option.some.injEq, Prod.mk.injEq, Entry.resume.injEq] at hnext
        obtain ⟨rfl, rfl⟩ := hnext
        obtain hsub | ⟨rfl, -⟩ := hhead _ _ rfl
        · refine ⟨done ++ [t], todo, by simp [hsplit], ?_⟩
          rw [(initialSubmitters_greet hsub).2 hrun]
          simp [Sim.put, Pool.put]
        · cases hu

end Batsim
