import Batsim.JobLives

/-!
The lives of jobs under the actors: executions, killers, and those that only register jobs. In
every run, each job moves forward along its life.
-/

namespace Batsim

open Checked Workloads Sim StepSystem Machines

/-! ### Other jobs -/

section others

variable {s u t : Sim} {p : JobPtr} {a : ExecutionActor}

theorem job_of_other {j : Job} (hjob : t.job = (u.setJob a.allocation.job j).job)
    (hp : p ≠ a.allocation.job) : t.job p = u.job p := by
  rw [hjob]
  simp [setJob, hp]

theorem view_beginJob {machines : Machines}
    (hmachines : u.machines.updateMachinesOnJobRun a.allocation.job a.allocation.machineIds
      u.clock = .ok machines) (hp : p ≠ a.allocation.job) :
    (u.beginJob a machines).view p = u.view p := by
  have hjob : (u.beginJob a machines).job p = u.job p := job_of_other rfl hp
  have hruns : (u.beginJob a machines).history.runs = u.history.runs ++ [a.allocation.job] := rfl
  refine view_eq Iff.rfl (by rw [hjob]) (by rw [hjob]) (by rw [hjob]) (by rw [hjob]) rfl rfl rfl rfl
    (by simp [hruns, hp.symm]) rfl fun id => ?_
  rw [show (u.beginJob a machines).machines = machines from rfl,
    users_updateMachinesOnJobRun hmachines id]
  split
  · simp [hp.symm]
  · rfl

theorem view_endJob {q : JobPtr} {j : Job} {ids : IntervalSet} {machines : Machines}
    (hmachines : u.machines.updateMachinesOnJobEnd q ids u.clock = .ok machines) (hp : p ≠ q) :
    (u.endJob q j machines).view p = u.view p := by
  have hjob : (u.endJob q j machines).job p = u.job p := by simp [Sim.endJob, setJob, hp]
  have hends : (u.endJob q j machines).history.ends = u.history.ends ++ [q] := rfl
  refine view_eq Iff.rfl (by rw [hjob]) (by rw [hjob]) (by rw [hjob]) (by rw [hjob]) rfl rfl rfl rfl
    rfl (by simp [hends, hp.symm]) fun id => ?_
  rw [show (u.endJob q j machines).machines = machines from rfl,
    users_updateMachinesOnJobEnd hmachines id]
  split
  · exact List.count_erase_of_ne hp
  · rfl

theorem view_eraseActor (hp : p ≠ a.allocation.job) : (eraseActor u a).view p = u.view p := by
  have hjob : (eraseActor u a).job p = u.job p := job_of_other rfl hp
  exact view_eq Iff.rfl (by rw [hjob]) (by rw [hjob]) (by rw [hjob]) (by rw [hjob]) rfl rfl rfl rfl
    rfl rfl fun _ => rfl

/-- A message that is put, and its sender, show nothing of the other jobs. -/
theorem view_put {m : IPMessage} {sender : Option Thread} (hm : m.trace? p = none)
    (hsender : sender.bind (Thread.trace? p) = none) : (u.put m sender).view p = u.view p := by
  have htrace : traceOf p (u.put m sender).pool = traceOf p u.pool := by
    rw [traceOf, pool_put, Pool.labels_put, hm, hsender]
    simp [traceOf]
  exact view_eq Iff.rfl rfl rfl rfl rfl htrace rfl rfl rfl rfl rfl fun _ => rfl

theorem view_finishJob {returnCode : Int} (h : finishJob u a returnCode = .ok t)
    (hp : p ≠ a.allocation.job) : t.view p = u.view p := by
  obtain ⟨j, machines, hmachines, -, -, -, -, ⟨-, -, rfl⟩ | ⟨-, -, rfl⟩⟩ := finishJob_effect h
  · have hmessage : (IPMessage.jobCompleted a.allocation.job).trace? p = none := if_neg hp.symm
    rw [view_put hmessage rfl, view_endJob hmachines hp]
  · rw [view_eraseActor hp]
    exact view_endJob hmachines hp

theorem view_executeTask {step : TaskStep} (h : executeTask u a step = .ok t)
    (hp : p ≠ a.allocation.job) : t.view p = u.view p := by
  obtain ⟨l, -, rfl⟩ | ⟨message, -, rfl⟩ | ⟨returnCode, -, hfinish⟩ := executeTask_effect h
  · have htrace : traceOf p (u.waitOnLeaf a l).pool = traceOf p u.pool := by
      simp [traceOf, waitOnLeaf, Sim.block, Pool.labels_block, Thread.trace?, hp.symm]
    exact view_eq Iff.rfl rfl rfl rfl rfl htrace rfl rfl rfl rfl rfl fun _ => rfl
  · have hsender : (some (Thread.executing a .other)).bind (Thread.trace? p) = none :=
      if_neg hp.symm
    exact view_put (u := { u with ptask := _ }) rfl hsender
  · exact view_finishJob hfinish hp

/-- Taking a thread that shows nothing of the job. -/
theorem view_resume {x : Thread} {pool : Pool IPMessage Thread}
    (hnext : s.pool.next? = some (.resume x, pool)) (hx : x.trace? p = none) :
    ({ s with pool := pool } : Sim).view p = s.view p := by
  have htrace := traceOf_resume (p := p) hnext
  rw [hx, Option.toList_none, Multiset.coe_nil, zero_add] at htrace
  exact view_pool htrace.symm

end others

/-! ### Executions -/

theorem Thread.actor_of_isServer {t : Thread} (h : t.isServer = true) : t.actor? = none := by
  cases t <;> first | rfl | cases h

theorem Thread.trace_eq_some {p : JobPtr} {t : Thread} {x : Trace} (h : t.trace? p = some x) :
    x = .thread t ∧ (t.isServer = true ∨ ∃ a, t.actor? = some a ∧ a.allocation.job = p) := by
  cases t with
  | executeJob a | executing a _ | cancelled a =>
    simp only [trace?, Option.ite_none_right_eq_some, Option.some.injEq] at h
    exact ⟨h.2.symm, .inr ⟨a, rfl, h.1⟩⟩
  | serverCallback _ _ =>
    simp only [trace?, Option.ite_none_right_eq_some, Option.some.injEq] at h
    exact ⟨h.2.symm, .inl rfl⟩
  | _ => cases h

theorem IPMessage.trace_eq_some {p : JobPtr} {m : IPMessage} {x : Trace}
    (h : m.trace? p = some x) : x = .ended ∧ m = .jobCompleted p := by
  cases m with
  | jobCompleted q =>
    simp only [trace?, Option.ite_none_right_eq_some, Option.some.injEq] at h
    exact ⟨h.2.symm, h.1 ▸ rfl⟩
  | _ => cases h

section executions

variable {s u t : Sim} {l : Life} {a : ExecutionActor}

/-- The job whose actor runs: it is in the stage `l`, but for its trace. -/
structure Sim.InHand (u : Sim) (a : ExecutionActor) (l : Life) : Prop where
  shows : l.Shows a.allocation.job { u.view a.allocation.job with
    trace := l.trace a.allocation.job }
  traceless : traceOf a.allocation.job u.pool = 0

theorem Life.Shows.inHand {x : Thread} {pool : Pool IPMessage Thread}
    (h : l.Shows a.allocation.job (s.view a.allocation.job))
    (hnext : s.pool.next? = some (.resume x, pool))
    (hx : x.trace? a.allocation.job = some (.thread x)) :
    l.trace a.allocation.job = {.thread x} ∧ ({ s with pool := pool } : Sim).InHand a l := by
  have htaken := traceOf_resume (p := a.allocation.job) hnext
  rw [hx, Option.toList_some] at htaken
  obtain ⟨htrace, hzero⟩ := h.taken htaken
  exact ⟨htrace, ⟨⟨h.met, h.state, h.hands, h.allocation, rfl, h.started, h.counted, h.buried,
    h.runs, h.ends, h.uses⟩, hzero⟩⟩

/-- The machines are told that the job starts. -/
theorem Sim.InHand.begins {machines : Machines} (h : u.InHand a (.launched a))
    (hmachines : u.machines.updateMachinesOnJobRun a.allocation.job a.allocation.machineIds
      u.clock = .ok machines) (leaf : Leaf) :
    (u.beginJob a machines).InHand a (.executing a leaf) := by
  obtain ⟨h, hzero⟩ := h
  have hactors : (u.job a.allocation.job).executionActors = [a.number] :=
    congrArg Prod.snd (h.hands _ rfl)
  have hruns : u.history.runs.count a.allocation.job = 0 := h.runs
  have huses : ∀ id, (u.machines.users id).count a.allocation.job = 0 := h.uses
  refine ⟨⟨iff_of_true (h.met.mpr (by simp)) (by simp), ?_, fun x hx => ?_, fun ids hids => ?_, rfl,
    h.started, h.counted, h.buried, ?_, h.ends, fun id => ?_⟩, hzero⟩
  · have hstate : (u.job a.allocation.job).state = .running := h.state
    simp [Sim.view, Sim.beginJob, setJob, hstate, Life.state]
  · cases hx
    simp [Sim.view, Sim.beginJob, setJob, hactors]
  · cases hids
    simp [Sim.view, Sim.beginJob, setJob]
  · have happend : (u.beginJob a machines).history.runs =
        u.history.runs ++ [a.allocation.job] := rfl
    simp [Sim.view, happend, hruns, Life.runs]
  · have hnone : a.allocation.job ∉ u.machines.users id := List.count_eq_zero.mp (huses id)
    have husers := users_updateMachinesOnJobRun hmachines id
    have hview : ((u.beginJob a machines).view a.allocation.job).uses id =
        (machines.users id).count a.allocation.job := rfl
    simp only [hview, husers, hnone, not_false_eq_true, and_true, Life.uses, Life.machines?]
    by_cases hid : id ∈ a.allocation.machineIds
    · simp [hid, huses id]
    · simp [hid, huses id]

/-- A job leaves all its machines. -/
theorem uses_endJob {p : JobPtr} {ids : IntervalSet} {machines : Machines}
    (hends : u.machines.updateMachinesOnJobEnd p ids u.clock = .ok machines)
    (huses : ∀ id, (u.machines.users id).count p = l.uses id) (hids : l.machines? = some ids)
    (id : Nat) : (machines.users id).count p = 0 := by
  have hcount := huses id
  rw [Life.uses, hids] at hcount
  rw [users_updateMachinesOnJobEnd hends id]
  by_cases hid : id ∈ ids
  · simp only [hid, if_true, Option.any_some, decide_true] at hcount ⊢
    rw [List.count_erase_self, hcount]
  · simpa [hid] using hcount

/-- A job that occupies machines is between its start and its end. -/
theorem Life.of_machines {ids : IntervalSet} (h : l.machines? = some ids) :
    l.isActive = true ∧ l ≠ .unmet ∧ l.started = 1 ∧ l.counted = 0 ∧ l.buried = 0 ∧ l.runs = 1 ∧
      l.ends = 0 := by
  cases l with
  | executing | cancelled => exact ⟨rfl, by simp, rfl, rfl, rfl, rfl, rfl⟩
  | _ => simp [Life.machines?] at h

/-- What the end of an execution shows of its job. -/
theorem Life.Shows.leavesMachines {p : JobPtr} {ids : IntervalSet} {i : Job} {machines : Machines}
    (h : l.Shows p { u.view p with trace := l.trace p }) (hids : l.machines? = some ids)
    (hends : u.machines.updateMachinesOnJobEnd p ids u.clock = .ok machines) {k : Life}
    (hstate : i.state = k.state) (hk : k = .killed ∨ ∃ o, k = .ended o) :
    k.Shows p { (u.endJob p i machines).view p with trace := k.trace p } := by
  obtain ⟨-, hmet, hstarted, hcounted, hburied, hruns, hcount⟩ := Life.of_machines hids
  have hjob : (u.endJob p i machines).job p = i := by simp [Sim.endJob, setJob]
  have happend : (u.endJob p i machines).history.ends = u.history.ends ++ [p] := rfl
  have hold : u.history.ends.count p = 0 := h.ends.trans hcount
  have huses := uses_endJob hends h.uses hids
  have hlast : k ≠ .unmet ∧ k.hands = none ∧ k.machines? = none ∧ k.started = 1 ∧
      k.counted = 0 ∧ k.buried = 0 ∧ k.runs = 1 ∧ k.ends = 1 := by
    obtain rfl | ⟨o, rfl⟩ := hk
    · exact ⟨by simp, rfl, rfl, rfl, rfl, rfl, rfl, rfl⟩
    · exact ⟨by simp, rfl, rfl, rfl, rfl, rfl, rfl, rfl⟩
  obtain ⟨hmet', hhands', hids', hstarted', hcounted', hburied', hruns', hends'⟩ := hlast
  refine ⟨iff_of_true (h.met.mpr hmet) hmet', (congrArg Job.state hjob).trans hstate,
    by simp [hhands'], by simp [hids'], rfl, h.started.trans (hstarted.trans hstarted'.symm),
    h.counted.trans (hcounted.trans hcounted'.symm), h.buried.trans (hburied.trans hburied'.symm),
    h.runs.trans (hruns.trans hruns'.symm), ?_, fun id => (huses id).trans ?_⟩
  · simp [Sim.view, happend, hold, hends']
  · simp [Life.uses, hids']

theorem finishJob_lives {returnCode : Int} (h : u.InHand a l)
    (hids : l.machines? = some a.allocation.machineIds) (hrun : finishJob u a returnCode = .ok t) :
    ∃ l', l.Leads l' ∧ l'.Shows a.allocation.job (t.view a.allocation.job) := by
  have hactive := (Life.of_machines hids).1
  obtain ⟨j, machines, hends, -, -, -, -, ⟨houtcome, -, rfl⟩ | ⟨hkilled, -, rfl⟩⟩ :=
    finishJob_effect hrun
  · have hshows := h.shows.leavesMachines (i := j) hids hends (k := .ended ⟨j.state, houtcome⟩) rfl
      (.inr ⟨_, rfl⟩)
    have htrace : traceOf a.allocation.job ((u.endJob a.allocation.job j machines).put
        (.jobCompleted a.allocation.job) (some (.notified a))).pool = {.ended} := by
      rw [traceOf, pool_put, Pool.labels_put, pool_endJob, show u.pool.labels
        (Thread.trace? a.allocation.job) (IPMessage.trace? a.allocation.job) = 0 from h.traceless]
      simp [Thread.trace?, IPMessage.trace?]
    refine ⟨_, .single (.finish l ⟨j.state, houtcome⟩ hactive), ?_⟩
    exact ⟨hshows.met, hshows.state, hshows.hands, hshows.allocation, htrace, hshows.started,
      hshows.counted, hshows.buried, hshows.runs, hshows.ends, hshows.uses⟩
  · have hshows := h.shows.leavesMachines (i := j) hids hends (k := .killed) hkilled (.inl rfl)
    have hstate : ((eraseActor ((u.endJob a.allocation.job j machines).noteSilentEnd
        a.allocation.job) a).job a.allocation.job).state = .completedKilled := by
      simp [eraseActor, setJob, Sim.endJob, noteSilentEnd, hkilled]
    refine ⟨_, .single (.die l hactive), ?_⟩
    exact ⟨hshows.met, hstate, by simp [Life.hands], by simp [Life.machines?], h.traceless,
      hshows.started, hshows.counted, hshows.buried, hshows.runs, hshows.ends, hshows.uses⟩

/-- The actor goes on with a leaf. -/
theorem Sim.InHand.goesOn {leaf leaf' : Leaf} (h : u.InHand a (.executing a leaf))
    (hview : t.view a.allocation.job = { u.view a.allocation.job with
      trace := traceOf a.allocation.job t.pool })
    (htrace : traceOf a.allocation.job t.pool = {.thread (.executing a leaf')}) :
    ∃ l', (Life.executing a leaf).Leads l' ∧ l'.Shows a.allocation.job (t.view a.allocation.job) := by
  obtain ⟨h, -⟩ := h
  refine ⟨.executing a leaf', .single (.goOn a leaf leaf'), ?_⟩
  rw [hview]
  exact ⟨iff_of_true (h.met.mpr (by simp)) (by simp), h.state, h.hands, h.allocation, htrace,
    h.started, h.counted, h.buried, h.runs, h.ends, h.uses⟩

theorem executeTask_lives {step : TaskStep} {leaf : Leaf} (h : u.InHand a (.executing a leaf))
    (hrun : executeTask u a step = .ok t) :
    ∃ l', (Life.executing a leaf).Leads l' ∧ l'.Shows a.allocation.job (t.view a.allocation.job) := by
  obtain ⟨leaf', -, rfl⟩ | ⟨message, -, rfl⟩ | ⟨returnCode, -, hfinish⟩ := executeTask_effect hrun
  · have htrace : traceOf a.allocation.job (u.waitOnLeaf a leaf').pool =
        {.thread (.executing a leaf')} := by
      rw [traceOf, waitOnLeaf, Sim.block, Pool.labels_block, show u.pool.labels
        (Thread.trace? a.allocation.job) (IPMessage.trace? a.allocation.job) = 0 from h.traceless]
      simp [Thread.trace?]
    exact h.goesOn rfl htrace
  · have htrace : traceOf a.allocation.job (u.sendFromJob a message).pool =
        {.thread (.executing a .other)} := by
      rw [traceOf, sendFromJob, pool_put, Pool.labels_put, show u.pool.labels
        (Thread.trace? a.allocation.job) (IPMessage.trace? a.allocation.job) = 0 from h.traceless]
      simp [Thread.trace?, IPMessage.trace?]
    exact h.goesOn rfl htrace
  · exact finishJob_lives h rfl hfinish

/-- The actors that a job remembers, while that matters, are on its trace. -/
theorem Life.hands_actor {p : JobPtr} {task : Option Nat} {actors : List Nat}
    (h : l.hands = some (task, actors)) (n : Nat) (hn : n ∈ actors) :
    ∃ x b, .thread x ∈ l.trace p ∧ x.actor? = some b ∧ b.number = n := by
  cases l with
  | launched b =>
    cases h
    exact ⟨.executeJob b, b, by simp [Life.trace], rfl, (List.mem_singleton.mp hn).symm⟩
  | executing b leaf =>
    cases h
    exact ⟨.executing b leaf, b, by simp [Life.trace], rfl, (List.mem_singleton.mp hn).symm⟩
  | cancelled b =>
    cases h
    exact ⟨.cancelled b, b, by simp [Life.trace], rfl, (List.mem_singleton.mp hn).symm⟩
  | unmet | waiting | submitted | rejected | forced =>
    cases h
    cases hn
  | _ => simp [Life.hands] at h

/-- What the trace of a job shows is in the pool. -/
theorem traceOf_thread {p : JobPtr} {pool : Pool IPMessage Thread} {x : Thread}
    (h : .thread x ∈ traceOf p pool) : x ∈ pool.threads ∧
      (x.isServer = true ∨ ∃ a, x.actor? = some a ∧ a.allocation.job = p) := by
  rw [traceOf, Pool.labels, Multiset.mem_add, Multiset.mem_coe, Multiset.mem_coe,
    List.mem_filterMap, List.mem_filterMap] at h
  obtain ⟨y, hy, htrace⟩ | ⟨m, -, htrace⟩ := h
  · obtain ⟨heq, hwho⟩ := Thread.trace_eq_some htrace
    rw [Trace.thread.injEq] at heq
    exact heq ▸ ⟨hy, hwho⟩
  · cases (IPMessage.trace_eq_some htrace).1

/-- An actor whose job has ended is forgotten: the stage of its job does not show it. -/
theorem notified_lives {p : JobPtr} {pool : Pool IPMessage Thread} (hnumbered : Numbered s)
    (hnext : s.pool.next? = some (.resume (.notified a), pool))
    (h : l.Shows p (s.view p)) : l.Shows p ((eraseActor { s with pool := pool } a).view p) := by
  have hview := view_resume (p := p) hnext rfl
  by_cases hp : p = a.allocation.job
  · subst hp
    rw [← hview] at h
    refine ⟨h.met, ?_, fun x hx => ?_, fun ids hids => ?_, h.trace, h.started, h.counted, h.buried,
      h.runs, h.ends, h.uses⟩
    · have hstate := h.state
      simpa [Sim.view, eraseActor, setJob] using hstate
    · have hhands := h.hands x hx
      have hkept : x.2.erase a.number = x.2 := by
        refine List.erase_of_not_mem fun hin => ?_
        obtain ⟨y, b, hy, hb, hnumber⟩ :=
          Life.hands_actor (p := a.allocation.job) hx a.number hin
        rw [← h.trace] at hy
        exact hnumbered.other hnext rfl ((traceOf_thread hy).1) hb hnumber
      rw [← hhands] at hkept ⊢
      have hactors : (s.job a.allocation.job).executionActors.erase a.number =
          (s.job a.allocation.job).executionActors := hkept
      simp [Sim.view, eraseActor, setJob, hactors]
    · have halloc := h.allocation ids hids
      simpa [Sim.view, eraseActor, setJob] using halloc
  · rw [view_eraseActor hp, hview]
    exact h

end executions

/-! ### Registrations -/

section bystanders

variable {cfg : Config} {s s' : Sim} {p : JobPtr} {l : Life}

/-- The actors that neither execute nor kill jobs register at most a job that was never met. -/
theorem bystander_lives {o : Outcome} {x : Thread} (h : l.Shows p (s.view p))
    (howned : s.workloads.Owned) (hserver : x.isServer = false) (hactor : x.actor? = none)
    (hkiller : x.isKiller = false) (hreads : x.ReadsReply) (hrun : runThread cfg s o x = .ok s') :
    ∃ l', l.Leads l' ∧ l'.Shows p (s'.view p) := by
  obtain ⟨new, hby⟩ := runThread_bystands howned hserver hactor hkiller hrun
  obtain ⟨hmoves, hkeeps⟩ := runThread_moves howned hserver hrun
  have htrace : traceOf p s'.pool = traceOf p s.pool :=
    (onActors_trace p).moves hactor hkiller hreads hmoves
  have huses : ∀ id, (s'.machines.users id).count p = (s.machines.users id).count p := fun id => by
    rw [users_bystander howned hserver hactor hkiller hrun]
  have hstarted : s'.history.started.count p = s.history.started.count p := by rw [hkeeps.started]
  have hcounted : s'.history.counted.count p = s.history.counted.count p := by rw [hkeeps.counted]
  have hburied : s'.history.countedKilled.count p = s.history.countedKilled.count p := by
    rw [hkeeps.countedKilled]
  have hruns : s'.history.runs.count p = s.history.runs.count p := by rw [hby.runs]
  have hends : s'.history.ends.count p = s.history.ends.count p := by rw [hby.ends]
  by_cases hnew : ∃ j, new = some (p, j)
  · obtain ⟨j, rfl⟩ := hnew
    obtain ⟨-, htask, hactors, hstate⟩ := hby.blank p j rfl
    have hjob : s'.job p = j := by rw [hby.job]; simp
    have hunmet : ¬ s.workloads.Met p := hby.registers.fresh p rfl
    have hmet : s'.workloads.Met p := (hby.registers.met p).mpr (.inr rfl)
    obtain rfl : l = .unmet := by
      by_contra hne
      exact hunmet (h.met.mpr hne)
    have hhands : ((s'.job p).task, (s'.job p).executionActors) = (none, []) := by
      rw [hjob, htask, hactors]
    cases hstate with
    | inl hnot =>
      refine ⟨.waiting, .single .meet, iff_of_true hmet (by simp), ?_, fun x hx => ?_,
        by simp [Life.machines?], htrace.trans h.trace, hstarted.trans h.started,
        hcounted.trans h.counted, hburied.trans h.buried, hruns.trans h.runs, hends.trans h.ends,
        fun id => (huses id).trans (h.uses id)⟩
      · exact (congrArg Job.state hjob).trans hnot
      · cases hx
        exact hhands
    | inr hsubmitted =>
      refine ⟨.submitted, .single .register, iff_of_true hmet (by simp), ?_, fun x hx => ?_,
        by simp [Life.machines?], htrace.trans h.trace, hstarted.trans h.started,
        hcounted.trans h.counted, hburied.trans h.buried, hruns.trans h.runs, hends.trans h.ends,
        fun id => (huses id).trans (h.uses id)⟩
      · exact (congrArg Job.state hjob).trans hsubmitted
      · cases hx
        exact hhands
  · have hjob : s'.job p = s.job p := by
      rw [hby.job]
      cases new with
      | none => rfl
      | some x =>
        have hne : p ≠ x.1 := by
          rintro rfl
          exact hnew ⟨x.2, rfl⟩
        simp [hne]
    have hmet : s'.workloads.Met p ↔ s.workloads.Met p := by
      refine (hby.registers.met p).trans (or_iff_left ?_)
      intro heq
      cases new with
      | none => cases heq
      | some x =>
        cases heq
        exact hnew ⟨x.2, rfl⟩
    refine ⟨l, .refl, ?_⟩
    rw [view_eq hmet (by rw [hjob]) (by rw [hjob]) (by rw [hjob]) (by rw [hjob]) htrace hstarted
      hcounted hburied hruns hends huses]
    exact h

end bystanders

/-! ### Killers -/

/-- What the cancellation of the parallel task of the actor `n` does to a trace. -/
def Trace.cancel (n : Nat) : Trace → Trace
  | .thread t => .thread (if t.waitsOnPtask n then t.cancel else t)
  | .ended => .ended

/-- Whether a trace is left when actors are killed. -/
def Trace.spared (actors : List Nat) : Trace → Bool
  | .thread t => !t.isActorIn actors
  | .ended => true

section killers

variable {s u t : Sim} {p q : JobPtr} {l : Life}

theorem traceOf_cancelPtask (hplaced : Placed u.pool) (hwoken : u.pool.woken = []) (n : Nat) :
    traceOf p (u.cancelPtask n).pool = (traceOf p u.pool).map (Trace.cancel n) := by
  refine Pool.labels_interrupt_map _ _ (fun x hx => ?_) (fun x hx => ?_) (fun x _ hx => ?_)
    fun m => ?_
  · -- a parallel task is waited on in the kernel
    cases hhit : x.waitsOnPtask n with
    | false => rfl
    | true =>
      obtain ⟨a, rfl, -⟩ := Thread.waitsOnPtask_eq_true hhit
      obtain hin | hin | ⟨m, hin⟩ := hx
      · rw [hwoken] at hin
        cases hin
      · have hfresh := hplaced.fresh _ hin
        cases hfresh
      · obtain ⟨y, hputs⟩ := hplaced.mailbox m _ hin
        cases hputs with
        | firstReply _ _ _ _ hsender _ | reply _ _ _ _ hsender _ =>
          obtain ⟨_, heq⟩ := hsender _ rfl
          cases heq
  · obtain ⟨a, rfl, -⟩ := Thread.waitsOnPtask_eq_true hx
    by_cases hp : a.allocation.job = p
    · simp [Thread.cancel, Thread.trace?, hp, Trace.cancel, hx]
    · simp [Thread.cancel, Thread.trace?, hp]
  · cases htrace : x.trace? p with
    | none => rfl
    | some y =>
      obtain ⟨rfl, -⟩ := Thread.trace_eq_some htrace
      simp [Trace.cancel, hx]
  · cases htrace : m.trace? p with
    | none => rfl
    | some y =>
      obtain ⟨rfl, -⟩ := IPMessage.trace_eq_some htrace
      rfl

theorem cancelPtask_lives (h : l.Shows p (u.view p)) (hplaced : Placed u.pool)
    (hwoken : u.pool.woken = []) (n : Nat) :
    ∃ l', l.Leads l' ∧ l'.Shows p ((u.cancelPtask n).view p) := by
  have htrace : traceOf p (u.cancelPtask n).pool = (l.trace p).map (Trace.cancel n) := by
    rw [traceOf_cancelPtask hplaced hwoken, ← h.trace]
    rfl
  by_cases hhit : ∃ a, l = .executing a .ptask ∧ a.number = n
  · obtain ⟨a, rfl, rfl⟩ := hhit
    refine ⟨.cancelled a, .single (.cancel a), ?_⟩
    have hcancelled : traceOf p (u.cancelPtask a.number).pool = {.thread (.cancelled a)} := by
      rw [htrace]
      simp [Life.trace, Trace.cancel, Thread.waitsOnPtask, Thread.cancel]
    exact ⟨iff_of_true (h.met.mpr (by simp)) (by simp), h.state, h.hands, h.allocation, hcancelled,
      h.started, h.counted, h.buried, h.runs, h.ends, h.uses⟩
  · refine ⟨l, .refl, ?_⟩
    have hsame : (l.trace p).map (Trace.cancel n) = l.trace p := by
      cases l with
      | executing a leaf =>
        cases leaf with
        | ptask =>
          have hne : a.number ≠ n := fun heq => hhit ⟨a, rfl, heq⟩
          simp [Life.trace, Trace.cancel, Thread.waitsOnPtask, hne]
        | other => simp [Life.trace, Trace.cancel, Thread.waitsOnPtask]
      | _ => simp [Life.trace, Trace.cancel, Thread.waitsOnPtask]
    exact ⟨h.met, h.state, h.hands, h.allocation, htrace.trans hsame, h.started, h.counted,
      h.buried, h.runs, h.ends, h.uses⟩

/-- Killing the actors of the job `q` strikes no message about the end of another. -/
theorem traceOf_killActors (hnumbered : Numbered u) (hplaced : Placed u.pool) {j : Job}
    {machines : Machines} (hended : p = q → .ended ∉ traceOf p u.pool) :
    traceOf p (u.killActors q j machines).pool =
      (traceOf p u.pool).filter fun x => x.spared (u.job q).executionActors = true := by
  refine Pool.labels_kill_filter _ _ (fun x y hx => ?_) (fun m y hm => ?_) fun m x hin hdead => ?_
  · obtain ⟨rfl, -⟩ := Thread.trace_eq_some hx
    simp [Trace.spared]
  · obtain ⟨rfl, -⟩ := IPMessage.trace_eq_some hm
    rfl
  · cases htrace : m.trace? p with
    | none => rfl
    | some y =>
      obtain ⟨rfl, rfl⟩ := IPMessage.trace_eq_some htrace
      have hqueue : IPMessage.jobCompleted p ∈ u.pool.queue :=
        Pool.mem_queue.mpr (.inr ⟨_, hin⟩)
      have hthread : x ∈ u.pool.threads := by
        rw [Pool.mem_threads]
        exact .inr (.inr (.inl ⟨_, hin⟩))
      have hmem : Trace.ended ∈ traceOf p u.pool := by
        rw [traceOf, Pool.labels, Multiset.mem_add, Multiset.mem_coe, Multiset.mem_coe]
        exact .inr (List.mem_filterMap.mpr ⟨_, hqueue, htrace⟩)
      obtain ⟨y, hputs⟩ := hplaced.mailbox _ _ hin
      cases hputs with
      | firstReply _ _ _ _ hsender _ | reply _ _ _ _ hsender _ =>
        obtain ⟨_, rfl⟩ := hsender _ rfl
        cases hdead
      | completed _ a _ _ =>
        simp only [Thread.isActorIn, Thread.actor?, Option.any_some, decide_eq_true_eq] at hdead
        have hjob := (hnumbered.actors q a.number hdead).2 _ hthread a rfl rfl
        exact absurd hmem (hended hjob)

theorem killActors_lives (h : l.Shows p (u.view p)) (hnumbered : Numbered u)
    (hplaced : Placed u.pool) {n : Nat} (hstate : (u.job q).state = .running)
    (htask : (u.job q).task = some n) {j : Job} {machines : Machines}
    (hends : u.machines.updateMachinesOnJobEnd q (u.job q).allocation u.clock = .ok machines)
    (hj : j.state = .completedKilled) :
    ∃ l', l.Leads l' ∧ l'.Shows p ((u.killActors q j machines).view p) := by
  by_cases hp : p = q
  · subst hp
    have hactive : ∃ a, l.machines? = some a.allocation.machineIds ∧
        l.hands = some (some a.number, [a.number]) ∧
        ∃ x, l.trace p = {.thread x} ∧ x.actor? = some a := by
      obtain rfl | hactive := h.of_running hstate
      · have hnone : (u.job p).task = none := congrArg Prod.fst (h.hands _ rfl)
        rw [htask] at hnone
        cases hnone
      · cases l with
        | launched a =>
          have hnone : (u.job p).task = none := congrArg Prod.fst (h.hands _ rfl)
          rw [htask] at hnone
          cases hnone
        | executing a leaf => exact ⟨a, rfl, rfl, _, rfl, rfl⟩
        | cancelled a => exact ⟨a, rfl, rfl, _, rfl, rfl⟩
        | _ => cases hactive
    obtain ⟨a, hids, hhands, x, hx, hactor⟩ := hactive
    have halloc : (u.job p).allocation = a.allocation.machineIds := h.allocation _ hids
    have hactors : (u.job p).executionActors = [a.number] := congrArg Prod.snd (h.hands _ hhands)
    have hold : traceOf p u.pool = {.thread x} := h.trace.trans hx
    have htrace : traceOf p (u.killActors p j machines).pool = 0 := by
      rw [traceOf_killActors hnumbered hplaced (by simp [hold]), hold, hactors]
      simp [Trace.spared, Thread.isActorIn, hactor]
    rw [halloc] at hends
    have hshows := Life.Shows.leavesMachines (i := j) (k := .killed) ⟨h.met, h.state, h.hands,
      h.allocation, rfl, h.started, h.counted, h.buried, h.runs, h.ends, h.uses⟩ hids hends hj
      (.inl rfl)
    refine ⟨.killed, .single (.die l (Life.of_machines hids).1), ?_⟩
    exact ⟨hshows.met, hshows.state, hshows.hands, hshows.allocation, htrace, hshows.started,
      hshows.counted, hshows.buried, hshows.runs, hshows.ends, hshows.uses⟩
  · refine ⟨l, .refl, ?_⟩
    have htrace : traceOf p (u.killActors q j machines).pool = traceOf p u.pool := by
      rw [traceOf_killActors hnumbered hplaced fun heq => absurd heq hp]
      refine Multiset.filter_eq_self.mpr fun y hy => ?_
      cases y with
      | ended => rfl
      | thread x =>
        -- an actor of the job `q` is no actor of the job `p`
        rw [Trace.spared, Bool.not_eq_true', ← Bool.not_eq_true]
        intro hdead
        obtain ⟨hx, hjob⟩ := traceOf_thread hy
        obtain hserver | ⟨a, hactor, hjob⟩ := hjob
        · simp [Thread.isActorIn, Thread.actor_of_isServer hserver] at hdead
        · simp only [Thread.isActorIn, hactor, Option.any_some, decide_eq_true_eq] at hdead
          exact hp (hjob.symm.trans ((hnumbered.actors q a.number hdead).2 x hx a hactor rfl))
    have hview : (u.killActors q j machines).view p =
        { (u.endJob q j machines).view p with
          trace := traceOf p (u.killActors q j machines).pool } := rfl
    rw [hview, htrace, view_endJob hends hp]
    exact h

/-- What a killer does to one job. -/
theorem killJob_lives {id : JobIdentifier} (h : l.Shows p (u.view p)) (hnumbered : Numbered u)
    (hplaced : Placed u.pool) (hwoken : u.pool.woken = []) (hkill : killJob u id = .ok t) :
    ∃ l', l.Leads l' ∧ l'.Shows p (t.view p) := by
  obtain ⟨q, -, -, -, -, ⟨-, rfl⟩ | ⟨n, hstate, htask, ⟨-, rfl⟩ |
    ⟨-, -, j, machines, hends, -, -, -, -, hj, rfl⟩⟩⟩ := killJob_effect hkill
  · exact ⟨l, .refl, h⟩
  · exact cancelPtask_lives h hplaced hwoken n
  · exact killActors_lives h hnumbered hplaced hstate htask hends hj

theorem killerProcess_lives {ids : List JobIdentifier} {acknowledge : Bool}
    (h : l.Shows p (u.view p)) (hnumbered : Numbered u) (hplaced : Placed u.pool)
    (hwoken : u.pool.woken = []) (hrun : killerProcess u ids acknowledge = .ok t) :
    ∃ l', l.Leads l' ∧ l'.Shows p (t.view p) := by
  obtain ⟨v, hkills, rfl⟩ := killerProcess_effect hrun
  let I : List JobIdentifier → Sim → Prop := fun _ v =>
    Numbered v ∧ Placed v.pool ∧ v.pool.woken = [] ∧ ∃ l', l.Leads l' ∧ l'.Shows p (v.view p)
  have hall : I ids v := by
    refine forEach_invariant I ⟨hnumbered, hplaced, hwoken, l, .refl, h⟩ ?_ hkills
    intro done id rest v v' _ ⟨hnumbered, hplaced, hwoken, l', hleads, hshows⟩ hstep
    have hsteps : KillSteps v.pool v'.pool := by
      obtain ⟨heq | ⟨n, heq⟩ | ⟨actors, heq⟩, -⟩ := killJob_frame hstep <;> rw [heq]
      · exact .refl _
      · exact .interrupt n (.refl _)
      · exact .kill actors (.refl _)
    obtain ⟨hplaced', hwoken'⟩ := hplaced.killSteps hwoken hsteps
    obtain ⟨l'', hleads', hshows'⟩ := killJob_lives hshows hnumbered hplaced hwoken hstep
    exact ⟨killJob_numbered hnumbered hstep, hplaced', hwoken', l'', hleads.trans hleads', hshows'⟩
  obtain ⟨-, -, -, l', hleads, hshows⟩ := hall
  refine ⟨l', hleads, ?_⟩
  rw [view_put rfl rfl]
  exact hshows

end killers

/-! ### Runs -/

section runs

variable {cfg : Config} {guard : Sim → Choice → Prop} {s s' : Sim} {p : JobPtr} {l : Life}

theorem trace_of_actor {x : Thread} {a : ExecutionActor} (hactor : x.actor? = some a)
    (hp : p ≠ a.allocation.job) : x.trace? p = none := by
  cases hx : x.trace? p with
  | none => rfl
  | some y =>
    obtain ⟨-, hserver | ⟨b, hb, hjob⟩⟩ := Thread.trace_eq_some hx
    · rw [Thread.actor_of_isServer hserver] at hactor
      cases hactor
    · rw [hactor, Option.some.injEq] at hb
      exact absurd (hb ▸ hjob).symm hp

/-- A run of the actor of another job. -/
theorem view_execution {o : Outcome} {x : Thread} {a : ExecutionActor}
    {pool : Pool IPMessage Thread} (hnext : s.pool.next? = some (.resume x, pool))
    (hactor : x.actor? = some a) (hp : p ≠ a.allocation.job)
    (hrun : runThread cfg { s with pool := pool } o x = .ok s') : s'.view p = s.view p := by
  have hview := view_resume hnext (trace_of_actor hactor hp)
  cases x with
  | executeJob b =>
    obtain rfl : b = a := Option.some.inj hactor
    cases o with
    | task step =>
      simp only [runThread, bind_eq_ok] at hrun
      obtain ⟨u, hu, hrun⟩ := hrun
      obtain ⟨machines, hmachines, rfl⟩ := startJob_effect hu
      rw [view_executeTask hrun hp, view_beginJob hmachines hp, hview]
    | _ => simp [runThread] at hrun
  | executing b leaf =>
    obtain rfl : b = a := Option.some.inj hactor
    cases o with
    | task step => rw [view_executeTask hrun hp, hview]
    | _ => simp [runThread] at hrun
  | cancelled b =>
    obtain rfl : b = a := Option.some.inj hactor
    rw [view_finishJob hrun hp, hview]
  | notified b =>
    obtain rfl : b = a := Option.some.inj hactor
    simp only [runThread, Except.ok.injEq] at hrun
    subst hrun
    rw [view_eraseActor hp, hview]
  | _ => cases hactor

/-- A run of the actor of a job. -/
theorem execution_lives {o : Outcome} {x : Thread} {a : ExecutionActor}
    {pool : Pool IPMessage Thread} (h : l.Shows p (s.view p)) (hnumbered : Numbered s)
    (hnext : s.pool.next? = some (.resume x, pool)) (hactor : x.actor? = some a)
    (hrun : runThread cfg { s with pool := pool } o x = .ok s') :
    ∃ l', l.Leads l' ∧ l'.Shows p (s'.view p) := by
  by_cases hp : p = a.allocation.job
  · subst hp
    cases x with
    | executeJob b =>
      obtain rfl : b = a := Option.some.inj hactor
      obtain ⟨htrace, hhand⟩ := h.inHand hnext (if_pos rfl)
      obtain rfl : l = .launched b := by cases l <;> simp_all [Life.trace]
      cases o with
      | task step =>
        simp only [runThread, bind_eq_ok] at hrun
        obtain ⟨u, hu, hrun⟩ := hrun
        obtain ⟨machines, hmachines, rfl⟩ := startJob_effect hu
        have hbegun := hhand.begins hmachines .other
        obtain ⟨l', hleads, hshows⟩ := executeTask_lives hbegun hrun
        exact ⟨l', .head (.start b .other) hleads, hshows⟩
      | _ => simp [runThread] at hrun
    | executing b leaf =>
      obtain rfl : b = a := Option.some.inj hactor
      obtain ⟨htrace, hhand⟩ := h.inHand hnext (if_pos rfl)
      obtain rfl : l = .executing b leaf := by cases l <;> simp_all [Life.trace]
      cases o with
      | task step => exact executeTask_lives hhand hrun
      | _ => simp [runThread] at hrun
    | cancelled b =>
      obtain rfl : b = a := Option.some.inj hactor
      obtain ⟨htrace, hhand⟩ := h.inHand hnext (if_pos rfl)
      obtain rfl : l = .cancelled b := by cases l <;> simp_all [Life.trace]
      exact finishJob_lives hhand rfl hrun
    | notified b =>
      simp only [runThread, Except.ok.injEq] at hrun
      subst hrun
      exact ⟨l, .refl, notified_lives hnumbered hnext h⟩
    | _ => cases hactor
  · refine ⟨l, .refl, ?_⟩
    rw [view_execution hnext hactor hp hrun]
    exact h

/-- Only submissions may be submissions again. -/
theorem resubmitted_of_other {t : Sim} {m : IPMessage} (howned : s.workloads.Owned)
    (hm : ∀ name jobs, m ≠ .jobSubmitted name jobs) (h : handleMessage cfg s m = .ok t) :
    t.history.resubmitted = s.history.resubmitted := by
  cases hjobs : m.touchesJobs with
  | false =>
    obtain ⟨ts, hhandled⟩ := handleMessage_effect h
    exact (hhandled.jobs hjobs).resubmitted
  | true =>
    cases m with
    | jobSubmitted name jobs => exact absurd rfl (hm name jobs)
    | jobRegisteredByDP q =>
      obtain rfl | ⟨job, profile, rfl⟩ := serverOnRegisterJob_effect h <;> rfl
    | jobCompleted q =>
      obtain ⟨submitter, -, rfl⟩ | ⟨-, hcount⟩ := serverOnJobCompleted_effect h
      · rfl
      · obtain ⟨-, -, rfl⟩ := countJobCompletion_effect hcount
        rfl
    | schedExecuteJob a =>
      obtain ⟨-, -, -, rfl⟩ := serverOnExecuteJob_effect h
      rfl
    | schedChangeJobState id state =>
      obtain ⟨q, -, -, -, -, rfl⟩ := serverOnChangeJobState_effect h
      rfl
    | schedRejectJob id =>
      obtain ⟨q, -, -, rfl⟩ := serverOnRejectJob_effect h
      rfl
    | schedKillJob ids =>
      obtain ⟨u, toKill, hloop, rfl⟩ := serverOnKillJobs_effect h
      obtain ⟨-, rfl⟩ := requestKills_effect howned hloop
      unfold launchKiller
      split <;> rfl
    | killingDone ids acknowledge =>
      obtain ⟨u, hloop, rfl⟩ := serverOnKillingDone_effect h
      have hu : u.history.resubmitted = s.history.resubmitted := by
        refine forEach_unchanged (fun v : Sim => v.history.resubmitted) ?_ hloop
        intro id _ v v' hstep
        obtain ⟨q, -, ⟨-, rfl⟩ | ⟨-, -, rfl⟩⟩ := countKilledJob_effect hstep <;> rfl
      cases acknowledge <;> exact hu
    | _ => cases hjobs

/-- The jobs submitted again are never forgotten. -/
theorem handleMessage_resubmitted {t : Sim} {m : IPMessage} (howned : s.workloads.Owned)
    (h : handleMessage cfg s m = .ok t) : s.history.resubmitted ⊆ t.history.resubmitted := by
  cases m with
  | jobSubmitted name jobs =>
    obtain rfl | ⟨submitter, -, hloop⟩ := serverOnJobSubmitted_effect h
    · exact List.Subset.refl _
    · refine forEach_preserves (P := fun u : Sim => s.history.resubmitted ⊆ u.history.resubmitted)
        (List.Subset.refl _) ?_ hloop
      intro q _ u u' hu hstep
      obtain ⟨-, job, profile, rfl⟩ := submitJob_effect hstep
      have hmore := (submit_leaves u submitter q).2.2.2.2.2.2.2.2
      refine List.Subset.trans hu ?_
      rw [show ((u.submit submitter q).logged (.jobSubmitted q.id job profile)).history.resubmitted
        = (u.submit submitter q).history.resubmitted from rfl, hmore]
      exact List.subset_append_left _ _
  | _ =>
    rw [resubmitted_of_other howned (by simp) h]
    exact List.Subset.refl _

theorem endOfTurn_resubmitted {u : Sim} (h : endOfTurn cfg u = .ok s') :
    s'.history.resubmitted = u.history.resubmitted := by
  obtain rfl | ⟨workloads, hflush⟩ | hfinish := endOfTurn_cases h
  · rfl
  · rw [hflush.eq]
    rfl
  · rw [hfinish.eq]
    rfl

theorem step_resubmitted {c : Choice} (howned : s.workloads.Owned)
    (hstep : (batsim cfg).step s c = .ok s') :
    s.history.resubmitted ⊆ s'.history.resubmitted := by
  cases step_kind hstep with
  | solve clock receive wakes rest order pool hcan hsolve hs' =>
    subst hs'
    exact List.Subset.refl _
  | turn o m pool hnext hturn =>
    obtain ⟨t, ht, hend⟩ := turn_cases hturn
    have hmore := handleMessage_resubmitted (s := { s with pool := pool }) howned ht
    obtain ⟨-, rfl⟩ | ⟨-, hend⟩ := hend
    · exact hmore
    · rw [endOfTurn_resubmitted hend]
      exact hmore
  | callback o q mailbox pool hnext hrun =>
    obtain ⟨t, ht, hend⟩ := serverCallback_cases hrun
    obtain ⟨-, -, rfl⟩ := serverOnCallbackReceived_effect ht
    rw [endOfTurn_resubmitted hend]
    exact List.Subset.refl _
  | start o pool hnext hrun =>
    rw [serverProcess_effect hrun]
    exact List.Subset.refl _
  | actor o t pool ht hnext hrun =>
    obtain ⟨-, hkeeps⟩ := runThread_moves (s := { s with pool := pool }) howned ht hrun
    rw [hkeeps.resubmitted]
    exact List.Subset.refl _

/-- One step of the simulation moves each job forward along its life, or leaves it where it is. -/
theorem step_lives {c : Choice} (hr : Reaches (batsim cfg) guard s) (h : l.Shows p (s.view p))
    (hstep : (batsim cfg).step s c = .ok s') (hp : p ∉ s'.history.resubmitted) :
    ∃ l', l.Leads l' ∧ l'.Shows p (s'.view p) := by
  have howned := reaches_owned hr
  have hnumbered := reaches_numbered hr
  cases step_kind hstep with
  | solve clock receive wakes rest order pool hcan hsolve hs' =>
    subst hs'
    refine ⟨l, .refl, ?_⟩
    have htrace : traceOf p pool = traceOf p s.pool := Pool.labels_solve _ _ hsolve
    rw [show ({ s with clock := clock, pool := pool } : Sim).view p = s.view p from view_pool htrace]
    exact h
  | turn o m pool hnext hturn =>
    obtain ⟨t, ht, hend⟩ := turn_cases hturn
    have hhandled : p ∉ t.history.resubmitted → ∃ l', l.Leads l' ∧ l'.Shows p (t.view p) := by
      intro hlate
      by_cases hm : m = .jobCompleted p
      · subst hm
        exact ended_lives h hnext ht
      · have htrace : m.trace? p = none := by
          cases hx : m.trace? p with
          | none => rfl
          | some x => exact absurd (IPMessage.trace_eq_some hx).2 hm
        have hpool : traceOf p pool = traceOf p s.pool := by
          have hlabels := traceOf_deliver (p := p) hnext
          rw [htrace, Option.toList_none, Multiset.coe_nil, zero_add] at hlabels
          exact hlabels.symm
        have hsubmits : ∀ q ∈ m.submits, s.workloads.Met q := fun q hq =>
          reaches_submits hr q (.inr ⟨m, by
            rw [(Pool.next?_deliver hnext).2.1]
            exact List.mem_cons_self .., hq⟩)
        exact handle_lives (u := { s with pool := pool }) ((view_pool hpool).symm ▸ h) howned
          hsubmits (fun ids hids => killingDone_new hr hnext hids) hm ht hlate
    have hworkloads : t.workloads = s.workloads := by
      obtain ⟨ts, hframe⟩ := handleMessage_effect ht
      exact hframe.keeps.workloads
    obtain ⟨-, rfl⟩ | ⟨-, hend⟩ := hend
    · exact hhandled hp
    · rw [endOfTurn_resubmitted hend] at hp
      rw [view_endOfTurn (u := t.noteHandled m) (hworkloads ▸ howned) hend]
      exact hhandled hp
  | callback o q mailbox pool hnext hrun =>
    obtain ⟨t, ht, hend⟩ := serverCallback_cases hrun
    have hworkloads : t.workloads = s.workloads := (serverOnCallbackReceived_frame ht).1.workloads
    rw [view_endOfTurn (u := t.noteHandled (.jobCompleted q)) (hworkloads ▸ howned) hend]
    exact called_lives (t := t) h hnext ht
  | start o pool hnext hrun =>
    refine ⟨l, .refl, ?_⟩
    obtain ⟨message, hspawn⟩ : ∃ message, s'.pool = { pool with
        fresh := pool.fresh ++ [.requestReply message], blocked := pool.blocked ++ [] } := by
      rw [serverProcess_effect hrun]
      exact ⟨(({ s with pool := pool } : Sim).logged .simulationBegins).writer.events,
        by simp [messageSent, logged, Pool.spawn]⟩
    have hpool : traceOf p s'.pool = traceOf p s.pool := by
      have hlabels := traceOf_resume (p := p) hnext
      have hnew := traceOf_of_pool (p := p) hspawn
      rw [hnew, hlabels]
      rfl
    have hview : s'.view p = { s.view p with trace := traceOf p s'.pool } := by
      rw [serverProcess_effect hrun]
      rfl
    rw [hview, hpool]
    exact h
  | actor o t pool ht hnext hrun =>
    have hthread : t ∈ s.pool.threads :=
      (Pool.next?_resume hnext).1.mem_iff.mpr (List.mem_cons_self ..)
    cases hactor : t.actor? with
    | some a => exact execution_lives h hnumbered hnext hactor hrun
    | none =>
      have htrace : t.trace? p = none := by
        cases hx : t.trace? p with
        | none => rfl
        | some y =>
          obtain ⟨-, hserver | ⟨b, hb, -⟩⟩ := Thread.trace_eq_some hx
          · rw [ht] at hserver
            cases hserver
          · rw [hactor] at hb
            cases hb
      have hpopped : l.Shows p (({ s with pool := pool } : Sim).view p) :=
        (view_resume hnext htrace).symm ▸ h
      cases hkiller : t.isKiller with
      | true =>
        cases t with
        | killer ids acknowledge =>
          have hplaced := reaches_placed hr
          have hwoken := (hplaced.woken_eq_nil rfl hnext).2
          exact killerProcess_lives hpopped (hnumbered.next hnext) (hplaced.next ht hnext) hwoken hrun
        | _ => cases hkiller
      | false =>
        exact bystander_lives hpopped howned ht hactor hkiller (reaches_readsReply hr hthread) hrun

theorem start_lives (cfg : Config) (p : JobPtr) :
    ∃ l : Life, (l = .unmet ∨ l = .waiting) ∧ l.Shows p ((start cfg).view p) := by
  have hjob : ((start cfg).job p).state = .notSubmitted ∧ ((start cfg).job p).task = none ∧
      ((start cfg).job p).executionActors = [] := by
    simp only [start, Config.job]
    split
    · exact ⟨rfl, rfl, rfl⟩
    · split
      · exact ⟨rfl, rfl, rfl⟩
      · exact ⟨rfl, rfl, rfl⟩
  obtain ⟨hstate, htask, hactors⟩ := hjob
  have htrace : traceOf p (start cfg).pool = 0 := by
    refine Multiset.eq_zero_of_forall_notMem fun x hx => ?_
    simp only [traceOf, Pool.labels, start, Pool.threads, Pool.queue, List.filterMap_nil,
      List.map_nil, List.append_nil, List.nil_append, Multiset.coe_nil, add_zero,
      Multiset.mem_coe, List.mem_filterMap] at hx
    obtain ⟨t, ht, htrace⟩ := hx
    simp only [initialThreads, List.mem_append, List.mem_map, List.mem_singleton] at ht
    obtain ((⟨d, -, rfl⟩ | ⟨d, -, rfl⟩) | ⟨d, -, rfl⟩) | rfl := ht <;> cases htrace
  have huses : ∀ id, ((start cfg).machines.users id).count p = 0 := fun id => by
    rw [users_start cfg id]
    rfl
  have hhands : (((start cfg).job p).task, ((start cfg).job p).executionActors) = (none, []) := by
    rw [htask, hactors]
  by_cases hmet : (start cfg).workloads.Met p
  · refine ⟨.waiting, .inr rfl, iff_of_true hmet (by simp), hstate, fun x hx => ?_,
      by simp [Life.machines?], htrace, rfl, rfl, rfl, rfl, rfl, huses⟩
    cases hx
    exact hhands
  · refine ⟨.unmet, .inl rfl, iff_of_false hmet (by simp), hstate, fun x hx => ?_,
      by simp [Life.machines?], htrace, rfl, rfl, rfl, rfl, rfl, huses⟩
    cases hx
    exact hhands

/-- The stages of the job `p` in the states of a run, the latest first. -/
structure Lived (p : JobPtr) (run : List Sim) (lives : List Life) : Prop where
  shows : List.Forall₂ (fun l u => l.Shows p (u.view p)) lives run
  moves : lives.IsChain fun later earlier => earlier.Leads later
  first : ∀ l ∈ lives.getLast?, l = .unmet ∨ l = .waiting

theorem Lived.unique {run : List Sim} {lives lives' : List Life} (h : Lived p run lives)
    (h' : Lived p run lives') : lives = lives' := by
  have hshows := h.shows
  have hshows' := h'.shows
  clear h h'
  induction hshows generalizing lives' with
  | nil => exact (List.forall₂_nil_right_iff.mp hshows').symm
  | cons hl hrest ih =>
    cases hshows' with
    | cons hl' hrest' => exact congrArg₂ List.cons (hl.unique hl') (ih hrest')

theorem visits_lived {past : List Sim} (h : Visits (batsim cfg) guard (s :: past))
    (hp : p ∉ s.history.resubmitted) : ∃ lives, Lived p (s :: past) lives := by
  revert hp
  refine h.invariant (P := fun s past => p ∉ s.history.resubmitted →
    ∃ lives, Lived p (s :: past) lives) (fun _ => ?_) ?_
  · obtain ⟨l, hfirst, hshows⟩ := start_lives cfg p
    exact ⟨[l], .cons hshows .nil, .singleton l, by simpa using hfirst⟩
  · intro s s' past c hr ih _ hstep hp
    obtain ⟨lives, hlived⟩ := ih fun hin => hp (step_resubmitted (reaches_owned hr) hstep hin)
    cases lives with
    | nil => cases hlived.shows
    | cons l lives =>
      obtain ⟨hshows, hrest⟩ := List.forall₂_cons.mp hlived.shows
      obtain ⟨l', hleads, hshows'⟩ := step_lives hr hshows hstep hp
      refine ⟨l' :: l :: lives, .cons hshows' (.cons hshows hrest), ?_, ?_⟩
      · exact List.isChain_cons_cons.mpr ⟨hleads, hlived.moves⟩
      · simpa using hlived.first

end runs

/-- A job is registered, executed, killed and counted. -/
theorem exists_killed_run : ∃ s past, Visits (batsim loneHost) anyStep (s :: past) ∧
    s.history.resubmitted = [] ∧ s.history.countedKilled = [ptr loneJob] := by
  let reply : Reply :=
    { now := 0
      events := [⟨0, .registerJob loneJob loneJobDescription⟩,
        ⟨0, .executeJob loneJob loneMachine none⟩, ⟨0, .killJob [loneJob]⟩] }
  obtain ⟨s, hreaches, hlast⟩ := exists_reaches_of_run (batsim loneHost) anyStep
    (fun s => s.history.resubmitted = [] ∧ s.history.countedKilled = [ptr loneJob])
    [.next, .next, .next (.reply reply), .receive, .next, .next, .receive, .next, .next,
      .receive, .next, .next, .next (.task (.leaf .other)), .receive, .next, .next, .next,
      .receive, .next, .receive, .next] (by decide +kernel)
  obtain ⟨past, hvisits⟩ := hreaches.visits
  exact ⟨s, past, hvisits, hlast⟩

end Batsim
