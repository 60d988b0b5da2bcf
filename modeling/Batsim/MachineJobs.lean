import Batsim.JobCounts

/-!
Which jobs machines compute: those between the start and the end of their execution, on the machines
of their allocation, and no two of them on a machine that is not shared.
-/

namespace Batsim

open Checked Workloads Sim StepSystem Machines

/-! ### Machines over runs -/

section machines

variable {cfg : Config} {guard : Sim → Choice → Prop} {s s' : Sim} {id : Nat}

theorem Machine.Changes.date_le {now : Date} {m m' : Machine} (h : m.Changes now m')
    (hm : m.lastStateChangeDate ≤ now) : m'.lastStateChangeDate ≤ now := by
  induction h with
  | refl => exact hm
  | enter _ _ _ => exact le_refl now
  | touchPstate pstate _ ih => simpa using ih
  | setPstate _ hset ih =>
    obtain ⟨-, rfl⟩ := Machine.setPstate_eq_ok.mp hset
    exact ih
  | compute _ _ ih => exact ih

/-- No machine has changed its state in the future. -/
theorem reaches_dates (h : Reaches (batsim cfg) guard s) :
    ∀ m, s.machines.machines[id]? = some m → m.lastStateChangeDate ≤ s.clock := by
  refine h.invariant (P := fun s : Sim => ∀ m, s.machines.machines[id]? = some m →
    m.lastStateChangeDate ≤ s.clock) ?_ ?_
  · intro m hm
    rw [(config_unused cfg m (List.mem_of_getElem? hm)).1]
    exact le_refl _
  · intro s s' c hr ih _ hstep m' hm'
    cases c with
    | solve clock receive wakes rest order =>
      obtain ⟨hcan, pool, -, rfl⟩ := step_solve (show step cfg s _ = .ok s' from hstep)
      simp only [canSolve, Bool.and_eq_true, decide_eq_true_eq] at hcan
      exact (ih m' hm').trans hcan.1.1.1.1
    | run o =>
      obtain ⟨m, hm, hchanges⟩ := exists_of_change (run_machines hr hstep) hm'
      rw [(run_clock hr hstep).1]
      exact hchanges.date_le (ih m hm)

/-- A machine stays, with its permissions. -/
theorem kept_of_evolve {ms ms' : Machines} {m : Machine} (h : ms.Evolve ms')
    (hm : ms.machines[id]? = some m) :
    ∃ m', ms'.machines[id]? = some m' ∧ m'.permissions = m.permissions := by
  have hid := h id
  rw [hm] at hid
  generalize hnew : ms'.machines[id]? = o at hid
  cases hid with
  | some hevolves => exact ⟨_, rfl, hevolves.permissions⟩

theorem old_of_evolve {ms ms' : Machines} {m' : Machine} (h : ms.Evolve ms')
    (hm : ms'.machines[id]? = some m') :
    ∃ m, ms.machines[id]? = some m ∧ m'.permissions = m.permissions := by
  have hid := h id
  rw [hm] at hid
  generalize hold : ms.machines[id]? = o at hid
  cases hid with
  | some hevolves => exact ⟨_, rfl, hevolves.permissions⟩

end machines

/-! ### The jobs of a machine -/

section jobs

variable {cfg : Config} {guard : Sim → Choice → Prop} {s s' : Sim} {p q : JobPtr} {id : Nat}

/-- A job is on a machine from the start of its execution to its end. -/
theorem Life.Shows.mem_users {l : Life} (h : l.Shows p (s.view p)) :
    p ∈ s.machines.users id ↔
      p ∈ s.history.runs ∧ p ∉ s.history.ends ∧ id ∈ (s.job p).allocation := by
  have huses : (s.machines.users id).count p = l.uses id := h.uses id
  have hruns : s.history.runs.count p = l.runs := h.runs
  have hends : s.history.ends.count p = l.ends := h.ends
  rw [← List.count_pos_iff, ← List.count_pos_iff, ← List.count_eq_zero, huses, hruns, hends]
  have hidle : l.machines? = none → l.runs = 0 ∨ l.ends = 1 := by
    intro hnone
    cases l <;> first | exact .inl rfl | exact .inr rfl | cases hnone
  cases hids : l.machines? with
  | none =>
    rw [Life.uses, hids]
    have hover := hidle hids
    refine iff_of_false (by simp) ?_
    rintro ⟨hpos, hzero, -⟩
    omega
  | some ids =>
    obtain ⟨-, -, -, -, -, hrun, hend⟩ := Life.of_machines hids
    have halloc : (s.job p).allocation = ids := h.allocation ids hids
    rw [Life.uses, hids, halloc, hrun, hend]
    by_cases hid : id ∈ ids <;> simp [hid]

/-- What the machines know of the executions of jobs. -/
structure MachinesRight (s : Sim) : Prop where
  runs : s.history.runs.Nodup
  ends : s.history.ends.Nodup
  started : ∀ p ∈ s.history.ends, p ∈ s.history.runs
  users : ∀ id, (s.machines.users id).Nodup
  computing : ∀ id p, p ∈ s.machines.users id ↔
    p ∈ s.history.runs ∧ p ∉ s.history.ends ∧ id ∈ (s.job p).allocation
  /-- the checks at the end of an execution pass, whoever makes it end -/
  ready : ∀ p ∈ s.history.runs, p ∉ s.history.ends →
    ∃ machines, s.machines.updateMachinesOnJobEnd p (s.job p).allocation s.clock = .ok machines

/-- In every state of every run in which no job is submitted twice. -/
theorem machines_right (h : Reaches (batsim cfg) guard s) (hnone : s.history.resubmitted = []) :
    MachinesRight s := by
  have halive := reaches_alive h hnone
  have hcomputing : ∀ id p, p ∈ s.machines.users id ↔
      p ∈ s.history.runs ∧ p ∉ s.history.ends ∧ id ∈ (s.job p).allocation := by
    intro id p
    obtain ⟨l, hl⟩ := halive p
    exact hl.mem_users
  refine ⟨?_, ?_, fun p hp => ?_, fun id => ?_, hcomputing, fun p hruns hends => ?_⟩
  · refine List.nodup_iff_count_le_one.mpr fun p => ?_
    obtain ⟨l, hl⟩ := halive p
    have hcount : s.history.runs.count p = l.runs := hl.runs
    rw [hcount]
    cases l <;> simp [Life.runs]
  · refine List.nodup_iff_count_le_one.mpr fun p => ?_
    obtain ⟨l, hl⟩ := halive p
    have hcount : s.history.ends.count p = l.ends := hl.ends
    rw [hcount]
    cases l <;> simp [Life.ends]
  · obtain ⟨l, hl⟩ := halive p
    have hruns : s.history.runs.count p = l.runs := hl.runs
    have hends : s.history.ends.count p = l.ends := hl.ends
    have hle : l.ends ≤ l.runs := by cases l <;> simp [Life.ends, Life.runs]
    have hpos := List.count_pos_iff.mpr hp
    exact List.count_pos_iff.mp (by omega)
  · refine List.nodup_iff_count_le_one.mpr fun p => ?_
    obtain ⟨l, hl⟩ := halive p
    have hcount : (s.machines.users id).count p = l.uses id := hl.uses id
    rw [hcount, Life.uses]
    split <;> omega
  · refine updateMachinesOnJobEnd_succeeds fun id hid => ?_
    have huser := (hcomputing id p).mpr ⟨hruns, hends, hid⟩
    cases hm : s.machines.machines[id]? with
    | none => simp [users, hm] at huser
    | some m => exact ⟨m, rfl, users_of_machine hm ▸ huser, reaches_dates h m hm⟩

end jobs

/-! ### Machines that are not shared -/

/-- Whether a machine computes one job at a time. -/
def Machine.exclusive (cfg : Config) (m : Machine) : Bool :=
  (m.hasRole Permissions.computeNode && !cfg.allowComputeSharing) ||
    (m.hasRole Permissions.storage && !cfg.allowStorageSharing)

theorem exclusive_of_permissions {cfg : Config} {m m' : Machine}
    (h : m'.permissions = m.permissions) : m'.exclusive cfg = m.exclusive cfg := by
  simp only [Machine.exclusive, Machine.hasRole, h]

/-- The job has an actor that executes it on the machine, or is about to. -/
def Sim.Claims (s : Sim) (id : Nat) (p : JobPtr) : Prop :=
  ∃ x ∈ s.pool.threads, ∃ a, x.actor? = some a ∧ x ≠ .notified a ∧ a.allocation.job = p ∧
    id ∈ a.allocation.machineIds

/-- No two jobs claim a machine that is not shared. -/
def Exclusive (cfg : Config) (s : Sim) : Prop :=
  ∀ id m, s.machines.machines[id]? = some m → m.exclusive cfg = true →
    ∀ p q, s.Claims id p → s.Claims id q → p = q

section exclusive

variable {cfg : Config} {guard : Sim → Choice → Prop} {s s' : Sim} {p q : JobPtr} {id : Nat}

/-- An allocation is accepted when its machines exist, and those not shared compute nothing. -/
theorem checkAllocation_machine {ms : Machines} {ids : IntervalSet}
    (h : checkAllocation cfg ms p ids = .ok ()) (hid : id ∈ ids) :
    ∃ m, ms.machines[id]? = some m ∧ (m.exclusive cfg = true → ms.users id = []) := by
  simp only [checkAllocation, bind_eq_ok] at h
  obtain ⟨_, hsharing, -⟩ := h
  obtain ⟨_, _, hshare⟩ := exists_step_of_forEach hsharing id hid
  simp only [checkSharing, bind_eq_ok, Machines.at?_eq_ok, xbtAssert_eq_ok] at hshare
  obtain ⟨m, hm, _, hcompute, hstorage⟩ := hshare
  refine ⟨m, hm, fun hexclusive => ?_⟩
  rw [users_of_machine hm]
  simp only [Machine.exclusive, Bool.or_eq_true, Bool.and_eq_true, Bool.not_eq_true']
    at hexclusive
  exact hexclusive.elim hcompute hstorage

theorem Sim.Claims.of_threads (h : s'.Claims id p)
    (hthreads : ∀ x ∈ s'.pool.threads, x ∈ s.pool.threads ∨ x.actor? = none) : s.Claims id p := by
  obtain ⟨x, hx, a, ha, hne, hjob, hid⟩ := h
  obtain hold | hnone := hthreads x hx
  · exact ⟨x, hold, a, ha, hne, hjob, hid⟩
  · rw [hnone] at ha
    cases ha

/-- An actor goes on with the machines that it has. -/
theorem Sim.Claims.of_moves {t : Thread} {pool : Pool IPMessage Thread} (h : s'.Claims id p)
    (hnext : s.pool.next? = some (.resume t, pool)) (hmoves : t.Moves pool s'.pool) :
    s.Claims id p := by
  have hperm := (Pool.next?_resume hnext).1
  have ht : t ∈ s.pool.threads := hperm.mem_iff.mpr (List.mem_cons_self ..)
  have hrest : ∀ x ∈ pool.threads, x ∈ s.pool.threads := fun x hx =>
    hperm.mem_iff.mpr (List.mem_cons_of_mem _ hx)
  obtain ⟨x, hx, a, ha, hne, hjob, hid⟩ := h
  obtain hold | ⟨m, hputs⟩ | hwaits | ⟨b, rfl, hold⟩ := hmoves.mem_threads hx
  · exact ⟨x, hrest x hold, a, ha, hne, hjob, hid⟩
  · cases hputs with
    | firstReply _ _ _ _ hsender _ | reply _ _ _ _ hsender _ =>
      obtain ⟨_, rfl⟩ := hsender _ rfl
      cases ha
    | completed _ b hb _ => exact absurd (congrArg Thread.notified (Option.some.inj ha)) hne
    | fromJob _ b _ hb hnot =>
      obtain rfl : b = a := Option.some.inj ha
      exact ⟨t, ht, b, hb, hnot, hjob, hid⟩
    | _ => cases ha
  · cases hwaits with
    | leaf _ b _ hb hnot =>
      obtain rfl : b = a := Option.some.inj ha
      exact ⟨t, ht, b, hb, hnot, hjob, hid⟩
    | _ => cases ha
  · obtain rfl : b = a := Option.some.inj ha
    exact ⟨_, hrest _ hold, b, rfl, by simp, hjob, hid⟩

/-- When the server runs, a job that claims a machine is on it. -/
theorem Sim.Claims.mem_users {m : IPMessage} {pool : Pool IPMessage Thread}
    (h : s.Claims id p) (hr : Reaches (batsim cfg) guard s) (hp : p ∉ s.history.resubmitted)
    (hnext : s.pool.next? = some (.deliver m, pool)) : p ∈ s.machines.users id := by
  obtain ⟨x, hx, a, ha, hne, rfl, hid⟩ := h
  have hserver := (reaches_placed hr).atServer_deliver hnext
  have hfresh : x.startsFresh = false := by
    rw [← (Pool.next?_deliver hnext).1] at hx
    cases hstarts : x.startsFresh with
    | false => rfl
    | true => exact absurd hx (hserver.threads x hstarts)
  obtain ⟨l, hl⟩ := exists_life hr hp
  cases x with
  | executing b leaf =>
    obtain rfl : b = a := Option.some.inj ha
    have hin : Trace.thread (.executing b leaf) ∈ traceOf b.allocation.job s.pool := by
      rw [traceOf, Pool.labels, Multiset.mem_add, Multiset.mem_coe]
      exact .inl (List.mem_filterMap.mpr ⟨_, hx, if_pos rfl⟩)
    rw [show traceOf b.allocation.job s.pool = l.trace b.allocation.job from hl.trace] at hin
    obtain ⟨leaf', rfl⟩ : ∃ leaf', l = .executing b leaf' := by
      cases l <;> simp_all [Life.trace]
    have huses : (s.machines.users id).count b.allocation.job = 1 := by
      refine (hl.uses id).trans ?_
      simp [Life.uses, Life.machines?, hid]
    exact List.count_pos_iff.mp (by omega)
  | notified b => exact absurd (congrArg Thread.notified (Option.some.inj ha)) hne
  | executeJob _ | cancelled _ => cases hfresh
  | _ => cases ha

/-- Only an accepted request to execute a job gives machines to a job. -/
theorem Sim.Claims.of_turn {m : IPMessage} {pool : Pool IPMessage Thread} (h : s'.Claims id p)
    (hnext : s.pool.next? = some (.deliver m, pool))
    (hturn : turn cfg { s with pool := pool } m = .ok s') :
    s.Claims id p ∨ ∃ a, m = .schedExecuteJob a ∧ p = a.job ∧ id ∈ a.machineIds ∧
      ∀ n, s.machines.machines[id]? = some n → n.exclusive cfg = true →
        s.machines.users id = [] := by
  obtain ⟨ts, bs, hpool, hts, hbs⟩ := turn_pool hturn
  obtain ⟨x, hx, a, ha, hne, rfl, hid⟩ := h
  obtain hold | hnew | hback := (mem_threads_of_pool hpool).mp hx
  · exact .inl ⟨x, (Pool.next?_deliver hnext).1 ▸ hold, a, ha, hne, rfl, hid⟩
  · obtain hlaunched | ⟨message, rfl⟩ := hts x hnew
    · cases x with
      | executeJob c =>
        obtain rfl : c = a := Option.some.inj ha
        cases m with
        | schedExecuteJob b =>
          obtain rfl : c.allocation = b := of_decide_eq_true hlaunched
          refine .inr ⟨c.allocation, rfl, rfl, hid, fun n hn hexclusive => ?_⟩
          obtain ⟨t, ht, -⟩ := turn_cases hturn
          obtain ⟨-, -, hcheck, -⟩ := serverOnExecuteJob_effect ht
          obtain ⟨n', hn', hfree⟩ := checkAllocation_machine hcheck hid
          obtain rfl : n' = n := Option.some.inj (hn'.symm.trans hn)
          exact hfree hexclusive
        | _ => cases hlaunched
      | executing _ _ | cancelled _ | notified _ => cases m <;> cases hlaunched
      | _ => cases ha
    · cases ha
  · obtain rfl | ⟨job, mailbox, rfl⟩ := hbs
    · cases hback
    · obtain rfl := List.mem_singleton.mp hback
      cases ha

/-- In every state of every run in which no job is submitted twice. -/
theorem reaches_exclusive (h : Reaches (batsim cfg) guard s)
    (hnone : s.history.resubmitted = []) : Exclusive cfg s := by
  revert hnone
  refine h.invariant (P := fun s => s.history.resubmitted = [] → Exclusive cfg s) (fun _ => ?_) ?_
  · rintro id m - - p q ⟨x, hx, a, ha, -⟩ -
    simp only [batsim, start, Pool.threads, List.filterMap_nil, List.nil_append, List.append_nil,
      initialThreads, List.mem_append, List.mem_map, List.mem_singleton] at hx
    obtain ((⟨d, -, rfl⟩ | ⟨d, -, rfl⟩) | ⟨d, -, rfl⟩) | rfl := hx <;> cases ha
  intro s s' c hr ih _ hstep hlate id m' hm' hexclusive p q hclaims hclaims'
  have hnone := resubmitted_nil hr hstep hlate
  obtain ⟨m, hm, hpermissions⟩ := old_of_evolve (step_machines hr hstep) hm'
  rw [exclusive_of_permissions hpermissions] at hexclusive
  have hone := ih hnone id m hm hexclusive
  cases step_kind hstep with
  | solve clock receive wakes rest order pool hcan hsolve hs' =>
    subst hs'
    have hsame : ∀ x ∈ pool.threads, x ∈ s.pool.threads ∨ x.actor? = none := fun x hx =>
      .inl ((Pool.threads_solve hsolve).mem_iff.mp hx)
    exact hone p q (hclaims.of_threads hsame) (hclaims'.of_threads hsame)
  | turn o message pool hnext hturn =>
    obtain hold | ⟨a, hexecute, rfl, hid, hfree⟩ := hclaims.of_turn hnext hturn
    · obtain hold' | ⟨b, -, rfl, -, hfree⟩ := hclaims'.of_turn hnext hturn
      · exact hone p q hold hold'
      · have huser := hold.mem_users hr (by simp [hnone]) hnext
        rw [hfree m hm hexclusive] at huser
        cases huser
    · obtain hold' | ⟨b, hexecute', rfl, -⟩ := hclaims'.of_turn hnext hturn
      · have huser := hold'.mem_users hr (by simp [hnone]) hnext
        rw [hfree m hm hexclusive] at huser
        cases huser
      · rw [IPMessage.schedExecuteJob.inj (hexecute.symm.trans hexecute')]
  | callback o r mailbox pool hnext hrun =>
    obtain ⟨ts, hpool, hts⟩ := callback_pool hrun
    have hsame : ∀ x ∈ s'.pool.threads, x ∈ s.pool.threads ∨ x.actor? = none := by
      intro x hx
      obtain hold | hnew | hback := (mem_threads_of_pool hpool).mp hx
      · exact .inl ((Pool.next?_resume hnext).1.mem_iff.mpr (List.mem_cons_of_mem _ hold))
      · obtain ⟨message, rfl⟩ := hts x hnew
        exact .inr rfl
      · cases hback
    exact hone p q (hclaims.of_threads hsame) (hclaims'.of_threads hsame)
  | start o pool hnext hrun =>
    have hsame : ∀ x ∈ s'.pool.threads, x ∈ s.pool.threads ∨ x.actor? = none := by
      intro x hx
      rw [serverProcess_effect hrun] at hx
      obtain rfl | hold := (Pool.mem_threads_spawn _ _).mp hx
      · exact .inr rfl
      · exact .inl ((Pool.next?_resume hnext).1.mem_iff.mpr (List.mem_cons_of_mem _ hold))
    exact hone p q (hclaims.of_threads hsame) (hclaims'.of_threads hsame)
  | actor o t pool ht hnext hrun =>
    have howned := reaches_owned hr
    have hmoves := (runThread_moves (s := { s with pool := pool }) howned ht hrun).1
    exact hone p q (hclaims.of_moves hnext hmoves) (hclaims'.of_moves hnext hmoves)

/-- A machine that is not shared computes at most one job, in every state of every run in which no
job is submitted twice. -/
theorem exclusive_use (h : Reaches (batsim cfg) guard s) (hnone : s.history.resubmitted = [])
    {m : Machine} (hm : s.machines.machines[id]? = some m) (hexclusive : m.exclusive cfg = true) :
    m.jobsBeingComputed.length ≤ 1 := by
  have hright := machines_right h hnone
  have hclaims : ∀ p ∈ s.machines.users id, s.Claims id p := by
    intro p hp
    obtain ⟨l, hl⟩ := reaches_alive h hnone p
    have huses : (s.machines.users id).count p = l.uses id := hl.uses id
    have hpos := List.count_pos_iff.mpr hp
    have hthread : ∀ x a, x ∈ s.pool.threads → x.actor? = some a → x ≠ .notified a →
        a.allocation.job = p → l.machines? = some a.allocation.machineIds → s.Claims id p := by
      intro x a hx ha hne hjob hids
      refine ⟨x, hx, a, ha, hne, hjob, ?_⟩
      rw [huses, Life.uses, hids] at hpos
      by_contra hid
      simp [hid] at hpos
    have htrace : traceOf p s.pool = l.trace p := hl.trace
    cases l with
    | executing a leaf =>
      have hin : Trace.thread (.executing a leaf) ∈ traceOf p s.pool := by simp [htrace, Life.trace]
      obtain ⟨hx, hserver | ⟨b, hb, hjob⟩⟩ := traceOf_thread hin
      · cases hserver
      · cases hb
        exact hthread _ a hx rfl (by simp) hjob rfl
    | cancelled a =>
      have hin : Trace.thread (.cancelled a) ∈ traceOf p s.pool := by simp [htrace, Life.trace]
      obtain ⟨hx, hserver | ⟨b, hb, hjob⟩⟩ := traceOf_thread hin
      · cases hserver
      · cases hb
        exact hthread _ a hx rfl (by simp) hjob rfl
    | _ => simp [huses, Life.uses, Life.machines?] at hpos
  rw [← users_of_machine hm]
  have hone := reaches_exclusive h hnone id m hm hexclusive
  have hnodup := hright.users id
  cases hjobs : s.machines.users id with
  | nil => simp
  | cons p rest =>
    cases rest with
    | nil => simp
    | cons q rest =>
      rw [hjobs] at hclaims hnodup
      have heq := hone p q (hclaims p (by simp)) (hclaims q (by simp))
      simp [heq] at hnodup

end exclusive

/-- A job that the scheduler registers is executed on a machine that is not shared. -/
theorem exists_lone_computation : ∃ s m, Reaches (batsim loneHost) anyStep s ∧
    s.history.resubmitted = [] ∧ s.machines.machines[0]? = some m ∧
      m.jobsBeingComputed = [ptr loneJob] ∧ m.exclusive loneHost = true := by
  let reply : Reply :=
    { now := 0
      events := [⟨0, .registerJob loneJob loneJobDescription⟩,
        ⟨0, .executeJob loneJob loneMachine none⟩] }
  obtain ⟨s, hreaches, hnone, hjobs⟩ := exists_reaches_of_run (batsim loneHost) anyStep
    (fun s => s.history.resubmitted = [] ∧ s.machines.machines.map (fun m =>
      (m.permissions, m.jobsBeingComputed)) = [(7, [ptr loneJob])])
    [.next, .next, .next (.reply reply), .receive, .next, .next, .receive, .next, .next,
      .receive, .next, .next, .next (.task (.leaf .other))] (by decide +kernel)
  obtain ⟨m, hm, hfields⟩ := List.map_eq_singleton_iff.mp hjobs
  refine ⟨s, m, hreaches, hnone, by simp [hm], (Prod.mk.inj hfields).2, ?_⟩
  simp only [Machine.exclusive, Machine.hasRole, (Prod.mk.inj hfields).1]
  decide

theorem lone_job_computed : ∃ s m, s.machines.machines[0]? = some m ∧
    m.jobsBeingComputed = [ptr loneJob] ∧ MachinesRight s := by
  obtain ⟨s, m, hreaches, hnone, hm, hjobs, -⟩ := exists_lone_computation
  exact ⟨s, m, hm, hjobs, machines_right hreaches hnone⟩

theorem lone_job_alone : ∃ m : Machine, m.jobsBeingComputed = [ptr loneJob] ∧
    m.jobsBeingComputed.length ≤ 1 := by
  obtain ⟨s, m, hreaches, hnone, hm, hjobs, hexclusive⟩ := exists_lone_computation
  exact ⟨m, hjobs, exclusive_use hreaches hnone hm hexclusive⟩

end Batsim
