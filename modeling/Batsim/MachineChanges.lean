import Batsim.MachineSteps

/-!
What a step of the simulation changes in the machines, whoever makes it.
-/

namespace Batsim

open Checked Sim StepSystem

/-- What a machine may become: its pstates keep their types, and its host stays in its pstate or
gets one that it has. -/
structure Machine.Evolves (m m' : Machine) : Prop where
  permissions : m'.permissions = m.permissions
  hostNbPstates : m'.hostNbPstates = m.hostNbPstates
  sleepPstates : m'.sleepPstates = m.sleepPstates
  pstates : ∀ ps type, m.pstates.lookup ps = some type → m'.pstates.lookup ps = some type
  hostPstate : m'.hostPstate = m.hostPstate ∨ m'.hostPstate < m.hostNbPstates

namespace Machine.Evolves

variable {m m' m'' : Machine}

theorem refl (m : Machine) : m.Evolves m := ⟨rfl, rfl, rfl, fun _ _ h => h, .inl rfl⟩

theorem trans (h : m.Evolves m') (h' : m'.Evolves m'') : m.Evolves m'' where
  permissions := h'.permissions.trans h.permissions
  hostNbPstates := h'.hostNbPstates.trans h.hostNbPstates
  sleepPstates := h'.sleepPstates.trans h.sleepPstates
  pstates ps type hps := h'.pstates ps type (h.pstates ps type hps)
  hostPstate := by
    have hnb := h.hostNbPstates
    rcases h'.hostPstate with heq | hlt
    · rcases h.hostPstate with heq' | hlt'
      · exact .inl (heq.trans heq')
      · exact .inr (heq ▸ hlt')
    · exact .inr (hnb ▸ hlt)

theorem enter (m : Machine) (newState : MachineState) (now : Date) :
    m.Evolves (m.enter newState now) := ⟨rfl, rfl, rfl, fun _ _ h => h, .inl rfl⟩

theorem touchPstate (m : Machine) (pstate : Int) : m.Evolves (m.touchPstate pstate) where
  permissions := by simp
  hostNbPstates := by simp
  sleepPstates := by simp
  pstates ps type hps := by rw [lookup_touchPstate, hps]; rfl
  hostPstate := .inl (by simp)

theorem setPstate {pstate : Int} (h : m.setPstate pstate = .ok m') : m.Evolves m' := by
  obtain ⟨⟨hpos, hlt⟩, rfl⟩ := Machine.setPstate_eq_ok.mp h
  exact ⟨rfl, rfl, rfl, fun _ _ h => h, .inr (by simp only; omega)⟩

end Machine.Evolves

/-- What the simulation does to a machine at a date, step by step. -/
inductive Machine.Changes (now : Date) (m : Machine) : Machine → Prop where
  | refl : Changes now m m
  | enter {m' : Machine} (newState : MachineState) :
      Changes now m m' → Changes now m (m'.enter newState now)
  | touchPstate {m' : Machine} (pstate : Int) :
      Changes now m m' → Changes now m (m'.touchPstate pstate)
  | setPstate {m' m'' : Machine} {pstate : Int} :
      Changes now m m' → m'.setPstate pstate = .ok m'' → Changes now m m''
  | compute {m' : Machine} (jobs : List JobPtr) :
      Changes now m m' → Changes now m { m' with jobsBeingComputed := jobs }

namespace Machine.Changes

variable {now : Date} {m m' m'' : Machine}

theorem trans (h : m.Changes now m') (h' : m'.Changes now m'') : m.Changes now m'' := by
  induction h' with
  | refl => exact h
  | enter newState _ ih => exact .enter newState ih
  | touchPstate pstate _ ih => exact .touchPstate pstate ih
  | setPstate _ hset ih => exact .setPstate ih hset
  | compute jobs _ ih => exact .compute jobs ih

theorem evolves (h : m.Changes now m') : m.Evolves m' := by
  induction h with
  | refl => exact .refl m
  | @enter t newState _ ih => exact ih.trans (.enter t newState now)
  | @touchPstate t pstate _ ih => exact ih.trans (.touchPstate t pstate)
  | setPstate _ hset ih => exact ih.trans (.setPstate hset)
  | compute jobs _ ih => exact ih.trans ⟨rfl, rfl, rfl, fun _ _ h => h, .inl rfl⟩

theorem onJobRun (job : JobPtr) (now : Date) (m : Machine) :
    m.Changes now (m.onJobRun job now) :=
  .compute _ (.enter .computing .refl)

theorem onJobEnd (job : JobPtr) (now : Date) (m : Machine) :
    m.Changes now (m.onJobEnd job now) := by
  unfold Machine.onJobEnd
  simp only
  split
  · exact .enter .idle (.compute _ .refl)
  · exact .compute _ .refl

end Machine.Changes

/-- Each machine becomes what it may become. -/
def Machines.Evolve (ms ms' : Machines) : Prop :=
  ∀ id : Nat, Option.Rel Machine.Evolves ms.machines[id]? ms'.machines[id]?

/-- Each machine is changed on its own. -/
def Machines.Change (now : Date) (ms ms' : Machines) : Prop :=
  ∀ id : Nat, Option.Rel (Machine.Changes now) ms.machines[id]? ms'.machines[id]?

namespace Machines.Change

variable {now : Date} {ms ms' ms'' : Machines}

theorem refl (ms : Machines) : ms.Change now ms := by
  intro id
  cases ms.machines[id]? with
  | none => exact .none
  | some m => exact .some .refl

theorem of_eq (h : ms' = ms) : ms.Change now ms' := by
  rw [h]
  exact .refl ms

theorem evolve (h : ms.Change now ms') : ms.Evolve ms' := by
  intro id
  have hid := h id
  generalize ms.machines[id]? = o at hid ⊢
  generalize ms'.machines[id]? = o' at hid ⊢
  cases hid with
  | none => exact .none
  | some hchanges => exact .some hchanges.evolves

theorem trans (h : ms.Change now ms') (h' : ms'.Change now ms'') : ms.Change now ms'' := by
  intro id
  have hid := h id
  have hid' := h' id
  cases hm : ms.machines[id]? with
  | none =>
    rw [hm] at hid
    generalize ms'.machines[id]? = o at hid hid'
    cases hid
    exact hid'
  | some m =>
    rw [hm] at hid
    generalize ms'.machines[id]? = o at hid hid'
    cases hid with
    | some hchanges =>
      generalize ms''.machines[id]? = o' at hid'
      cases hid' with
      | some hchanges' => exact .some (hchanges.trans hchanges')

/-- One machine is replaced. -/
theorem of_one {id : Nat} {m m' : Machine} (hm : ms.machines[id]? = some m) (h : m.Changes now m')
    (hput : ∀ j, ms'.machines[j]? = if j = id then some m' else ms.machines[j]?) :
    ms.Change now ms' := by
  intro j
  rw [hput]
  split
  · next hj =>
    rw [hj, hm]
    exact .some h
  · exact refl ms j

theorem put {id : Nat} {m m' : Machine} (hm : ms.machines[id]? = some m) (h : m.Changes now m') :
    ms.Change now (ms.put id m') := of_one hm h fun _ => getElem?_put hm

/-- Some machines are replaced, each on its own. -/
theorem of_map {used : IntervalSet} {f : Machine → Machine}
    (hf : ∀ m : Machine, m.Changes now (f m))
    (hmap : ∀ j, ms'.machines[j]? =
      if j ∈ used then (ms.machines[j]?).map f else ms.machines[j]?) : ms.Change now ms' := by
  intro j
  rw [hmap]
  split
  · cases ms.machines[j]? with
    | none => exact .none
    | some m => exact .some (hf m)
  · exact refl ms j

theorem updateMachineState {id : Nat} {newState : MachineState} 
    (h : ms.updateMachineState id newState now = .ok ms') : ms.Change now ms' := by
  obtain ⟨m, hm, -, hput⟩ := updateMachineState_cases h
  exact of_one hm (.enter newState .refl) hput

theorem updateMachinesOnJobRun {job : JobPtr} {used : IntervalSet} 
    (h : ms.updateMachinesOnJobRun job used now = .ok ms') : ms.Change now ms' :=
  of_map (Machine.Changes.onJobRun job now) (updateMachinesOnJobRun_machine h)

theorem updateMachinesOnJobEnd {job : JobPtr} {used : IntervalSet} 
    (h : ms.updateMachinesOnJobEnd job used now = .ok ms') : ms.Change now ms' :=
  of_map (Machine.Changes.onJobEnd job now) (updateMachinesOnJobEnd_machine h)

/-- A loop on the simulation, whose turns do not change the date. -/
theorem forEach {α : Type} {f : Sim → α → Except String Sim} {xs : List α} {s s' : Sim}
    (hstep : ∀ a t t', f t a = .ok t' → t'.clock = t.clock ∧ t.machines.Change t.clock t'.machines)
    (h : Checked.forEach f s xs = .ok s') :
    s'.clock = s.clock ∧ s.machines.Change s.clock s'.machines := by
  refine forEach_preserves
    (P := fun t : Sim => t.clock = s.clock ∧ s.machines.Change s.clock t.machines)
    ⟨rfl, .refl _⟩ ?_ h
  rintro a - t t' ⟨hclock, hchange⟩ hrun
  obtain ⟨hclock', hchange'⟩ := hstep a t t' hrun
  rw [hclock] at hclock' hchange'
  exact ⟨hclock', hchange.trans hchange'⟩

end Machines.Change

/-! ### The server -/

variable {cfg : Config} {s s' : Sim}

theorem lookUp_changes (now : Date) (m : Machine) (newPstate : Int) :
    m.Changes now (m.lookUp newPstate) :=
  .touchPstate newPstate (.touchPstate _ .refl)

theorem switchMachine_machines {newPstate : Int} {id : Nat}
    (h : switchMachine newPstate s id = .ok s') :
    s'.clock = s.clock ∧ s.machines.Change s.clock s'.machines := by
  obtain ⟨m, hm, hor⟩ := switchMachine_effect h
  have hlooked : s.machines.Change s.clock (s.machines.put id (m.lookUp newPstate)) :=
    .put hm (lookUp_changes s.clock m newPstate)
  have hlook : ∀ {state : MachineState} {machines : Machines},
      (s.machines.put id (m.lookUp newPstate)).updateMachineState id state s.clock = .ok machines →
        s.machines.Change s.clock machines := fun hupdate =>
    hlooked.trans (.updateMachineState hupdate)
  obtain ⟨-, -, m', switches, done, hset, -, rfl⟩ | ⟨-, -, machines, hmachines, rfl⟩ |
    ⟨-, -, machines, hmachines, rfl⟩ | ⟨-, rfl⟩ := hor
  · have hput : s.machines.Change s.clock (s.machines.put id m') :=
      .put hm (.setPstate (lookUp_changes s.clock m newPstate) hset)
    cases done with
    | none => exact ⟨rfl, hput⟩
    | some all => exact ⟨rfl, hput⟩
  · exact ⟨rfl, hlook hmachines⟩
  · exact ⟨rfl, hlook hmachines⟩
  · exact ⟨rfl, hlooked⟩

theorem serverOnPstateModification_machines {ids : IntervalSet} {newPstate : Int}
    (h : serverOnPstateModification cfg s ids newPstate = .ok s') :
    s.machines.Change s.clock s'.machines := by
  obtain ⟨-, first, m, hm, hrun⟩ := serverOnPstateModification_effect h
  have hfirst : s.machines.Change s.clock (s.machines.put first (m.touchPstate newPstate)) :=
    .put hm (.touchPstate newPstate .refl)
  obtain ⟨-, hloop⟩ :=
    Machines.Change.forEach (fun _ _ _ hstep => switchMachine_machines hstep) hrun
  exact hfirst.trans hloop

theorem occur_machines {e : ExternalEvent} (h : occur s e = .ok s') :
    s'.clock = s.clock ∧ s.machines.Change s.clock s'.machines := by
  obtain ⟨t, ht, hs'⟩ := occur_effect h
  have hmake : t.clock = s.clock ∧ s.machines.Change s.clock t.machines := by
    obtain rfl | ⟨ids, -, hrun⟩ | ⟨ids, -, hrun⟩ := ht
    · exact ⟨rfl, .refl _⟩
    · refine Machines.Change.forEach (fun id t t' hstep => ?_) hrun
      obtain ⟨_, machines, -, -, hmachines, rfl⟩ := makeAvailable_effect hstep
      exact ⟨rfl, .updateMachineState hmachines⟩
    · refine Machines.Change.forEach (fun id t t' hstep => ?_) hrun
      obtain ⟨_, machines, -, -, hmachines, rfl⟩ := makeUnavailable_effect hstep
      exact ⟨rfl, .updateMachineState hmachines⟩
  obtain rfl | ⟨event, -, rfl⟩ := hs'
  · exact hmake
  · exact hmake

theorem handleMessage_machines {m : IPMessage} (h : handleMessage cfg s m = .ok s') :
    s.machines.Change s.clock s'.machines := by
  cases hm : m.touchesMachines with
  | false =>
    obtain ⟨ts, hhandled⟩ := handleMessage_effect h
    exact .of_eq (hhandled.machines hm).machines
  | true =>
    cases m with
    | pstateModification ids pstate => exact serverOnPstateModification_machines h
    | eventOccurred name events =>
      exact (Machines.Change.forEach (fun _ _ _ hstep => occur_machines hstep) h).2
    | _ => cases hm

theorem endOfTurn_machines (h : endOfTurn cfg s = .ok s') : s'.machines = s.machines := by
  obtain rfl | ⟨workloads, hflushes⟩ | hfinishes := endOfTurn_cases h
  · rfl
  · rw [hflushes.eq]
    rfl
  · rw [hfinishes.eq]
    rfl

/-! ### The actors -/

theorem Machines.endJobs_change {now : Date} {ms ms' : Machines}
    {ends : List (JobPtr × IntervalSet)} (h : ms.endJobs now ends = .ok ms') :
    ms.Change now ms' :=
  forEach_preserves (P := fun t : Machines => ms.Change now t) (.refl ms)
    (fun _ _ _ _ ht hstep => ht.trans (.updateMachinesOnJobEnd hstep)) h

theorem runThread_machines {o : Outcome} {t : Thread} (howned : s.workloads.Owned)
    (ht : t.isServer = false) (h : runThread cfg s o t = .ok s') :
    s.machines.Change s.clock s'.machines := by
  have hmakes := runThread_makesMachines howned ht h
  generalize s'.machines = ms' at hmakes ⊢
  cases hmakes with
  | ends hends => exact Machines.endJobs_change hends
  | starts hstarts hends =>
    have hrun := Machines.Change.updateMachinesOnJobRun hstarts
    exact hrun.trans (Machines.endJobs_change hends)
  | switchOn hm _ _ hset | switchOff hm _ _ hset => exact .put hm (.setPstate .refl hset)
  | switchedOn hm hset hstate | switchedOff hm hset hstate =>
    exact Machines.Change.trans (.put hm (.setPstate .refl hset)) (.updateMachineState hstate)

/-! ### All steps -/

theorem run_machines {guard : Sim → Choice → Prop} {o : Outcome}
    (hr : Reaches (batsim cfg) guard s) (hstep : (batsim cfg).step s (.run o) = .ok s') :
    s.machines.Change s.clock s'.machines := by
  have hturn : ∀ {u t : Sim} {m : IPMessage}, endOfTurn cfg (u.noteHandled m) = .ok t →
      t.machines = u.machines := by
    intro u t m hend
    have hsame := endOfTurn_machines hend
    exact hsame
  cases step_kind hstep with
  | turn o m pool hnext hrun =>
    obtain ⟨t, ht, ⟨-, rfl⟩ | ⟨-, hend⟩⟩ := turn_cases hrun
    · exact handleMessage_machines (s := { s with pool := pool }) ht
    · rw [hturn hend]
      exact handleMessage_machines (s := { s with pool := pool }) ht
  | callback o p mailbox pool hnext hrun =>
    obtain ⟨t, ht, hend⟩ := serverCallback_cases hrun
    rw [hturn hend]
    exact .of_eq (serverOnCallbackReceived_frame ht).2.1.machines
  | start o pool hnext hrun =>
    rw [serverProcess_effect hrun]
    exact .refl _
  | actor o t pool ht hnext hrun =>
    have howned : s.workloads.Owned := reaches_owned hr
    exact runThread_machines (s := { s with pool := pool }) howned ht hrun

/-- Either time passes, or the machines change. -/
theorem step_changes {guard : Sim → Choice → Prop} {c : Choice}
    (hr : Reaches (batsim cfg) guard s) (hstep : (batsim cfg).step s c = .ok s') :
    s'.machines = s.machines ∨ s'.clock = s.clock ∧ s.machines.Change s.clock s'.machines := by
  cases c with
  | solve clock receive wakes rest order =>
    have hsolve : step cfg s (.solve clock receive wakes rest order) = .ok s' := hstep
    obtain ⟨-, pool, -, hs'⟩ := step_solve hsolve
    rw [hs']
    exact .inl rfl
  | run o => exact .inr ⟨(run_clock hr hstep).1, run_machines hr hstep⟩

theorem step_machines {guard : Sim → Choice → Prop} {c : Choice}
    (hr : Reaches (batsim cfg) guard s) (hstep : (batsim cfg).step s c = .ok s') :
    s.machines.Evolve s'.machines := by
  obtain hsame | ⟨-, hchange⟩ := step_changes hr hstep
  · have hchange : s.machines.Change s.clock s'.machines := .of_eq hsame
    exact hchange.evolve
  · exact hchange.evolve

end Batsim
