import Batsim.Lib.Stops
import Batsim.MachineChanges
import Batsim.Platform
import Batsim.SleepPstates

/-!
Requests of pstates, where the state in which a refused request stops is kept.
-/

namespace Batsim

open Checked Sim StepSystem Stops

/-! ### The handler -/

/-- One turn of the loop of `server_on_pstate_modification`. -/
def requestSwitch (newPstate : Int) (id : Nat) : EStateM String Sim Unit := do
  let s ← get
  let m ← ofExcept (s.machines.at? id)
  let currPstate : Int := m.hostPstate
  let m := (m.touchPstate currPstate).touchPstate newPstate
  modify fun s => { s with machines := s.machines.put id m }
  match m.pstateType currPstate, m.pstateType newPstate with
  | .computationPstate, .computationPstate => do
    let m ← ofExcept (m.setPstate newPstate)
    modify fun s => { s with machines := s.machines.put id m }
    let s ← get
    let (switches, done) ← ofExcept (s.currentSwitches.markSwitchAsDone id newPstate)
    modify fun s => { s with currentSwitches := switches }
    match done with
    | some all => do
      let s ← get
      let s ← ofExcept (s.append (.resourceStateChanged all (toString newPstate)))
      modify fun _ => s
    | none => pure ()
  | .computationPstate, .sleepPstate => do
    let s ← get
    let machines ← ofExcept
      (s.machines.updateMachineState id .transitingFromComputingToSleeping s.clock)
    modify fun s => { s with
      machines := machines
      pool := s.pool.spawn (.switchOff id newPstate)
      data := { s.data with nbSwitchingMachines := s.data.nbSwitchingMachines + 1 } }
  -- only reported with `XBT_ERROR`
  | .computationPstate, .transitionVirtualPstate => pure ()
  | .sleepPstate, target => do
    check (target = .computationPstate)
      ("Switching from a sleep pstate to a non-computation pstate on machine " ++ toString id ++
        ", which is forbidden")
    let s ← get
    let machines ← ofExcept
      (s.machines.updateMachineState id .transitingFromSleepingToComputing s.clock)
    modify fun s => { s with
      machines := machines
      pool := s.pool.spawn (.switchOn id newPstate)
      data := { s.data with nbSwitchingMachines := s.data.nbSwitchingMachines + 1 } }
  -- only reported with `XBT_ERROR`
  | .transitionVirtualPstate, _ => pure ()

/-- `server_on_pstate_modification` -/
def requestPstate (cfg : Config) (ids : IntervalSet) (newPstate : Int) : EStateM String Sim Unit := do
  check (cfg.energyUsed = true)
    ("Receiving a pstate modification request, which is forbidden as Batsim has not been" ++
      " launched with energy support (cf. batsim --help).")
  modify fun s => { s with currentSwitches := s.currentSwitches.addSwitch ids newPstate }
  match ids.elements with
  | [] => throw "no first element"
  | first :: _ => do
    let s ← get
    let m ← ofExcept (s.machines.at? first)
    -- the type of the first machine's pstate is read for the tracer
    modify fun s => { s with machines := s.machines.put first (m.touchPstate newPstate) }
    modify fun s => { s with
      nbGroupedSwitches := s.nbGroupedSwitches + 1
      nbMachineSwitches := s.nbMachineSwitches + ids.size }
    loop (requestSwitch newPstate) ids.elements

theorem outcome_requestSwitch (newPstate : Int) (id : Nat) (s : Sim) :
    outcome (requestSwitch newPstate id s) = switchMachine newPstate s id := by
  simp only [requestSwitch, switchMachine, outcome_bind_get, outcome_bind_ofExcept,
    outcome_bind_modify]
  congr 1
  funext m
  generalize (m.touchPstate m.hostPstate).touchPstate newPstate = m'
  cases m'.pstateType m.hostPstate with
  | computationPstate =>
    cases m'.pstateType newPstate with
    | computationPstate =>
      simp only [outcome_bind_get, outcome_bind_ofExcept, outcome_bind_modify]
      congr 1
      funext m₁
      congr 1
      funext r
      obtain ⟨switches, done⟩ := r
      cases done with
      | none => rfl
      | some all =>
        simp only [outcome_bind_get, outcome_bind_ofExcept, outcome_modify]
        exact bind_pure _
    | sleepPstate =>
      simp only [outcome_bind_get, outcome_bind_ofExcept, outcome_modify]
    | transitionVirtualPstate => rfl
  | sleepPstate =>
    simp only [outcome_bind_get, outcome_bind_ofExcept, outcome_modify, outcome_bind_check]
    rfl
  | transitionVirtualPstate => rfl

/-- Without the states of the stops, the handler is the one of the whole simulation. -/
theorem outcome_requestPstate (cfg : Config) (s : Sim) (ids : IntervalSet) (newPstate : Int) :
    outcome (requestPstate cfg ids newPstate s) = serverOnPstateModification cfg s ids newPstate := by
  simp only [requestPstate, serverOnPstateModification, outcome_bind_check, outcome_bind_modify]
  congr 1
  funext _
  cases hids : ids.elements with
  | nil => rfl
  | cons first rest =>
    simp only [outcome_bind_get, outcome_bind_ofExcept, outcome_bind_modify]
    congr 1
    funext m
    rw [outcome_loop fun id t => outcome_requestSwitch newPstate id t]

/-! ### The state after a request -/

/-- A turn replaces its machine, if there is one, by one whose pstates are looked up and whose host
may be in the new pstate; the grouped switches are not counted again. -/
structure Requested (newPstate : Int) (id : Nat) (m m' : Machine) (s s' : Sim) : Prop where
  pstates : m'.pstates = (m.lookUp newPstate).pstates
  hostPstate : m'.hostPstate = m.hostPstate ∨ 0 ≤ newPstate ∧ m'.hostPstate = newPstate.toNat
  machines : ∀ j, s'.machines.machines[j]? = if j = id then some m' else s.machines.machines[j]?
  nbGroupedSwitches : s'.nbGroupedSwitches = s.nbGroupedSwitches

/-- Only the machine is looked up. -/
theorem requested_lookUp {newPstate : Int} {id : Nat} {m : Machine} {s : Sim}
    (hm : s.machines.machines[id]? = some m) :
    Requested newPstate id m (m.lookUp newPstate) s
      { s with machines := s.machines.put id (m.lookUp newPstate) } where
  pstates := rfl
  hostPstate := .inl (by simp [Machine.lookUp])
  machines _ := Machines.getElem?_put hm
  nbGroupedSwitches := rfl

/-- The machine enters another state. -/
theorem requested_update {newPstate : Int} {id : Nat} {m : Machine} {s : Sim}
    {state : MachineState} {now : Date} {machines : Machines}
    (hm : s.machines.machines[id]? = some m)
    (h : (s.machines.put id (m.lookUp newPstate)).updateMachineState id state now = .ok machines)
    {s' : Sim} (hmachines : s'.machines = machines)
    (hnb : s'.nbGroupedSwitches = s.nbGroupedSwitches) :
    Requested newPstate id m ((m.lookUp newPstate).enter state now) s s' where
  pstates := rfl
  hostPstate := .inl (by simp [Machine.lookUp])
  machines j := by
    obtain ⟨m', hm', -, hput⟩ := Machines.updateMachineState_cases h
    rw [Machines.getElem?_put hm, if_pos rfl, Option.some.injEq] at hm'
    rw [hmachines, hput, ← hm', Machines.getElem?_put hm]
    split
    · rfl
    · rfl
  nbGroupedSwitches := hnb

/-- The host gets the new pstate at once. -/
theorem requested_setPstate {newPstate : Int} {id : Nat} {m m' : Machine} {s : Sim}
    (hm : s.machines.machines[id]? = some m)
    (h : (m.lookUp newPstate).setPstate newPstate = .ok m')
    {s' : Sim} (hmachines : s'.machines = (s.machines.put id (m.lookUp newPstate)).put id m')
    (hnb : s'.nbGroupedSwitches = s.nbGroupedSwitches) :
    Requested newPstate id m m' s s' where
  pstates := by
    obtain ⟨-, rfl⟩ := Machine.setPstate_eq_ok.mp h
    rfl
  hostPstate := by
    obtain ⟨⟨hpos, -⟩, rfl⟩ := Machine.setPstate_eq_ok.mp h
    exact .inr ⟨hpos, rfl⟩
  machines j := by
    have hput : (s.machines.put id (m.lookUp newPstate)).machines[id]? =
        some (m.lookUp newPstate) := by
      rw [Machines.getElem?_put hm, if_pos rfl]
    rw [hmachines, Machines.getElem?_put hput, Machines.getElem?_put hm]
    split
    · rfl
    · rfl
  nbGroupedSwitches := hnb

theorem requestSwitch_after (newPstate : Int) (id : Nat) (s : Sim) :
    (s.machines.machines[id]? = none ∧ stateAfter (requestSwitch newPstate id s) = s) ∨
      ∃ m m', s.machines.machines[id]? = some m ∧
        Requested newPstate id m m' s (stateAfter (requestSwitch newPstate id s)) := by
  simp only [requestSwitch, stateAfter_bind_get, stateAfter_bind_ofExcept, stateAfter_bind_modify]
  cases hat : s.machines.at? id with
  | error e =>
    refine .inl ⟨?_, rfl⟩
    rw [Option.eq_none_iff_forall_ne_some]
    intro m hm
    rw [Machines.at?_eq_ok.mpr hm] at hat
    cases hat
  | ok m =>
    rw [Machines.at?_eq_ok] at hat
    have hlook : Requested newPstate id m (m.lookUp newPstate) s
        { s with machines := s.machines.put id (m.lookUp newPstate) } := requested_lookUp hat
    refine .inr ?_
    have hlookUp : (m.touchPstate m.hostPstate).touchPstate newPstate = m.lookUp newPstate := rfl
    simp only [hlookUp]
    cases (m.lookUp newPstate).pstateType m.hostPstate with
    | computationPstate =>
      cases (m.lookUp newPstate).pstateType newPstate with
      | computationPstate =>
        simp only [stateAfter_bind_get, stateAfter_bind_ofExcept, stateAfter_bind_modify]
        cases hset : (m.lookUp newPstate).setPstate newPstate with
        | error e => exact ⟨m, _, hat, hlook⟩
        | ok m₁ =>
          simp only
          cases s.currentSwitches.markSwitchAsDone id newPstate with
          | error e => exact ⟨m, m₁, hat, requested_setPstate hat hset rfl rfl⟩
          | ok r =>
            obtain ⟨switches, done⟩ := r
            cases done with
            | none => exact ⟨m, m₁, hat, requested_setPstate hat hset rfl rfl⟩
            | some all =>
              simp only [stateAfter_bind_get, stateAfter_bind_ofExcept, stateAfter_modify]
              refine ⟨m, m₁, hat, ?_⟩
              split
              · next s' happend =>
                obtain ⟨-, rfl⟩ := append_eq_ok.mp happend
                exact requested_setPstate hat hset rfl rfl
              · exact requested_setPstate hat hset rfl rfl
      | sleepPstate =>
        simp only [stateAfter_bind_get, stateAfter_bind_ofExcept, stateAfter_modify]
        split
        · next machines hupdate => exact ⟨m, _, hat, requested_update hat hupdate rfl rfl⟩
        · exact ⟨m, _, hat, hlook⟩
      | transitionVirtualPstate => exact ⟨m, _, hat, hlook⟩
    | sleepPstate =>
      simp only [stateAfter_bind_get, stateAfter_bind_ofExcept, stateAfter_modify,
        stateAfter_bind_check]
      split
      · split
        · next machines hupdate => exact ⟨m, _, hat, requested_update hat hupdate rfl rfl⟩
        · exact ⟨m, _, hat, hlook⟩
      · exact ⟨m, _, hat, hlook⟩
    | transitionVirtualPstate => exact ⟨m, _, hat, hlook⟩

/-! ### The machines of a run -/

/-- All the pstates of the host have a type, and the host is in one of them. -/
structure Machine.Declared (m : Machine) : Prop where
  pstates : ∀ ps : Nat, ps < m.hostNbPstates → m.hasPstate (ps : Int) = true
  current : m.hostPstate < m.hostNbPstates

theorem Machine.Evolves.hasPstate {m m' : Machine} (h : m.Evolves m') {ps : Int}
    (hps : m.hasPstate ps = true) : m'.hasPstate ps = true := by
  obtain ⟨type, htype⟩ := Option.isSome_iff_exists.mp hps
  exact Option.isSome_iff_exists.mpr ⟨type, h.pstates ps type htype⟩

theorem Machine.Declared.evolves {m m' : Machine} (h : m.Declared) (he : m.Evolves m') :
    m'.Declared where
  pstates ps hps := he.hasPstate (h.pstates ps (he.hostNbPstates ▸ hps))
  current := by
    rw [he.hostNbPstates]
    rcases he.hostPstate with heq | hlt
    · exact heq ▸ h.current
    · exact hlt

theorem declared_of_create {h : Host} {m : Machine} (hcreate : Machine.create true h = .ok m)
    (hpstate : h.pstate < h.nbPstates) : m.Declared := by
  obtain ⟨htypes, -, hnb, -⟩ := create_effect hcreate
  refine ⟨fun ps hps => ?_, ?_⟩
  · rw [hnb] at hps
    rw [Machine.hasPstate, htypes, if_pos hps]
    cases lastType h.sleepPstates ps <;> rfl
  · rw [hnb, (Machine.new_of_create hcreate).hostPstate]
    exact hpstate

variable {cfg : Config} {guard : Sim → Choice → Prop} {s : Sim}

theorem config_declared (henergy : cfg.energyUsed = true)
    (hhosts : ∀ h ∈ cfg.hosts, h.pstate < h.nbPstates) :
    ∀ m ∈ cfg.machines.machines, m.Declared := by
  have hcreated := cfg.machines_created
  simp only [Machines.createMachines, bind_eq_ok, Except.ok.injEq, henergy] at hcreated
  obtain ⟨machines, hloop, hmachines⟩ := hcreated
  have hall : ∀ m ∈ machines, m.Declared := by
    refine forEach_preserves (P := fun ms : List Machine => ∀ m ∈ ms, m.Declared) (by simp) ?_ hloop
    intro h hmem ms ms' hms hstep
    simp only [bind_eq_ok, Except.ok.injEq] at hstep
    obtain ⟨m, hm, rfl⟩ := hstep
    intro m' hm'
    rcases List.mem_append.mp hm' with hm' | hm'
    · exact hms m' hm'
    · rw [List.mem_singleton.mp hm']
      exact declared_of_create hm (hhosts h hmem)
  rw [← hmachines]
  exact hall

theorem reaches_declared (henergy : cfg.energyUsed = true)
    (hhosts : ∀ h ∈ cfg.hosts, h.pstate < h.nbPstates) (hr : Reaches (batsim cfg) guard s) :
    ∀ (id : Nat) (m : Machine), s.machines.machines[id]? = some m → m.Declared := by
  refine hr.invariant (P := fun s : Sim => ∀ (id : Nat) (m : Machine),
    s.machines.machines[id]? = some m → m.Declared) ?_ ?_
  · intro id m hm
    exact config_declared henergy hhosts m (List.mem_of_getElem? hm)
  · intro s s' c hr hdeclared _ hstep id m hm
    have hevolve := step_machines hr hstep id
    rw [hm] at hevolve
    generalize hold : s.machines.machines[id]? = o at hevolve
    cases hevolve with
    | some he => exact (hdeclared id _ hold).evolves he

/-! ### Invalid requests -/

/-- The machine is between two pstates. -/
def Machine.inTransition (m : Machine) : Prop :=
  m.state = .transitingFromSleepingToComputing ∨ m.state = .transitingFromComputingToSleeping

/-- A machine of the platform that may be put in the pstate: it is not in transition, and the pstate
is declared on it and not a virtual one. -/
def Accepts (s : Sim) (newPstate : Int) (id : Nat) : Prop :=
  ∃ m, s.machines.machines[id]? = some m ∧ m.hasPstate newPstate = true ∧
    m.pstateType newPstate ≠ .transitionVirtualPstate ∧ ¬m.inTransition

/-- No machine changed its state or its pstate, no switch was added, no switch was counted. -/
structure Untouched (s s' : Sim) : Prop where
  machines : ∀ (id : Nat) m, s.machines.machines[id]? = some m →
    ∃ m', s'.machines.machines[id]? = some m' ∧ m'.state = m.state ∧ m'.hostPstate = m.hostPstate
  currentSwitches : s'.currentSwitches = s.currentSwitches
  nbMachineSwitches : s'.nbMachineSwitches = s.nbMachineSwitches
  nbGroupedSwitches : s'.nbGroupedSwitches = s.nbGroupedSwitches
  nbSwitchingMachines : s'.data.nbSwitchingMachines = s.data.nbSwitchingMachines

theorem Untouched.refl (s : Sim) : Untouched s s := ⟨fun _ m hm => ⟨m, hm, rfl, rfl⟩, rfl, rfl, rfl, rfl⟩

/-- The pstates of the machines have the same types. -/
def SamePstates (s s' : Sim) : Prop :=
  ∀ (id : Nat) m, s.machines.machines[id]? = some m →
    ∃ m', s'.machines.machines[id]? = some m' ∧ ∀ ps, m'.pstates.lookup ps = m.pstates.lookup ps

theorem SamePstates.refl (s : Sim) : SamePstates s s := fun _ m hm => ⟨m, hm, fun _ => rfl⟩

theorem lookUp_pstates {m : Machine} {newPstate : Int} (hcurr : m.hasPstate m.hostPstate = true)
    (hnew : m.hasPstate newPstate = true) : (m.lookUp newPstate).pstates = m.pstates := by
  rw [Machine.lookUp, Machine.touchPstate.eq_def m, if_pos hcurr, Machine.touchPstate, if_pos hnew]

theorem addSwitch_ne (cs : CurrentSwitches) (ids : IntervalSet) (newPstate : Int) :
    cs.addSwitch ids newPstate ≠ cs := by
  intro h
  have hlookup := congrArg (fun cs : CurrentSwitches => cs.switches.lookup newPstate) h
  unfold CurrentSwitches.addSwitch at hlookup
  cases hold : cs.switches.lookup newPstate with
  | none => simp [hold] at hlookup
  | some list =>
    simp only [hold, AList.lookup_insert, Option.some.injEq] at hlookup
    have hlength := congrArg List.length hlookup
    simp at hlength

/-- Whatever is requested, something is touched as soon as energy is used. -/
theorem requestPstate_touches (henergy : cfg.energyUsed = true) (s : Sim) (ids : IntervalSet)
    (newPstate : Int) : ¬Untouched s (stateAfter (requestPstate cfg ids newPstate s)) := by
  intro h
  have hswitches := h.currentSwitches
  have hgrouped := h.nbGroupedSwitches
  simp only [requestPstate, stateAfter_bind_check, stateAfter_bind_modify, if_pos henergy]
    at hswitches hgrouped
  cases hids : ids.elements with
  | nil =>
    rw [hids] at hswitches
    exact addSwitch_ne _ ids newPstate hswitches
  | cons first rest =>
    simp only [hids, stateAfter_bind_get, stateAfter_bind_ofExcept, stateAfter_bind_modify]
      at hswitches hgrouped
    cases hat : s.machines.at? first with
    | error e =>
      rw [hat] at hswitches
      exact addSwitch_ne _ ids newPstate hswitches
    | ok m =>
      simp only [hat] at hgrouped
      have hloop : ∀ t : Sim, t.nbGroupedSwitches = s.nbGroupedSwitches + 1 →
          (stateAfter (loop (requestSwitch newPstate) (first :: rest) t)).nbGroupedSwitches =
            s.nbGroupedSwitches + 1 := by
        intro t ht
        refine loop_invariant (P := fun t : Sim => t.nbGroupedSwitches = s.nbGroupedSwitches + 1) ht ?_
        intro id _ u hu
        obtain ⟨-, hsame⟩ | ⟨m, m', -, hrequested⟩ := requestSwitch_after newPstate id u
        · rw [hsame]
          exact hu
        · exact hrequested.nbGroupedSwitches.trans hu
      rw [hloop _ rfl] at hgrouped
      omega

/-- The machines have the pstates that they have in `s`, and each is in one of its pstates. -/
def KeepsPstates (s t : Sim) : Prop :=
  ∀ (id : Nat) (m : Machine), s.machines.machines[id]? = some m →
    ∃ m', t.machines.machines[id]? = some m' ∧ m'.pstates = m.pstates ∧
      m'.hasPstate m'.hostPstate = true

/-- A turn on a machine that accepts the pstate keeps all pstates. -/
theorem requestSwitch_keepsPstates {newPstate : Int} {id : Nat} {s t : Sim}
    (haccepts : Accepts s newPstate id) (h : KeepsPstates s t) :
    KeepsPstates s (stateAfter (requestSwitch newPstate id t)) := by
  obtain ⟨m₀, hm₀, hnew, -, -⟩ := haccepts
  obtain ⟨m₁, hm₁, hpstates, hcurr⟩ := h id m₀ hm₀
  have hnew₁ : m₁.hasPstate newPstate = true := by
    rw [Machine.hasPstate, hpstates]
    exact hnew
  obtain ⟨hnone, -⟩ | ⟨m, m', hm, hrequested⟩ := requestSwitch_after newPstate id t
  · rw [hm₁] at hnone
    cases hnone
  · obtain rfl : m₁ = m := Option.some.inj (hm₁.symm.trans hm)
    have hsame : m'.pstates = m₁.pstates :=
      hrequested.pstates.trans (lookUp_pstates hcurr hnew₁)
    intro j mj hmj
    rw [hrequested.machines]
    split
    · next hj =>
      subst hj
      obtain rfl : m₀ = mj := Option.some.inj (hm₀.symm.trans hmj)
      refine ⟨m', rfl, hsame.trans hpstates, ?_⟩
      rw [Machine.hasPstate, hsame]
      rcases hrequested.hostPstate with heq | ⟨hpos, heq⟩
      · rw [heq]
        exact hcurr
      · rw [heq, Int.toNat_of_nonneg hpos]
        exact hnew₁
    · exact h j mj hmj

/-- A request that every machine accepts keeps all pstates. -/
theorem requestPstate_keepsPstates {s : Sim} {ids : IntervalSet} {newPstate : Int}
    (hcurrent : ∀ (id : Nat) (m : Machine), s.machines.machines[id]? = some m →
      m.hasPstate m.hostPstate = true)
    (haccepts : ∀ id ∈ ids, Accepts s newPstate id) :
    KeepsPstates s (stateAfter (requestPstate cfg ids newPstate s)) := by
  have hstart : KeepsPstates s s := fun id m hm => ⟨m, hm, rfl, hcurrent id m hm⟩
  simp only [requestPstate, stateAfter_bind_check, stateAfter_bind_modify]
  split
  · cases hids : ids.elements with
    | nil => exact hstart
    | cons first rest =>
      obtain ⟨m, hm, hnew, -⟩ := haccepts first (by
        rw [← IntervalSet.mem_elements, hids]
        exact List.mem_cons_self)
      have hat : s.machines.at? first = .ok m := Machines.at?_eq_ok.mpr hm
      have hfirst : s.machines.put first (m.touchPstate newPstate) = s.machines := by
        rw [Machine.touchPstate, if_pos hnew, Machines.put_self hm]
      simp only [stateAfter_bind_get, stateAfter_bind_ofExcept, stateAfter_bind_modify, hat, hfirst]
      refine loop_invariant (P := KeepsPstates s) hstart ?_
      intro id hid t ht
      refine requestSwitch_keepsPstates (haccepts id ?_) ht
      rw [← IntervalSet.mem_elements, hids]
      exact hid
  · exact hstart

/-- In every state of every run, an invalid request is refused before any effect, and a request
leaves the pstates as they are, exactly when energy is not used or the request is valid. -/
theorem invalid_request_refused_iff (hhosts : ∀ h ∈ cfg.hosts, h.pstate < h.nbPstates)
    (hr : Reaches (batsim cfg) guard s) (ids : IntervalSet) (newPstate : Int) :
    (((∃ id ∈ ids, ¬Accepts s newPstate id) →
        Untouched s (stateAfter (requestPstate cfg ids newPstate s))) ∧
      SamePstates s (stateAfter (requestPstate cfg ids newPstate s))) ↔
      cfg.energyUsed = false ∨ ∀ id ∈ ids, Accepts s newPstate id := by
  constructor
  · rintro ⟨hrefused, -⟩
    cases henergy : cfg.energyUsed with
    | false => exact .inl rfl
    | true =>
      refine .inr fun id hid => ?_
      by_contra hnot
      exact requestPstate_touches henergy s ids newPstate (hrefused ⟨id, hid, hnot⟩)
  · intro hvalid
    cases henergy : cfg.energyUsed with
    | false =>
      have hsame : stateAfter (requestPstate cfg ids newPstate s) = s := by
        simp only [requestPstate, stateAfter_bind_check, henergy, Bool.false_eq_true, if_false]
      rw [hsame]
      exact ⟨fun _ => .refl s, .refl s⟩
    | true =>
      have haccepts : ∀ id ∈ ids, Accepts s newPstate id := by
        rcases hvalid with hfalse | haccepts
        · rw [henergy] at hfalse
          cases hfalse
        · exact haccepts
      have hcurrent : ∀ (id : Nat) (m : Machine), s.machines.machines[id]? = some m →
          m.hasPstate m.hostPstate = true := by
        intro id m hm
        have hdeclared := reaches_declared henergy hhosts hr id m hm
        exact hdeclared.pstates _ hdeclared.current
      refine ⟨fun ⟨id, hid, hnot⟩ => absurd (haccepts id hid) hnot, fun id m hm => ?_⟩
      have hkeeps : KeepsPstates s (stateAfter (requestPstate cfg ids newPstate s)) :=
        requestPstate_keepsPstates hcurrent haccepts
      obtain ⟨m', hm', hpstates, -⟩ := hkeeps id m hm
      exact ⟨m', hm', fun ps => by rw [hpstates]⟩

theorem request_of_sleepy_host_at_start :
    ((∃ id ∈ loneMachine, ¬Accepts (start sleepyHost) 1 id) →
        Untouched (start sleepyHost)
          (stateAfter (requestPstate sleepyHost loneMachine 1 (start sleepyHost)))) ∧
      SamePstates (start sleepyHost)
        (stateAfter (requestPstate sleepyHost loneMachine 1 (start sleepyHost))) := by
  have hhosts : ∀ h ∈ sleepyHost.hosts, h.pstate < h.nbPstates := by decide
  have hr : Reaches (batsim sleepyHost) (fun _ _ => True) (start sleepyHost) := .start
  refine (invalid_request_refused_iff hhosts hr loneMachine 1).mpr (.inr ?_)
  intro id hid
  obtain rfl : id = 0 := List.mem_singleton.mp hid
  exact ⟨_, rfl, by decide, by decide, by rintro (h | h) <;> cases h⟩

/-- A pstate that the host does not have: the program stops once the switch is counted and the
pstate declared. -/
theorem undeclared_pstate_request_touches :
    (∃ id ∈ loneMachine, ¬Accepts (start sleepyHost) 7 id) ∧
      ¬Untouched (start sleepyHost)
        (stateAfter (requestPstate sleepyHost loneMachine 7 (start sleepyHost))) ∧
      ¬SamePstates (start sleepyHost)
        (stateAfter (requestPstate sleepyHost loneMachine 7 (start sleepyHost))) := by
  refine ⟨⟨0, List.mem_singleton.mpr rfl, ?_⟩, requestPstate_touches rfl _ _ _, fun h => ?_⟩
  · rintro ⟨m, hm, hhas, -⟩
    cases hm
    cases hhas
  · obtain ⟨m', hm', hsame⟩ := h 0 _ rfl
    have hnew : (((stateAfter (requestPstate sleepyHost loneMachine 7
        (start sleepyHost))).machines.machines[0]?).map fun m => m.pstates.lookup 7) =
          some (some .computationPstate) := by decide +kernel
    rw [hm', Option.map_some, hsame 7] at hnew
    cases hnew

end Batsim
