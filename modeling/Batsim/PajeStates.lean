import Mathlib.Data.List.MinMax
import Batsim.PajeTracer
import Batsim.StateTimes

/-!
The machines with the Pajé tracer that follows them, and when the last state that is traced for a
machine is that of its jobs.
-/

namespace Batsim

open Checked

/-- The first job of `jobs_being_computed`, a set of pointers in the order of their addresses. The
objects of a set are all alive, and their addresses differ. -/
def topJob (address : JobPtr → Nat) (jobs : List JobPtr) : Option JobPtr := jobs.argmin address

/-- The machines and their tracer. -/
structure TracedMachines where
  machines : Machines
  tracer : PajeTracer

namespace TracedMachines

variable (address : JobPtr → Nat)

/-- One turn of the loop of `update_machines_on_job_run`. -/
def runJobOn (job : JobPtr) (now : Date) (t : TracedMachines) (id : Nat) :
    Except String TracedMachines := do
  let before ← t.machines.at? id
  let previousTopJob := topJob address before.jobsBeingComputed
  let machines ← t.machines.runJobOn job now id
  let m ← machines.at? id
  match topJob address m.jobsBeingComputed with
  | none => .error "dereference of the end of a set"
  | some top =>
    let tracer ← (if previousTopJob = none ∨ previousTopJob ≠ some top
      then t.tracer.setMachineAsComputingJob id top.id now
      else .ok t.tracer)
    .ok { machines := machines, tracer := tracer }

/-- One turn of the loop of `update_machines_on_job_end`. -/
def endJobOn (job : JobPtr) (now : Date) (t : TracedMachines) (id : Nat) :
    Except String TracedMachines := do
  let before ← t.machines.at? id
  let previousTopJob := topJob address before.jobsBeingComputed
  let machines ← t.machines.endJobOn job now id
  let m ← machines.at? id
  let tracer ← (match topJob address m.jobsBeingComputed with
    | none =>
      if before.state ≠ .unavailable then t.tracer.setMachineIdle id now else .ok t.tracer
    | some top =>
      if previousTopJob ≠ some top then t.tracer.setMachineAsComputingJob id top.id now
      else .ok t.tracer)
  .ok { machines := machines, tracer := tracer }

/-- The machine that an event `machine_unavailable` names, with `now` for the clock. -/
def makeUnavailable (now : Date) (t : TracedMachines) (id : Nat) :
    Except String TracedMachines := do
  let m ← t.machines.at? id
  xbtAssert (m.state ≠ .unavailable)
    ("The making of machine " ++ toString id ++ " unavailable was requested but this machine was" ++
      " already in UNAVAILABLE state.")
  let machines ← t.machines.updateMachineState id .unavailable now
  .ok { t with machines := machines }

/-- The machine that an event `machine_available` names, with `now` for the clock. -/
def makeAvailable (now : Date) (t : TracedMachines) (id : Nat) : Except String TracedMachines := do
  let m ← t.machines.at? id
  xbtAssert (m.state = .unavailable)
    ("The making of machine " ++ toString id ++ " available was requested but this machine was" ++
      " not in UNAVAILABLE state (current state: " ++ machineStateToString m.state ++ ").")
  let machines ← t.machines.updateMachineState id
    (if m.jobsBeingComputed = [] then .idle else .computing) now
  .ok { t with machines := machines }

/-- The machines of a platform, named hosts, when the tracer starts to follow them. -/
def create (energyUsed : Bool) (hosts : List (String × Host)) (colors : List String)
    (time : Date) : Except String TracedMachines := do
  let machines ← Machines.createMachines energyUsed (hosts.map Prod.snd)
  let tracer ← PajeTracer.initializeContainers { colors := colors } (hosts.map Prod.fst) time
  .ok { machines := machines, tracer := tracer }

end TracedMachines

/-- What changes the jobs and the availability of machines. -/
inductive MachineCall where
  | jobRun (job : JobPtr) (used : IntervalSet) (now : Date)
  | jobEnd (job : JobPtr) (used : IntervalSet) (now : Date)
  | machineUnavailable (ids : IntervalSet) (now : Date)
  | machineAvailable (ids : IntervalSet) (now : Date)

def MachineCall.apply (address : JobPtr → Nat) (t : TracedMachines) :
    MachineCall → Except String TracedMachines
  | jobRun job used now => forEach (TracedMachines.runJobOn address job now) t used.elements
  | jobEnd job used now => forEach (TracedMachines.endJobOn address job now) t used.elements
  | machineUnavailable ids now => forEach (TracedMachines.makeUnavailable now) t ids.elements
  | machineAvailable ids now => forEach (TracedMachines.makeAvailable now) t ids.elements

/-! ### The last state traced -/

/-- The value that a line sets the state of a machine to. -/
def PajeLine.stateOf (id : Nat) : PajeLine → Option String
  | machineState _ machineId value => if machineId = id then some value else none
  | _ => none

def PajeTracer.lastState (t : PajeTracer) (id : Nat) : Option String :=
  (t.lines.filterMap (PajeLine.stateOf id)).getLast?

/-- The value of a machine whose first job is this one. -/
def stateValue : Option JobPtr → String
  | none => mstateWaiting
  | some top => jobValue top.id

/-- The last state traced for each machine is that of its first job. -/
def TracedMachines.Mirrors (address : JobPtr → Nat) (t : TracedMachines) : Prop :=
  ∀ id m, t.machines.machines[id]? = some m →
    t.tracer.lastState id = some (stateValue (topJob address m.jobsBeingComputed))

/-- The call leaves no unavailable machine without its last job. -/
def MachineCall.Spares (t : TracedMachines) : MachineCall → Prop
  | jobEnd job used _ => ∀ id ∈ used, ∀ m, t.machines.machines[id]? = some m →
      ¬ (m.state = .unavailable ∧ m.jobsBeingComputed = [job])
  | _ => True

/-! ### What the tracer writes -/

namespace PajeTracer

variable {t t' : PajeTracer} {id j : Nat} {time : Date} {jobId : JobIdentifier}

theorem lastState_concat {ls : List PajeLine} (h : t'.lines = t.lines ++ ls) :
    t'.lastState j = ((ls.filterMap (PajeLine.stateOf j)).getLast?).or (t.lastState j) := by
  rw [lastState, h, List.filterMap_append, List.getLast?_append, lastState]

theorem lastState_machineState (time : Date) {value : String} {ls : List PajeLine}
    (hls : ls.filterMap (PajeLine.stateOf j) = [])
    (h : t'.lines = t.lines ++ ls ++ [.machineState time id value]) :
    t'.lastState j = if id = j then some value else t.lastState j := by
  rw [List.append_assoc] at h
  rw [lastState_concat h, List.filterMap_append, hls, List.nil_append]
  by_cases hid : id = j
  · simp [PajeLine.stateOf, hid]
  · simp [PajeLine.stateOf, hid]

theorem setMachineIdle_lastState (h : t.setMachineIdle id time = .ok t') :
    t'.lastState j = if id = j then some (stateValue none) else t.lastState j := by
  obtain ⟨-, rfl⟩ := print_eq_ok.mp h
  have hls : ([] : List PajeLine).filterMap (PajeLine.stateOf j) = [] := rfl
  refine lastState_machineState time hls ?_
  rw [List.append_nil]
  rfl

theorem registerNewJob_lines (h : t.registerNewJob jobId = .ok t') :
    ∃ color, t'.lines = t.lines ++ [.entityValue jobId color] := by
  simp only [registerNewJob, bind_eq_ok, print_eq_ok, Except.ok.injEq] at h
  obtain ⟨_, -, _, ⟨-, rfl⟩, rfl⟩ := h
  exact ⟨_, rfl⟩

theorem setMachineAsComputingJob_lastState
    (h : t.setMachineAsComputingJob id jobId time = .ok t') :
    t'.lastState j = if id = j then some (jobValue jobId) else t.lastState j := by
  simp only [setMachineAsComputingJob, bind_eq_ok] at h
  obtain ⟨t₁, hregister, h⟩ := h
  have hlines : ∃ ls, ls.filterMap (PajeLine.stateOf j) = [] ∧ t₁.lines = t.lines ++ ls := by
    split at hregister
    · obtain ⟨color, hlines⟩ := registerNewJob_lines hregister
      exact ⟨_, rfl, hlines⟩
    · rw [Except.ok.injEq] at hregister
      exact ⟨[], rfl, by simp [hregister]⟩
  obtain ⟨ls, hls, hlines⟩ := hlines
  cases hvalue : t₁.jobs.lookup jobId with
  | none =>
    rw [hvalue] at h
    cases h
  | some value =>
    rw [hvalue] at h
    obtain ⟨-, rfl⟩ := print_eq_ok.mp h
    rw [← t₁.jobs_valued jobId value hvalue]
    refine lastState_machineState time hls ?_
    rw [← hlines]

end PajeTracer

/-! ### The calls, machine by machine -/

section Machines

variable {address : JobPtr → Nat} {t t' : TracedMachines} {job : JobPtr} {now : Date} {id j : Nat}

/-- The value of the last state after a change of the jobs of a machine from `before` to `after`:
it is traced when the first job changes. -/
def tracedValue (address : JobPtr → Nat) (before after : List JobPtr) (last : Option String) :
    Option String :=
  if topJob address before = topJob address after then last
  else some (stateValue (topJob address after))

/-- The last state after the job `job` ended on a machine: nothing is traced when it was the last
one of an unavailable machine. -/
def tracedValueOnEnd (address : JobPtr → Nat) (job : JobPtr) (m : Machine)
    (last : Option String) : Option String :=
  if m.state = .unavailable ∧ m.jobsBeingComputed.erase job = [] then last
  else tracedValue address m.jobsBeingComputed (m.jobsBeingComputed.erase job) last

theorem topJob_eq_none {jobs : List JobPtr} : topJob address jobs = none ↔ jobs = [] :=
  List.argmin_eq_none

theorem runJobOn_cases (h : t.runJobOn address job now id = .ok t') :
    ∃ m, t.machines.machines[id]? = some m ∧
      (∀ j, t'.machines.machines[j]? =
        if j = id then some (m.onJobRun job now) else t.machines.machines[j]?) ∧
      ∀ j, t'.tracer.lastState j =
        if j = id then tracedValue address m.jobsBeingComputed
          (m.onJobRun job now).jobsBeingComputed (t.tracer.lastState id)
        else t.tracer.lastState j := by
  simp only [TracedMachines.runJobOn, bind_eq_ok, Machines.at?_eq_ok] at h
  obtain ⟨before, hbefore, machines, hrun, after, hafter, h⟩ := h
  obtain ⟨m, hm, hmachines⟩ := Machines.runJobOn_cases hrun
  rw [hbefore, Option.some.injEq] at hm
  subst hm
  rw [hmachines id, if_pos rfl, Option.some.injEq] at hafter
  subst hafter
  split at h
  · cases h
  · next top htop =>
    simp only [bind_eq_ok, Except.ok.injEq] at h
    obtain ⟨tracer, htracer, rfl⟩ := h
    refine ⟨before, hbefore, hmachines, fun j => ?_⟩
    unfold tracedValue
    rw [htop]
    split at htracer
    · next hchanged =>
      have hne : topJob address before.jobsBeingComputed ≠ some top := by
        rcases hchanged with hnone | hne
        · rw [hnone]
          exact Option.some_ne_none top |>.symm
        · exact hne
      rw [PajeTracer.setMachineAsComputingJob_lastState htracer, if_neg hne]
      simp only [eq_comm (a := id)]
      rfl
    · next hsame =>
      rw [not_or, not_not] at hsame
      rw [Except.ok.injEq] at htracer
      rw [if_pos hsame.2, htracer]
      split
      · next hj => rw [hj]
      · rfl

theorem onJobEnd_jobsBeingComputed (m : Machine) :
    (m.onJobEnd job now).jobsBeingComputed = m.jobsBeingComputed.erase job := by
  rw [Machine.onJobEnd]
  split <;> rfl

theorem mem_of_endJobOn {ms ms' : Machines} {m : Machine} (h : ms.endJobOn job now id = .ok ms')
    (hm : ms.machines[id]? = some m) : job ∈ m.jobsBeingComputed := by
  simp only [Machines.endJobOn, bind_eq_ok, Machines.at?_eq_ok, xbtAssert_eq_ok] at h
  obtain ⟨m', hm', _, -, _, hjob, -⟩ := h
  rw [hm, Option.some.injEq] at hm'
  rwa [hm']

theorem endJobOn_cases (h : t.endJobOn address job now id = .ok t') :
    ∃ m, t.machines.machines[id]? = some m ∧ job ∈ m.jobsBeingComputed ∧
      (∀ j, t'.machines.machines[j]? =
        if j = id then some (m.onJobEnd job now) else t.machines.machines[j]?) ∧
      ∀ j, t'.tracer.lastState j =
        if j = id then tracedValueOnEnd address job m (t.tracer.lastState id)
        else t.tracer.lastState j := by
  simp only [TracedMachines.endJobOn, bind_eq_ok, Machines.at?_eq_ok, Except.ok.injEq] at h
  obtain ⟨before, hbefore, machines, hend, after, hafter, tracer, htracer, rfl⟩ := h
  have hjob := mem_of_endJobOn hend hbefore
  obtain ⟨m, hm, hmachines⟩ := Machines.endJobOn_cases hend
  rw [hbefore, Option.some.injEq] at hm
  subst hm
  rw [hmachines id, if_pos rfl, Option.some.injEq] at hafter
  have hjobs : after.jobsBeingComputed = before.jobsBeingComputed.erase job := by
    rw [← hafter, onJobEnd_jobsBeingComputed]
  rw [hjobs] at htracer
  have hsome : topJob address before.jobsBeingComputed ≠ none := by
    rw [Ne, topJob_eq_none]
    exact List.ne_nil_of_mem hjob
  refine ⟨before, hbefore, hjob, hmachines, fun j => ?_⟩
  unfold tracedValueOnEnd tracedValue
  cases htop : topJob address (before.jobsBeingComputed.erase job) with
  | none =>
    rw [htop] at htracer
    have hempty := topJob_eq_none.mp htop
    simp only [hempty, and_true, hsome, if_false]
    by_cases hunavailable : before.state = .unavailable
    · simp only [hunavailable, ne_eq, not_true_eq_false, if_false, Except.ok.injEq] at htracer
      rw [if_pos hunavailable, htracer]
      split
      · next hj => rw [hj]
      · rfl
    · simp only [ne_eq, hunavailable, not_false_eq_true, if_true] at htracer
      rw [if_neg hunavailable, PajeTracer.setMachineIdle_lastState htracer]
      simp only [eq_comm (a := id)]
  | some top =>
    rw [htop] at htracer
    have hne : before.jobsBeingComputed.erase job ≠ [] := by
      intro hempty
      rw [topJob_eq_none.mpr hempty] at htop
      cases htop
    simp only [hne, and_false, if_false]
    by_cases hsame : topJob address before.jobsBeingComputed = some top
    · simp only [hsame, ne_eq, not_true_eq_false, if_false, Except.ok.injEq] at htracer
      rw [if_pos hsame, htracer]
      split
      · next hj => rw [hj]
      · rfl
    · simp only [ne_eq, hsame, not_false_eq_true, if_true] at htracer
      rw [if_neg hsame, PajeTracer.setMachineAsComputingJob_lastState htracer]
      simp only [eq_comm (a := id)]
      rfl

/-- A loop over distinct machines, each turn of which replaces the machine of its number and its last
state, replaces exactly those of these numbers. -/
theorem forEach_traced {step : TracedMachines → Nat → Except String TracedMachines}
    {f : Machine → Machine} {g : Machine → Option String → Option String} {ids : List Nat}
    (hnodup : ids.Nodup)
    (hstep : ∀ t t' id, step t id = .ok t' → ∃ m, t.machines.machines[id]? = some m ∧
      (∀ j, t'.machines.machines[j]? =
        if j = id then some (f m) else t.machines.machines[j]?) ∧
      ∀ j, t'.tracer.lastState j =
        if j = id then g m (t.tracer.lastState id) else t.tracer.lastState j)
    (h : forEach step t ids = .ok t') (j : Nat) :
    (t'.machines.machines[j]? = if j ∈ ids then t.machines.machines[j]?.map f
      else t.machines.machines[j]?) ∧
    ∀ m, t.machines.machines[j]? = some m → t'.tracer.lastState j =
      if j ∈ ids then g m (t.tracer.lastState j) else t.tracer.lastState j := by
  refine forEach_invariant
    (fun done (s : TracedMachines) => (s.machines.machines[j]? =
      if j ∈ done then t.machines.machines[j]?.map f else t.machines.machines[j]?) ∧
      ∀ m, t.machines.machines[j]? = some m → s.tracer.lastState j =
        if j ∈ done then g m (t.tracer.lastState j) else t.tracer.lastState j) ?_ ?_ h
  · simp
  · intro done id rest s s' hsplit ⟨hdone, hlasts⟩ hid
    obtain ⟨m, hm, hmachines, hlast⟩ := hstep s s' id hid
    rw [hmachines j, hlast j]
    by_cases hj : j = id
    · subst hj
      have hnew : j ∉ done := by
        rw [hsplit] at hnodup
        exact fun hmem => (List.nodup_append.mp hnodup).2.2 j hmem j (by simp) rfl
      rw [if_neg hnew] at hdone
      have hmem : j ∈ done ++ [j] := by simp
      rw [← hdone, hm, if_pos rfl, if_pos rfl, if_pos hmem]
      refine ⟨rfl, fun m₀ hm₀ => ?_⟩
      rw [Option.some.injEq] at hm₀
      subst hm₀
      rw [if_pos hmem, hlasts m (hdone ▸ hm), if_neg hnew]
    · simpa [hj] using ⟨hdone, hlasts⟩

/-! ### One call -/

theorem tracedValue_eq {before after : List JobPtr} {last : Option String}
    (h : last = some (stateValue (topJob address before))) :
    tracedValue address before after last = some (stateValue (topJob address after)) := by
  unfold tracedValue
  split
  · next hsame => rw [h, hsame]
  · rfl

theorem Mirrors.jobRun {used : IntervalSet} (ht : t.Mirrors address)
    (h : forEach (TracedMachines.runJobOn address job now) t used.elements = .ok t') :
    t'.Mirrors address := by
  intro j m' hm'
  obtain ⟨hmachine, hlast⟩ := forEach_traced used.nodup (fun _ _ _ => runJobOn_cases) h j
  rw [hmachine] at hm'
  split at hm'
  · next hj =>
    obtain ⟨m, hm, rfl⟩ := Option.map_eq_some_iff.mp hm'
    rw [hlast m hm, if_pos hj]
    exact tracedValue_eq (ht j m hm)
  · next hj =>
    rw [hlast m' hm', if_neg hj]
    exact ht j m' hm'

theorem jobValue_ne (jobId : JobIdentifier) : jobValue jobId ≠ mstateWaiting := by
  intro h
  have hlist := congrArg String.toList h
  rw [jobValue, String.toList_append] at hlist
  exact absurd (List.cons.inj hlist).1 (by decide)

/-- The value of one machine after the job ended on it. -/
theorem tracedValueOnEnd_iff {m : Machine} {last : Option String}
    (h : last = some (stateValue (topJob address m.jobsBeingComputed))) :
    tracedValueOnEnd address job m last =
        some (stateValue (topJob address (m.jobsBeingComputed.erase job))) ↔
      ¬ (m.state = .unavailable ∧ m.jobsBeingComputed = [job]) := by
  unfold tracedValueOnEnd
  split
  · next hkept =>
    have hempty : topJob address (m.jobsBeingComputed.erase job) = none :=
      topJob_eq_none.mpr hkept.2
    rw [hempty, h]
    rcases List.erase_eq_nil_iff.mp hkept.2 with hjobs | hjobs
    · have hnone : topJob address m.jobsBeingComputed = none := topJob_eq_none.mpr hjobs
      rw [hnone]
      exact iff_of_true rfl (by simp [hjobs])
    · have htop : topJob address m.jobsBeingComputed = some job := by
        rw [hjobs]
        exact List.argmin_singleton
      rw [htop, Option.some.injEq]
      exact iff_of_false (jobValue_ne job.id) (not_not.mpr ⟨hkept.1, hjobs⟩)
  · next htraced =>
    refine iff_of_true (tracedValue_eq h) fun hlast => htraced ⟨hlast.1, ?_⟩
    rw [hlast.2]
    simp

theorem mirrors_jobEnd_iff {used : IntervalSet} (ht : t.Mirrors address)
    (h : forEach (TracedMachines.endJobOn address job now) t used.elements = .ok t') :
    t'.Mirrors address ↔ (MachineCall.jobEnd job used now).Spares t := by
  have hstep : ∀ (t t' : TracedMachines) id, t.endJobOn address job now id = .ok t' →
      ∃ m, t.machines.machines[id]? = some m ∧
        (∀ j, t'.machines.machines[j]? =
          if j = id then some (m.onJobEnd job now) else t.machines.machines[j]?) ∧
        ∀ j, t'.tracer.lastState j =
          if j = id then tracedValueOnEnd address job m (t.tracer.lastState id)
          else t.tracer.lastState j := by
    intro t t' id hid
    obtain ⟨m, hm, -, hvalues⟩ := endJobOn_cases hid
    exact ⟨m, hm, hvalues⟩
  have hvalues := forEach_traced used.nodup hstep h
  -- what is asked of a machine of the job
  have hused : ∀ j ∈ used.elements, ∀ m, t.machines.machines[j]? = some m →
      (t'.tracer.lastState j =
          some (stateValue (topJob address (m.onJobEnd job now).jobsBeingComputed)) ↔
        ¬ (m.state = .unavailable ∧ m.jobsBeingComputed = [job])) := by
    intro j hj m hm
    rw [(hvalues j).2 m hm, if_pos hj, onJobEnd_jobsBeingComputed]
    exact tracedValueOnEnd_iff (ht j m hm)
  constructor
  · intro ht' j hj m hm
    have hmem : j ∈ used.elements := hj
    rw [← hused j hmem m hm]
    refine ht' j _ ?_
    rw [(hvalues j).1, if_pos hmem, hm]
    rfl
  · intro hspares j m' hm'
    rw [(hvalues j).1] at hm'
    split at hm'
    · next hj =>
      obtain ⟨m, hm, rfl⟩ := Option.map_eq_some_iff.mp hm'
      exact (hused j hj m hm).mpr (hspares j hj m hm)
    · next hj =>
      rw [(hvalues j).2 m' hm', if_neg hj]
      exact ht j m' hm'

/-- A loop that changes neither jobs nor what is traced. -/
theorem Mirrors.availability {step : TracedMachines → Nat → Except String TracedMachines}
    {ids : List Nat} (newState : Machine → MachineState) (now : Date) (hstep : ∀ t t' id, step t id = .ok t' →
      ∃ m ms', t.machines.machines[id]? = some m ∧
        t.machines.updateMachineState id (newState m) now = .ok ms' ∧
        t' = { t with machines := ms' })
    (ht : t.Mirrors address) (h : forEach step t ids = .ok t') : t'.Mirrors address := by
  refine forEach_preserves ht ?_ h
  intro id _ s s' hs hid j m' hm'
  obtain ⟨m, ms', hm, hupdate, rfl⟩ := hstep s s' id hid
  obtain ⟨m₁, hm₁, -, hmachines⟩ := Machines.updateMachineState_cases hupdate
  dsimp only at hm' ⊢
  rw [hmachines j] at hm'
  split at hm'
  · next hj =>
    rw [Option.some.injEq] at hm'
    rw [← hm', hj, Machine.enter_jobsBeingComputed]
    exact hs id m₁ hm₁
  · exact hs j m' hm'

/-- One call keeps the trace right exactly when it leaves no unavailable machine without its last
job. -/
theorem mirrors_apply_iff {call : MachineCall} (ht : t.Mirrors address)
    (h : call.apply address t = .ok t') : t'.Mirrors address ↔ call.Spares t := by
  cases call with
  | jobRun job used now => exact iff_of_true (Mirrors.jobRun ht h) trivial
  | jobEnd job used now => exact mirrors_jobEnd_iff ht h
  | machineUnavailable ids now =>
    refine iff_of_true (Mirrors.availability (fun _ => .unavailable) now ?_ ht h) trivial
    intro t t' id hid
    simp only [TracedMachines.makeUnavailable, bind_eq_ok, Machines.at?_eq_ok, xbtAssert_eq_ok,
      Except.ok.injEq] at hid
    obtain ⟨m, hm, _, -, ms', hupdate, rfl⟩ := hid
    exact ⟨m, ms', hm, hupdate, rfl⟩
  | machineAvailable ids now =>
    refine iff_of_true (Mirrors.availability
      (fun m => if m.jobsBeingComputed = [] then .idle else .computing) now ?_ ht h) trivial
    intro t t' id hid
    simp only [TracedMachines.makeAvailable, bind_eq_ok, Machines.at?_eq_ok, xbtAssert_eq_ok,
      Except.ok.injEq] at hid
    obtain ⟨m, hm, _, -, ms', hupdate, rfl⟩ := hid
    exact ⟨m, ms', hm, hupdate, rfl⟩

end Machines

/-! ### Runs -/

/-- At the start all machines wait. -/
theorem PajeTracer.initializeContainers_lastState {t t' : PajeTracer} {names : List String}
    {time : Date} {id : Nat} (h : t.initializeContainers names time = .ok t')
    (hid : id < names.length) : t'.lastState id = some mstateWaiting := by
  simp only [initializeContainers, bind_eq_ok] at h
  obtain ⟨_, -, _, -, t₃, -, hwaiting⟩ := h
  have hstates : ∀ n, ((List.range n).map fun id =>
      PajeLine.machineState time id mstateWaiting).filterMap (PajeLine.stateOf id) =
        if id < n then [mstateWaiting] else [] := by
    intro n
    induction n with
    | zero => rfl
    | succ n ih =>
      rw [List.range_succ, List.map_append, List.filterMap_append, ih, List.map_singleton]
      rcases Nat.lt_trichotomy id n with hlt | heq | hgt
      · simp [PajeLine.stateOf, hlt, Nat.ne_of_gt hlt, Nat.lt_succ_of_lt hlt]
      · simp [PajeLine.stateOf, heq]
      · simp [PajeLine.stateOf, Nat.ne_of_lt hgt, Nat.not_lt_of_gt hgt, Nat.not_lt.mpr hgt]
  rw [lastState_concat (congrArg lines (forEach_print_eq_ok.mp hwaiting).2), hstates, if_pos hid]
  rfl

theorem length_createMachines {energyUsed : Bool} {hosts : List Host} {ms : Machines}
    (h : Machines.createMachines energyUsed hosts = .ok ms) :
    ms.machines.length = hosts.length := by
  simp only [Machines.createMachines, bind_eq_ok, Except.ok.injEq] at h
  obtain ⟨machines, hloop, rfl⟩ := h
  refine forEach_invariant (fun done (ms : List Machine) => ms.length = done.length) rfl ?_ hloop
  intro done host rest ms ms' _ hlength hstep
  simp only [bind_eq_ok, Except.ok.injEq] at hstep
  obtain ⟨m, -, rfl⟩ := hstep
  rw [List.length_append, List.length_append, hlength]
  rfl

theorem mirrors_create {address : JobPtr → Nat} {energyUsed : Bool} {hosts : List (String × Host)}
    {colors : List String} {time : Date} {t : TracedMachines}
    (h : TracedMachines.create energyUsed hosts colors time = .ok t) : t.Mirrors address := by
  simp only [TracedMachines.create, bind_eq_ok, Except.ok.injEq] at h
  obtain ⟨ms, hcreated, tracer, htracer, rfl⟩ := h
  intro id m hm
  have hjobs : ∀ m ∈ ms.machines, m.jobsBeingComputed = [] := by
    refine createMachines_forall (fun _ _ hm => ?_) hcreated
    exact Machine.create_invariant (P := fun m => m.jobsBeingComputed = []) (fun _ _ => rfl)
      (fun _ _ _ hm => hm) hm
  have hid : id < (hosts.map Prod.fst).length := by
    have hlength := length_createMachines hcreated
    rw [List.length_map] at hlength ⊢
    rw [← hlength]
    exact (List.getElem?_eq_some_iff.mp hm).1
  rw [hjobs m (List.mem_of_getElem? hm), topJob_eq_none.mpr rfl]
  exact PajeTracer.initializeContainers_lastState htracer hid

/-- In every run of job starts, job ends and availability events, the trace mirrors the machines
after each call exactly when no job end leaves an unavailable machine without its last job. -/
theorem trace_mirrors_iff {address : JobPtr → Nat} {energyUsed : Bool}
    {hosts : List (String × Host)} {colors : List String} {time : Date} {t t' : TracedMachines}
    {calls : List MachineCall} (hcreate : TracedMachines.create energyUsed hosts colors time = .ok t)
    (hrun : forEach (MachineCall.apply address) t calls = .ok t') :
    (∀ done rest s, calls = done ++ rest →
        forEach (MachineCall.apply address) t done = .ok s → s.Mirrors address) ↔
      ∀ done call rest s, calls = done ++ call :: rest →
        forEach (MachineCall.apply address) t done = .ok s → call.Spares s := by
  have ht : t.Mirrors address := mirrors_create hcreate
  clear hcreate
  induction calls generalizing t with
  | nil =>
    constructor
    · intro _ done call rest s hsplit
      simp at hsplit
    · intro _ done rest s hsplit hdone
      rw [(List.append_eq_nil_iff.mp hsplit.symm).1, forEach_nil, Except.ok.injEq] at hdone
      rwa [← hdone]
  | cons call calls ih =>
    rw [forEach_cons, bind_eq_ok] at hrun
    obtain ⟨t₁, hcall, hrest⟩ := hrun
    have hstep : ∀ done s, forEach (MachineCall.apply address) t (call :: done) = .ok s ↔
        forEach (MachineCall.apply address) t₁ done = .ok s := by
      intro done s
      rw [forEach_cons, hcall]
      rfl
    have hfirst := mirrors_apply_iff ht hcall
    constructor
    · intro hmirrors
      have ht₁ : t₁.Mirrors address :=
        hmirrors [call] calls t₁ rfl ((hstep [] t₁).mpr rfl)
      have hspares := (ih hrest ht₁).mp fun done rest s hsplit hdone =>
        hmirrors (call :: done) rest s (by rw [hsplit, List.cons_append]) ((hstep done s).mpr hdone)
      intro done c rest s hsplit hdone
      cases done with
      | nil =>
        rw [List.nil_append, List.cons.injEq] at hsplit
        rw [forEach_nil, Except.ok.injEq] at hdone
        rw [← hdone, ← hsplit.1]
        exact hfirst.mp ht₁
      | cons d done =>
        rw [List.cons_append, List.cons.injEq] at hsplit
        obtain ⟨rfl, hsplit⟩ := hsplit
        exact hspares done c rest s hsplit ((hstep done s).mp hdone)
    · intro hspares
      have ht₁ : t₁.Mirrors address := hfirst.mpr (hspares [] call calls t rfl rfl)
      have hmirrors := (ih hrest ht₁).mpr fun done c rest s hsplit hdone =>
        hspares (call :: done) c rest s (by rw [hsplit, List.cons_append])
          ((hstep done s).mpr hdone)
      intro done rest s hsplit hdone
      cases done with
      | nil =>
        rw [forEach_nil, Except.ok.injEq] at hdone
        rwa [← hdone]
      | cons d done =>
        rw [List.cons_append, List.cons.injEq] at hsplit
        obtain ⟨rfl, hsplit⟩ := hsplit
        exact hmirrors done rest s hsplit ((hstep done s).mp hdone)

/-! ### A job that ends on an unavailable machine -/

/-- The job starts on machine 0, which becomes unavailable, and ends there. -/
def lostMachine : List MachineCall :=
  [.jobRun ⟨"w0", loneJob⟩ loneMachine 0, .machineUnavailable loneMachine 5,
    .jobEnd ⟨"w0", loneJob⟩ loneMachine 10]

def oneHost : List (String × Host) := [("host0", {})]

/-- The machine has no job any more, and is still traced as computing the last one. -/
theorem lost_machine_not_mirrored :
    ∃ t t', TracedMachines.create false oneHost ["\"1.000000 0.000000 0.000000\""] 0 = .ok t ∧
      forEach (MachineCall.apply fun _ => 0) t lostMachine = .ok t' ∧
        ¬ t'.Mirrors fun _ => 0 := by
  have hrun : succeedsWith
      (TracedMachines.create false oneHost ["\"1.000000 0.000000 0.000000\""] 0)
      (fun t => succeedsWith (forEach (MachineCall.apply fun _ => 0) t lostMachine) fun t' =>
        decide (t'.tracer.lastState 0 = some "jw0!7") &&
          decide (t'.machines.machines.map Machine.jobsBeingComputed = [[]])) = true := by
    decide +kernel
  obtain ⟨t, hcreate, hrun⟩ := exists_of_succeedsWith hrun
  obtain ⟨t', hrun, hlast⟩ := exists_of_succeedsWith hrun
  rw [Bool.and_eq_true, decide_eq_true_iff, decide_eq_true_iff] at hlast
  refine ⟨t, t', hcreate, hrun, fun hmirrors => ?_⟩
  obtain ⟨m, hmachines, hjobs⟩ : ∃ m, t'.machines.machines = [m] ∧ m.jobsBeingComputed = [] := by
    simpa using List.map_eq_singleton_iff.mp hlast.2
  have hvalue := hmirrors 0 m (by rw [hmachines]; rfl)
  rw [hlast.1, hjobs] at hvalue
  exact absurd hvalue (by decide +kernel)

theorem kept_machine_mirrored :
    ∃ t t', TracedMachines.create false oneHost ["\"1.000000 0.000000 0.000000\""] 0 = .ok t ∧
      forEach (MachineCall.apply fun _ => 0) t (lostMachine.take 1) = .ok t' ∧
      ((∀ done rest s, lostMachine.take 1 = done ++ rest →
          forEach (MachineCall.apply fun _ => 0) t done = .ok s → s.Mirrors fun _ => 0) ↔
        ∀ done call rest s, lostMachine.take 1 = done ++ call :: rest →
          forEach (MachineCall.apply fun _ => 0) t done = .ok s → call.Spares s) := by
  have hrun : succeedsWith
      (TracedMachines.create false oneHost ["\"1.000000 0.000000 0.000000\""] 0)
      (fun t => succeedsWith (forEach (MachineCall.apply fun _ => 0) t (lostMachine.take 1))
        fun _ => true) = true := by
    decide +kernel
  obtain ⟨t, hcreate, hrun⟩ := exists_of_succeedsWith hrun
  obtain ⟨t', hrun, -⟩ := exists_of_succeedsWith hrun
  exact ⟨t, t', hcreate, hrun, trace_mirrors_iff hcreate hrun⟩

end Batsim
