import Batsim.Jobs

namespace Batsim

open Checked

structure Workload where
  name : String
  isStatic : Bool
  jobs : Jobs
  profiles : Profiles

/-- `Workload::new_dynamic_workload` -/
def Workload.newDynamicWorkload (name : String) : Workload where
  name := name
  isStatic := false
  jobs := .empty
  profiles := .empty

/-- `Workload::check_single_job_validity` -/
def Workload.checkSingleJobValidity (wl : Workload) (id : JobIdentifier) (j : Job) :
    Except String Unit := do
  xbtAssert (wl.profiles.exists? j.profile.name = true)
    ("Invalid job " ++ id.toString ++ ": the associated profile '" ++ j.profile.name ++
      "' does not exist")
  if j.profile.type = .parallel then
    xbtAssert (j.profile.nbRes = j.requestedNbRes)
      ("Invalid job " ++ id.toString ++ ": the requested number of resources do NOT match the" ++
        " number of resources of the associated profile '" ++ j.profile.name ++ "'")
  else .ok ()

/-- `Jobs::delete_job`, which reaches the profiles of its workload through `_workload`; `job`
reads a job object. -/
def Workload.deleteJob (job : JobPtr → Job) (wl : Workload) (id : JobIdentifier)
    (garbageCollectProfiles : Bool) : Except String Workload := do
  let (jobs, p) ← wl.jobs.deleteJob id
  let profiles ← (if garbageCollectProfiles
    then wl.profiles.removeProfile (job p).profile.name
    else .ok wl.profiles)
  .ok { wl with jobs := jobs, profiles := profiles }

/-- What a deletion does to the jobs of the workload. -/
theorem Workload.deleteJob_cases {job : JobPtr → Job} {wl wl' : Workload} {id : JobIdentifier}
    {gc : Bool} (h : wl.deleteJob job id gc = .ok wl') :
    (∃ p, wl.jobs.jobs.lookup id = some p) ∧ wl'.jobs = wl.jobs.erase id ∧
      wl'.name = wl.name ∧ wl'.isStatic = wl.isStatic := by
  simp only [deleteJob, bind_eq_ok] at h
  obtain ⟨⟨jobs, p⟩, hdel, profiles, -, hwl⟩ := h
  obtain ⟨hp, rfl⟩ := Jobs.deleteJob_eq_ok.mp hdel
  simp only [Except.ok.injEq] at hwl
  subst hwl
  exact ⟨⟨p, hp⟩, rfl, rfl, rfl⟩

/-- `Workloads`: the workloads by name. -/
structure Workloads where
  workloads : AList (fun _ : String => Workload)

namespace Workloads

/-- `std::map::at`, which throws on an unknown name -/
def at? (ws : Workloads) (name : String) : Except String Workload :=
  match ws.workloads.lookup name with
  | none => .error "std::out_of_range: map::at"
  | some wl => .ok wl

@[simp] theorem at?_eq_ok {ws : Workloads} {name : String} {wl : Workload} :
    ws.at? name = .ok wl ↔ ws.workloads.lookup name = some wl := by
  unfold at?
  cases ws.workloads.lookup name <;> simp

def exists? (ws : Workloads) (name : String) : Bool :=
  (ws.workloads.lookup name).isSome

/-- The workload called `name` is now `wl`. -/
def set (ws : Workloads) (name : String) (wl : Workload) : Workloads :=
  ⟨ws.workloads.insert name wl⟩

theorem lookup_set {ws : Workloads} {name name' : String} {wl : Workload} :
    (ws.set name wl).workloads.lookup name' =
      if name' = name then some wl else ws.workloads.lookup name' := by
  split
  · next h => rw [h, set, AList.lookup_insert]
  · next h => rw [set, AList.lookup_insert_ne h]

def insertWorkload (ws : Workloads) (name : String) (wl : Workload) :
    Except String Workloads := do
  xbtAssert (ws.exists? name = false) ("workload '" ++ name ++ "' already exists")
  xbtAssert (ws.exists? wl.name = false) ("workload '" ++ wl.name ++ "' already exists")
  .ok (ws.set name { wl with name := name })

def nbStaticWorkloads (ws : Workloads) : Nat :=
  ws.workloads.entries.countP fun e => e.2.isStatic

def jobAt (ws : Workloads) (id : JobIdentifier) : Except String JobPtr := do
  let wl ← ws.at? id.workloadName
  wl.jobs.at? id

def jobIsRegistered (ws : Workloads) (id : JobIdentifier) : Except String Bool := do
  let wl ← ws.at? id.workloadName
  .ok (wl.jobs.exists? id)

def deleteJobs (job : JobPtr → Job) (ws : Workloads) (ids : List JobIdentifier)
    (garbageCollectProfiles : Bool) : Except String Workloads :=
  forEach (fun ws id => do
    let wl ← ws.at? id.workloadName
    let wl ← wl.deleteJob job id garbageCollectProfiles
    .ok (ws.set id.workloadName wl)) ws ids

theorem jobAt_eq_ok {ws : Workloads} {id : JobIdentifier} {p : JobPtr} :
    ws.jobAt id = .ok p ↔
      ∃ wl, ws.workloads.lookup id.workloadName = some wl ∧ wl.jobs.jobs.lookup id = some p := by
  simp [jobAt, Jobs.at?_eq_ok]

theorem jobIsRegistered_eq_ok {ws : Workloads} {id : JobIdentifier} {b : Bool} :
    ws.jobIsRegistered id = .ok b ↔
      ∃ wl, ws.workloads.lookup id.workloadName = some wl ∧ wl.jobs.exists? id = b := by
  simp [jobIsRegistered]

/-- The job found under an identifier has that identifier. -/
theorem id_of_jobAt {ws : Workloads} {id : JobIdentifier} {p : JobPtr}
    (h : ws.jobAt id = .ok p) : p.id = id := by
  obtain ⟨wl, -, hp⟩ := jobAt_eq_ok.mp h
  exact wl.jobs.id_of_lookup id p hp

end Workloads

end Batsim
