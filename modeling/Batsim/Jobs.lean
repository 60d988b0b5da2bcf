import Batsim.Basic

namespace Batsim

open Checked

/-- `JobIdentifier`: a workload name and a job name, neither with a `'!'`. -/
structure JobIdentifier where
  workloadName : String
  jobName : String
  lexically_valid : '!' ∉ workloadName.toList ∧ '!' ∉ jobName.toList := by decide
deriving DecidableEq

/-- The names of the first job of the first workload. -/
theorem JobIdentifier.first_valid : '!' ∉ "w0".toList ∧ '!' ∉ "1".toList := by decide

def JobIdentifier.toString (id : JobIdentifier) : String :=
  id.workloadName ++ "!" ++ id.jobName

/-- `is_lexically_valid`: the reason why two names make no identifier, empty when they do. -/
def lexicalReason (workloadName jobName : String) : String :=
  (if '!' ∈ workloadName.toList then
    "Invalid workload_name '" ++ workloadName ++ "': contains a '!'." else "") ++
  (if '!' ∈ jobName.toList then
    "Invalid job_name '" ++ jobName ++ "': contains a '!'." else "")

/-- The constructor from two names, with `check_lexically_valid`. -/
def JobIdentifier.make (workloadName jobName : String) : Except String JobIdentifier :=
  if h : '!' ∉ workloadName.toList ∧ '!' ∉ jobName.toList then .ok ⟨workloadName, jobName, h⟩
  else .error (lexicalReason workloadName jobName)

theorem JobIdentifier.make_eq_ok {w n : String} {id : JobIdentifier} (h : make w n = .ok id) :
    id.workloadName = w ∧ id.jobName = n := by
  unfold make at h
  split at h
  · rw [Except.ok.injEq] at h
    subst h
    exact ⟨rfl, rfl⟩
  · cases h

private theorem append_bang_inj {a b c d : List Char} (ha : '!' ∉ a) (hc : '!' ∉ c)
    (h : a ++ '!' :: b = c ++ '!' :: d) : a = c ∧ b = d := by
  induction a generalizing c with
  | nil =>
    cases c with
    | nil => simpa using h
    | cons y c =>
      simp only [List.nil_append, List.cons_append, List.cons.injEq] at h
      simp [← h.1] at hc
  | cons x a ih =>
    cases c with
    | nil =>
      simp only [List.nil_append, List.cons_append, List.cons.injEq] at h
      simp [h.1] at ha
    | cons y c =>
      simp only [List.mem_cons, not_or, List.cons_append, List.cons.injEq] at ha hc h
      obtain ⟨hac, hbd⟩ := ih ha.2 hc.2 h.2
      exact ⟨by rw [h.1, hac], hbd⟩

/-- `operator==` compares representations; that is to compare both names. -/
theorem JobIdentifier.toString_inj {id id' : JobIdentifier} :
    id.toString = id'.toString ↔ id = id' := by
  constructor
  · intro h
    have hlist := congrArg String.toList h
    simp only [toString, String.toList_append, List.append_assoc] at hlist
    obtain ⟨hw, hj⟩ := append_bang_inj id.lexically_valid.1 id'.lexically_valid.1 hlist
    cases id
    cases id'
    simp only [JobIdentifier.mk.injEq]
    exact ⟨String.toList_inj.mp hw, String.toList_inj.mp hj⟩
  · exact congrArg toString

inductive JobState where
  | notSubmitted
  | submitted
  | running
  | completedSuccessfully
  | completedFailed
  | completedWalltimeReached
  | completedKilled
  | rejected
deriving DecidableEq, Repr

/-- `job_state_to_string` -/
def jobStateToString : JobState → String
  | .notSubmitted => "NOT_SUBMITTED"
  | .submitted => "SUBMITTED"
  | .running => "RUNNING"
  | .completedSuccessfully => "COMPLETED_SUCCESSFULLY"
  | .completedFailed => "COMPLETED_FAILED"
  | .completedWalltimeReached => "COMPLETED_WALLTIME_REACHED"
  | .completedKilled => "COMPLETED_KILLED"
  | .rejected => "REJECTED"

/-- `job_state_from_string` -/
def jobStateFromString (state : String) : Except String JobState :=
  if state = "NOT_SUBMITTED" then .ok .notSubmitted
  else if state = "SUBMITTED" then .ok .submitted
  else if state = "RUNNING" then .ok .running
  else if state = "COMPLETED_SUCCESSFULLY" then .ok .completedSuccessfully
  else if state = "COMPLETED_FAILED" then .ok .completedFailed
  else if state = "COMPLETED_KILLED" then .ok .completedKilled
  else if state = "COMPLETED_WALLTIME_REACHED" then .ok .completedWalltimeReached
  else if state = "REJECTED" then .ok .rejected
  else .error "Invalid job state"

inductive ProfileType where
  | delay
  | parallel
  | parallelHomogeneous
  | parallelHomogeneousTotalAmount
  | smpi
  | usageTrace
  | sequence
  | parallelHomogeneousPfs
  | dataStaging
  | schedulerSend
  | schedulerRecv
deriving DecidableEq, Repr

/-- What a sequence knows of the profiles in its `profile_sequence`. -/
structure SubProfile where
  name : String
  type : ProfileType
deriving DecidableEq, Repr

structure Profile where
  name : String
  type : ProfileType
  /-- the sub-profiles of a `SEQUENCE` -/
  profileSequence : List SubProfile := []
  /-- the number of resources of a `PARALLEL` profile -/
  nbRes : Nat := 0
  jsonDescription : String := ""
deriving DecidableEq, Repr

/-- The profiles of a workload; a removed profile keeps its name and loses its value. -/
structure Profiles where
  profiles : AList (fun _ : String => Option Profile)

namespace Profiles

def empty : Profiles := ⟨∅⟩

def exists? (ps : Profiles) (name : String) : Bool :=
  (ps.profiles.lookup name).isSome

def at? (ps : Profiles) (name : String) : Except String Profile :=
  match ps.profiles.lookup name with
  | none => .error ("Cannot get profile '" ++ name ++ "': it does not exist")
  | some none => .error ("Cannot get profile '" ++ name ++
      "': it existed some time ago but is no longer accessible")
  | some (some p) => .ok p

def addProfile (ps : Profiles) (name : String) (p : Profile) : Except String Profiles := do
  xbtAssert (ps.exists? name = false)
    ("Bad Profiles::add_profile call: A profile with name='" ++ name ++ "' already exists.")
  .ok ⟨ps.profiles.insert name (some p)⟩

/-- `remove_profile`, with the depth of its recursion bounded. A profile loses its value after
its sub-profiles did, so a recursion deeper than the number of profiles never ends. -/
def removeProfileFrom : Nat → Profiles → String → Except String Profiles
  | 0, _, _ => .error "stack overflow"
  | depth + 1, ps, name =>
    match ps.profiles.lookup name with
    | none => .error ("Bad Profiles::remove_profile call: Profile with name='" ++ name ++
        "' never existed in this workload.")
    | some none => .ok ps
    | some (some p) => do
      let ps ← (if p.type = .sequence
        then forEach (fun ps sub => removeProfileFrom depth ps sub.name) ps p.profileSequence
        else .ok ps)
      .ok ⟨ps.profiles.insert name none⟩

def nbProfiles (ps : Profiles) : Nat := ps.profiles.keys.length

def removeProfile (ps : Profiles) (name : String) : Except String Profiles :=
  removeProfileFrom (ps.nbProfiles + 1) ps name

end Profiles

/-- A pointer to a job object: no workload ever holds two jobs of one identifier, so the workload
the object was made in and its identifier tell which object it is. -/
structure JobPtr where
  workload : String
  id : JobIdentifier
deriving DecidableEq

/-- `Job::id` and `Job::workload` never change and are in the pointer; the rest is here. -/
structure Job where
  profile : Profile
  submissionTime : Date
  walltime : Date := -1
  requestedNbRes : Nat
  jsonDescription : String := ""
  state : JobState := .notSubmitted
  killRequested : Bool := false
  startingTime : Date := -1
  runtime : Date := -1
  returnCode : Int := -1
  allocation : IntervalSet := .empty
  metadata : String := ""
  incomingMessageBuffer : List String := []
  /-- the actor whose task tree `task` points to, if any -/
  task : Option Nat := none
  /-- the actors in `execution_actors`, by number -/
  executionActors : List Nat := []
deriving DecidableEq

def JobState.isComplete : JobState → Bool
  | .completedSuccessfully | .completedKilled | .completedFailed | .rejected
  | .completedWalltimeReached => true
  | .notSubmitted | .submitted | .running => false

def Job.isComplete (j : Job) : Bool := j.state.isComplete

/-- `Jobs`: the jobs in memory by identifier, and every identifier ever met. -/
structure Jobs where
  jobs : AList (fun _ : JobIdentifier => JobPtr)
  jobsMet : List JobIdentifier
  id_of_lookup : ∀ id p, jobs.lookup id = some p → p.id = id
  met_of_lookup : ∀ id p, jobs.lookup id = some p → id ∈ jobsMet

namespace Jobs

def empty : Jobs where
  jobs := ∅
  jobsMet := []
  id_of_lookup := by simp
  met_of_lookup := by simp

def exists? (js : Jobs) (id : JobIdentifier) : Bool := decide (id ∈ js.jobsMet)

@[simp] theorem exists?_eq_true {js : Jobs} {id : JobIdentifier} :
    js.exists? id = true ↔ id ∈ js.jobsMet := by
  simp [exists?]

/-- `Jobs::at` and `operator[]` -/
def at? (js : Jobs) (id : JobIdentifier) : Except String JobPtr :=
  match js.jobs.lookup id with
  | none => .error ("Cannot get job '" ++ id.toString ++ "': it does not exist")
  | some p => .ok p

theorem at?_eq_ok {js : Jobs} {id : JobIdentifier} {p : JobPtr} :
    js.at? id = .ok p ↔ js.jobs.lookup id = some p := by
  unfold at?
  cases js.jobs.lookup id <;> simp

/-- `_jobs[job->id] = job; _jobs_met.insert(job->id)` -/
def insert (js : Jobs) (p : JobPtr) : Jobs where
  jobs := js.jobs.insert p.id p
  jobsMet := p.id :: js.jobsMet
  id_of_lookup := by
    intro id q h
    by_cases hid : id = p.id
    · subst hid
      simp only [AList.lookup_insert, Option.some.injEq] at h
      rw [h]
    · rw [AList.lookup_insert_ne hid] at h
      exact js.id_of_lookup id q h
  met_of_lookup := by
    intro id q h
    by_cases hid : id = p.id
    · simp [hid]
    · rw [AList.lookup_insert_ne hid] at h
      exact List.mem_cons_of_mem _ (js.met_of_lookup id q h)

/-- `_jobs.erase(job_id)` -/
def erase (js : Jobs) (id : JobIdentifier) : Jobs where
  jobs := js.jobs.erase id
  jobsMet := js.jobsMet
  id_of_lookup := by
    intro id' q h
    by_cases hid : id' = id
    · rw [hid, AList.lookup_erase] at h
      cases h
    · rw [AList.lookup_erase_ne hid] at h
      exact js.id_of_lookup id' q h
  met_of_lookup := by
    intro id' q h
    by_cases hid : id' = id
    · rw [hid, AList.lookup_erase] at h
      cases h
    · rw [AList.lookup_erase_ne hid] at h
      exact js.met_of_lookup id' q h

@[simp] theorem jobsMet_insert {js : Jobs} {p : JobPtr} :
    (js.insert p).jobsMet = p.id :: js.jobsMet := rfl

@[simp] theorem jobsMet_erase {js : Jobs} {id : JobIdentifier} :
    (js.erase id).jobsMet = js.jobsMet := rfl

theorem lookup_insert {js : Jobs} {p : JobPtr} {id : JobIdentifier} :
    (js.insert p).jobs.lookup id = if id = p.id then some p else js.jobs.lookup id := by
  split
  · next h => rw [h, insert, AList.lookup_insert]
  · next h => rw [insert, AList.lookup_insert_ne h]

theorem lookup_erase {js : Jobs} {id id' : JobIdentifier} :
    (js.erase id).jobs.lookup id' = if id' = id then none else js.jobs.lookup id' := by
  split
  · next h => rw [h, erase, AList.lookup_erase]
  · next h => rw [erase, AList.lookup_erase_ne h]

def addJob (js : Jobs) (p : JobPtr) : Except String Jobs := do
  xbtAssert (js.exists? p.id = false)
    ("Bad Jobs::add_job call: A job with name='" ++ p.id.toString ++ "' already exists.")
  .ok (js.insert p)

/-- `Jobs::load_from_json`, once the jobs are read: the loop that stores them. -/
def loadFromJson (js : Jobs) (filename : String) (loaded : List JobPtr) : Except String Jobs :=
  forEach (fun js p => do
    xbtAssert (js.exists? p.id = false)
      ("Invalid JSON file '" ++ filename ++ "': duplication of job id '" ++ p.id.toString ++ "'")
    .ok (js.insert p)) js loaded

/-- `Jobs::delete_job` as far as the jobs go: the job that is forgotten is returned, since the
caller reads the name of its profile. `_jobs[job_id]->profile` is read before the erasure, and
`operator[]` gives a null pointer for an identifier that is not stored. -/
def deleteJob (js : Jobs) (id : JobIdentifier) : Except String (Jobs × JobPtr) := do
  xbtAssert (js.exists? id = true)
    ("Bad Jobs::delete_job call: The job with name='" ++ id.toString ++ "' does not exist.")
  match js.jobs.lookup id with
  | none => .error "null pointer dereference"
  | some p => .ok (js.erase id, p)

theorem addJob_eq_ok {js js' : Jobs} {p : JobPtr} :
    js.addJob p = .ok js' ↔ p.id ∉ js.jobsMet ∧ js' = js.insert p := by
  simp only [addJob, bind_eq_ok, xbtAssert_eq_ok, exists?, decide_eq_false_iff_not]
  simp [eq_comm]

theorem deleteJob_eq_ok {js js' : Jobs} {id : JobIdentifier} {p : JobPtr} :
    js.deleteJob id = .ok (js', p) ↔ js.jobs.lookup id = some p ∧ js' = js.erase id := by
  simp only [deleteJob, bind_eq_ok, xbtAssert_eq_ok]
  cases h : js.jobs.lookup id with
  | none => simp
  | some q =>
    have hmet := js.met_of_lookup id q h
    simp only [exists?_eq_true, hmet, true_and, exists_const, Except.ok.injEq, Prod.mk.injEq,
      Option.some.injEq]
    constructor
    · rintro ⟨rfl, rfl⟩
      exact ⟨rfl, rfl⟩
    · rintro ⟨rfl, rfl⟩
      exact ⟨rfl, rfl⟩

end Jobs

end Batsim
