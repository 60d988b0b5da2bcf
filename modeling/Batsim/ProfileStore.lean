import Batsim.Lib.RefCount
import Batsim.Tasks

/-!
The profiles of a workload: how a workload file is loaded, and what registrations and deletions do
to its profiles afterwards.
-/

namespace Batsim

open Checked

/-- A job of a workload file or of a registration, as far as its profile goes. -/
structure JobEntry where
  id : JobIdentifier
  profile : String
  res : Nat
deriving DecidableEq

/-- A workload file, once parsed. -/
structure WorkloadFile where
  profiles : List ProfileObject
  jobs : List JobEntry

/-- The profiles of a workload and the profiles of its jobs. Objects are never moved, and stay
here when they are destroyed. -/
structure ProfileStore where
  objects : List ProfileObject := []
  profiles : AList (fun _ : String => Option ProfilePtr) := ∅
  jobs : AList (fun _ : JobIdentifier => ProfilePtr) := ∅
  jobsMet : List JobIdentifier := []
  /-- the profiles of the jobs deleted with their profiles; nothing in the program reads them -/
  deleted : List String := []

/-- `Profile::from_json` leaves `profile_sequence` empty. -/
def ProfileObject.fromJson (p : ProfileObject) : ProfileObject :=
  match p.data with
  | .sequence d => { p with data := .sequence { d with profileSequence := [] } }
  | _ => p

namespace ProfileStore

/-- `Profiles::exists` -/
def exists? (s : ProfileStore) (name : String) : Bool := (s.profiles.lookup name).isSome

/-- `Profiles::at` -/
def at? (s : ProfileStore) (name : String) : Except String ProfilePtr :=
  match s.profiles.lookup name with
  | none => .error ("Cannot get profile '" ++ name ++ "': it does not exist")
  | some none => .error ("Cannot get profile '" ++ name ++
      "': it existed some time ago but is no longer accessible")
  | some (some p) => .ok p

/-- `profiles->at`, with the object that the pointer leads to -/
def profileAt (s : ProfileStore) (name : String) : Except String ProfileObject := do
  let p ← s.at? name
  vectorAt s.objects p

/-- The references that an object holds. -/
def subs (s : ProfileStore) (p : ProfilePtr) : List ProfilePtr :=
  match s.objects[p]? with
  | some { data := .sequence d, .. } => d.profileSequence
  | _ => []

/-- A new object, known under its name. -/
def add (s : ProfileStore) (p : ProfileObject) : ProfileStore :=
  { s with
    objects := s.objects ++ [p.fromJson]
    profiles := s.profiles.insert p.name (some s.objects.length) }

/-- The name loses its object. -/
def forget (s : ProfileStore) (name : String) : ProfileStore :=
  { s with profiles := s.profiles.insert name none }

/-- `Profiles::load_from_json` -/
def loadProfiles (filename : String) (s : ProfileStore) (ps : List ProfileObject) :
    Except String ProfileStore :=
  forEach (fun s p => do
    xbtAssert (s.exists? p.name = false)
      ("Invalid JSON file '" ++ filename ++ "': duplication of profile name '" ++ p.name ++ "'")
    .ok (s.add p)) s ps

/-- The profile that `Job::from_json` gives a job. -/
def profileOfJob (s : ProfileStore) (errorPrefix : String) (j : JobEntry) :
    Except String ProfilePtr := do
  xbtAssert (s.exists? j.profile = true)
    (errorPrefix ++ ": the profile " ++ j.profile ++ " for job " ++ j.id.toString ++
      " does not exist")
  s.at? j.profile

def insertJob (s : ProfileStore) (id : JobIdentifier) (p : ProfilePtr) : ProfileStore :=
  { s with jobs := s.jobs.insert id p, jobsMet := id :: s.jobsMet }

/-- `Jobs::load_from_json` -/
def loadJobs (filename : String) (s : ProfileStore) (js : List JobEntry) :
    Except String ProfileStore :=
  forEach (fun s j => do
    let p ← s.profileOfJob ("Invalid JSON file '" ++ filename ++ "'") j
    xbtAssert (j.id ∉ s.jobsMet)
      ("Invalid JSON file '" ++ filename ++ "': duplication of job id '" ++ j.id.toString ++ "'")
    .ok (s.insertJob j.id p)) s js

/-- The turn of the first loop of `check_validity` for the profile under `name`. -/
def resolve (s : ProfileStore) (name : String) : Except String ProfileStore := do
  let p ← s.at? name
  let object ← vectorAt s.objects p
  match object.data with
  | .sequence d => do
    let ps ← collect (fun sub => do
      xbtAssert (s.exists? sub = true)
        ("Invalid composed profile '" ++ name ++ "': the used profile '" ++ sub ++
          "' does not exist")
      s.at? sub) d.sequence
    .ok { s with objects := s.objects.set p { object with
      data := .sequence { d with profileSequence := d.profileSequence ++ ps } } }
  | _ => .ok s

/-- `check_single_job_validity` -/
def checkSingleJobValidity (s : ProfileStore) (j : JobEntry) (p : ProfilePtr) :
    Except String Unit := do
  let object ← vectorAt s.objects p
  xbtAssert (s.exists? object.name = true)
    ("Invalid job " ++ j.id.toString ++ ": the associated profile '" ++ object.name ++
      "' does not exist")
  match object.data with
  | .parallelTask .parallel nbRes _ =>
    xbtAssert (nbRes = j.res)
      ("Invalid job " ++ j.id.toString ++ ": the requested number of resources do NOT match the" ++
        " number of resources of the associated profile '" ++ object.name ++ "'")
  | _ => .ok ()

/-- `Workload::check_validity` -/
def checkValidity (s : ProfileStore) (js : List JobEntry) : Except String ProfileStore := do
  let s ← forEach resolve s s.profiles.keys
  forEach (fun s j => do
    match s.jobs.lookup j.id with
    | none => .error "the job was not loaded"
    | some p => do
      s.checkSingleJobValidity j p
      .ok s) s js

/-- `use_count`: the references of the profiles, of the jobs and of the composed profiles. -/
def useCount (s : ProfileStore) (p : ProfilePtr) : Nat :=
  s.profiles.entries.countP (fun e => e.2 = some p) + s.jobs.entries.countP (fun e => e.2 = p) +
    RefCount.heldInside s.subs (Finset.range s.objects.length) (fun _ => 1) p

/-- One turn of the loop of `remove_unreferenced_profiles`. -/
def removeUnreferenced (r : ProfileStore × (ProfilePtr → Nat)) (name : String) :
    ProfileStore × (ProfilePtr → Nat) :=
  let (s, counts) := r
  match s.profiles.lookup name with
  | some (some p) =>
    if counts p < 2 then
      (s.forget name, RefCount.release s.subs
        ((Finset.range s.objects.length).sum counts) counts [p])
    else (s, counts)
  | _ => (s, counts)

/-- `Profiles::remove_unreferenced_profiles`; `order` is the order in which the map is iterated. -/
def removeUnreferencedProfiles (s : ProfileStore) (order : List String) : ProfileStore :=
  (order.foldl removeUnreferenced (s, s.useCount)).1

/-- `Workload::load_from_json` -/
def loadFromJson (filename : String) (order : List String) (file : WorkloadFile) :
    Except String ProfileStore := do
  let s ← loadProfiles filename {} file.profiles
  let s ← loadJobs filename s file.jobs
  let s ← s.checkValidity file.jobs
  .ok (s.removeUnreferencedProfiles order)

/-- `Profiles::remove_profile`, with the depth of its recursion bounded -/
def removeProfile : Nat → ProfileStore → String → Except String ProfileStore
  | 0, _, _ => .error "stack overflow"
  | depth + 1, s, name =>
    match s.profiles.lookup name with
    | none => .error ("Bad Profiles::remove_profile call: Profile with name='" ++ name ++
        "' never existed in this workload.")
    | some none => .ok s
    | some (some p) => do
      let s ← forEach (fun s sub => do
        let object ← vectorAt s.objects sub
        removeProfile depth s object.name) s (s.subs p)
      .ok (s.forget name)

/-- `Jobs::delete_job` -/
def deleteJob (s : ProfileStore) (id : JobIdentifier) (garbageCollectProfiles : Bool) :
    Except String ProfileStore := do
  xbtAssert (id ∈ s.jobsMet)
    ("Bad Jobs::delete_job call: The job with name='" ++ id.toString ++ "' does not exist.")
  match s.jobs.lookup id with
  | none => .error "null pointer dereference"
  | some p => do
    let object ← vectorAt s.objects p
    let s := { s with jobs := s.jobs.erase id }
    if garbageCollectProfiles = true then do
      let s ← removeProfile (s.objects.length + 1) s object.name
      .ok { s with deleted := object.name :: s.deleted }
    else .ok s

end ProfileStore

/-- What happens to a workload once it is loaded: profiles registered by the scheduler, alone or
with an additional IO job, or made for the task of a workflow, jobs that are registered, and jobs
that are deleted. -/
inductive ProfileOp where
  | registerProfile (p : ProfileObject)
  | registerJob (j : JobEntry)
  | deleteJob (id : JobIdentifier) (garbageCollectProfiles : Bool)

/-- `handle_register_profile`, the same part of `handle_execute_job`, `handle_register_job` and
`delete_job` -/
def ProfileStore.apply (s : ProfileStore) : ProfileOp → Except String ProfileStore
  | .registerProfile p => do
    xbtAssert (s.exists? p.name = false)
      ("Invalid new profile registration: profile '" ++ p.name ++ "' already existed")
    .ok (s.add p)
  | .registerJob j => do
    xbtAssert (j.id ∉ s.jobsMet)
      ("Cannot register new job '" ++ j.id.toString ++ "', it already exists in the workload.")
    let p ← s.profileOfJob "Invalid JSON job submitted by the scheduler" j
    s.checkSingleJobValidity j p
    .ok (s.insertJob j.id p)
  | .deleteJob id gc => s.deleteJob id gc

/-! ### What the operations leave alone -/

@[simp] theorem ProfileObject.fromJson_name (p : ProfileObject) : p.fromJson.name = p.name := by
  unfold ProfileObject.fromJson
  split <;> rfl

theorem ProfileObject.fromJson_data {p : ProfileObject} {d : SequenceProfileData}
    (h : p.fromJson.data = .sequence d) : d.profileSequence = [] := by
  unfold ProfileObject.fromJson at h
  split at h
  · cases h
    rfl
  · rename_i hother
    exact absurd h (hother d)

namespace ProfileStore

variable {s s' : ProfileStore} {name : String} {p : ProfilePtr}

theorem at?_eq_ok : s.at? name = .ok p ↔ s.profiles.lookup name = some (some p) := by
  unfold at?
  cases s.profiles.lookup name with
  | none => simp
  | some q =>
    cases q with
    | none => simp
    | some q => simp

/-- Removing profiles is forgetting some of their names. -/
theorem removeUnreferencedProfiles_rule (P : ProfileStore → Prop) {order : List String} (h : P s)
    (hforget : ∀ t name, P t → P (t.forget name)) : P (s.removeUnreferencedProfiles order) := by
  unfold removeUnreferencedProfiles
  generalize s.useCount = counts
  induction order generalizing s counts with
  | nil => exact h
  | cons name order ih =>
    rw [List.foldl_cons]
    obtain ⟨t, counts', ht⟩ : ∃ t counts', removeUnreferenced (s, counts) name = (t, counts') :=
      ⟨_, _, rfl⟩
    have hkept : P t := by
      unfold removeUnreferenced at ht
      dsimp only at ht
      split at ht
      · split at ht
        · cases ht
          exact hforget s name h
        · cases ht
          exact h
      · cases ht
        exact h
    rw [ht]
    exact ih hkept counts'

theorem removeProfile_rule (P : ProfileStore → Prop)
    (hforget : ∀ t name, P t → P (t.forget name)) (depth : Nat) (h : P s)
    (hrun : removeProfile depth s name = .ok s') : P s' := by
  induction depth generalizing s s' name with
  | zero => cases hrun
  | succ depth ih =>
    unfold removeProfile at hrun
    split at hrun
    · cases hrun
    · cases hrun
      exact h
    · simp only [bind_eq_ok, Except.ok.injEq] at hrun
      obtain ⟨t, hloop, rfl⟩ := hrun
      refine hforget t name (forEach_preserves (P := P) h ?_ hloop)
      intro q _ t t' ht hstep
      simp only [bind_eq_ok] at hstep
      obtain ⟨object, -, hremove⟩ := hstep
      exact ih ht hremove

theorem removeProfile_objects {depth : Nat} (h : removeProfile depth s name = .ok s') :
    s'.objects = s.objects :=
  removeProfile_rule (fun t => t.objects = s.objects) (fun _ _ ht => ht) depth rfl h

theorem removeProfile_deleted {depth : Nat} (h : removeProfile depth s name = .ok s') :
    s'.deleted = s.deleted :=
  removeProfile_rule (fun t => t.deleted = s.deleted) (fun _ _ ht => ht) depth rfl h

theorem deleteJob_rule (P : ProfileStore → Prop) {id : JobIdentifier} {gc : Bool}
    (herase : P { s with jobs := s.jobs.erase id })
    (hforget : ∀ t name, P t → P (t.forget name))
    (hdeleted : ∀ t name, P t → P { t with deleted := name :: t.deleted })
    (hrun : s.deleteJob id gc = .ok s') : P s' := by
  simp only [deleteJob, bind_eq_ok] at hrun
  obtain ⟨-, -, hrun⟩ := hrun
  split at hrun
  · cases hrun
  · simp only [bind_eq_ok] at hrun
    obtain ⟨object, -, hrun⟩ := hrun
    split at hrun
    · simp only [bind_eq_ok, Except.ok.injEq] at hrun
      obtain ⟨t, hremove, rfl⟩ := hrun
      exact hdeleted t _ (removeProfile_rule P hforget _ herase hremove)
    · cases hrun
      exact herase

end ProfileStore

end Batsim
