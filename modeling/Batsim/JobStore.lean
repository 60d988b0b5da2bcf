import Batsim.Workloads
import Batsim.Lib.Registry

/-!
The jobs in memory as a registry: which identifiers a workload has met, which it still stores.
-/

namespace Batsim

open Checked

/-- The registry behind `_jobs_met` and `_jobs`. -/
def Jobs.registry (js : Jobs) : Registry JobIdentifier where
  met := {id | id ∈ js.jobsMet}
  live := {id | ∃ p, js.jobs.lookup id = some p}
  live_subset := fun id ⟨p, h⟩ => js.met_of_lookup id p h

theorem Jobs.registry_empty : Jobs.empty.registry = Registry.empty := by
  ext id <;> simp [Jobs.registry, Jobs.empty, Registry.empty]

theorem Jobs.registry_insert {js : Jobs} {p : JobPtr} :
    (js.insert p).registry = js.registry.enrol p.id := by
  ext id
  · simp [Jobs.registry, Registry.enrol]
  · by_cases hid : id = p.id <;> simp [Jobs.registry, Registry.enrol, Jobs.lookup_insert, hid]

theorem Jobs.registry_erase {js : Jobs} {id : JobIdentifier} :
    (js.erase id).registry = js.registry.retire id := by
  ext id'
  · simp [Jobs.registry, Registry.retire]
  · by_cases hid : id' = id <;> simp [Jobs.registry, Registry.retire, Jobs.lookup_erase, hid]

/-- The operations that change the jobs of a workload. -/
inductive StoreOp where
  | addJob (p : JobPtr)
  | loadFromJson (filename : String) (loaded : List JobPtr)
  | deleteJob (id : JobIdentifier) (garbageCollectProfiles : Bool)
deriving DecidableEq

namespace StoreOp

def apply (job : JobPtr → Job) (wl : Workload) : StoreOp → Except String Workload
  | .addJob p => do
    let jobs ← wl.jobs.addJob p
    .ok { wl with jobs := jobs }
  | .loadFromJson filename loaded => do
    let jobs ← wl.jobs.loadFromJson filename loaded
    .ok { wl with jobs := jobs }
  | .deleteJob id gc => wl.deleteJob job id gc

/-- The identifiers that an operation registers. -/
def registers : StoreOp → List JobIdentifier
  | .addJob p => [p.id]
  | .loadFromJson _ loaded => loaded.map JobPtr.id
  | .deleteJob _ _ => []

/-- What an operation is on the registry. -/
def registryOps : StoreOp → List (Registry.Op JobIdentifier)
  | .addJob p => [.enrol p.id]
  | .loadFromJson _ loaded => loaded.map fun p => .enrol p.id
  | .deleteJob id _ => [.retire id]

end StoreOp

/-- Loading stores the jobs one after the other, each under a new identifier. -/
theorem Jobs.loadFromJson_history {js js' : Jobs} {filename : String} {loaded : List JobPtr}
    (h : js.loadFromJson filename loaded = .ok js') :
    js.registry.History (loaded.map fun p => .enrol p.id) js'.registry := by
  induction loaded generalizing js with
  | nil =>
    simp only [loadFromJson, forEach_nil, Except.ok.injEq] at h
    exact h ▸ .nil
  | cons p loaded ih =>
    simp only [loadFromJson, forEach_cons, bind_eq_ok, xbtAssert_eq_ok, Except.ok.injEq] at h
    obtain ⟨_, ⟨_, hnew, rfl⟩, hrest⟩ := h
    have hmet : p.id ∉ js.registry.met := by simpa [exists?, registry] using hnew
    exact .enrol hmet (Jobs.registry_insert ▸ ih hrest)

/-- Every accepted operation is a history of the registry of its workload. -/
theorem StoreOp.apply_history {job : JobPtr → Job} {wl wl' : Workload} {op : StoreOp}
    (h : op.apply job wl = .ok wl') :
    wl.jobs.registry.History op.registryOps wl'.jobs.registry := by
  cases op with
  | addJob p =>
    simp only [apply, bind_eq_ok, Except.ok.injEq] at h
    obtain ⟨jobs, hadd, rfl⟩ := h
    obtain ⟨hmet, rfl⟩ := Jobs.addJob_eq_ok.mp hadd
    exact .enrol hmet (Jobs.registry_insert ▸ .nil)
  | loadFromJson filename loaded =>
    simp only [apply, bind_eq_ok, Except.ok.injEq] at h
    obtain ⟨jobs, hload, rfl⟩ := h
    exact Jobs.loadFromJson_history hload
  | deleteJob id gc =>
    obtain ⟨hstored, hjobs, -, -⟩ := Workload.deleteJob_cases h
    exact .retire hstored (hjobs ▸ Jobs.registry_erase ▸ .nil)

/-- An operation on the workload called `c.1` of a store. -/
def applyCall (job : JobPtr → Job) (ws : Workloads) (c : String × StoreOp) :
    Except String Workloads := do
  let wl ← ws.at? c.1
  let wl ← c.2.apply job wl
  .ok (ws.set c.1 wl)

/-- The registry operations that a sequence of calls makes on the workload called `name`. -/
def registryOpsOn (name : String) (calls : List (String × StoreOp)) :
    List (Registry.Op JobIdentifier) :=
  (calls.filter fun c => c.1 = name).flatMap fun c => c.2.registryOps

theorem retire_mem_registryOpsOn {name : String} {calls : List (String × StoreOp)}
    {id : JobIdentifier} :
    .retire id ∈ registryOpsOn name calls ↔ ∃ gc, (name, .deleteJob id gc) ∈ calls := by
  simp only [registryOpsOn, List.mem_flatMap, List.mem_filter, decide_eq_true_eq]
  constructor
  · rintro ⟨⟨n, op⟩, ⟨hmem, rfl⟩, hop⟩
    cases op with
    | addJob p => simp [StoreOp.registryOps] at hop
    | loadFromJson filename loaded => simp [StoreOp.registryOps] at hop
    | deleteJob id' gc =>
      simp only [StoreOp.registryOps, List.mem_singleton, Registry.Op.retire.injEq] at hop
      exact ⟨gc, hop ▸ hmem⟩
  · rintro ⟨gc, hmem⟩
    exact ⟨_, ⟨hmem, rfl⟩, by simp [StoreOp.registryOps]⟩

/-- A workload of the store after the calls was there before, and the calls on it are a history
of its registry. -/
theorem calls_history {job : JobPtr → Job} {start ws : Workloads}
    {calls : List (String × StoreOp)} (h : forEach (applyCall job) start calls = .ok ws)
    {name : String} {wl : Workload} (hwl : ws.workloads.lookup name = some wl) :
    ∃ wl₀, start.workloads.lookup name = some wl₀ ∧
      wl₀.jobs.registry.History (registryOpsOn name calls) wl.jobs.registry := by
  induction calls generalizing start with
  | nil =>
    simp only [forEach_nil, Except.ok.injEq] at h
    exact ⟨wl, h ▸ hwl, .nil⟩
  | cons c calls ih =>
    simp only [forEach_cons, bind_eq_ok] at h
    obtain ⟨mid, hcall, hrest⟩ := h
    obtain ⟨wl₁, hwl₁, hist⟩ := ih hrest
    simp only [applyCall, bind_eq_ok, Workloads.at?_eq_ok, Except.ok.injEq] at hcall
    obtain ⟨old, hold, new, hnew, rfl⟩ := hcall
    rw [Workloads.lookup_set] at hwl₁
    by_cases hname : name = c.1
    · simp only [hname, if_true, Option.some.injEq] at hwl₁
      subst hwl₁
      refine ⟨old, hname ▸ hold, ?_⟩
      have hops : registryOpsOn name (c :: calls) =
          c.2.registryOps ++ registryOpsOn name calls := by
        simp [registryOpsOn, hname]
      rw [hops]
      exact (StoreOp.apply_history hnew).append hist
    · rw [if_neg hname] at hwl₁
      refine ⟨wl₁, hwl₁, ?_⟩
      have hops : registryOpsOn name (c :: calls) = registryOpsOn name calls := by
        simp [registryOpsOn, Ne.symm hname]
      rwa [hops]

/-- The workload of an accepted call exists afterwards. -/
theorem exists_of_call {job : JobPtr → Job} {start ws : Workloads}
    {calls : List (String × StoreOp)} (h : forEach (applyCall job) start calls = .ok ws)
    {c : String × StoreOp} (hc : c ∈ calls) : ∃ wl, ws.workloads.lookup c.1 = some wl := by
  refine forEach_invariant
    (fun done ws => ∀ c ∈ done, ∃ wl, ws.workloads.lookup c.1 = some wl) (by simp) ?_ h c hc
  intro done c' _ t t' _ hdone hcall c hc
  simp only [applyCall, bind_eq_ok, Except.ok.injEq] at hcall
  obtain ⟨_, _, wl', _, rfl⟩ := hcall
  rw [Workloads.lookup_set]
  by_cases hname : c.1 = c'.1
  · exact ⟨wl', by rw [if_pos hname]⟩
  · rw [if_neg hname]
    rcases List.mem_append.mp hc with hc | hc
    · exact hdone c hc
    · exact absurd (by rw [List.mem_singleton.mp hc]) hname

/-- What the handlers that guard a lookup with `job_is_registered` rely on, for the identifier
`id` in the store `ws` that `calls` led to. -/
structure StoreCoherent (job : JobPtr → Job) (calls : List (String × StoreOp)) (ws : Workloads)
    (id : JobIdentifier) : Prop where
  /-- a registered job is found, and it is the one that was asked for -/
  job_at_of_registered : ws.jobIsRegistered id = .ok true → ∃ p, ws.jobAt id = .ok p ∧ p.id = id
  /-- the deletion of a job that is not stored stops on the check made for it -/
  delete_refused : ∀ wl gc, ws.at? id.workloadName = .ok wl → (∀ p, ws.jobAt id ≠ .ok p) →
    wl.deleteJob job id gc = .error
      ("Bad Jobs::delete_job call: The job with name='" ++ id.toString ++ "' does not exist.")
  /-- no operation registers an identifier a second time -/
  never_again : ∀ op, (∃ c ∈ calls, c.1 = id.workloadName ∧ id ∈ c.2.registers) →
    id ∈ op.registers → ∀ ws', applyCall job ws (id.workloadName, op) ≠ .ok ws'

theorem StoreOp.enrol_mem_registryOps {op : StoreOp} {id : JobIdentifier} :
    .enrol id ∈ op.registryOps ↔ id ∈ op.registers := by
  cases op <;> simp [registryOps, registers, eq_comm]

/-- After any calls on a store whose workloads start empty, the store is coherent for an
identifier if and only if none of the calls deleted it. -/
theorem store_coherent_iff_not_deleted {job : JobPtr → Job} {start ws : Workloads}
    {calls : List (String × StoreOp)}
    (hstart : ∀ name wl, start.workloads.lookup name = some wl → wl.jobs = .empty)
    (hrun : forEach (applyCall job) start calls = .ok ws) (id : JobIdentifier) :
    StoreCoherent job calls ws id ↔ ∀ gc, (id.workloadName, .deleteJob id gc) ∉ calls := by
  -- the registry of the workload that the identifier names, from the empty one
  have hlive : ∀ wl, ws.workloads.lookup id.workloadName = some wl →
      Registry.empty.History (registryOpsOn id.workloadName calls) wl.jobs.registry := by
    intro wl hwl
    obtain ⟨wl₀, hwl₀, hist⟩ := calls_history hrun hwl
    rwa [hstart _ _ hwl₀, Jobs.registry_empty] at hist
  constructor
  · intro hco gc hdel
    have hretire := retire_mem_registryOpsOn.mpr ⟨gc, hdel⟩
    obtain ⟨wl, hwl⟩ := exists_of_call hrun hdel
    have hreg : ws.jobIsRegistered id = .ok true := by
      rw [Workloads.jobIsRegistered_eq_ok]
      exact ⟨wl, hwl, Jobs.exists?_eq_true.mpr ((hlive wl hwl).met_of_retire hretire)⟩
    obtain ⟨p, hp, -⟩ := hco.job_at_of_registered hreg
    obtain ⟨wl', hwl', hp⟩ := Workloads.jobAt_eq_ok.mp hp
    cases hwl.symm.trans hwl'
    exact ((hlive wl hwl).live_iff_of_empty.mp ⟨p, hp⟩).2 hretire
  · intro hnot
    have hstored : ∀ wl, ws.workloads.lookup id.workloadName = some wl → id ∈ wl.jobs.jobsMet →
        ∃ p, wl.jobs.jobs.lookup id = some p := by
      intro wl hwl hmet
      refine (hlive wl hwl).live_iff_of_empty.mpr ⟨hmet, fun hretire => ?_⟩
      obtain ⟨gc, hdel⟩ := retire_mem_registryOpsOn.mp hretire
      exact hnot gc hdel
    refine ⟨?_, ?_, ?_⟩
    · intro hreg
      obtain ⟨wl, hwl, hmet⟩ := Workloads.jobIsRegistered_eq_ok.mp hreg
      obtain ⟨p, hp⟩ := hstored wl hwl (by simpa using hmet)
      exact ⟨p, Workloads.jobAt_eq_ok.mpr ⟨wl, hwl, hp⟩, wl.jobs.id_of_lookup id p hp⟩
    · intro wl gc hwl hnone
      have hmet : id ∉ wl.jobs.jobsMet := by
        intro hmet
        obtain ⟨p, hp⟩ := hstored wl (by simpa using hwl) hmet
        exact hnone p (Workloads.jobAt_eq_ok.mpr ⟨wl, by simpa using hwl, hp⟩)
      have hexists : ¬ wl.jobs.exists? id = true := by simpa using hmet
      simp [Workload.deleteJob, Jobs.deleteJob, xbtAssert, require, hexists, bind, Except.bind]
    · rintro op ⟨c, hc, hname, hused⟩ hagain ws' hcall
      simp only [applyCall, bind_eq_ok, Workloads.at?_eq_ok] at hcall
      obtain ⟨wl, hwl, wl', happly, -⟩ := hcall
      have hop := (StoreOp.apply_history happly).met_of_enrol
        (StoreOp.enrol_mem_registryOps.mpr hagain)
      refine hop.2 ((hlive wl hwl).met_of_enrol ?_).1
      exact List.mem_flatMap.mpr ⟨c, by simp [hc, hname],
        StoreOp.enrol_mem_registryOps.mpr hused⟩

section deletion

private def keptId : JobIdentifier where
  workloadName := "w0"
  jobName := "1"
  lexically_valid := JobIdentifier.first_valid

private def deletedId : JobIdentifier where
  workloadName := "w0"
  jobName := "2"

private def delayJob : JobPtr → Job := fun _ =>
  { profile := { name := "d10", type := .delay }, submissionTime := 0, requestedNbRes := 1 }

private def emptyStore : Workloads :=
  ⟨AList.singleton "w0" { name := "w0", isStatic := true, jobs := .empty, profiles := .empty }⟩

private theorem emptyStore_jobs (name : String) (wl : Workload)
    (h : emptyStore.workloads.lookup name = some wl) : wl.jobs = .empty := by
  by_cases hname : name = "w0"
  · subst hname
    have hw0 : emptyStore.workloads.lookup "w0" =
        some { name := "w0", isStatic := true, jobs := .empty, profiles := .empty } := rfl
    rw [hw0, Option.some.injEq] at h
    rw [← h]
  · rw [AList.lookup_eq_none.mpr (by simpa [emptyStore, AList.mem_keys] using hname)] at h
    cases h

/-- Two jobs registered and the second one deleted. -/
private def registerTwoDeleteOne : List (String × StoreOp) :=
  [("w0", .addJob ⟨"w0", keptId⟩), ("w0", .addJob ⟨"w0", deletedId⟩), ("w0", .deleteJob deletedId false)]

theorem store_coherent_for_kept_job : ∃ ws,
    forEach (applyCall delayJob) emptyStore registerTwoDeleteOne = .ok ws ∧
      StoreCoherent delayJob registerTwoDeleteOne ws keptId := by
  cases hrun : forEach (applyCall delayJob) emptyStore registerTwoDeleteOne with
  | error e => cases hrun
  | ok ws =>
    exact ⟨ws, rfl, (store_coherent_iff_not_deleted emptyStore_jobs hrun keptId).mpr (by decide)⟩

/-- The deleted job is still registered, but looking it up aborts, and deleting it again
dereferences the null pointer that `operator[]` made. -/
theorem deleted_job_is_registered_but_not_found : ∃ ws,
    forEach (applyCall delayJob) emptyStore registerTwoDeleteOne = .ok ws ∧
      ws.jobIsRegistered deletedId = .ok true ∧
      ws.jobAt deletedId = .error "Cannot get job 'w0!2': it does not exist" ∧
      applyCall delayJob ws ("w0", .deleteJob deletedId false) = .error "null pointer dereference" ∧
      ¬ StoreCoherent delayJob registerTwoDeleteOne ws deletedId := by
  refine ⟨_, rfl, rfl, rfl, rfl, fun hco => ?_⟩
  obtain ⟨p, hp, -⟩ := hco.job_at_of_registered rfl
  cases hp

end deletion

end Batsim
