import Batsim.ExecutorMappings

/-!
Which data of an `EXECUTE_JOB` event are accepted, and what is made of them.
-/

namespace Batsim

open Checked Json

/-! ### The data of the event -/

namespace ExecuteReader

section requests

variable {N : Type} (x : ExecuteReader N)

/-- The members of the data that the documentation tells of. -/
def documentedMembers : List String :=
  ["job_id", "alloc", "mapping", "storage_mapping", "additional_io_job"]

/-- The resources that the data allocates; their number is an `int`. -/
def AllocatedTo (data : Value N) (machineIds : IntervalSet) : Prop :=
  ∃ s, data.member? "alloc" = some (.str s) ∧ x.fromStringHyphen (cString s) = .ok machineIds ∧
    0 < machineIds.size ∧ machineIds.size < 2 ^ 31

/-- The IO profile that an `additional_io_job` names: a new one, that it describes, or one that
the workload has. -/
inductive IoProfileOf (store : ProfileStore) (v : Value N) (name : String) :
    ProfileObject → Prop where
  | described {ms : List (String × Value N)} {data : ProfileData} {returnCode : Int}
      (hprofile : v.member? "profile" = some (.obj ms))
      (hnew : store.profiles.lookup name = none)
      (hread : x.profileFromJson name (write x.num.toNumberFormat (.obj ms)) =
        .ok (data, returnCode)) :
      IoProfileOf store v name { name := name, data := data, returnCode := returnCode }
  | known {q : ProfilePtr} {object : ProfileObject} (hprofile : v.member? "profile" = none)
      (hlookup : store.profiles.lookup name = some (some q))
      (hobject : store.objects[q]? = some object) : IoProfileOf store v name object

/-- A well-formed `additional_io_job`, for a job with the profile `p`. -/
structure WellFormedIoJob (store : ProfileStore) (p : ProfilePtr) (v : Value N) : Prop where
  alloc : ∃ s ioAllocation, v.member? "alloc" = some (.str s) ∧
    x.fromStringHyphen (cString s) = .ok ioAllocation
  profile : ∃ s object, v.member? "profile_name" = some (.str s) ∧
    x.IoProfileOf store v (cString s) object ∧
    -- two composed profiles that have as many parts, or an IO profile that is not composed
    ∀ ioData, object.data = .sequence ioData → ∃ jobObject d, store.objects[p]? = some jobObject ∧
      jobObject.data = .sequence d ∧ d.sequence.length = ioData.sequence.length

/-- An object with documented members only, each once and well formed, for a job of the workloads
whose profile is `p`. -/
structure WellFormed (ws : ProfileStores) (data : Value N) (job : JobIdentifier)
    (store : ProfileStore) (p : ProfilePtr) : Prop where
  object : isObject data = true
  nodup : ((members data).map Prod.fst).Nodup
  documented : ∀ m ∈ members data, m.1 ∈ documentedMembers
  job_id : ∃ s, data.member? "job_id" = some (.str s) ∧ JobIdentifier.parse (cString s) = .ok job
  workload : ws.lookup job.workloadName = some store
  stored : store.jobs.lookup job = some p
  alloc : ∃ machineIds, x.AllocatedTo data machineIds
  mapping : ∀ machineIds v, x.AllocatedTo data machineIds → data.member? "mapping" = some v →
    ∃ ms f, v = .obj ms ∧ DescribesMapping x.num machineIds.size ms f
  storage_mapping : ∀ v, data.member? "storage_mapping" = some v → ∃ ms, v = .obj ms ∧ ms ≠ [] ∧
    ∀ m ∈ ms, isInt x.num m.2 = true
  additional_io_job : ∀ v, data.member? "additional_io_job" = some v →
    x.WellFormedIoJob store p v

/-- An object that the documentation allows. -/
def Documented (ws : ProfileStores) (data : Value N) : Prop :=
  ∃ job store p, x.WellFormed ws data job store p

/-- Every documented object is accepted, and its mapping read as it should be and kept. -/
structure ParsedAsDocumented (ws : ProfileStores) (data : Value N) : Prop where
  accepted : x.Documented ws data → ∃ r, x.handleExecuteJob ws data = .ok r
  mapping : ∀ machineIds v, x.AllocatedTo data machineIds → data.member? "mapping" = some v →
    MappingExact x.num machineIds.size v
  kept : ∀ machineIds v ws' message, x.AllocatedTo data machineIds →
    data.member? "mapping" = some v → x.handleExecuteJob ws data = .ok (ws', message) →
    readMappingMember x.num machineIds.size v = .ok message.allocation.mapping

end requests

section accepted

variable {N : Type} {x : ExecuteReader N} {ws : ProfileStores} {data v : Value N}
  {store : ProfileStore} {p : ProfilePtr}

theorem nbAllocatedResources_eq {machineIds : IntervalSet} (h : machineIds.size < 2 ^ 31) :
    nbAllocatedResources machineIds = machineIds.size := by
  unfold nbAllocatedResources
  exact Int.bmod_eq_of_le (by omega) (by omega)

theorem stringMember_eq_ok {name missing notString s : String} :
    stringMember v name missing notString = .ok s ↔
      ∃ s', v.member? name = some (.str s') ∧ cString s' = s := by
  unfold stringMember
  split
  · next hnone => simp [hnone]
  · next s' hs => simp [hs]
  · next w hother hw =>
    constructor
    · intro h
      cases h
    · rintro ⟨s', hs', -⟩
      rw [hw, Option.some.injEq] at hs'
      exact absurd hs' (hother s')

theorem ifPresent_eq_ok {β : Type} {member : Option (Value N)} {absent b : β}
    {read : Value N → Except String β} :
    ifPresent member absent read = .ok b ↔
      (member = none ∧ absent = b) ∨ ∃ v, member = some v ∧ read v = .ok b := by
  cases member <;> simp [ifPresent]

theorem ifPresent_succeeds {β : Type} {member : Option (Value N)} {absent : β}
    {read : Value N → Except String β} (h : ∀ v, member = some v → ∃ b, read v = .ok b) :
    ∃ b, ifPresent member absent read = .ok b := by
  cases member with
  | none => exact ⟨absent, rfl⟩
  | some v => exact h v rfl

theorem readAllocation_eq_ok {errorPrefix alloc : String} {machineIds : IntervalSet} :
    x.readAllocation errorPrefix alloc = .ok machineIds ↔
      x.fromStringHyphen alloc = .ok machineIds := by
  unfold readAllocation
  split
  · next h => rw [h]
  · next h => simp [h]

theorem exists_member_of_mem {name : String} {ms : List (String × Value N)}
    (h : (Value.obj ms).member? name = some v) : name ∈ ms.map Prod.fst := by
  rw [Value.member?, Option.map_eq_some_iff] at h
  obtain ⟨m, hfind, -⟩ := h
  refine List.mem_map.mpr ⟨m, List.mem_of_find?_eq_some hfind, ?_⟩
  simpa using List.find?_some hfind

theorem readStorageMapping_succeeds {ms : List (String × Value N)} (hne : ms ≠ [])
    (h : ∀ m ∈ ms, isInt x.num m.2 = true) : ∃ b, readStorageMapping x.num (.obj ms) = .ok b := by
  have hentry : ∀ m ∈ ms, ∃ e, readStorageEntry x.num m = .ok e := by
    intro m hm
    have hint := h m hm
    unfold readStorageEntry
    unfold isInt at hint
    split at hint
    · next n hn =>
      obtain ⟨z, hz⟩ := Option.isSome_iff_exists.mp hint
      exact ⟨(cString m.1, z), by simp only [hn, hz]⟩
    · cases hint
  obtain ⟨entries, hentries⟩ := collect_succeeds hentry
  refine ⟨(SortedMap.ofAssignments entries).entries, ?_⟩
  simp only [readStorageMapping, members, bind_eq_ok, xbtAssert_eq_ok, exists_const,
    List.length_pos_iff]
  exact ⟨rfl, hne, entries, hentries, rfl⟩

/-- The IO profile is found in the workload, next to the profiles that were there. -/
theorem IoProfileOf.found {name : String} {object : ProfileObject}
    (h : x.IoProfileOf store v name object) : ∃ (store' : ProfileStore) (q : ProfilePtr)
      (object' : ProfileObject), x.addIoProfile store name (v.member? "profile") = .ok store' ∧
      store'.profiles.lookup name = some (some q) ∧ store'.objects[q]? = some object' ∧
      (∀ ioData', object'.data = .sequence ioData' →
        ∃ ioData, object.data = .sequence ioData ∧ ioData.sequence = ioData'.sequence) ∧
      ∀ (p : ProfilePtr) (o : ProfileObject), store.objects[p]? = some o →
        store'.objects[p]? = some o := by
  cases h with
  | @described ms data returnCode hprofile hnew hread =>
    let object : ProfileObject := { name := name, data := data, returnCode := returnCode }
    refine ⟨store.add object, store.objects.length, object.fromJson, ?_, ?_, ?_, ?_, ?_⟩
    · have hfree : store.exists? name = false := by
        rw [ProfileStore.exists?, hnew]
        rfl
      rw [hprofile]
      simp only [addIoProfile, ifPresent, bind_eq_ok, xbtAssert_eq_ok, exists_const]
      exact ⟨hfree, rfl, _, hread, rfl⟩
    · exact AList.lookup_insert _
    · exact List.getElem?_concat_length
    · intro ioData' hdata
      simp only [ProfileObject.fromJson] at hdata
      split at hdata
      · next ioData hio =>
        cases hdata
        exact ⟨ioData, hio, rfl⟩
      · exact ⟨ioData', hdata, rfl⟩
    · intro p o ho
      obtain ⟨hlt, -⟩ := List.getElem?_eq_some_iff.mp ho
      exact (List.getElem?_append_left hlt).trans ho
  | @known q object hprofile hlookup hobject =>
    refine ⟨store, q, object, ?_, hlookup, hobject, ?_, fun _ _ ho => ho⟩
    · rw [hprofile]
      rfl
    · exact fun ioData' hdata => ⟨ioData', hdata, rfl⟩

theorem checkIoProfile_succeeds {objects : List ProfileObject} {q : ProfilePtr}
    {object : ProfileObject} (hobject : objects[q]? = some object)
    (hsize : ∀ ioData, object.data = .sequence ioData → ∃ jobObject d,
      objects[p]? = some jobObject ∧ jobObject.data = .sequence d ∧
      d.sequence.length = ioData.sequence.length) : checkIoProfile objects p q = .ok () := by
  rw [checkIoProfile, vectorAt_eq_ok.mpr hobject]
  obtain ⟨name, data, returnCode⟩ := object
  cases data with
  | sequence ioData =>
    obtain ⟨jobObject, d, hjob, hdata, hlength⟩ := hsize ioData rfl
    simp only [bind, Except.bind, vectorAt_eq_ok.mpr hjob, hdata, xbtAssert_of hlength]
  | _ => rfl

theorem WellFormedIoJob.read {job : JobIdentifier} (h : x.WellFormedIoJob store p v)
    (hstore : ws.lookup job.workloadName = some store) :
    ∃ r, x.readAdditionalIoJob ws job p v = .ok r := by
  obtain ⟨s, object, hname, hprofile, hsize⟩ := h.profile
  obtain ⟨alloc, ioAllocation, halloc, hread⟩ := h.alloc
  obtain ⟨store', q, object', hadd, hlookup, hobject, hdata, hkept⟩ := hprofile.found
  have hcheck : checkIoProfile store'.objects p q = .ok () := by
    apply checkIoProfile_succeeds hobject
    intro ioData' hio
    obtain ⟨ioData, hioData, hsame⟩ := hdata ioData' hio
    obtain ⟨jobObject, d, hjob, hjobData, hlength⟩ := hsize ioData hioData
    exact ⟨jobObject, d, hkept p jobObject hjob, hjobData, hsame ▸ hlength⟩
  have hat : ws.storeAt job.workloadName = .ok store := by
    rw [ProfileStores.storeAt, hstore]
  have hexists : store'.exists? (cString s) = true := by
    rw [ProfileStore.exists?, hlookup]
    rfl
  refine ⟨(ws.insert job.workloadName store', some q, ioAllocation), ?_⟩
  simp only [readAdditionalIoJob, bind_eq_ok, xbtAssert_eq_ok, exists_const, stringMember_eq_ok,
    readAllocation_eq_ok]
  exact ⟨cString s, ⟨s, hname, rfl⟩, store, hat, store', hadd, hexists, q,
    ProfileStore.at?_eq_ok.mpr hlookup, (), hcheck, cString alloc, ⟨alloc, halloc, rfl⟩,
    ioAllocation, hread, rfl⟩

theorem two_le_length {job : JobIdentifier} (h : x.WellFormed ws data job store p) :
    2 ≤ (members data).length := by
  obtain ⟨ms, rfl⟩ : ∃ ms, data = .obj ms := by
    have hobject := h.object
    cases data with
    | obj ms => exact ⟨ms, rfl⟩
    | _ => cases hobject
  obtain ⟨s, hid, -⟩ := h.job_id
  obtain ⟨machineIds, a, halloc, -⟩ := h.alloc
  have hsub : ["job_id", "alloc"] ⊆ ms.map Prod.fst := by
    intro name hname
    rcases List.mem_cons.mp hname with rfl | hname
    · exact exists_member_of_mem hid
    · rw [List.mem_singleton.mp hname]
      exact exists_member_of_mem halloc
  have hnodup : ["job_id", "alloc"].Nodup := by decide
  simpa [members] using (hnodup.subperm hsub).length_le

/-- A documented object with at most one optional member is accepted. -/
theorem WellFormed.accepted {job : JobIdentifier} (h : x.WellFormed ws data job store p)
    (hlength : (members data).length ≤ 3)
    (hmapping : ∀ machineIds v, x.AllocatedTo data machineIds → data.member? "mapping" = some v →
      MappingExact x.num machineIds.size v) : ∃ r, x.handleExecuteJob ws data = .ok r := by
  have hcount : (members data).length = 2 ∨ (members data).length = 3 := by
    have htwo := two_le_length h
    omega
  obtain ⟨s, hid, hparse⟩ := h.job_id
  obtain ⟨machineIds, halloc⟩ := h.alloc
  obtain ⟨a, hmember, hread, hpos, hlt⟩ := halloc
  have hnb := nbAllocatedResources_eq hlt
  have hstore : ws.storeAt job.workloadName = .ok store := by
    rw [ProfileStores.storeAt, h.workload]
  have hjob : ws.jobAt job = .ok p := by
    simp only [ProfileStores.jobAt, hstore, bind, Except.bind, h.stored]
  obtain ⟨mapping, hmap⟩ : ∃ mapping, ifPresent (data.member? "mapping") []
      (readMappingMember x.num (nbAllocatedResources machineIds).toNat) = .ok mapping := by
    apply ifPresent_succeeds
    intro v hv
    rw [hnb, Int.toNat_natCast]
    obtain ⟨ms, f, rfl, hf⟩ := h.mapping machineIds v ⟨a, hmember, hread, hpos, hlt⟩ hv
    exact (hmapping machineIds _ ⟨a, hmember, hread, hpos, hlt⟩ hv).accepted ms f rfl hf
  obtain ⟨storageMapping, hstorage⟩ : ∃ storageMapping, ifPresent (data.member? "storage_mapping")
      [] (readStorageMapping x.num) = .ok storageMapping := by
    apply ifPresent_succeeds
    intro v hv
    obtain ⟨ms, rfl, hne, hint⟩ := h.storage_mapping v hv
    exact readStorageMapping_succeeds hne hint
  obtain ⟨r, hio⟩ : ∃ r, ifPresent (data.member? "additional_io_job")
      (ws, none, IntervalSet.empty) (x.readAdditionalIoJob ws job p) = .ok r := by
    apply ifPresent_succeeds
    intro v hv
    exact (h.additional_io_job v hv).read h.workload
  have hnonneg : nbAllocatedResources machineIds > 0 := by omega
  simp only [handleExecuteJob, bind_eq_ok, xbtAssert_eq_ok, exists_const, stringMember_eq_ok,
    readAllocation_eq_ok]
  exact ⟨_, h.object, hcount, cString s, ⟨s, hid, rfl⟩, job, hparse, p, hjob, cString a,
    ⟨a, hmember, rfl⟩, machineIds, hread, hnonneg, mapping, hmap, storageMapping, hstorage, r, hio,
    rfl⟩

/-- The mapping that is kept is the one read from the member. -/
theorem kept_mapping {ws' : ProfileStores} {message : ExecuteJobMessage}
    {machineIds : IntervalSet} (halloc : x.AllocatedTo data machineIds)
    (hmember : data.member? "mapping" = some v)
    (h : x.handleExecuteJob ws data = .ok (ws', message)) :
    readMappingMember x.num machineIds.size v = .ok message.allocation.mapping := by
  obtain ⟨a, ha, hread, -, hlt⟩ := halloc
  simp only [handleExecuteJob, bind_eq_ok, xbtAssert_eq_ok, exists_const, stringMember_eq_ok,
    readAllocation_eq_ok] at h
  obtain ⟨-, -, _, -, job, -, p, -, _, ⟨a', ha', rfl⟩, machineIds', hread', -, mapping, hmapping,
    storageMapping, -, r, -, hr⟩ := h
  rw [ha, Option.some.injEq, Value.str.injEq] at ha'
  subst ha'
  rw [hread, Except.ok.injEq] at hread'
  subst hread'
  rw [hmember, nbAllocatedResources_eq hlt, Int.toNat_natCast] at hmapping
  obtain ⟨-, rfl⟩ := Prod.ext_iff.mp (Except.ok.inj hr)
  exact hmapping

/-- When exactly the data are parsed as documented: an object that the documentation allows has at
most one optional member, and a mapping is plain. -/
theorem parsed_as_documented_iff : x.ParsedAsDocumented ws data ↔
    (x.Documented ws data → (members data).length ≤ 3) ∧
      ∀ machineIds ms, x.AllocatedTo data machineIds → data.member? "mapping" = some (.obj ms) →
        PlainMapping x.num machineIds.size ms := by
  constructor
  · intro h
    constructor
    · intro hdocumented
      obtain ⟨r, hr⟩ := h.accepted hdocumented
      simp only [handleExecuteJob, bind_eq_ok, xbtAssert_eq_ok] at hr
      obtain ⟨-, -, -, hcount, -⟩ := hr
      omega
    · intro machineIds ms halloc hmember
      exact mappingExact_iff.mp (h.mapping machineIds _ halloc hmember) ms rfl
  · rintro ⟨hlength, hplain⟩
    have hmapping : ∀ machineIds v, x.AllocatedTo data machineIds →
        data.member? "mapping" = some v → MappingExact x.num machineIds.size v := by
      intro machineIds v halloc hmember
      apply mappingExact_iff.mpr
      rintro ms rfl
      exact hplain machineIds ms halloc hmember
    constructor
    · rintro ⟨job, store, p, h⟩
      exact h.accepted (hlength ⟨job, store, p, h⟩) hmapping
    · exact hmapping
    · intro machineIds v ws' message halloc hmember hrun
      exact kept_mapping halloc hmember hrun

/-! ### The allocation that the jobs are executed with -/

theorem readMapping_of_member {nb : Nat} {mapping : List Nat} {num : Numbers N}
    (h : readMappingMember num nb v = .ok mapping) :
    ∃ entries, entries ≠ [] ∧ readMapping nb entries = .ok mapping := by
  simp only [readMappingMember, bind_eq_ok, xbtAssert_eq_ok, exists_const] at h
  obtain ⟨-, hlength, es, hes, mapping', hread, -, hmapping⟩ := h
  rw [Except.ok.injEq] at hmapping
  subst hmapping
  obtain ⟨m, hm⟩ := List.exists_mem_of_length_pos hlength
  obtain ⟨e, he, -⟩ := exists_of_collect_eq_ok hes hm
  obtain ⟨e', he', -⟩ := SortedMap.exists_entry he
  exact ⟨_, List.ne_nil_of_mem he', hread⟩

theorem readStorageMapping_ne_nil {num : Numbers N} {entries : List (String × Int)}
    (h : readStorageMapping num v = .ok entries) : entries ≠ [] := by
  simp only [readStorageMapping, bind_eq_ok, xbtAssert_eq_ok, exists_const, Except.ok.injEq] at h
  obtain ⟨-, hlength, es, hes, rfl⟩ := h
  obtain ⟨m, hm⟩ := List.exists_mem_of_length_pos hlength
  obtain ⟨e, he, -⟩ := exists_of_collect_eq_ok hes hm
  obtain ⟨e', he', -⟩ := SortedMap.exists_entry he
  exact List.ne_nil_of_mem he'

/-- The members that are documented and present are no more than the members. -/
theorem documented_le_length (hobject : isObject data = true) :
    (documentedMembers.filter fun name => (data.member? name).isSome).length ≤
      (members data).length := by
  obtain ⟨ms, rfl⟩ : ∃ ms, data = .obj ms := by
    cases data with
    | obj ms => exact ⟨ms, rfl⟩
    | _ => cases hobject
  have hnodup : documentedMembers.Nodup := by decide
  have hsub : (documentedMembers.filter fun name => ((Value.obj ms).member? name).isSome) ⊆
      ms.map Prod.fst := by
    intro name hname
    obtain ⟨v, hv⟩ := Option.isSome_iff_exists.mp (List.mem_filter.mp hname).2
    exact exists_member_of_mem hv
  simpa [members] using ((hnodup.filter _).subperm hsub).length_le

/-- The allocation of the message is the one of the data as the executions of the jobs read them. -/
theorem exists_executeJobData {ws' : ProfileStores} {message : ExecuteJobMessage}
    (h : x.handleExecuteJob ws data = .ok (ws', message))
    (hlt : message.allocation.machineIds.size < 2 ^ 31) : ∃ d : ExecuteJobData,
      d.memberCount = (members data).length ∧ d.handleExecuteJob = .ok message.allocation := by
  simp only [handleExecuteJob, bind_eq_ok, xbtAssert_eq_ok, exists_const, stringMember_eq_ok,
    readAllocation_eq_ok] at h
  obtain ⟨hobject, hcount, _, ⟨s, hid, -⟩, job, -, p, -, _, ⟨a, ha, -⟩, machineIds, -, hpos,
    mapping, hmapping, storageMapping, hstorage, ⟨_, ioProfile, ioAllocation⟩, hio, hr⟩ := h
  obtain ⟨-, rfl⟩ := Prod.ext_iff.mp (Except.ok.inj hr)
  have hnb := nbAllocatedResources_eq hlt
  simp only at hnb
  rw [hnb, Int.toNat_natCast] at hmapping
  obtain ⟨m, hm, hreadMapping⟩ : ∃ m : Option (List (Int × Int)),
      m.isSome = (data.member? "mapping").isSome ∧ m.elim (mapping = []) fun entries =>
        entries ≠ [] ∧ readMapping machineIds.size entries = .ok mapping := by
    rcases ifPresent_eq_ok.mp hmapping with ⟨hnone, rfl⟩ | ⟨v, hv, hread⟩
    · exact ⟨none, by rw [hnone]; rfl, rfl⟩
    · obtain ⟨entries, hentries⟩ := readMapping_of_member hread
      exact ⟨some entries, by rw [hv]; rfl, hentries⟩
  obtain ⟨sm, hsm, hreadStorage⟩ : ∃ sm : Option (List (String × Int)),
      sm.isSome = (data.member? "storage_mapping").isSome ∧ sm.elim (storageMapping = [])
        fun entries => entries ≠ [] ∧ entries = storageMapping := by
    rcases ifPresent_eq_ok.mp hstorage with ⟨hnone, rfl⟩ | ⟨v, hv, hread⟩
    · exact ⟨none, by rw [hnone]; rfl, rfl⟩
    · exact ⟨some storageMapping, by rw [hv]; rfl, And.intro (readStorageMapping_ne_nil hread) rfl⟩
  obtain ⟨io, hio', hioAllocation⟩ : ∃ io : Option AdditionalIoJob,
      io.isSome = (data.member? "additional_io_job").isSome ∧
      (io.map fun io => io.alloc).getD .empty = ioAllocation := by
    rcases ifPresent_eq_ok.mp hio with ⟨hnone, hr⟩ | ⟨v, hv, -⟩
    · refine ⟨none, by rw [hnone]; rfl, ?_⟩
      exact congrArg (fun r => r.2.2) hr
    · exact ⟨some ⟨ioAllocation⟩, by rw [hv]; rfl, rfl⟩
  have hle := documented_le_length hobject
  let d : ExecuteJobData := {
    alloc := machineIds, mapping := m, storageMapping := sm, additionalIoJob := io
    nbOtherMembers := (members data).length -
      (documentedMembers.filter fun name => (data.member? name).isSome).length }
  have hmembers : d.memberCount = (members data).length := by
    have hpresent : (documentedMembers.filter fun name => (data.member? name).isSome).length =
        2 + m.toList.length + sm.toList.length + io.toList.length := by
      simp only [documentedMembers, List.filter_cons, hid, ha, ← hm, ← hsm, ← hio']
      cases m <;> cases sm <;> cases io <;> rfl
    simp only [ExecuteJobData.memberCount, d]
    omega
  have hsize : machineIds.size > 0 := by omega
  refine ⟨d, hmembers, ?_⟩
  rw [← hmembers] at hcount
  simp only [ExecuteJobData.handleExecuteJob, bind_eq_ok, xbtAssert_eq_ok, exists_const]
  refine ⟨hcount, hsize, mapping, ?_, storageMapping, ?_, ?_⟩
  · cases m with
    | none =>
      rw [Option.elim_none] at hreadMapping
      exact congrArg Except.ok hreadMapping.symm
    | some entries =>
      simp only [d, bind_eq_ok, xbtAssert_eq_ok, exists_const]
      exact hreadMapping
  · cases sm with
    | none =>
      rw [Option.elim_none] at hreadStorage
      exact congrArg Except.ok hreadStorage.symm
    | some entries =>
      rw [Option.elim_some] at hreadStorage
      simp only [d, bind_eq_ok, xbtAssert_eq_ok, exists_const]
      exact ⟨hreadStorage.1, congrArg Except.ok hreadStorage.2⟩
  · rw [← hioAllocation]

end accepted

end ExecuteReader

/-! ### Requests -/

/-- A reader of the allocations of one machine. -/
def loneReader : ExecuteReader Int where
  num := integerNumbers
  fromStringHyphen alloc :=
    match decimalInt? alloc with
    | some z => if 0 ≤ z then .ok { elements := [z.toNat], sorted := List.pairwise_singleton _ _ }
      else .error "not an interval set"
    | none => .error "not an interval set"
  profileFromJson name _ := .error ("profile '" ++ name ++ "' has no 'type' field")

/-- A workload with one job. -/
def loneStore : ProfileStore where
  objects := [{ name := "p", data := .delay 1 (by decide) }]
  profiles := AList.singleton "p" (some 0)
  jobs := AList.singleton ⟨"w", "1", by decide, by decide⟩ 0

def loneStores : ProfileStores := AList.singleton "w" loneStore

/-- The data to execute that job, with optional members. -/
def loneRequest (optional : List (String × Value Int)) : Value Int :=
  .obj ([("job_id", .str "w!1"), ("alloc", .str "0")] ++ optional)

example : ∃ r, loneReader.handleExecuteJob loneStores
    (loneRequest [("mapping", .obj [("1", .num 0), ("0", .str "0")])]) = .ok r := by
  obtain ⟨r, hr, -⟩ := exists_of_succeedsWith (P := fun r => r.2.allocation.mapping = [0, 0])
    (x := loneReader.handleExecuteJob loneStores
      (loneRequest [("mapping", .obj [("1", .num 0), ("0", .str "0")])])) (by decide +kernel)
  exact ⟨r, hr⟩

/-- Both kinds of mapping are documented, and refused together. -/
def bothMappings : Value Int :=
  loneRequest [("mapping", .obj [("0", .num 0)]), ("storage_mapping", .obj [("pfs", .num 0)])]

/-- A mapping whose only value starts with a digit. -/
def prefixMapping : List (String × Value Int) := [("0", .str "0 of 1")]

theorem size_of_allocatedTo {optional : List (String × Value Int)} {machineIds : IntervalSet}
    (h : loneReader.AllocatedTo (loneRequest optional) machineIds) : machineIds.size = 1 := by
  obtain ⟨s, hs, hread, -⟩ := h
  have halloc : (loneRequest optional).member? "alloc" = some (.str "0") := rfl
  rw [halloc, Option.some.injEq, Value.str.injEq] at hs
  subst hs
  cases hread
  rfl

theorem loneRequest_allocated (optional : List (String × Value Int)) :
    loneReader.AllocatedTo (loneRequest optional)
      { elements := [0], sorted := List.pairwise_singleton _ _ } :=
  ⟨"0", rfl, rfl, by decide, by decide⟩

theorem bothMappings_documented : loneReader.Documented loneStores bothMappings := by
  have hdescribes : DescribesMapping integerNumbers 1 [("0", .num 0)] fun _ => 0 := by
    constructor
    · intro i hi
      obtain rfl : i = 0 := by
        simpa using hi
      exact ⟨_, List.mem_singleton_self _, by decide +kernel⟩
    · intro m hm
      obtain rfl := List.mem_singleton.mp hm
      exact ⟨0, by decide, by decide +kernel, rfl⟩
    · exact fun _ _ => Nat.one_pos
  refine ⟨⟨"w", "1", by decide, by decide⟩, loneStore, 0, ?_⟩
  constructor
  · rfl
  · decide
  · decide
  · exact ⟨"w!1", rfl, JobIdentifier.parse_toString ⟨"w", "1", by decide, by decide⟩⟩
  · rfl
  · rfl
  · exact ⟨_, loneRequest_allocated _⟩
  · intro machineIds v halloc hmember
    rw [size_of_allocatedTo halloc]
    cases hmember
    exact ⟨_, _, rfl, hdescribes⟩
  · intro v hmember
    cases hmember
    refine ⟨_, rfl, by simp, ?_⟩
    intro m hm
    obtain rfl := List.mem_singleton.mp hm
    decide
  · intro v hmember
    cases hmember

/-- The data may have both mappings, and are refused; a value may go on after its digits, and is
accepted. -/
theorem requests_not_parsed_as_documented :
    ¬ loneReader.ParsedAsDocumented loneStores bothMappings ∧
      ¬ loneReader.ParsedAsDocumented loneStores
        (loneRequest [("mapping", .obj prefixMapping)]) := by
  constructor
  · intro h
    obtain ⟨r, hr⟩ := h.accepted bothMappings_documented
    simp only [ExecuteReader.handleExecuteJob, bind_eq_ok, xbtAssert_eq_ok] at hr
    obtain ⟨-, -, -, hcount, -⟩ := hr
    exact absurd hcount (by decide)
  · intro h
    have hplain := mappingExact_iff.mp (h.mapping _ _ (loneRequest_allocated _) rfl) _ rfl
    have hread : ReadAs integerNumbers prefixMapping [(0, 0)] :=
      .cons ⟨by decide +kernel, by decide +kernel⟩ .nil
    have hconsecutive : Consecutive 1 [(0, 0)] := by
      constructor
      · refine ⟨1, fun k => ?_⟩
        simp only [List.map_cons, List.map_nil, List.mem_singleton]
        omega
      · intro before e after hsplit _
        have he : e ∈ [((0 : Int), (0 : Int))] := by simp [hsplit]
        obtain rfl := List.mem_singleton.mp he
        decide
    obtain ⟨-, hvalue⟩ :=
      hplain.decimal _ hread hconsecutive _ (List.mem_singleton_self _)
    exact absurd hvalue (by decide +kernel)

end Batsim
