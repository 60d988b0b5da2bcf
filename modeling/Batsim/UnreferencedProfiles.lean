import Batsim.ProfileAvailability

/-!
Which profiles are left when the unreferenced ones are removed, for each order in which the map of
the profiles is iterated.
-/

namespace Batsim

open Checked Relation

/-- A job leads to the profile through composed profiles. -/
def WorkloadFile.Reached (file : WorkloadFile) (b : String) : Prop :=
  ∃ j ∈ file.jobs, ReflTransGen file.Lists j.profile b

namespace ProfileStore

/-- The profiles that can be accessed, which `append_simulation_begins` announces. -/
def accessible (s : ProfileStore) : List String :=
  s.profiles.entries.filterMap fun e => e.2.map fun _ => e.1

variable {s s' : ProfileStore} {file : WorkloadFile} {name : String}

theorem mem_accessible : name ∈ s.accessible ↔ ∃ p, s.profiles.lookup name = some (some p) := by
  unfold accessible
  rw [List.mem_filterMap]
  constructor
  · rintro ⟨⟨name', o⟩, he, hname⟩
    obtain ⟨p, rfl, rfl⟩ := Option.map_eq_some_iff.mp hname
    exact ⟨p, AList.mem_lookup_iff.mpr he⟩
  · rintro ⟨p, hp⟩
    exact ⟨⟨name, some p⟩, AList.mem_lookup_iff.mp hp, rfl⟩

/-! ### The turns of the loop -/

section turns

variable {t : ProfileStore} {counts counts' : ProfilePtr → Nat} {order : List String}

/-- What a turn does: the name is forgotten, or nothing changes. -/
theorem removeUnreferenced_cases (h : removeUnreferenced (s, counts) name = (t, counts')) :
    (∃ p, s.profiles.lookup name = some (some p) ∧ counts p < 2 ∧ t = s.forget name ∧
      ∀ q, counts' q ≤ counts q) ∨
    (t = s ∧ counts' = counts ∧ ∀ p, s.profiles.lookup name = some (some p) → 2 ≤ counts p) := by
  unfold removeUnreferenced at h
  dsimp only at h
  split at h
  · next p hp =>
    split at h
    · next hfew =>
      cases h
      exact .inl ⟨p, hp, hfew, rfl, fun q => RefCount.release_le _ _ _ q⟩
    · next hmany =>
      cases h
      refine .inr ⟨rfl, rfl, fun q hq => ?_⟩
      rw [hp] at hq
      cases hq
      exact not_lt.mp hmany
  · next hnone =>
    cases h
    exact .inr ⟨rfl, rfl, fun q hq => absurd hq (hnone q)⟩

theorem lookup_forget (s : ProfileStore) (name other : String) :
    (s.forget name).profiles.lookup other =
      if other = name then some none else s.profiles.lookup other := by
  rw [forget]
  split
  · next hsame => rw [hsame, AList.lookup_insert]
  · next hne => rw [AList.lookup_insert_ne hne]

/-- The turns of other names leave a name alone. -/
theorem lookup_of_not_mem (hname : name ∉ order) :
    (order.foldl removeUnreferenced (s, counts)).1.profiles.lookup name =
      s.profiles.lookup name := by
  induction order generalizing s counts with
  | nil => rfl
  | cons first order ih =>
    have hne : name ≠ first := List.ne_of_not_mem_cons hname
    rw [List.foldl_cons]
    obtain ⟨t, counts', ht⟩ : ∃ t counts', removeUnreferenced (s, counts) first = (t, counts') :=
      ⟨_, _, rfl⟩
    rw [ht, ih (List.not_mem_of_not_mem_cons hname)]
    obtain ⟨p, -, -, rfl, -⟩ | ⟨rfl, -, -⟩ := removeUnreferenced_cases ht
    · rw [lookup_forget, if_neg hne]
    · rfl

/-- A name that has lost its object does not get it back. -/
theorem not_named_after (h : ∀ p, s.profiles.lookup name ≠ some (some p)) (p : ProfilePtr) :
    (order.foldl removeUnreferenced (s, counts)).1.profiles.lookup name ≠ some (some p) := by
  induction order generalizing s counts with
  | nil => exact h p
  | cons first order ih =>
    rw [List.foldl_cons]
    obtain ⟨t, counts', ht⟩ : ∃ t counts', removeUnreferenced (s, counts) first = (t, counts') :=
      ⟨_, _, rfl⟩
    rw [ht]
    refine ih fun q => ?_
    obtain ⟨_, -, -, rfl, -⟩ | ⟨rfl, -, -⟩ := removeUnreferenced_cases ht
    · rw [lookup_forget]
      split
      · simp
      · exact h q
    · exact h q

/-- An object with a single reference loses its name in the turn of this name. -/
theorem not_named_of_single (h : ∀ p, s.profiles.lookup name = some (some p) → counts p < 2)
    (hname : name ∈ order) (p : ProfilePtr) :
    (order.foldl removeUnreferenced (s, counts)).1.profiles.lookup name ≠ some (some p) := by
  induction order generalizing s counts with
  | nil => cases hname
  | cons first order ih =>
    rw [List.foldl_cons]
    obtain ⟨t, counts', ht⟩ : ∃ t counts', removeUnreferenced (s, counts) first = (t, counts') :=
      ⟨_, _, rfl⟩
    rw [ht]
    by_cases hfirst : first = name
    · subst hfirst
      refine not_named_after (fun q hq => ?_) p
      obtain ⟨_, -, -, rfl, -⟩ | ⟨rfl, -, hmany⟩ := removeUnreferenced_cases ht
      · rw [lookup_forget, if_pos rfl] at hq
        cases hq
      · exact absurd (h q hq) (not_lt.mpr (hmany q hq))
    · have hrest : name ∈ order := (List.mem_cons.mp hname).resolve_left (Ne.symm hfirst)
      refine ih (fun q hq => ?_) hrest
      obtain ⟨_, -, -, rfl, hle⟩ | ⟨rfl, rfl, -⟩ := removeUnreferenced_cases ht
      · rw [lookup_forget, if_neg (Ne.symm hfirst)] at hq
        exact (hle q).trans_lt (h q hq)
      · exact h q hq

end turns

/-! ### The counts of a loaded workload -/

theorem loadJobs_ids {filename : String} {js : List JobEntry} (hjobs : s.jobs = ∅)
    (h : loadJobs filename s js = .ok s') {id : JobIdentifier} {p : ProfilePtr}
    (hid : s'.jobs.lookup id = some p) : ∃ j ∈ js, j.id = id := by
  refine forEach_invariant (fun done t => ∀ id p, t.jobs.lookup id = some p →
    ∃ j ∈ done, j.id = id) ?_ ?_ h id p hid
  · intro id p hid
    rw [hjobs, AList.lookup_empty] at hid
    cases hid
  · rintro done j rest t t' - hdone hstep id p hid
    simp only [profileOfJob, bind_eq_ok, xbtAssert_eq_ok, Except.ok.injEq] at hstep
    obtain ⟨q, -, -, -, rfl⟩ := hstep
    by_cases hsame : id = j.id
    · exact ⟨j, by simp, hsame.symm⟩
    · rw [insertJob, AList.lookup_insert_ne hsame] at hid
      obtain ⟨k, hk, hkid⟩ := hdone id p hid
      exact ⟨k, List.mem_append_left _ hk, hkid⟩

/-- The profile of a job of the workload is reached. -/
theorem Loaded.reached_of_job (h : s.Loaded file)
    (hids : ∀ id p, s.jobs.lookup id = some p → ∃ j ∈ file.jobs, j.id = id) {id : JobIdentifier}
    {p : ProfilePtr} (hid : s.jobs.lookup id = some p)
    (hp : s.profiles.lookup name = some (some p)) : file.Reached name := by
  obtain ⟨j, hj, rfl⟩ := hids id p hid
  obtain ⟨q, hq, hname⟩ := h.jobs j hj
  rw [hid] at hq
  obtain rfl := Option.some.inj hq
  obtain ⟨object, hobject, hsame⟩ := h.linked.sound.named _ p hname
  obtain ⟨object', hobject', hsame'⟩ := h.linked.sound.named _ p hp
  rw [hobject] at hobject'
  obtain rfl := Option.some.inj hobject'
  refine ⟨j, hj, ?_⟩
  rw [← hsame', hsame]

/-- Only one name leads to an object. -/
theorem Sound.countP_names_le (h : s.Sound) (p : ProfilePtr) :
    s.profiles.entries.countP (fun e => e.2 = some p) ≤ 1 := by
  rw [List.countP_eq_length_filter]
  have hnodup : (s.profiles.entries.filter fun e => e.2 = some p).Nodup :=
    (List.NodupKeys.nodup s.profiles.nodupKeys).filter _
  have hsame : ∀ e ∈ s.profiles.entries.filter (fun e => e.2 = some p),
      ∀ e' ∈ s.profiles.entries.filter (fun e => e.2 = some p), e = e' := by
    rintro ⟨name, o⟩ he ⟨name', o'⟩ he'
    obtain ⟨hmem, ho⟩ := List.mem_filter.mp he
    obtain ⟨hmem', ho'⟩ := List.mem_filter.mp he'
    obtain rfl : o = some p := of_decide_eq_true ho
    obtain rfl : o' = some p := of_decide_eq_true ho'
    obtain ⟨object, hobject, hname⟩ := h.named name p (AList.mem_lookup_iff.mpr hmem)
    obtain ⟨object', hobject', hname'⟩ := h.named name' p (AList.mem_lookup_iff.mpr hmem')
    rw [hobject] at hobject'
    obtain rfl := Option.some.inj hobject'
    rw [← hname, hname']
  generalize s.profiles.entries.filter (fun e => e.2 = some p) = es at hnodup hsame
  match es, hnodup, hsame with
  | [], _, _ => exact Nat.zero_le _
  | [e], _, _ => exact le_rfl
  | e :: e' :: es, hnodup, hsame =>
    have heq := hsame e (by simp) e' (by simp)
    exact absurd (by simp [heq]) (List.nodup_cons.mp hnodup).1

/-- A profile that no job reaches and no composed profile lists has its name only. -/
theorem Loaded.useCount_lt_two (h : s.Loaded file)
    (hids : ∀ id p, s.jobs.lookup id = some p → ∃ j ∈ file.jobs, j.id = id)
    (hreached : ¬file.Reached name) (hlists : ∀ a, ¬file.Lists a name) {p : ProfilePtr}
    (hp : s.profiles.lookup name = some (some p)) : s.useCount p < 2 := by
  have hjobs : s.jobs.entries.countP (fun e => e.2 = p) = 0 := by
    refine List.countP_eq_zero.mpr fun e he hep => hreached ?_
    obtain rfl := of_decide_eq_true hep
    exact h.reached_of_job hids (AList.mem_lookup_iff.mpr he) hp
  obtain ⟨object, hobject, hname⟩ := h.linked.sound.named name p hp
  have hinside : RefCount.heldInside s.subs (Finset.range s.objects.length) (fun _ => 1) p = 0 := by
    refine Finset.sum_eq_zero fun q hq => ?_
    rw [if_pos Nat.one_pos]
    refine List.count_eq_zero.mpr fun hsub => ?_
    have hlt := Finset.mem_range.mp hq
    refine hlists s.objects[q].name ?_
    rw [← hname]
    exact h.toFromFile.lists_of_sub (List.getElem?_eq_getElem hlt) hsub hobject
  have hnames := h.linked.sound.countP_names_le p
  unfold useCount
  omega

/-- A profile that a composed profile lists has its name and another reference. -/
theorem Loaded.two_le_useCount (h : s.Loaded file) {a : String} (hlists : file.Lists a name) :
    ∃ p, s.profiles.lookup name = some (some p) ∧ 2 ≤ s.useCount p := by
  obtain ⟨q, object, hobject, hname⟩ : ∃ (q : Nat) (object : ProfileObject),
      s.objects[q]? = some object ∧ object.name = a := by
    obtain ⟨profile, hprofile, rfl, -⟩ := hlists
    have hmem : profile.name ∈ (s.objects.take (file.profiles.map ProfileObject.name).length).map
        ProfileObject.name := by
      rw [h.linked.loadedFirst]
      exact List.mem_map_of_mem hprofile
    obtain ⟨object, hobject, hsame⟩ := List.mem_map.mp hmem
    obtain ⟨q, hq, hget⟩ := List.getElem_of_mem (List.mem_of_mem_take hobject)
    exact ⟨q, object, hget ▸ List.getElem?_eq_getElem hq, hsame⟩
  subst hname
  obtain ⟨p, sub, hsub, hobject', rfl⟩ := h.toFromFile.sub_of_lists hobject hlists
  have hnamed := lookup_of_named h.linked.sound
    (h.named (List.getElem?_eq_some_iff.mp hobject').1) hobject'
  refine ⟨p, hnamed, ?_⟩
  have hnames : 0 < s.profiles.entries.countP fun e => e.2 = some p :=
    List.countP_pos_iff.mpr ⟨⟨_, some p⟩, AList.mem_lookup_iff.mp hnamed, by simp⟩
  have hinside : 0 < RefCount.heldInside s.subs (Finset.range s.objects.length) (fun _ => 1) p := by
    refine Finset.sum_pos' (fun _ _ => Nat.zero_le _) ⟨q, ?_, ?_⟩
    · exact Finset.mem_range.mpr (List.getElem?_eq_some_iff.mp hobject).1
    · rw [if_pos Nat.one_pos]
      exact List.count_pos_iff.mpr hsub
  unfold useCount
  omega

theorem loadProfiles_exists {filename : String} {ps : List ProfileObject}
    (h : loadProfiles filename {} ps = .ok s) (hname : s.exists? name = true) :
    name ∈ ps.map ProfileObject.name := by
  refine forEach_invariant (fun done t => ∀ name, t.exists? name = true →
    name ∈ done.map ProfileObject.name) ?_ ?_ h name hname
  · intro name hname
    simp [exists?, AList.lookup_empty] at hname
  · rintro done p rest t t' - hdone hstep name hname
    simp only [bind_eq_ok, xbtAssert_eq_ok, Except.ok.injEq] at hstep
    obtain ⟨-, -, rfl⟩ := hstep
    rw [List.map_append, List.mem_append]
    rcases exists?_add.mp hname with rfl | hold
    · exact .inr (by simp)
    · exact .inl (hdone name hold)

/-- An accepted workload, before its unreferenced profiles are removed, with the names of its
profiles and the jobs of the file only. -/
structure Accepted (file : WorkloadFile) (s : ProfileStore) : Prop extends Loaded file s where
  names : ∀ name p, s.profiles.lookup name = some (some p) →
    name ∈ file.profiles.map ProfileObject.name
  ids : ∀ id p, s.jobs.lookup id = some p → ∃ j ∈ file.jobs, j.id = id

theorem exists_accepted {filename : String} {order : List String}
    (h : loadFromJson filename order file = .ok s') :
    ∃ s : ProfileStore, s.Accepted file ∧ ∀ order,
      loadFromJson filename order file = .ok (s.removeUnreferencedProfiles order) := by
  obtain ⟨t, hprofiles, u, hjobs, v, hvalid, -⟩ := loadFromJson_eq_ok.mp h
  obtain ⟨hsameProfiles, hsameJobs⟩ := checkValidity_keeps hvalid
  refine ⟨v, ⟨loaded_of_valid hprofiles hjobs hvalid, fun name p hp => ?_, fun id p hid => ?_⟩,
    fun order => loadFromJson_eq_ok.mpr ⟨t, hprofiles, u, hjobs, v, hvalid, rfl⟩⟩
  · refine loadProfiles_exists hprofiles ?_
    rw [exists?, ← (loadJobs_keeps hjobs).2, ← hsameProfiles, hp]
    rfl
  · rw [hsameJobs] at hid
    exact loadJobs_ids (loadProfiles_live hprofiles).1 hjobs hid

/-- What is left is what the jobs reach, if each profile that is listed is reached. -/
theorem Accepted.accessible_iff (h : s.Accepted file)
    (hall : ∀ a b, file.Lists a b → file.Reached b) {order : List String}
    (horder : order.Perm (file.profiles.map ProfileObject.name)) :
    name ∈ (s.removeUnreferencedProfiles order).accessible ↔ file.Reached name := by
  rw [mem_accessible]
  constructor
  · rintro ⟨p, hp⟩
    by_contra hreached
    by_cases hname : name ∈ order
    · refine not_named_of_single (fun q hq => ?_) hname p hp
      exact h.toLoaded.useCount_lt_two h.ids hreached
        (fun a hlists => hreached (hall a name hlists)) hq
    · unfold removeUnreferencedProfiles at hp
      rw [lookup_of_not_mem hname] at hp
      exact hname (horder.mem_iff.mpr (h.names name p hp))
  · rintro ⟨j, hj, hlisted⟩
    exact h.toLoaded.kept order hj hlisted

/-- A profile that is listed is left when its turn comes first. -/
theorem Accepted.accessible_first (h : s.Accepted file) {a : String} (hlists : file.Lists a name)
    {order : List String} (hnew : name ∉ order) :
    name ∈ (s.removeUnreferencedProfiles (name :: order)).accessible := by
  obtain ⟨p, hp, htwo⟩ := h.toLoaded.two_le_useCount hlists
  rw [mem_accessible]
  refine ⟨p, ?_⟩
  obtain ⟨t, counts, ht⟩ : ∃ t counts, removeUnreferenced (s, s.useCount) name = (t, counts) :=
    ⟨_, _, rfl⟩
  rw [removeUnreferencedProfiles, List.foldl_cons, ht, lookup_of_not_mem hnew]
  obtain ⟨q, hq, hfew, -, -⟩ | ⟨rfl, -, -⟩ := removeUnreferenced_cases ht
  · rw [hp] at hq
    obtain rfl := Option.some.inj (Option.some.inj hq)
    exact absurd htwo (not_le.mpr hfew)
  · exact hp

end ProfileStore

/-- The profiles that are left are those that the jobs reach, in all orders, exactly when the
composed profiles only list profiles that are reached. -/
theorem unreferenced_profiles_removed_iff {filename : String} {order₀ : List String}
    {file : WorkloadFile} {s₀ : ProfileStore}
    (haccepted : ProfileStore.loadFromJson filename order₀ file = .ok s₀) :
    (∀ order order', order.Perm (file.profiles.map ProfileObject.name) →
      order'.Perm (file.profiles.map ProfileObject.name) →
        ∃ s s', ProfileStore.loadFromJson filename order file = .ok s ∧
          ProfileStore.loadFromJson filename order' file = .ok s' ∧
          ∀ b, (b ∈ s.accessible ↔ b ∈ s'.accessible) ∧ (b ∈ s.accessible ↔ file.Reached b)) ↔
      ∀ a b, file.Lists a b → file.Reached b := by
  obtain ⟨v, hv, hload⟩ := ProfileStore.exists_accepted haccepted
  constructor
  · intro h a b hlists
    obtain ⟨p, hp, -⟩ := hv.toLoaded.two_le_useCount hlists
    have hmem := hv.names b p hp
    have hperm : (b :: (file.profiles.map ProfileObject.name).erase b).Perm
        (file.profiles.map ProfileObject.name) := (List.perm_cons_erase hmem).symm
    have hnodup : (file.profiles.map ProfileObject.name).Nodup := by
      rw [← hv.linked.loadedFirst, List.map_take]
      exact hv.linked.sound.distinct.sublist (List.take_sublist _ _)
    have hnew : b ∉ (file.profiles.map ProfileObject.name).erase b := hnodup.not_mem_erase
    obtain ⟨s, s', hs, -, hall⟩ := h _ _ hperm hperm
    rw [hload] at hs
    obtain rfl := Except.ok.inj hs
    exact (hall b).2.mp (hv.accessible_first hlists hnew)
  · intro hall order order' horder horder'
    refine ⟨_, _, hload order, hload order', fun b => ?_⟩
    have hleft := @ProfileStore.Accepted.accessible_iff v file b hv hall order horder
    exact ⟨hleft.trans (hv.accessible_iff hall horder').symm, hleft⟩

/-- A job that waits, and a composed profile that is nobody's. -/
def unusedNapsFile : WorkloadFile where
  profiles := [waitProfile "", napProfile, napsProfile]
  jobs := [waitJob "1" "wait" one_valid]

theorem removal_depends_on_order :
    ∃ s s', ProfileStore.loadFromJson "w0" ["wait", "nap", "naps"] unusedNapsFile = .ok s ∧
      ProfileStore.loadFromJson "w0" ["wait", "naps", "nap"] unusedNapsFile = .ok s' ∧
      s.accessible = ["nap", "wait"] ∧ s'.accessible = ["wait"] ∧ ¬unusedNapsFile.Reached "nap" := by
  refine ⟨_, _, rfl, rfl, by decide +kernel, by decide +kernel, ?_⟩
  rintro ⟨j, hj, hlisted⟩
  have hwait : j.profile = "wait" := by
    rw [List.mem_singleton.mp hj]
    rfl
  have hnone : ∀ b, ¬unusedNapsFile.Lists "wait" b := by
    rintro b ⟨p, hp, hname, hb⟩
    have hall : ∀ p ∈ unusedNapsFile.profiles, p.name = "wait" → p.listed = [] := by decide
    rw [hall p hp hname] at hb
    cases hb
  rw [hwait] at hlisted
  obtain heq | ⟨b, hfirst, -⟩ := ReflTransGen.cases_head hlisted
  · exact absurd heq (by decide)
  · exact hnone b hfirst

/-- A file whose composed profile has a job: both orders leave its two profiles. -/
theorem naps_file_left :
    ∃ s s', ProfileStore.loadFromJson "w0" ["nap", "naps"] napsFile = .ok s ∧
      ProfileStore.loadFromJson "w0" ["naps", "nap"] napsFile = .ok s' ∧
      ∀ b, (b ∈ s.accessible ↔ b ∈ s'.accessible) ∧ (b ∈ s.accessible ↔ napsFile.Reached b) := by
  have haccepted : succeedsWith (ProfileStore.loadFromJson "w0" [] napsFile) (fun _ => True) =
      true := by decide +kernel
  obtain ⟨s₀, hload, -⟩ := exists_of_succeedsWith haccepted
  refine (unreferenced_profiles_removed_iff hload).mpr ?_ ["nap", "naps"] ["naps", "nap"]
    (.refl _) (.swap _ _ _)
  rintro a b hlists
  obtain ⟨p, hp, rfl, hb⟩ := id hlists
  have hnaps : ∀ p ∈ napsFile.profiles, b ∈ p.listed → p.name = "naps" := by
    intro p hp hb
    rcases List.mem_cons.mp hp with rfl | hp
    · cases hb
    · rw [List.mem_singleton.mp hp]
      rfl
  refine ⟨napsJob, List.mem_singleton.mpr rfl, .single ?_⟩
  rw [hnaps p hp hb] at hlists
  exact hlists

end Batsim
