import Batsim.ProfileStore

/-!
Composed profiles keep the names of their sub-profiles and references to them. The references are
set when a workload file is checked, and at no other time.
-/

namespace Batsim

open Checked

/-- The references of a composed profile lead to the profiles that it names. -/
def SequenceProfileData.Resolved (d : SequenceProfileData) (objects : List ProfileObject) : Prop :=
  List.Forall₂ (fun p name => ∃ object, objects[p]? = some object ∧ object.name = name)
    d.profileSequence d.sequence

/-- The IO profile has the shape of the profile that it runs along: a composed profile of `names`
with as many parts, that have in turn the shape of the parts they run along. -/
inductive IoFits (objects : List ProfileObject) (names : List String) :
    ProfilePtr → Option ProfilePtr → Prop where
  | none (p : ProfilePtr) : IoFits objects names p none
  | leaf {p : ProfilePtr} {object : ProfileObject} (io : Option ProfilePtr)
      (hobject : objects[p]? = some object) (hleaf : object.isSequence = false) :
      IoFits objects names p io
  | sequence {p q : ProfilePtr} {object ioObject : ProfileObject} {d ioData : SequenceProfileData}
      (hobject : objects[p]? = some object) (hdata : object.data = .sequence d)
      (hioObject : objects[q]? = some ioObject) (hioData : ioObject.data = .sequence ioData)
      (hname : ioObject.name ∈ names) (hlength : ioData.sequence.length = d.sequence.length)
      (hsubs : ∀ (i : Nat) (p' q' : ProfilePtr), d.profileSequence[i]? = some p' →
        ioData.profileSequence[i]? = some q' → IoFits objects names p' (some q')) :
      IoFits objects names p (some q)

theorem SequenceProfileData.Resolved.of_names {d : SequenceProfileData}
    {objects objects' : List ProfileObject} (h : d.Resolved objects)
    (hnames : objects'.map ProfileObject.name = objects.map ProfileObject.name) :
    d.Resolved objects' := by
  refine List.Forall₂.imp ?_ h
  rintro p name ⟨object, hobject, hname⟩
  have hat : (objects'.map ProfileObject.name)[p]? = some name := by
    rw [hnames, List.getElem?_map, hobject, Option.map_some, hname]
  rw [List.getElem?_map, Option.map_eq_some_iff] at hat
  exact hat

namespace ProfileStore

variable {s s' : ProfileStore} {names : List String}

/-- Every name that leads to an object is its name, and no two objects have the same one. -/
structure Sound (s : ProfileStore) : Prop where
  named : ∀ name p, s.profiles.lookup name = some (some p) →
    ∃ object, s.objects[p]? = some object ∧ object.name = name
  known : ∀ object ∈ s.objects, s.exists? object.name = true
  distinct : (s.objects.map ProfileObject.name).Nodup

theorem sound_empty : Sound {} where
  named := fun name p h => by simp [AList.lookup_empty] at h
  known := fun object h => by cases h
  distinct := List.nodup_nil

theorem exists?_add {p : ProfileObject} {name : String} :
    (s.add p).exists? name = true ↔ name = p.name ∨ s.exists? name = true := by
  unfold exists? add
  by_cases hname : name = p.name
  · subst hname
    simp
  · simp [hname, AList.lookup_insert_ne hname]

theorem exists?_forget {name other : String} :
    (s.forget other).exists? name = true ↔ name = other ∨ s.exists? name = true := by
  unfold exists? forget
  by_cases hname : name = other
  · subst hname
    simp
  · simp [hname, AList.lookup_insert_ne hname]

theorem sound_add (h : s.Sound) {p : ProfileObject} (hfresh : s.exists? p.name = false) :
    (s.add p).Sound where
  named := by
    intro name q hlookup
    by_cases hname : name = p.name
    · subst hname
      have hq : s.objects.length = q := by simpa [add] using hlookup
      refine ⟨p.fromJson, ?_, ProfileObject.fromJson_name p⟩
      simp [add, ← hq]
    · have hold : s.profiles.lookup name = some (some q) := by
        simpa [add, AList.lookup_insert_ne hname] using hlookup
      obtain ⟨object, hobject, hsame⟩ := h.named name q hold
      refine ⟨object, ?_, hsame⟩
      rw [add, List.getElem?_append_left (List.getElem?_eq_some_iff.mp hobject).1]
      exact hobject
  known := by
    intro object hobject
    rw [exists?_add]
    rcases List.mem_append.mp hobject with hold | hnew
    · exact .inr (h.known object hold)
    · left
      rw [List.mem_singleton.mp hnew, ProfileObject.fromJson_name]
  distinct := by
    have hnew : p.name ∉ s.objects.map ProfileObject.name := by
      intro hmem
      obtain ⟨object, hobject, hname⟩ := List.mem_map.mp hmem
      have hknown := h.known object hobject
      rw [hname, hfresh] at hknown
      cases hknown
    rw [add, List.map_append, List.map_singleton, ProfileObject.fromJson_name]
    exact List.nodup_append.mpr ⟨h.distinct, List.nodup_singleton _, fun a ha b hb => by
      rw [List.mem_singleton.mp hb]
      rintro rfl
      exact hnew ha⟩

theorem sound_forget (h : s.Sound) (name : String) : (s.forget name).Sound where
  named := by
    intro other p hlookup
    by_cases hname : other = name
    · subst hname
      simp [forget] at hlookup
    · exact h.named other p (by simpa [forget, AList.lookup_insert_ne hname] using hlookup)
  known := fun object hobject => exists?_forget.mpr (.inr (h.known object hobject))
  distinct := h.distinct

theorem sound_of_names (h : s.Sound)
    (hnames : s'.objects.map ProfileObject.name = s.objects.map ProfileObject.name)
    (hprofiles : s'.profiles = s.profiles) : s'.Sound where
  named := by
    intro name p hlookup
    rw [hprofiles] at hlookup
    obtain ⟨object, hobject, hname⟩ := h.named name p hlookup
    have hat : (s'.objects.map ProfileObject.name)[p]? = some name := by
      rw [hnames, List.getElem?_map, hobject, Option.map_some, hname]
    rw [List.getElem?_map, Option.map_eq_some_iff] at hat
    exact hat
  known := by
    intro object hobject
    have hmem := List.mem_map_of_mem (f := ProfileObject.name) hobject
    rw [hnames] at hmem
    obtain ⟨old, hold, hname⟩ := List.mem_map.mp hmem
    rw [exists?, hprofiles, ← hname]
    exact h.known old hold
  distinct := by
    rw [hnames]
    exact h.distinct

/-- The state of the first loop of `check_validity` once it is done with the names `done`. -/
structure Checking (names done : List String) (s : ProfileStore) : Prop where
  sound : s.Sound
  names : s.objects.map ProfileObject.name = names
  resolved : ∀ object ∈ s.objects, ∀ d, object.data = .sequence d → object.name ∈ done →
    d.Resolved s.objects
  pending : ∀ object ∈ s.objects, ∀ d, object.data = .sequence d → object.name ∉ done →
    d.profileSequence = []

theorem resolve_profiles {name : String} (h : s.resolve name = .ok s') :
    s'.profiles = s.profiles ∧ s'.jobs = s.jobs := by
  simp only [resolve, bind_eq_ok] at h
  obtain ⟨p, -, object, -, h⟩ := h
  split at h
  · simp only [bind_eq_ok, Except.ok.injEq] at h
    obtain ⟨ps, -, rfl⟩ := h
    exact ⟨rfl, rfl⟩
  · cases h
    exact ⟨rfl, rfl⟩

/-- What the turn of a composed profile collects. -/
theorem collected_resolved {name : String} {d : SequenceProfileData} {ps : List ProfilePtr}
    (hsound : s.Sound) (h : collect (fun sub => do
      xbtAssert (s.exists? sub = true)
        ("Invalid composed profile '" ++ name ++ "': the used profile '" ++ sub ++
          "' does not exist")
      s.at? sub) d.sequence = .ok ps) :
    ({ d with profileSequence := ps } : SequenceProfileData).Resolved s.objects := by
  have hcollected := collect_eq_ok.mp h
  refine List.Forall₂.flip (List.Forall₂.imp ?_ hcollected)
  intro sub p hsub
  simp only [bind_eq_ok] at hsub
  obtain ⟨-, -, hat⟩ := hsub
  exact hsound.named sub p (at?_eq_ok.mp hat)

theorem map_name_set {objects : List ProfileObject} {p : ProfilePtr} {object updated : ProfileObject}
    (hobject : objects[p]? = some object) (hname : updated.name = object.name) :
    (objects.set p updated).map ProfileObject.name = objects.map ProfileObject.name := by
  obtain ⟨hlt, hget⟩ := List.getElem?_eq_some_iff.mp hobject
  have hlt' : p < (objects.map ProfileObject.name).length := by simpa using hlt
  have hat : updated.name = (objects.map ProfileObject.name)[p] := by
    rw [List.getElem_map, hget, hname]
  rw [List.map_set, hat, List.set_getElem_self]

theorem checking_resolve {done : List String} {name : String} (h : s.Checking names done)
    (hname : name ∉ done) (hrun : s.resolve name = .ok s') :
    s'.Checking names (done ++ [name]) := by
  simp only [resolve, bind_eq_ok] at hrun
  obtain ⟨p, hat, object, hobject, hrun⟩ := hrun
  rw [vectorAt_eq_ok] at hobject
  obtain ⟨same, hsame, hnamed⟩ := h.sound.named name p (at?_eq_ok.mp hat)
  obtain rfl : object = same := Option.some.inj (hobject.symm.trans hsame)
  have hmem := List.mem_of_getElem? hobject
  have honly : ∀ other ∈ s.objects, other.name = name → other = object := fun other hother hsame =>
    List.inj_on_of_nodup_map h.sound.distinct hother hmem (hsame.trans hnamed.symm)
  split at hrun
  · rename_i d hdata
    simp only [bind_eq_ok, Except.ok.injEq] at hrun
    obtain ⟨ps, hps, rfl⟩ := hrun
    have hempty := h.pending object hmem d hdata (by rw [hnamed]; exact hname)
    rw [hempty, List.nil_append]
    generalize hupdated : ({ object with
      data := .sequence { d with profileSequence := ps } } : ProfileObject) = updated
    have hsameName : updated.name = name := by
      rw [← hupdated]
      exact hnamed
    have hupdatedData : updated.data = .sequence { d with profileSequence := ps } := by
      rw [← hupdated]
    have hnames := map_name_set hobject (hsameName.trans hnamed.symm)
    have hsound : ({ s with objects := s.objects.set p updated } : ProfileStore).Sound :=
      sound_of_names h.sound hnames rfl
    have hin : updated ∈ s.objects.set p updated :=
      List.mem_set (List.getElem?_eq_some_iff.mp hobject).1 _
    -- another object under that name would be a second one
    have honly : ∀ other ∈ s.objects.set p updated, other.name = name → other = updated :=
      fun other hother hsame =>
        List.inj_on_of_nodup_map hsound.distinct hother hin (hsame.trans hsameName.symm)
    have hold : ∀ other ∈ s.objects.set p updated, other.name ≠ name → other ∈ s.objects := by
      intro other hother hdiffers
      rcases List.mem_or_eq_of_mem_set hother with hold | rfl
      · exact hold
      · exact absurd hsameName hdiffers
    constructor
    · exact hsound
    · exact hnames.trans h.names
    · intro other hother d' hdata' hdone
      by_cases hsame : other.name = name
      · rw [honly other hother hsame, hupdatedData] at hdata'
        cases hdata'
        exact (collected_resolved h.sound hps).of_names hnames
      · have hdone' : other.name ∈ done := by simpa [hsame] using hdone
        exact (h.resolved other (hold other hother hsame) d' hdata' hdone').of_names hnames
    · intro other hother d' hdata' hdone
      have hsame : other.name ≠ name := fun hsame => hdone (by simp [hsame])
      exact h.pending other (hold other hother hsame) d' hdata'
        (fun hmem => hdone (by simp [hmem]))
  · rename_i hother
    cases hrun
    constructor
    · exact h.sound
    · exact h.names
    · intro other hmem' d hdata hdone
      have hsame : other.name ≠ name := by
        intro hsame
        rw [honly other hmem' hsame] at hdata
        exact hother d hdata
      exact h.resolved other hmem' d hdata (by simpa [hsame] using hdone)
    · intro other hmem' d hdata hdone
      exact h.pending other hmem' d hdata (fun hmem => hdone (by simp [hmem]))

/-! ### Loading a workload file -/

theorem loadProfiles_spec {filename : String} {ps : List ProfileObject}
    (h : loadProfiles filename {} ps = .ok s) :
    s.Sound ∧ s.objects = ps.map ProfileObject.fromJson := by
  refine forEach_invariant
    (fun done s => s.Sound ∧ s.objects = done.map ProfileObject.fromJson) ⟨sound_empty, rfl⟩ ?_ h
  rintro done p rest t t' - ⟨hsound, hobjects⟩ hstep
  simp only [bind_eq_ok, xbtAssert_eq_ok, Except.ok.injEq] at hstep
  obtain ⟨-, hfresh, rfl⟩ := hstep
  refine ⟨sound_add hsound hfresh, ?_⟩
  rw [add, hobjects, List.map_append, List.map_singleton]

theorem loadJobs_keeps {filename : String} {js : List JobEntry}
    (h : loadJobs filename s js = .ok s') :
    s'.objects = s.objects ∧ s'.profiles = s.profiles := by
  refine forEach_preserves (P := fun t => t.objects = s.objects ∧ t.profiles = s.profiles)
    ⟨rfl, rfl⟩ ?_ h
  intro j _ t t' ht hstep
  simp only [bind_eq_ok, Except.ok.injEq] at hstep
  obtain ⟨p, -, -, -, rfl⟩ := hstep
  exact ht

/-- The profiles of `names` were loaded, and their references lead to one another; the profiles
that were registered afterwards have no references. -/
structure Linked (names : List String) (s : ProfileStore) : Prop where
  sound : s.Sound
  loadedFirst : (s.objects.take names.length).map ProfileObject.name = names
  loaded : ∀ object ∈ s.objects, ∀ d, object.data = .sequence d → object.name ∈ names →
    d.Resolved (s.objects.take names.length)
  registered : ∀ object ∈ s.objects, ∀ d, object.data = .sequence d → object.name ∉ names →
    d.profileSequence = []

/-- The second loop of `check_validity` changes nothing. -/
theorem checkValidity_resolves {js : List JobEntry} (h : s.checkValidity js = .ok s') :
    forEach resolve s s.profiles.keys = .ok s' := by
  simp only [checkValidity, bind_eq_ok] at h
  obtain ⟨t, hresolve, hjobs⟩ := h
  have hsame : s' = t := by
    refine forEach_preserves (P := fun u => u = t) rfl ?_ hjobs
    intro j _ u u' hu hstep
    split at hstep
    · cases hstep
    · simp only [bind_eq_ok, Except.ok.injEq] at hstep
      obtain ⟨-, -, rfl⟩ := hstep
      exact hu
  rw [hsame]
  exact hresolve

theorem checkValidity_keeps {js : List JobEntry} (h : s.checkValidity js = .ok s') :
    s'.profiles = s.profiles ∧ s'.jobs = s.jobs := by
  refine forEach_preserves (P := fun t => t.profiles = s.profiles ∧ t.jobs = s.jobs) ⟨rfl, rfl⟩ ?_
    (checkValidity_resolves h)
  intro name _ t t' ht hstep
  have hkept := resolve_profiles hstep
  exact ⟨hkept.1.trans ht.1, hkept.2.trans ht.2⟩

theorem checkValidity_linked {js : List JobEntry} (hsound : s.Sound)
    (hfresh : ∀ object ∈ s.objects, ∀ d, object.data = .sequence d → d.profileSequence = [])
    (h : s.checkValidity js = .ok s') : s'.Linked (s.objects.map ProfileObject.name) := by
  have hprofiles := (checkValidity_keeps h).1
  have hchecked : s'.Checking (s.objects.map ProfileObject.name) s.profiles.keys := by
    refine forEach_invariant (fun done t => t.Checking (s.objects.map ProfileObject.name) done)
      ?_ ?_ (checkValidity_resolves h)
    · exact ⟨hsound, rfl, fun _ _ _ _ hdone => absurd hdone List.not_mem_nil,
        fun object hobject d hdata _ => hfresh object hobject d hdata⟩
    · intro done name rest t t' hsplit hchecking hstep
      refine checking_resolve hchecking ?_ hstep
      have hdistinct := s.profiles.keys_nodup
      rw [hsplit] at hdistinct
      intro hmem
      exact List.disjoint_of_nodup_append hdistinct hmem (by simp)
  have hall : s'.objects.take (s.objects.map ProfileObject.name).length = s'.objects := by
    rw [← hchecked.names, List.length_map, List.take_length]
  have hknown : ∀ object ∈ s'.objects, object.name ∈ s.profiles.keys := by
    intro object hobject
    have hname := hchecked.sound.known object hobject
    rw [exists?, hprofiles, AList.lookup_isSome] at hname
    exact hname
  constructor
  · exact hchecked.sound
  · rw [hall]
    exact hchecked.names
  · intro object hobject d hdata _
    rw [hall]
    exact hchecked.resolved object hobject d hdata (hknown object hobject)
  · intro object hobject d hdata hname
    rw [← hchecked.names] at hname
    exact absurd (List.mem_map_of_mem hobject) hname

theorem linked_forget (h : s.Linked names) (name : String) : (s.forget name).Linked names :=
  ⟨sound_forget h.sound name, h.loadedFirst, h.loaded, h.registered⟩

/-- A workload file that is checked, before its unreferenced profiles are removed. -/
theorem checked_linked {filename : String} {file : WorkloadFile} {t u : ProfileStore}
    (hprofiles : loadProfiles filename {} file.profiles = .ok t)
    (hjobs : loadJobs filename t file.jobs = .ok u) (hvalid : u.checkValidity file.jobs = .ok s) :
    s.Linked (file.profiles.map ProfileObject.name) := by
  obtain ⟨hsound, hobjects⟩ := loadProfiles_spec hprofiles
  obtain ⟨hobjects', hprofiles'⟩ := loadJobs_keeps hjobs
  have hnames : u.objects.map ProfileObject.name = file.profiles.map ProfileObject.name := by
    rw [hobjects', hobjects, List.map_map]
    exact List.map_congr_left fun p _ => ProfileObject.fromJson_name p
  rw [← hnames]
  refine checkValidity_linked (sound_of_names hsound (by rw [hobjects']) hprofiles') ?_ hvalid
  intro object hobject d hdata
  rw [hobjects', hobjects] at hobject
  obtain ⟨p, -, rfl⟩ := List.mem_map.mp hobject
  exact ProfileObject.fromJson_data hdata

theorem loadFromJson_linked {filename : String} {order : List String} {file : WorkloadFile}
    (h : loadFromJson filename order file = .ok s) :
    s.Linked (file.profiles.map ProfileObject.name) := by
  simp only [loadFromJson, bind_eq_ok, Except.ok.injEq] at h
  obtain ⟨t, hprofiles, u, hjobs, v, hvalid, rfl⟩ := h
  exact removeUnreferencedProfiles_rule (fun w => w.Linked _)
    (checked_linked hprofiles hjobs hvalid) fun w name hw => linked_forget hw name

/-! ### Operations on a loaded workload -/

theorem Linked.length_le (h : s.Linked names) : names.length ≤ s.objects.length := by
  have hlength := congrArg List.length h.loadedFirst
  rw [List.length_map, List.length_take] at hlength
  omega

theorem linked_add (h : s.Linked names) {p : ProfileObject} (hfresh : s.exists? p.name = false) :
    (s.add p).Linked names := by
  have hloaded : (s.add p).objects.take names.length = s.objects.take names.length := by
    rw [add, List.take_append_of_le_length h.length_le]
  have hold : ∀ object ∈ (s.add p).objects, object ∈ s.objects ∨ object = p.fromJson := by
    intro object hobject
    rcases List.mem_append.mp hobject with hold | hnew
    · exact .inl hold
    · exact .inr (List.mem_singleton.mp hnew)
  constructor
  · exact sound_add h.sound hfresh
  · rw [hloaded]
    exact h.loadedFirst
  · intro object hobject d hdata hname
    rw [hloaded]
    rcases hold object hobject with hmem | rfl
    · exact h.loaded object hmem d hdata hname
    · -- a name of the file is known already
      rw [ProfileObject.fromJson_name, ← h.loadedFirst] at hname
      obtain ⟨other, hother, hsame⟩ := List.mem_map.mp hname
      have hknown := h.sound.known other (List.mem_of_mem_take hother)
      rw [hsame, hfresh] at hknown
      cases hknown
  · intro object hobject d hdata hname
    rcases hold object hobject with hmem | rfl
    · exact h.registered object hmem d hdata hname
    · exact ProfileObject.fromJson_data hdata

theorem linked_apply (h : s.Linked names) {op : ProfileOp} (hrun : s.apply op = .ok s') :
    s'.Linked names := by
  cases op with
  | registerProfile p =>
    simp only [ProfileStore.apply, bind_eq_ok, xbtAssert_eq_ok, Except.ok.injEq] at hrun
    obtain ⟨-, hfresh, rfl⟩ := hrun
    exact linked_add h hfresh
  | registerJob j =>
    simp only [ProfileStore.apply, bind_eq_ok, Except.ok.injEq] at hrun
    obtain ⟨-, -, p, -, -, -, rfl⟩ := hrun
    exact ⟨sound_of_names h.sound rfl rfl, h.loadedFirst, h.loaded, h.registered⟩
  | deleteJob id gc =>
    have hkeep : ∀ t : ProfileStore, t.objects = s.objects → t.profiles = s.profiles →
        t.Linked names := by
      intro t hobjects hprofiles
      refine ⟨sound_of_names h.sound (by rw [hobjects]) hprofiles, ?_, ?_, ?_⟩
      · rw [hobjects]
        exact h.loadedFirst
      · rw [hobjects]
        exact h.loaded
      · rw [hobjects]
        exact h.registered
    exact deleteJob_rule (fun t => t.Linked names) (hkeep _ rfl rfl)
      (fun t name ht => linked_forget ht name)
      (fun t _ ht => ⟨sound_of_names ht.sound rfl rfl, ht.loadedFirst, ht.loaded, ht.registered⟩)
      hrun

theorem linked_run (h : s.Linked names) {ops : List ProfileOp}
    (hrun : forEach ProfileStore.apply s ops = .ok s') : s'.Linked names :=
  forEach_preserves h (fun _ _ _ _ ht hstep => linked_apply ht hstep) hrun

/-! ### Building the tasks of a composed profile -/

theorem Linked.sub_loaded (h : s.Linked names) {object : ProfileObject} {d : SequenceProfileData}
    {i : Nat} (hmem : object ∈ s.objects) (hdata : object.data = .sequence d)
    (hname : object.name ∈ names) (hi : i < d.sequence.length) :
    ∃ q sub, d.profileSequence[i]? = some q ∧ s.objects[q]? = some sub ∧ sub.name ∈ names ∧
      d.sequence[i]? = some sub.name := by
  have hresolved := h.loaded object hmem d hdata hname
  have hi' : i < d.profileSequence.length := by
    rw [hresolved.length_eq]
    exact hi
  obtain ⟨sub, hsub, hsame⟩ := hresolved.get hi' hi
  refine ⟨d.profileSequence[i], sub, List.getElem?_eq_getElem hi', ?_, ?_, ?_⟩
  · rw [List.getElem?_take] at hsub
    split at hsub
    · exact hsub
    · cases hsub
  · rw [← h.loadedFirst]
    exact List.mem_map_of_mem (List.mem_of_getElem? hsub)
  · rw [hsame]
    exact List.getElem?_eq_getElem hi

end ProfileStore

theorem initializeSequentialTasks_profile {objects : List ProfileObject} {depth : Nat}
    {p : ProfilePtr} {io : Option ProfilePtr} {t : BatTask}
    (h : initializeSequentialTasks objects depth p io = .ok t) :
    objects[p]? = some t.profile := by
  cases depth with
  | zero => cases h
  | succ depth =>
    simp only [initializeSequentialTasks, bind_eq_ok] at h
    obtain ⟨object, hobject, h⟩ := h
    rw [vectorAt_eq_ok] at hobject
    split at h
    · simp only [bind_eq_ok, Except.ok.injEq] at h
      obtain ⟨subTasks, -, rfl⟩ := h
      exact hobject
    · cases h
      exact hobject

/-- What a composed profile executes, when its references lead to the profiles that it names. -/
theorem subTasks_names {objects : List ProfileObject} {depth : Nat} {p : ProfilePtr}
    {io : Option ProfilePtr} {t : BatTask} {object : ProfileObject} {d : SequenceProfileData}
    (hobject : objects[p]? = some object) (hdata : object.data = .sequence d)
    (hresolved : d.Resolved objects)
    (h : initializeSequentialTasks objects depth p io = .ok t) :
    t.subTasks.map (fun sub => sub.profile.name) = (List.replicate d.repeats d.sequence).flatten := by
  cases depth with
  | zero => cases h
  | succ depth =>
    simp only [initializeSequentialTasks, bind_eq_ok] at h
    obtain ⟨object', hobject', h⟩ := h
    rw [vectorAt_eq_ok, hobject] at hobject'
    cases hobject'
    simp only [hdata, bind_eq_ok, Except.ok.injEq] at h
    obtain ⟨subTasks, hsubs, rfl⟩ := h
    have hnames : List.Forall₂ (fun (i : Nat) sub => d.sequence[i]? = some sub.profile.name)
        ((List.range d.repeats).flatMap fun _ => List.range d.sequence.length) subTasks := by
      refine List.Forall₂.imp ?_ (collect_eq_ok.mp hsubs)
      intro i sub hsub
      simp only [bind_eq_ok] at hsub
      obtain ⟨q, hq, subIo, -, hinit⟩ := hsub
      rw [vectorAt_eq_ok] at hq
      obtain ⟨hi, hget⟩ := List.getElem?_eq_some_iff.mp hq
      have hi' : i < d.sequence.length := by
        rw [← hresolved.length_eq]
        exact hi
      obtain ⟨named, hnamed, hname⟩ := hresolved.get hi hi'
      rw [List.get_eq_getElem, hget, initializeSequentialTasks_profile hinit] at hnamed
      cases hnamed
      rw [hname]
      exact List.getElem?_eq_getElem hi'
    have hsame : (subTasks.map fun sub => sub.profile.name).map some =
        ((List.range d.repeats).flatMap fun _ => List.range d.sequence.length).map
          fun i => d.sequence[i]? := by
      rw [List.map_map]
      exact List.forall₂_eq_eq_eq ▸ (List.forall₂_map_left_iff.mpr
        (List.forall₂_map_right_iff.mpr (hnames.flip.imp fun _ _ h => h.symm)))
    have hrange : (List.range d.sequence.length).map (fun i => d.sequence[i]?) =
        d.sequence.map some := by
      refine List.ext_getElem (by simp) ?_
      intro i hi _
      have hlt : i < d.sequence.length := by simpa using hi
      simp [hlt]
    rw [List.map_flatMap, hrange, List.flatMap_def, List.map_const', List.length_range,
      ← List.map_replicate, ← List.map_flatten] at hsame
    exact List.map_injective_iff.mpr (Option.some_injective String) hsame

namespace ProfileStore

variable {s : ProfileStore} {names : List String}

theorem Linked.subIo_fits (h : s.Linked names) {object : ProfileObject} {d : SequenceProfileData}
    {p q : ProfilePtr} {io : Option ProfilePtr} {i : Nat} (hobject : s.objects[p]? = some object)
    (hdata : object.data = .sequence d) (hi : i < d.sequence.length)
    (hq : d.profileSequence[i]? = some q) (hfits : IoFits s.objects names p io) :
    ∃ subIo, subIoProfile s.objects io i = .ok subIo ∧ IoFits s.objects names q subIo := by
  cases hfits with
  | none => exact ⟨none, rfl, .none q⟩
  | leaf _ hleafObject hleaf =>
    rw [hobject] at hleafObject
    cases hleafObject
    rw [ProfileObject.isSequence, hdata] at hleaf
    cases hleaf
  | @sequence _ r same ioObject d' ioData hsame hdata' hioObject hioData hioName hlength hsubs =>
    rw [hobject] at hsame
    cases hsame
    rw [hdata] at hdata'
    cases hdata'
    obtain ⟨subIo, _, hsubIo, -, -, -⟩ :=
      h.sub_loaded (List.mem_of_getElem? hioObject) hioData hioName (hlength ▸ hi)
    refine ⟨some subIo, ?_, hsubs i q subIo hq hsubIo⟩
    simp only [subIoProfile, bind_eq_ok, vectorAt_eq_ok]
    refine ⟨ioObject, hioObject, ?_⟩
    simp only [hioData, bind_eq_ok, vectorAt_eq_ok]
    exact ⟨subIo, hsubIo, rfl⟩

/-- Building the tasks of a loaded profile never reads past the end of a composed profile. -/
theorem Linked.tasks_in_range (h : s.Linked names) {object : ProfileObject}
    (depth : Nat) {p : ProfilePtr} {io : Option ProfilePtr}
    (hobject : s.objects[p]? = some object) (hname : object.name ∈ names)
    (hfits : IoFits s.objects names p io) :
    initializeSequentialTasks s.objects depth p io ≠ .error outOfRange := by
  induction depth generalizing p io object with
  | zero =>
    intro herror
    exact absurd herror (by simp [initializeSequentialTasks, outOfRange])
  | succ depth ih =>
    intro herror
    rw [initializeSequentialTasks, bind_eq_error] at herror
    rcases herror with hout | ⟨object', hobject', herror⟩
    · exact absurd (vectorAt_eq_error hout).1
        (not_le.mpr (List.getElem?_eq_some_iff.mp hobject).1)
    rw [vectorAt_eq_ok, hobject] at hobject'
    cases hobject'
    split at herror
    · rename_i d hdata
      rw [bind_eq_error] at herror
      rcases herror with hcollect | ⟨_, -, herror⟩
      · obtain ⟨i, hi, hturn⟩ := exists_of_collect_eq_error hcollect
        have hlt : i < d.sequence.length := by
          obtain ⟨_, -, hrange⟩ := List.mem_flatMap.mp hi
          exact List.mem_range.mp hrange
        obtain ⟨q, sub, hq, hsub, hsubName, -⟩ :=
          h.sub_loaded (List.mem_of_getElem? hobject) hdata hname hlt
        obtain ⟨subIo, hsubIo, hsubFits⟩ := h.subIo_fits hobject hdata hlt hq hfits
        have hturn' : initializeSequentialTasks s.objects depth q subIo = .error outOfRange := by
          rw [vectorAt_eq_ok.mpr hq] at hturn
          simpa only [bind, Except.bind, hsubIo] using hturn
        exact ih hsub hsubName hsubFits hturn'
      · cases herror
    · cases herror

end ProfileStore

/-- However its workload got its profiles, a composed profile leads to the profiles that it names,
and its tasks are made of them, exactly if it was in the workload file. -/
theorem composed_profile_resolved_iff_loaded {filename : String} {order : List String}
    {file : WorkloadFile} {ops : List ProfileOp} {loaded s : ProfileStore}
    (hload : ProfileStore.loadFromJson filename order file = .ok loaded)
    (hrun : forEach ProfileStore.apply loaded ops = .ok s)
    {p : ProfilePtr} {object : ProfileObject} {d : SequenceProfileData}
    (hobject : s.objects[p]? = some object) (hdata : object.data = .sequence d) :
    (d.Resolved s.objects ∧
      (∀ depth io, IoFits s.objects (file.profiles.map ProfileObject.name) p io →
        initializeSequentialTasks s.objects depth p io ≠ .error outOfRange) ∧
      ∀ depth io t, initializeSequentialTasks s.objects depth p io = .ok t →
        t.subTasks.map (fun sub => sub.profile.name) =
          (List.replicate d.repeats d.sequence).flatten) ↔
      object.name ∈ file.profiles.map ProfileObject.name := by
  have hlinked := ProfileStore.linked_run (ProfileStore.loadFromJson_linked hload) hrun
  have hmem := List.mem_of_getElem? hobject
  constructor
  · rintro ⟨hresolved, -, -⟩
    by_contra hname
    have hlength := hresolved.length_eq
    rw [hlinked.registered object hmem d hdata hname] at hlength
    exact d.sequence_ne_nil (List.length_eq_zero_iff.mp hlength.symm)
  · intro hname
    have hresolved : d.Resolved s.objects := by
      refine List.Forall₂.imp ?_ (hlinked.loaded object hmem d hdata hname)
      rintro q name ⟨sub, hsub, hsame⟩
      refine ⟨sub, ?_, hsame⟩
      rw [List.getElem?_take] at hsub
      split at hsub
      · exact hsub
      · cases hsub
    refine ⟨hresolved, ?_, ?_⟩
    · intro depth io hfits
      exact hlinked.tasks_in_range depth hobject hname hfits
    · intro depth io t hinit
      exact subTasks_names hobject hdata hresolved hinit

/-- A delay, and a composed profile of two such delays. -/
def napProfile : ProfileObject := { name := "nap", data := .delay 10 (by decide) }

def napsProfile : ProfileObject where
  name := "naps"
  data := .sequence
    { repeats := 1, sequence := ["nap", "nap"], repeats_pos := Nat.one_pos
      sequence_ne_nil := by decide }

def napsJob : JobEntry :=
  { id := { workloadName := "w0", jobName := "1", lexically_valid := JobIdentifier.first_valid }
    profile := "naps", res := 1 }

def napsFile : WorkloadFile := { profiles := [napProfile, napsProfile], jobs := [napsJob] }

/-- A composed profile of a workload file, after its job is deleted without its profiles. -/
theorem composed_profile_resolved_in_file :
    ∃ s : ProfileStore, ∃ object ∈ s.objects, ∃ d, object.data = .sequence d ∧
      d.Resolved s.objects := by
  obtain ⟨loaded, hload, hrun⟩ := exists_of_succeedsWith
    (x := ProfileStore.loadFromJson "w0" ["nap", "naps"] napsFile)
    (P := fun loaded => succeedsWith
      (forEach ProfileStore.apply loaded [.deleteJob napsJob.id false])
      fun s => s.objects[1]?.any fun object => object.isSequence && object.name == "naps")
    (by decide +kernel)
  obtain ⟨s, hrun, hany⟩ := exists_of_succeedsWith hrun
  obtain ⟨object, hobject, hnaps⟩ := (Option.any_eq_true _ _).mp hany
  rw [Bool.and_eq_true, beq_iff_eq] at hnaps
  obtain ⟨hsequence, hname⟩ := hnaps
  cases hdata : object.data with
  | sequence d =>
    refine ⟨s, object, List.mem_of_getElem? hobject, d, hdata, ?_⟩
    refine ((composed_profile_resolved_iff_loaded hload hrun hobject hdata).mpr ?_).1
    rw [hname]
    decide
  | _ =>
    rw [ProfileObject.isSequence, hdata] at hsequence
    cases hsequence

/-- A composed profile that the scheduler registers, with a job that executes it: no reference is
ever set, and the tasks of the job cannot be made. -/
theorem registered_composed_profile_is_not_resolved :
    ∃ loaded s : ProfileStore, ∃ (p : ProfilePtr) (object : ProfileObject)
      (d : SequenceProfileData),
      ProfileStore.loadFromJson "w0" [] { profiles := [napProfile], jobs := [] } = .ok loaded ∧
      forEach ProfileStore.apply loaded
        [.registerProfile napsProfile, .registerJob napsJob] = .ok s ∧
      s.jobs.lookup napsJob.id = some p ∧ s.objects[p]? = some object ∧
      object.data = .sequence d ∧ d.profileSequence.length ≠ d.sequence.length ∧
      initializeSequentialTasks s.objects 2 p none = .error outOfRange := by
  refine ⟨_, _, 1, napsProfile, _, rfl, rfl, by decide +kernel, by decide +kernel, rfl,
    by decide, rfl⟩

end Batsim
