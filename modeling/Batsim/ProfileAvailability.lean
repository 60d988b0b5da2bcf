import Batsim.ComposedProfiles

/-!
Which profiles a job may look up while it is executed, and which of them are still there.
-/

namespace Batsim

open Checked Relation

/-- The profiles that a composed profile lists. -/
def ProfileObject.listed (p : ProfileObject) : List String :=
  match p.data with
  | .sequence d => d.sequence
  | _ => []

/-- The profiles that `execute_task` may look up by name. -/
def ProfileObject.lookedUp (p : ProfileObject) : List String :=
  match p.data with
  | .schedulerRecv d => [d.onSuccess, d.onFailure, d.onTimeout].filter (· ≠ "")
  | _ => []

namespace WorkloadFile

variable (file : WorkloadFile)

/-- `a` is a composed profile that lists `b`. -/
def Lists (a b : String) : Prop :=
  ∃ p ∈ file.profiles, p.name = a ∧ b ∈ p.listed

/-- `b` is one step away from `a`, for an execution. -/
def Uses (a b : String) : Prop :=
  ∃ p ∈ file.profiles, p.name = a ∧ (b ∈ p.listed ∨ b ∈ p.lookedUp)

end WorkloadFile

@[simp] theorem ProfileObject.fromJson_listed (p : ProfileObject) :
    p.fromJson.listed = p.listed := by
  unfold ProfileObject.fromJson
  split
  · next d hdata => simp [ProfileObject.listed, hdata]
  · rfl

namespace ProfileStore

variable {s s' : ProfileStore} {file : WorkloadFile}

/-! ### Reference counts -/

/-- The object is known under its name. -/
def Named (s : ProfileStore) (p : ProfilePtr) : Prop :=
  ∃ name, s.profiles.lookup name = some (some p)

/-- The object belongs to a job, or to a composed profile that does. -/
inductive Used (s : ProfileStore) : ProfilePtr → Prop where
  | job {id : JobIdentifier} {p : ProfilePtr} (h : s.jobs.lookup id = some p) : Used s p
  | sub {p q : ProfilePtr} (hq : Used s q) (h : p ∈ s.subs q) : Used s p

open Classical in
/-- The references that are not held by an object: its name, and a job. -/
noncomputable def outside (s : ProfileStore) (p : ProfilePtr) : Nat :=
  (if s.Named p then 1 else 0) + if ∃ id, s.jobs.lookup id = some p then 1 else 0

/-- The objects of a composed profile are among those of the store. -/
def Closed (s : ProfileStore) : Prop :=
  (∀ id p, s.jobs.lookup id = some p → p < s.objects.length) ∧
    ∀ q p, p ∈ s.subs q → p < s.objects.length

/-- The counts that `remove_unreferenced_profiles` reads cover the references that are left. -/
def Counted (s : ProfileStore) (counts : ProfilePtr → Nat) : Prop :=
  RefCount.Covers s.subs (Finset.range s.objects.length) s.outside counts []

theorem counted_useCount (s : ProfileStore) : s.Counted s.useCount := by
  intro p _
  have hnamed : s.Named p → 0 < s.profiles.entries.countP fun e => e.2 = some p := by
    rintro ⟨name, hname⟩
    exact List.countP_pos_iff.mpr ⟨⟨name, some p⟩, AList.mem_lookup_iff.mp hname, by simp⟩
  have hjob : (∃ id, s.jobs.lookup id = some p) → 0 < s.jobs.entries.countP fun e => e.2 = p := by
    rintro ⟨id, hid⟩
    exact List.countP_pos_iff.mpr ⟨⟨id, p⟩, AList.mem_lookup_iff.mp hid, by simp⟩
  have hinside : RefCount.heldInside s.subs (Finset.range s.objects.length) s.useCount p ≤
      RefCount.heldInside s.subs (Finset.range s.objects.length) (fun _ => 1) p := by
    refine Finset.sum_le_sum fun q _ => ?_
    split
    · exact le_rfl
    · exact Nat.zero_le _
  have houtside : s.outside p ≤ (s.profiles.entries.countP fun e => e.2 = some p) +
      s.jobs.entries.countP fun e => e.2 = p := by
    unfold outside
    split <;> split <;> rename_i h h'
    · exact Nat.add_le_add (hnamed h) (hjob h')
    · exact Nat.add_le_add (hnamed h) (Nat.zero_le _)
    · exact Nat.add_le_add (Nat.zero_le _) (hjob h')
    · exact Nat.zero_le _
  rw [List.count_nil, Nat.add_zero]
  exact Nat.add_le_add houtside hinside

theorem named_forget_iff {name : String} {p q : ProfilePtr} (hsound : s.Sound)
    (hname : s.profiles.lookup name = some (some p)) :
    (s.forget name).Named q ↔ q ≠ p ∧ s.Named q := by
  constructor
  · rintro ⟨other, hother⟩
    by_cases hsame : other = name
    · subst hsame
      simp [forget] at hother
    · rw [forget, AList.lookup_insert_ne hsame] at hother
      refine ⟨?_, other, hother⟩
      rintro rfl
      -- an object has one name only
      obtain ⟨object, hobject, hnamed⟩ := hsound.named other q hother
      obtain ⟨object', hobject', hnamed'⟩ := hsound.named name q hname
      rw [hobject] at hobject'
      cases hobject'
      exact hsame (hnamed.symm.trans hnamed')
  · rintro ⟨hdiffers, other, hother⟩
    refine ⟨other, ?_⟩
    have hsame : other ≠ name := by
      rintro rfl
      rw [hname] at hother
      cases hother
      exact hdiffers rfl
    rw [forget, AList.lookup_insert_ne hsame]
    exact hother

/-- Forgetting a name drops one reference. -/
theorem counted_forget {counts : ProfilePtr → Nat} {name : String} {p : ProfilePtr} {fuel : Nat}
    (hsound : s.Sound) (hclosed : s.Closed) (h : s.Counted counts)
    (hname : s.profiles.lookup name = some (some p)) :
    (s.forget name).Counted (RefCount.release s.subs fuel counts [p]) := by
  obtain ⟨object, hobject, -⟩ := hsound.named name p hname
  have hp : p ∈ Finset.range s.objects.length :=
    Finset.mem_range.mpr (List.getElem?_eq_some_iff.mp hobject).1
  have hpos : 0 < s.outside p := by
    unfold outside
    rw [if_pos ⟨name, hname⟩]
    omega
  have hreleased := RefCount.covers_release
    (fun q _ r hr => Finset.mem_range.mpr (hclosed.2 q r hr)) fuel
    (fun q hq => by rw [List.mem_singleton.mp hq]; exact hp) (RefCount.covers_outside h hpos)
  intro q hq
  refine le_trans ?_ (hreleased q hq)
  refine Nat.add_le_add_right (Nat.add_le_add_right ?_ _) _
  by_cases hsame : q = p
  · subst hsame
    rw [Function.update_self]
    have hnamed : s.Named q := ⟨name, hname⟩
    have hgone : ¬(s.forget name).Named q :=
      fun hleft => ((named_forget_iff hsound hname).mp hleft).1 rfl
    unfold outside
    rw [if_pos hnamed, if_neg hgone, Nat.add_sub_cancel_left, Nat.zero_add]
    exact le_rfl
  · rw [Function.update_of_ne hsame]
    unfold outside
    have hiff : (s.forget name).Named q ↔ s.Named q :=
      (named_forget_iff hsound hname).trans (and_iff_right hsame)
    rw [propext hiff]
    exact le_rfl

/-- An object that a job needs has a name and another reference. -/
theorem two_le_of_used {counts : ProfilePtr → Nat} {p : ProfilePtr} (hclosed : s.Closed)
    (h : s.Counted counts) (hnamed : ∀ q, s.Used q → s.Named q) (hp : s.Used p) :
    2 ≤ counts p := by
  have hin : ∀ q, s.Used q → q ∈ Finset.range s.objects.length := by
    intro q hq
    cases hq with
    | job hjob => exact Finset.mem_range.mpr (hclosed.1 _ q hjob)
    | sub _ hsub => exact Finset.mem_range.mpr (hclosed.2 _ q hsub)
  have hone : ∀ q, s.Used q → 0 < s.outside q := by
    intro q hq
    unfold outside
    rw [if_pos (hnamed q hq)]
    omega
  cases hp with
  | job hjob =>
    have houtside := RefCount.outside_le h (hin p (.job hjob))
    unfold outside at houtside
    rw [if_pos (hnamed p (.job hjob)), if_pos ⟨_, hjob⟩] at houtside
    exact houtside
  | @sub _ q hq hsub =>
    have halive : 0 < counts q := (hone q hq).trans_le (RefCount.outside_le h (hin q hq))
    exact RefCount.two_le_of_parent h (hin p (.sub hq hsub)) (hin q hq) (hone p (.sub hq hsub))
      halive hsub

theorem used_forget_iff {name : String} {p : ProfilePtr} : (s.forget name).Used p ↔ s.Used p := by
  constructor
  · intro h
    induction h with
    | job hjob => exact .job hjob
    | sub _ hsub ih => exact .sub ih hsub
  · intro h
    induction h with
    | job hjob => exact .job hjob
    | sub _ hsub ih => exact .sub ih hsub

/-- What stays true when a profile with less than two references is removed. -/
theorem removeUnreferencedProfiles_counted (P : ProfileStore → Prop) (hsound : s.Sound)
    (hclosed : s.Closed) (h : P s)
    (hforget : ∀ (t : ProfileStore) counts name p, t.Sound → t.Closed → t.Counted counts →
      t.profiles.lookup name = some (some p) → counts p < 2 → P t → P (t.forget name))
    (order : List String) : P (s.removeUnreferencedProfiles order) := by
  unfold removeUnreferencedProfiles
  generalize hcounts : s.useCount = counts
  have hcounted : s.Counted counts := hcounts ▸ s.counted_useCount
  clear hcounts
  induction order generalizing s counts with
  | nil => exact h
  | cons name order ih =>
    rw [List.foldl_cons]
    unfold removeUnreferenced
    dsimp only
    split
    · next p hname =>
      split
      · next hfew =>
        exact ih (sound_forget hsound name) hclosed
          (hforget s counts name p hsound hclosed hcounted hname hfew h) _
          (counted_forget hsound hclosed hcounted hname)
      · exact ih hsound hclosed h counts hcounted
    · exact ih hsound hclosed h counts hcounted

/-- `remove_unreferenced_profiles` keeps what the jobs need, in whichever order it goes through
the profiles. -/
theorem removeUnreferencedProfiles_keeps (hsound : s.Sound) (hclosed : s.Closed)
    (hnamed : ∀ p, s.Used p → s.Named p) (order : List String) :
    ∀ p, s.Used p → (s.removeUnreferencedProfiles order).Named p := by
  have hkeeps : ∀ p, (s.removeUnreferencedProfiles order).Used p →
      (s.removeUnreferencedProfiles order).Named p := by
    refine removeUnreferencedProfiles_counted (fun t => ∀ p, t.Used p → t.Named p) hsound hclosed
      hnamed ?_ order
    intro t counts name p hsound hclosed hcounted hname hfew hnamed q hq
    have hused := used_forget_iff.mp hq
    refine (named_forget_iff hsound hname).mpr ⟨?_, hnamed q hused⟩
    rintro rfl
    exact absurd (two_le_of_used hclosed hcounted hnamed hused) (not_le.mpr hfew)
  have hused : ∀ p, s.Used p → (s.removeUnreferencedProfiles order).Used p := by
    intro p hp
    exact removeUnreferencedProfiles_rule (fun t => t.Used p) hp
      fun t name ht => used_forget_iff.mpr ht
  exact fun p hp => hkeeps p (hused p hp)

/-- The profiles that a known composed profile refers to are known. -/
def SubsNamed (s : ProfileStore) : Prop := ∀ q p, s.Named q → p ∈ s.subs q → s.Named p

/-- `remove_unreferenced_profiles` keeps the profiles that others refer to. -/
theorem removeUnreferencedProfiles_subsNamed (hsound : s.Sound) (hclosed : s.Closed)
    (hsubs : s.SubsNamed) (order : List String) :
    (s.removeUnreferencedProfiles order).SubsNamed := by
  refine removeUnreferencedProfiles_counted SubsNamed hsound hclosed hsubs ?_ order
  intro t counts name p hsound hclosed hcounted hname hfew hsubs q r hq hr
  obtain ⟨hdiffers, hqNamed⟩ := (named_forget_iff hsound hname).mp hq
  have hrNamed := hsubs q r hqNamed hr
  refine (named_forget_iff hsound hname).mpr ⟨?_, hrNamed⟩
  rintro rfl
  have hin : ∀ o, t.Named o → o ∈ Finset.range t.objects.length := by
    rintro o ⟨other, hother⟩
    obtain ⟨object, hobject, -⟩ := hsound.named other o hother
    exact Finset.mem_range.mpr (List.getElem?_eq_some_iff.mp hobject).1
  have hone : ∀ o, t.Named o → 0 < t.outside o := by
    intro o ho
    unfold outside
    rw [if_pos ho]
    omega
  have halive : 0 < counts q :=
    (hone q hqNamed).trans_le (RefCount.outside_le hcounted (hin q hqNamed))
  exact absurd (RefCount.two_le_of_parent hcounted (hin r hrNamed) (hin q hqNamed) (hone r hrNamed)
    halive hr) (not_le.mpr hfew)

/-! ### Loading a workload file -/

theorem fromJson_idem (p : ProfileObject) : p.fromJson.fromJson = p.fromJson := by
  obtain ⟨name, data, returnCode⟩ := p
  cases data <;> rfl

theorem resolve_shape {name : String} (h : s.resolve name = .ok s') :
    s'.objects.map ProfileObject.fromJson = s.objects.map ProfileObject.fromJson := by
  simp only [resolve, bind_eq_ok] at h
  obtain ⟨p, -, object, hobject, h⟩ := h
  rw [vectorAt_eq_ok] at hobject
  split at h
  · next d hdata =>
    simp only [bind_eq_ok, Except.ok.injEq] at h
    obtain ⟨ps, -, rfl⟩ := h
    obtain ⟨hlt, hget⟩ := List.getElem?_eq_some_iff.mp hobject
    have hlt' : p < (s.objects.map ProfileObject.fromJson).length := by simpa using hlt
    have hsame : ({ object with
        data := .sequence { d with profileSequence := d.profileSequence ++ ps } } :
          ProfileObject).fromJson = (s.objects.map ProfileObject.fromJson)[p] := by
      rw [List.getElem_map, hget]
      simp only [ProfileObject.fromJson, hdata]
    rw [List.map_set, hsame, List.set_getElem_self]
  · cases h
    rfl

/-- The first objects are those of the file, with their references. -/
structure FromFile (file : WorkloadFile) (s : ProfileStore) : Prop where
  linked : s.Linked (file.profiles.map ProfileObject.name)
  shape : (s.objects.take file.profiles.length).map ProfileObject.fromJson =
    file.profiles.map ProfileObject.fromJson

theorem loadProfiles_live {filename : String} {ps : List ProfileObject}
    (h : loadProfiles filename {} ps = .ok s) :
    s.jobs = ∅ ∧ ∀ name, s.exists? name = true → ∃ p, s.profiles.lookup name = some (some p) := by
  refine forEach_preserves (P := fun t => t.jobs = ∅ ∧
    ∀ name, t.exists? name = true → ∃ p, t.profiles.lookup name = some (some p)) ⟨rfl, ?_⟩ ?_ h
  · intro name hname
    simp [exists?, AList.lookup_empty] at hname
  · rintro p - t t' ⟨hjobs, hlive⟩ hstep
    simp only [bind_eq_ok, xbtAssert_eq_ok, Except.ok.injEq] at hstep
    obtain ⟨-, -, rfl⟩ := hstep
    refine ⟨hjobs, ?_⟩
    intro name hname
    by_cases hsame : name = p.name
    · subst hsame
      exact ⟨t.objects.length, by simp [add]⟩
    · obtain ⟨q, hq⟩ := hlive name ((exists?_add.mp hname).resolve_left hsame)
      exact ⟨q, by rw [add, AList.lookup_insert_ne hsame, hq]⟩

/-- Every job gets the profile that it names. -/
theorem loadJobs_profiles {filename : String} {js : List JobEntry} (hjobs : s.jobs = ∅)
    (h : loadJobs filename s js = .ok s') :
    (∀ j ∈ js, ∃ p, s'.jobs.lookup j.id = some p ∧ s.profiles.lookup j.profile = some (some p)) ∧
      ∀ id p, s'.jobs.lookup id = some p → ∃ name, s.profiles.lookup name = some (some p) := by
  suffices hinv : s'.profiles = s.profiles ∧
      (∀ j ∈ js, j.id ∈ s'.jobsMet ∧
        ∃ p, s'.jobs.lookup j.id = some p ∧ s.profiles.lookup j.profile = some (some p)) ∧
      ∀ id p, s'.jobs.lookup id = some p → ∃ name, s.profiles.lookup name = some (some p) from
    ⟨fun j hj => (hinv.2.1 j hj).2, hinv.2.2⟩
  refine forEach_invariant (fun done t => t.profiles = s.profiles ∧
      (∀ j ∈ done, j.id ∈ t.jobsMet ∧
        ∃ p, t.jobs.lookup j.id = some p ∧ s.profiles.lookup j.profile = some (some p)) ∧
      ∀ id p, t.jobs.lookup id = some p → ∃ name, s.profiles.lookup name = some (some p))
    ⟨rfl, ?_, ?_⟩ ?_ h
  · intro j hj
    cases hj
  · intro id p hid
    rw [hjobs, AList.lookup_empty] at hid
    cases hid
  · rintro done j rest t t' - ⟨hprofiles, hdone, hall⟩ hstep
    simp only [profileOfJob, bind_eq_ok, xbtAssert_eq_ok, Except.ok.injEq] at hstep
    obtain ⟨p, ⟨-, -, hat⟩, -, hnew, rfl⟩ := hstep
    rw [at?_eq_ok, hprofiles] at hat
    refine ⟨hprofiles, ?_, ?_⟩
    · intro k hk
      by_cases hsame : k.id = j.id
      · rcases List.mem_append.mp hk with hold | hlast
        · exact absurd (hsame ▸ (hdone k hold).1) hnew
        · rw [List.mem_singleton.mp hlast]
          exact ⟨by simp [insertJob], p, by simp [insertJob], hat⟩
      · rcases List.mem_append.mp hk with hold | hlast
        · obtain ⟨hmet, q, hq, hnamed⟩ := hdone k hold
          refine ⟨List.mem_cons_of_mem _ hmet, q, ?_, hnamed⟩
          rw [insertJob, AList.lookup_insert_ne hsame]
          exact hq
        · rw [List.mem_singleton.mp hlast] at hsame
          exact absurd rfl hsame
    · intro id q hid
      by_cases hsame : id = j.id
      · subst hsame
        rw [insertJob, AList.lookup_insert] at hid
        cases hid
        exact ⟨j.profile, hat⟩
      · rw [insertJob, AList.lookup_insert_ne hsame] at hid
        exact hall id q hid

/-- A loaded workload, before its unreferenced profiles are removed. -/
structure Loaded (file : WorkloadFile) (s : ProfileStore) : Prop extends FromFile file s where
  live : ∀ name, s.exists? name = true → ∃ p, s.profiles.lookup name = some (some p)
  jobs : ∀ j ∈ file.jobs, ∃ p, s.jobs.lookup j.id = some p ∧
    s.profiles.lookup j.profile = some (some p)
  closed : s.Closed

theorem Linked.sub_lt {names : List String} (h : s.Linked names) {p q : ProfilePtr}
    (hp : p ∈ s.subs q) : p < s.objects.length := by
  unfold subs at hp
  split at hp
  · next name d returnCode hobject =>
    have hmem := List.mem_of_getElem? hobject
    by_cases hname : name ∈ names
    · obtain ⟨i, hi, rfl⟩ := List.getElem_of_mem hp
      have hresolved := h.loaded _ hmem d rfl hname
      obtain ⟨sub, hsub, -⟩ := hresolved.get hi (hresolved.length_eq ▸ hi)
      have hlt := (List.getElem?_eq_some_iff.mp hsub).1
      rw [List.length_take] at hlt
      exact lt_of_lt_of_le hlt (Nat.min_le_right _ _)
    · rw [h.registered _ hmem d rfl hname] at hp
      cases hp
  · cases hp

theorem closed_of_linked {names : List String} (h : s.Linked names)
    (hjobs : ∀ id p, s.jobs.lookup id = some p → p < s.objects.length) : s.Closed :=
  ⟨hjobs, fun _ _ hp => h.sub_lt hp⟩

theorem loadFromJson_eq_ok {filename : String} {order : List String} :
    loadFromJson filename order file = .ok s' ↔ ∃ t, loadProfiles filename {} file.profiles = .ok t ∧
      ∃ u, loadJobs filename t file.jobs = .ok u ∧
        ∃ v, u.checkValidity file.jobs = .ok v ∧ v.removeUnreferencedProfiles order = s' := by
  simp only [loadFromJson, bind_eq_ok, Except.ok.injEq]

theorem loaded_of_valid {filename : String} {t u v : ProfileStore}
    (hprofiles : loadProfiles filename {} file.profiles = .ok t)
    (hjobs : loadJobs filename t file.jobs = .ok u) (hvalid : u.checkValidity file.jobs = .ok v) :
    v.Loaded file := by
  obtain ⟨-, hobjects⟩ := loadProfiles_spec hprofiles
  obtain ⟨hempty, hlive⟩ := loadProfiles_live hprofiles
  obtain ⟨hobjects', hprofiles'⟩ := loadJobs_keeps hjobs
  obtain ⟨hnamed, hall⟩ := loadJobs_profiles hempty hjobs
  obtain ⟨hsameProfiles, hsameJobs⟩ := checkValidity_keeps hvalid
  have hkept : v.profiles = t.profiles := hsameProfiles.trans hprofiles'
  have hlinked := checked_linked hprofiles hjobs hvalid
  have hshape : v.objects.map ProfileObject.fromJson =
      file.profiles.map ProfileObject.fromJson := by
    have hsame := forEach_unchanged (fun w : ProfileStore => w.objects.map ProfileObject.fromJson)
      (fun _ _ _ _ hstep => resolve_shape hstep) (checkValidity_resolves hvalid)
    refine Eq.trans hsame ?_
    rw [hobjects', hobjects, List.map_map]
    exact List.map_congr_left fun p _ => fromJson_idem p
  constructor
  · refine ⟨hlinked, ?_⟩
    rw [List.map_take, hshape, ← List.length_map, List.take_length]
  · intro name hname
    rw [exists?, hkept] at hname
    rw [hkept]
    exact hlive name hname
  · intro j hj
    rw [hsameJobs, hkept]
    exact hnamed j hj
  · refine closed_of_linked hlinked ?_
    intro id p hid
    rw [hsameJobs] at hid
    obtain ⟨name, hname⟩ := hall id p hid
    rw [← hkept] at hname
    obtain ⟨object, hobject, -⟩ := hlinked.sound.named name p hname
    exact (List.getElem?_eq_some_iff.mp hobject).1

theorem loadFromJson_loaded {filename : String} {order : List String}
    (h : loadFromJson filename order file = .ok s') :
    ∃ s : ProfileStore, s.Loaded file ∧ s' = s.removeUnreferencedProfiles order := by
  obtain ⟨t, hprofiles, u, hjobs, v, hvalid, rfl⟩ := loadFromJson_eq_ok.mp h
  exact ⟨v, loaded_of_valid hprofiles hjobs hvalid, rfl⟩

/-! ### The profiles that a composed profile leads to -/

/-- An object under the name of a profile of the file is that profile. -/
theorem FromFile.object_listed (h : s.FromFile file) {object p : ProfileObject}
    (hobject : object ∈ s.objects) (hp : p ∈ file.profiles) (hname : p.name = object.name) :
    object.listed = p.listed := by
  have hmem : p.fromJson ∈ (s.objects.take file.profiles.length).map ProfileObject.fromJson := by
    rw [h.shape]
    exact List.mem_map_of_mem hp
  obtain ⟨other, hother, hsame⟩ := List.mem_map.mp hmem
  have hnames : other.name = object.name := by
    rw [← hname, ← ProfileObject.fromJson_name p, ← hsame, ProfileObject.fromJson_name]
  have heq : other = object := List.inj_on_of_nodup_map h.linked.sound.distinct
    (List.mem_of_mem_take hother) hobject hnames
  rw [← heq, ← ProfileObject.fromJson_listed other, hsame, ProfileObject.fromJson_listed]

theorem FromFile.lists_of_sub (h : s.FromFile file) {object sub : ProfileObject}
    {p q : ProfilePtr} (hobject : s.objects[p]? = some object) (hq : q ∈ s.subs p)
    (hsub : s.objects[q]? = some sub) : file.Lists object.name sub.name := by
  have hmem := List.mem_of_getElem? hobject
  unfold subs at hq
  rw [hobject] at hq
  split at hq
  · next name d returnCode hsame =>
    cases hsame
    by_cases hname : name ∈ file.profiles.map ProfileObject.name
    · obtain ⟨i, hi, rfl⟩ := List.getElem_of_mem hq
      have hresolved := h.linked.loaded _ hmem d rfl hname
      have hi' : i < d.sequence.length := hresolved.length_eq ▸ hi
      obtain ⟨named, hnamed, hat⟩ := hresolved.get hi hi'
      have hsame : sub = named := by
        rw [List.getElem?_take] at hnamed
        split at hnamed
        · exact Option.some.inj (hsub.symm.trans hnamed)
        · cases hnamed
      obtain ⟨profile, hprofile, hprofileName⟩ := List.mem_map.mp hname
      refine ⟨profile, hprofile, hprofileName, ?_⟩
      rw [← h.object_listed hmem hprofile hprofileName, hsame, hat]
      exact List.getElem_mem hi'
    · rw [h.linked.registered _ hmem d rfl hname] at hq
      cases hq
  · cases hq

theorem FromFile.sub_of_lists (h : s.FromFile file) {object : ProfileObject} {p : ProfilePtr}
    {b : String} (hobject : s.objects[p]? = some object) (hlists : file.Lists object.name b) :
    ∃ q sub, q ∈ s.subs p ∧ s.objects[q]? = some sub ∧ sub.name = b := by
  obtain ⟨profile, hprofile, hname, hb⟩ := hlists
  have hmem := List.mem_of_getElem? hobject
  rw [← h.object_listed hmem hprofile hname, ProfileObject.listed] at hb
  split at hb
  · next d hdata =>
    obtain ⟨i, hi, rfl⟩ := List.getElem_of_mem hb
    obtain ⟨q, sub, hq, hsub, -, hsame⟩ :=
      h.linked.sub_loaded hmem hdata (hname ▸ List.mem_map_of_mem hprofile) hi
    refine ⟨q, sub, ?_, hsub, ?_⟩
    · obtain ⟨name, data, returnCode⟩ := object
      cases hdata
      rw [subs, hobject]
      exact List.mem_of_getElem? hq
    · rw [List.getElem?_eq_getElem hi] at hsame
      exact (Option.some.inj hsame).symm
  · cases hb

/-- What a job of the file leads to through composed profiles. -/
theorem Loaded.used_of_listed (h : s.Loaded file) {j : JobEntry} (hj : j ∈ file.jobs) {b : String}
    (hlisted : ReflTransGen file.Lists j.profile b) :
    ∃ p object, s.Used p ∧ s.objects[p]? = some object ∧ object.name = b := by
  induction hlisted with
  | refl =>
    obtain ⟨p, hp, hname⟩ := h.jobs j hj
    obtain ⟨object, hobject, hsame⟩ := h.linked.sound.named _ p hname
    exact ⟨p, object, .job hp, hobject, hsame⟩
  | tail _ hlists ih =>
    obtain ⟨p, object, hused, hobject, rfl⟩ := ih
    obtain ⟨q, sub, hq, hsub, hname⟩ := h.toFromFile.sub_of_lists hobject hlists
    exact ⟨q, sub, .sub hused hq, hsub, hname⟩

theorem lookup_of_named (hsound : s.Sound) {p : ProfilePtr} {object : ProfileObject}
    (hnamed : s.Named p) (hobject : s.objects[p]? = some object) :
    s.profiles.lookup object.name = some (some p) := by
  obtain ⟨name, hname⟩ := hnamed
  obtain ⟨same, hsame, hsameName⟩ := hsound.named name p hname
  rw [hobject] at hsame
  cases hsame
  rw [hsameName]
  exact hname

/-- Every object is known under its name. -/
theorem Loaded.named (h : s.Loaded file) {q : ProfilePtr} (hlt : q < s.objects.length) :
    s.Named q := by
  obtain ⟨r, hr⟩ := h.live _ (h.linked.sound.known _ (List.getElem_mem hlt))
  obtain ⟨same, hsame, hname⟩ := h.linked.sound.named _ r hr
  obtain ⟨hlt', hget⟩ := List.getElem?_eq_some_iff.mp hsame
  have hindex : r = q := by
    have hr' : r < (s.objects.map ProfileObject.name).length := by simpa using hlt'
    have hq' : q < (s.objects.map ProfileObject.name).length := by simpa using hlt
    have hsameName : (s.objects.map ProfileObject.name)[r] =
        (s.objects.map ProfileObject.name)[q] := by
      rw [List.getElem_map, List.getElem_map, hget, hname]
    exact h.linked.sound.distinct.getElem_inj_iff.mp hsameName
  exact ⟨_, hindex ▸ hr⟩

/-- Loading keeps every profile that a job leads to through composed profiles. -/
theorem Loaded.kept (h : s.Loaded file) (order : List String) {j : JobEntry}
    (hj : j ∈ file.jobs) {b : String} (hlisted : ReflTransGen file.Lists j.profile b) :
    ∃ p, (s.removeUnreferencedProfiles order).profiles.lookup b = some (some p) := by
  obtain ⟨p, object, hused, hobject, rfl⟩ := h.used_of_listed hj hlisted
  have hnamed : ∀ q, s.Used q → s.Named q := by
    intro q hq
    cases hq with
    | job hjob => exact h.named (h.closed.1 _ q hjob)
    | sub _ hsub => exact h.named (h.closed.2 _ q hsub)
  have hkept := removeUnreferencedProfiles_keeps h.linked.sound h.closed hnamed order p hused
  have hrule : (s.removeUnreferencedProfiles order).Sound ∧
      (s.removeUnreferencedProfiles order).objects = s.objects :=
    removeUnreferencedProfiles_rule (fun t => t.Sound ∧ t.objects = s.objects)
      ⟨h.linked.sound, rfl⟩ fun t name ht => ⟨sound_forget ht.1 name, ht.2⟩
  exact ⟨p, lookup_of_named hrule.1 hkept (hrule.2 ▸ hobject)⟩

/-! ### Operations on a loaded workload -/

theorem fromFile_forget (h : s.FromFile file) (name : String) : (s.forget name).FromFile file :=
  ⟨linked_forget h.linked name, h.shape⟩

theorem removeProfile_fromFile {depth : Nat} {name : String} (h : s.FromFile file)
    (hrun : removeProfile depth s name = .ok s') : s'.FromFile file :=
  removeProfile_rule (fun t => t.FromFile file) (fun _ name ht => fromFile_forget ht name) depth h
    hrun

theorem loadFromJson_fromFile {filename : String} {order : List String}
    (h : loadFromJson filename order file = .ok s) : s.FromFile file := by
  obtain ⟨t, hloaded, rfl⟩ := loadFromJson_loaded h
  exact removeUnreferencedProfiles_rule (fun u => u.FromFile file) hloaded.toFromFile
    fun u name hu => fromFile_forget hu name

/-- Removing a profile only removes what it leads to through composed profiles. -/
theorem removeProfile_listed {depth : Nat} {name : String} (h : s.FromFile file)
    (hrun : removeProfile depth s name = .ok s') (b : String) :
    s'.profiles.lookup b = s.profiles.lookup b ∨ ReflTransGen file.Lists name b := by
  induction depth generalizing s s' name with
  | zero => cases hrun
  | succ depth ih =>
    unfold removeProfile at hrun
    split at hrun
    · cases hrun
    · cases hrun
      exact .inl rfl
    · next p hname =>
      obtain ⟨object, hobject, hsame⟩ := h.linked.sound.named name p hname
      simp only [bind_eq_ok, Except.ok.injEq] at hrun
      obtain ⟨t, hloop, rfl⟩ := hrun
      have hsubs : t.FromFile file ∧ t.objects = s.objects ∧
          (t.profiles.lookup b = s.profiles.lookup b ∨ ReflTransGen file.Lists name b) := by
        refine forEach_preserves (P := fun u => u.FromFile file ∧ u.objects = s.objects ∧
          (u.profiles.lookup b = s.profiles.lookup b ∨ ReflTransGen file.Lists name b))
          ⟨h, rfl, .inl rfl⟩ ?_ hloop
        rintro q hq u u' ⟨hu, hobjects, hlookup⟩ hstep
        simp only [bind_eq_ok] at hstep
        obtain ⟨sub, hsub, hremove⟩ := hstep
        rw [vectorAt_eq_ok, hobjects] at hsub
        refine ⟨removeProfile_fromFile hu hremove,
          (removeProfile_objects hremove).trans hobjects, ?_⟩
        rcases ih hu hremove with hkept | hlisted
        · rw [hkept]
          exact hlookup
        · have hlists := h.lists_of_sub hobject hq hsub
          rw [hsame] at hlists
          exact .inr (.head hlists hlisted)
      by_cases hb : b = name
      · exact .inr (hb ▸ .refl)
      · rw [forget, AList.lookup_insert_ne hb]
        exact hsubs.2.2

/-- Whatever is done to a workload, a name of `kept` is still known, unless a job was deleted that
led to it. -/
structure Keeps (file : WorkloadFile) (kept : String → Prop) (s : ProfileStore) : Prop where
  fromFile : s.FromFile file
  known : ∀ b, kept b → (∃ p, s.profiles.lookup b = some (some p)) ∨
    ∃ a ∈ s.deleted, ReflTransGen file.Lists a b

theorem fromFile_apply (h : s.FromFile file) {op : ProfileOp} (hrun : s.apply op = .ok s') :
    s'.FromFile file := by
  refine ⟨linked_apply h.linked hrun, ?_⟩
  have hlength : file.profiles.length ≤ s.objects.length := by
    simpa using h.linked.length_le
  have hloaded : s'.objects.take file.profiles.length = s.objects.take file.profiles.length := by
    cases op with
    | registerProfile p =>
      simp only [ProfileStore.apply, bind_eq_ok, Except.ok.injEq] at hrun
      obtain ⟨-, -, rfl⟩ := hrun
      rw [add, List.take_append_of_le_length hlength]
    | registerJob j =>
      simp only [ProfileStore.apply, bind_eq_ok, Except.ok.injEq] at hrun
      obtain ⟨-, -, p, -, -, -, rfl⟩ := hrun
      rfl
    | deleteJob id gc =>
      refine congrArg _ (deleteJob_rule (fun t => t.objects = s.objects) rfl (fun _ _ ht => ht)
        (fun _ _ ht => ht) hrun)
  rw [hloaded]
  exact h.shape

theorem keeps_apply {kept : String → Prop} (h : s.Keeps file kept) {op : ProfileOp}
    (hrun : s.apply op = .ok s') : s'.Keeps file kept := by
  refine ⟨fromFile_apply h.fromFile hrun, ?_⟩
  intro b hb
  cases op with
  | registerProfile p =>
    simp only [ProfileStore.apply, bind_eq_ok, xbtAssert_eq_ok, Except.ok.injEq] at hrun
    obtain ⟨-, hfresh, rfl⟩ := hrun
    rcases h.known b hb with ⟨q, hq⟩ | hdeleted
    · left
      have hdiffers : b ≠ p.name := by
        rintro rfl
        rw [exists?, hq] at hfresh
        cases hfresh
      exact ⟨q, by rw [add, AList.lookup_insert_ne hdiffers, hq]⟩
    · exact .inr hdeleted
  | registerJob j =>
    simp only [ProfileStore.apply, bind_eq_ok, Except.ok.injEq] at hrun
    obtain ⟨-, -, p, -, -, -, rfl⟩ := hrun
    exact h.known b hb
  | deleteJob id gc =>
    simp only [ProfileStore.apply, deleteJob, bind_eq_ok] at hrun
    obtain ⟨-, -, hrun⟩ := hrun
    split at hrun
    · cases hrun
    · simp only [bind_eq_ok] at hrun
      obtain ⟨object, -, hrun⟩ := hrun
      split at hrun
      · simp only [bind_eq_ok, Except.ok.injEq] at hrun
        obtain ⟨t, hremove, rfl⟩ := hrun
        have herased : ({ s with jobs := s.jobs.erase id } : ProfileStore).FromFile file :=
          ⟨⟨sound_of_names h.fromFile.linked.sound rfl rfl, h.fromFile.linked.loadedFirst,
            h.fromFile.linked.loaded, h.fromFile.linked.registered⟩, h.fromFile.shape⟩
        have hdeleted := removeProfile_deleted hremove
        rw [hdeleted]
        rcases removeProfile_listed herased hremove b with hsame | hlisted
        · rcases h.known b hb with ⟨q, hq⟩ | ⟨a, ha, hlists⟩
          · exact .inl ⟨q, hsame.trans hq⟩
          · exact .inr ⟨a, List.mem_cons_of_mem _ ha, hlists⟩
        · exact .inr ⟨object.name, by simp, hlisted⟩
      · cases hrun
        exact h.known b hb

end ProfileStore

/-- A profile that waits for a message, with what it then executes. -/
def waitProfile (onSuccess : String) : ProfileObject where
  name := "wait"
  data := .schedulerRecv
    { regex := ".*", onSuccess := onSuccess, onFailure := "", onTimeout := "", polltime := 1
      polltime_pos := by decide }

def waitJob (name : String) (profile : String) (h : '!' ∉ name.toList) : JobEntry :=
  { id := { workloadName := "w0", jobName := name, lexically_valid := ⟨by decide, h⟩ }
    profile := profile, res := 1 }

theorem one_valid : '!' ∉ "1".toList := by decide

theorem two_valid : '!' ∉ "2".toList := by decide

/-- A job that waits, then executes the profile of another job. -/
def sharingFile : WorkloadFile where
  profiles := [waitProfile "nap", napProfile]
  jobs := [waitJob "1" "wait" one_valid, waitJob "2" "nap" two_valid]

/-- A job that waits, then executes a profile that is nobody else's. -/
def waitingFile : WorkloadFile where
  profiles := [waitProfile "nap", napProfile]
  jobs := [waitJob "1" "wait" one_valid]

end Batsim
