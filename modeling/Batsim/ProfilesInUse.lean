import Batsim.Lib.Recursion
import Batsim.UnreferencedProfiles

/-!
The profiles that the jobs of a workload use, while jobs are registered and deleted with their
profiles.
-/

namespace Batsim

open Checked Relation

namespace ProfileStore

/-- `a` is a composed profile that lists `b`. -/
def Lists (s : ProfileStore) (a b : String) : Prop :=
  ∃ object ∈ s.objects, object.name = a ∧ b ∈ object.listed

/-- The job of the workload has the profile, or a composed profile that leads to it. -/
def UsedBy (s : ProfileStore) (id : JobIdentifier) (b : String) : Prop :=
  ∃ p object, s.jobs.lookup id = some p ∧ s.objects[p]? = some object ∧
    ReflTransGen s.Lists object.name b

/-- `a` can be accessed, and holds a reference to the profile `b`. -/
def RefersTo (s : ProfileStore) (a b : String) : Prop :=
  ∃ p q sub, s.profiles.lookup a = some (some p) ∧ q ∈ s.subs p ∧
    s.objects[q]? = some sub ∧ sub.name = b

/-- The profile of the job does not lead to an accessible profile of another job. -/
def Spares (s : ProfileStore) (id : JobIdentifier) : Prop :=
  ∀ p object, s.jobs.lookup id = some p → s.objects[p]? = some object →
    ∀ other b, other ≠ id → s.UsedBy other b → b ∈ s.accessible →
      ¬ReflTransGen s.RefersTo object.name b

/-- As long as a job is there, the profiles that it uses remain accessible. -/
def KeepsUsed (s : ProfileStore) (ops : List ProfileOp) : Prop :=
  ∀ before middle after t u, ops = before ++ middle ++ after →
    forEach apply s before = .ok t → forEach apply t middle = .ok u →
      ∀ id b, t.UsedBy id b → b ∈ t.accessible → (u.jobs.lookup id).isSome = true →
        b ∈ u.accessible

variable {s s' t : ProfileStore} {file : WorkloadFile} {name b : String} {id : JobIdentifier}

/-! ### What a deletion removes -/

theorem RefersTo.of_kept (hobjects : t.objects = s.objects)
    (hkept : ∀ b p, t.profiles.lookup b = some (some p) → s.profiles.lookup b = some (some p))
    {a : String} (h : t.RefersTo a b) : s.RefersTo a b := by
  obtain ⟨p, q, sub, hp, hq, hsub, hname⟩ := h
  refine ⟨p, q, sub, hkept a p hp, ?_, hobjects ▸ hsub, hname⟩
  unfold subs at hq ⊢
  rw [← hobjects]
  exact hq

/-- What is left of the profiles, once those that `gone` leads to are removed. -/
structure Without (s : ProfileStore) (gone : String → Prop) (t : ProfileStore) : Prop where
  objects : t.objects = s.objects
  left : ∀ b p, t.profiles.lookup b = some (some p) ↔
    s.profiles.lookup b = some (some p) ∧ ¬∃ a, gone a ∧ ReflTransGen s.RefersTo a b

theorem Without.reach_iff {gone : String → Prop} (h : s.Without gone t) {a : String}
    (hleft : ¬∃ c, gone c ∧ ReflTransGen s.RefersTo c b) :
    ReflTransGen t.RefersTo a b ↔ ReflTransGen s.RefersTo a b := by
  constructor
  · intro hreach
    exact ReflTransGen.mono
      (fun x y => RefersTo.of_kept h.objects fun c q hq => ((h.left c q).mp hq).1) _ _ hreach
  · intro hreach
    -- whatever leads to `b` is not among what is gone
    obtain ⟨havoid, -⟩ := Recursion.reach_outside
      (fun x => ∃ c, gone c ∧ ReflTransGen s.RefersTo c x)
      (fun x y hxy ⟨c, hc, hcx⟩ => ⟨c, hc, hcx.tail hxy⟩) hreach hleft
    refine ReflTransGen.mono ?_ _ _ havoid
    rintro x y ⟨⟨q, r, sub, hq, hr, hsub, hname⟩, hx⟩
    refine ⟨q, r, sub, (h.left x q).mpr ⟨hq, hx⟩, ?_, h.objects ▸ hsub, hname⟩
    unfold subs at hr ⊢
    rw [h.objects]
    exact hr

theorem Without.trans {u : ProfileStore} {gone gone' : String → Prop} (h : s.Without gone t)
    (h' : t.Without gone' u) : s.Without (fun a => gone a ∨ gone' a) u where
  objects := h'.objects.trans h.objects
  left := by
    intro b p
    rw [h'.left, h.left]
    constructor
    · rintro ⟨⟨hp, hleft⟩, hleft'⟩
      refine ⟨hp, ?_⟩
      rintro ⟨a, ha | ha, hreach⟩
      · exact hleft ⟨a, ha, hreach⟩
      · exact hleft' ⟨a, ha, (h.reach_iff hleft).mpr hreach⟩
    · rintro ⟨hp, hleft⟩
      have hold : ¬∃ a, gone a ∧ ReflTransGen s.RefersTo a b := by
        rintro ⟨a, ha, hreach⟩
        exact hleft ⟨a, .inl ha, hreach⟩
      refine ⟨⟨hp, hold⟩, ?_⟩
      rintro ⟨a, ha, hreach⟩
      exact hleft ⟨a, .inr ha, (h.reach_iff hold).mp hreach⟩

/-- Removing a profile removes what it leads to through references, and nothing else. -/
theorem removeProfile_without {depth : Nat} (hrun : removeProfile depth s name = .ok s') :
    s.Without (· = name) s' := by
  induction depth generalizing s s' name with
  | zero => cases hrun
  | succ depth ih =>
    unfold removeProfile at hrun
    split at hrun
    · cases hrun
    · next hname =>
      -- the profile was already removed: it does not lead anywhere
      cases hrun
      refine ⟨rfl, fun b p => ⟨fun hp => ⟨hp, ?_⟩, fun hp => hp.1⟩⟩
      rintro ⟨a, rfl, hreach⟩
      rcases ReflTransGen.cases_head hreach with rfl | ⟨c, ⟨q, r, sub, hq, -⟩, -⟩
      · rw [hname] at hp
        cases hp
      · rw [hname] at hq
        cases hq
    · next p hname =>
      simp only [bind_eq_ok, Except.ok.injEq] at hrun
      obtain ⟨t, hloop, rfl⟩ := hrun
      have hsubs : s.Without
          (fun a => ∃ q ∈ s.subs p, ∃ sub, s.objects[q]? = some sub ∧ sub.name = a) t := by
        refine forEach_invariant (fun done u => s.Without
          (fun a => ∃ q ∈ done, ∃ sub, s.objects[q]? = some sub ∧ sub.name = a) u) ?_ ?_ hloop
        · exact ⟨rfl, fun b p => by simp⟩
        · intro done q rest u u' _ hdone hstep
          simp only [bind_eq_ok, vectorAt_eq_ok, hdone.objects] at hstep
          obtain ⟨sub, hsub, hremove⟩ := hstep
          have hboth := hdone.trans (ih hremove)
          have hgone : (fun a => (∃ q ∈ done, ∃ sub, s.objects[q]? = some sub ∧ sub.name = a) ∨
              a = sub.name) = fun a => ∃ r ∈ done ++ [q], ∃ sub, s.objects[r]? = some sub ∧
                sub.name = a := by
            funext a
            simp [or_and_right, exists_or, hsub, eq_comm]
          rw [← hgone]
          exact hboth
      refine ⟨hsubs.objects, fun b r => ?_⟩
      rw [lookup_forget]
      split
      · next hb =>
        refine iff_of_false (by simp) fun h => h.2 ⟨name, rfl, ?_⟩
        rw [hb]
      · next hb =>
        rw [hsubs.left]
        refine and_congr_right fun hr => not_congr ⟨?_, ?_⟩
        · rintro ⟨a, ⟨q, hq, sub, hsub, hsame⟩, hreach⟩
          exact ⟨name, rfl, .head ⟨p, q, sub, hname, hq, hsub, hsame⟩ hreach⟩
        · rintro ⟨a, rfl, hreach⟩
          rcases ReflTransGen.cases_head hreach with heq | ⟨c, ⟨p', q, sub, hp', hq, hsub, hsame⟩, hrest⟩
          · exact absurd heq.symm hb
          · rw [hname] at hp'
            cases hp'
            exact ⟨c, ⟨q, hq, sub, hsub, hsame⟩, hrest⟩

theorem deleteJob_without (hrun : s.deleteJob id true = .ok s') :
    ∃ p object, s.jobs.lookup id = some p ∧ s.objects[p]? = some object ∧
      s.Without (· = object.name) s' ∧ s'.jobs = s.jobs.erase id ∧ s'.jobsMet = s.jobsMet := by
  simp only [deleteJob, bind_eq_ok] at hrun
  obtain ⟨-, -, hrun⟩ := hrun
  split at hrun
  · cases hrun
  · next p hp =>
    simp only [bind_eq_ok, vectorAt_eq_ok, ↓reduceIte, Except.ok.injEq] at hrun
    obtain ⟨object, hobject, t, hremove, rfl⟩ := hrun
    have hkept : t.jobs = s.jobs.erase id ∧ t.jobsMet = s.jobsMet := by
      refine removeProfile_rule (fun u => u.jobs = s.jobs.erase id ∧ u.jobsMet = s.jobsMet)
        (fun u name hu => hu) _ ?_ hremove
      exact ⟨rfl, rfl⟩
    have hwithout := removeProfile_without hremove
    exact ⟨p, object, hp, hobject, ⟨hwithout.objects, hwithout.left⟩, hkept⟩

/-! ### The jobs that are there -/

variable {u : ProfileStore}

theorem UsedBy.of_kept (hjob : u.jobs.lookup id = t.jobs.lookup id)
    (hobjects : ∀ (p : ProfilePtr) (object : ProfileObject), t.objects[p]? = some object →
      u.objects[p]? = some object)
    (h : t.UsedBy id b) : u.UsedBy id b := by
  obtain ⟨p, object, hp, hobject, hlists⟩ := h
  refine ⟨p, object, hjob.trans hp, hobjects p object hobject, ?_⟩
  refine ReflTransGen.mono ?_ _ _ hlists
  rintro x y ⟨composed, hmem, hname, hy⟩
  obtain ⟨q, hq, rfl⟩ := List.getElem_of_mem hmem
  have hkept := hobjects q _ (List.getElem?_eq_getElem hq)
  exact ⟨_, List.mem_of_getElem? hkept, hname, hy⟩

/-- A job that was met is not registered again. -/
theorem apply_jobs {op : ProfileOp} (hrun : t.apply op = .ok u) (hmet : id ∈ t.jobsMet) :
    id ∈ u.jobsMet ∧
      ((u.jobs.lookup id).isSome = true → u.jobs.lookup id = t.jobs.lookup id) := by
  cases op with
  | registerProfile p =>
    simp only [ProfileStore.apply, bind_eq_ok, Except.ok.injEq] at hrun
    obtain ⟨-, -, rfl⟩ := hrun
    exact ⟨hmet, fun _ => rfl⟩
  | registerJob j =>
    simp only [ProfileStore.apply, bind_eq_ok, xbtAssert_eq_ok, Except.ok.injEq] at hrun
    obtain ⟨-, hnew, p, -, -, -, rfl⟩ := hrun
    have hne : id ≠ j.id := by
      rintro rfl
      exact hnew hmet
    exact ⟨List.mem_cons_of_mem _ hmet, fun _ => AList.lookup_insert_ne hne⟩
  | deleteJob other gc =>
    have hkept : u.jobsMet = t.jobsMet ∧ u.jobs = t.jobs.erase other := by
      refine deleteJob_rule
        (fun v => v.jobsMet = t.jobsMet ∧ v.jobs = t.jobs.erase other) ?_
        (fun _ _ hv => hv) (fun _ _ hv => hv) hrun
      exact ⟨rfl, rfl⟩
    rw [hkept.1, hkept.2]
    refine ⟨hmet, fun hpresent => ?_⟩
    by_cases hsame : id = other
    · subst hsame
      simp at hpresent
    · exact AList.lookup_erase_ne hsame

/-- Objects are never moved. -/
theorem apply_objects {op : ProfileOp} (hrun : t.apply op = .ok u) {p : ProfilePtr}
    {object : ProfileObject} (hobject : t.objects[p]? = some object) :
    u.objects[p]? = some object := by
  cases op with
  | registerProfile p =>
    simp only [ProfileStore.apply, bind_eq_ok, Except.ok.injEq] at hrun
    obtain ⟨-, -, rfl⟩ := hrun
    rw [add, List.getElem?_append_left (List.getElem?_eq_some_iff.mp hobject).1]
    exact hobject
  | registerJob j =>
    simp only [ProfileStore.apply, bind_eq_ok, Except.ok.injEq] at hrun
    obtain ⟨-, -, p, -, -, -, rfl⟩ := hrun
    exact hobject
  | deleteJob other gc =>
    have hsame : u.objects = t.objects :=
      deleteJob_rule (fun v => v.objects = t.objects) rfl (fun _ _ hv => hv) (fun _ _ hv => hv) hrun
    rw [hsame]
    exact hobject

/-- A profile that a job uses remains accessible, if no deletion leads to it. -/
theorem apply_accessible {op : ProfileOp} (hrun : t.apply op = .ok u)
    (hspares : ∀ other, op = .deleteJob other true → t.Spares other) (hused : t.UsedBy id b)
    (hpresent : (u.jobs.lookup id).isSome = true) (hb : b ∈ t.accessible) : b ∈ u.accessible := by
  rw [mem_accessible]
  obtain ⟨p, hp⟩ := mem_accessible.mp hb
  refine ⟨p, ?_⟩
  cases op with
  | registerProfile q =>
    simp only [ProfileStore.apply, bind_eq_ok, xbtAssert_eq_ok, Except.ok.injEq] at hrun
    obtain ⟨-, hfresh, rfl⟩ := hrun
    have hne : b ≠ q.name := by
      rintro rfl
      rw [exists?, hp] at hfresh
      cases hfresh
    rw [add, AList.lookup_insert_ne hne, hp]
  | registerJob j =>
    simp only [ProfileStore.apply, bind_eq_ok, Except.ok.injEq] at hrun
    obtain ⟨-, -, q, -, -, -, rfl⟩ := hrun
    exact hp
  | deleteJob other gc =>
    cases gc with
    | false =>
      simp only [ProfileStore.apply, deleteJob, bind_eq_ok] at hrun
      obtain ⟨-, -, hrun⟩ := hrun
      split at hrun
      · cases hrun
      · simp only [bind_eq_ok, Bool.false_eq_true, ↓reduceIte, Except.ok.injEq] at hrun
        obtain ⟨object, -, rfl⟩ := hrun
        exact hp
    | true =>
      obtain ⟨q, object, hq, hobject, hwithout, hjobs, -⟩ := deleteJob_without hrun
      have hne : id ≠ other := by
        rintro rfl
        simp [hjobs] at hpresent
      refine (hwithout.left b p).mpr ⟨hp, ?_⟩
      rintro ⟨a, rfl, hreach⟩
      exact hspares other rfl q object hq hobject id b hne hused hb hreach

/-- The jobs of the workload were met. -/
def Met (s : ProfileStore) : Prop := ∀ id p, s.jobs.lookup id = some p → id ∈ s.jobsMet

theorem met_insertJob (h : s.Met) (id : JobIdentifier) (p : ProfilePtr) : (s.insertJob id p).Met := by
  intro other q hq
  by_cases hsame : other = id
  · subst hsame
    exact List.mem_cons_self
  · rw [insertJob, AList.lookup_insert_ne hsame] at hq
    exact List.mem_cons_of_mem _ (h other q hq)

theorem loadFromJson_met {filename : String} {order : List String}
    (h : loadFromJson filename order file = .ok s) : s.Met := by
  obtain ⟨t, hprofiles, u, hjobs, v, hvalid, rfl⟩ := loadFromJson_eq_ok.mp h
  have hempty : t.Met := by
    intro id p hp
    rw [(loadProfiles_live hprofiles).1, AList.lookup_empty] at hp
    cases hp
  have hloaded : u.Met := by
    refine forEach_preserves (P := Met) hempty ?_ hjobs
    intro j _ w w' hw hstep
    simp only [bind_eq_ok, Except.ok.injEq] at hstep
    obtain ⟨p, -, -, -, rfl⟩ := hstep
    exact met_insertJob hw j.id p
  have hchecked : v.Met := by
    refine forEach_preserves (P := Met) hloaded ?_ (checkValidity_resolves hvalid)
    intro name _ w w' hw hstep
    simp only [resolve, bind_eq_ok] at hstep
    obtain ⟨p, -, object, -, hstep⟩ := hstep
    split at hstep
    · simp only [bind_eq_ok, Except.ok.injEq] at hstep
      obtain ⟨ps, -, rfl⟩ := hstep
      exact hw
    · cases hstep
      exact hw
  exact removeUnreferencedProfiles_rule Met hchecked fun w name hw => hw

theorem apply_met {op : ProfileOp} (h : t.Met) (hrun : t.apply op = .ok u) : u.Met := by
  cases op with
  | registerProfile p =>
    simp only [ProfileStore.apply, bind_eq_ok, Except.ok.injEq] at hrun
    obtain ⟨-, -, rfl⟩ := hrun
    exact h
  | registerJob j =>
    simp only [ProfileStore.apply, bind_eq_ok, Except.ok.injEq] at hrun
    obtain ⟨-, -, p, -, -, -, rfl⟩ := hrun
    exact met_insertJob h j.id p
  | deleteJob other gc =>
    refine deleteJob_rule Met ?_ (fun _ _ hv => hv) (fun _ _ hv => hv) hrun
    intro id p hp
    by_cases hsame : id = other
    · subst hsame
      rw [AList.lookup_erase] at hp
      cases hp
    · rw [AList.lookup_erase_ne hsame] at hp
      exact h id p hp

/-! ### Whole runs -/

/-- What the jobs of a file use can be accessed when it is loaded. -/
theorem used_when_loaded {filename : String} {order : List String}
    (hload : loadFromJson filename order file = .ok s) (hused : s.UsedBy id b) :
    b ∈ s.accessible := by
  obtain ⟨t, haccepted, hall⟩ := exists_accepted hload
  obtain rfl : t.removeUnreferencedProfiles order = s := by
    rw [hall] at hload
    exact Except.ok.inj hload
  have hkept : (t.removeUnreferencedProfiles order).jobs = t.jobs ∧
      (t.removeUnreferencedProfiles order).objects = t.objects :=
    removeUnreferencedProfiles_rule (fun v => v.jobs = t.jobs ∧ v.objects = t.objects) ⟨rfl, rfl⟩
      fun v name hv => hv
  obtain ⟨p, object, hp, hobject, hlists⟩ := hused
  rw [hkept.1] at hp
  rw [hkept.2] at hobject
  obtain ⟨j, hj, rfl⟩ := haccepted.ids id p hp
  obtain ⟨q, hq, hname⟩ := haccepted.jobs j hj
  obtain rfl : p = q := Option.some.inj (hp.symm.trans hq)
  obtain ⟨same, hsame, hjob⟩ := haccepted.linked.sound.named _ p hname
  obtain rfl : object = same := Option.some.inj (hobject.symm.trans hsame)
  rw [hjob] at hlists
  refine mem_accessible.mpr (haccepted.toLoaded.kept order hj (ReflTransGen.mono ?_ _ _ hlists))
  rintro x y ⟨composed, hmem, rfl, hy⟩
  rw [hkept.2] at hmem
  -- the objects are those of the file
  obtain ⟨r, hr⟩ := haccepted.live _ (haccepted.linked.sound.known composed hmem)
  obtain ⟨profile, hprofile, hprofileName⟩ := List.mem_map.mp (haccepted.names _ r hr)
  refine ⟨profile, hprofile, hprofileName, ?_⟩
  rw [← haccepted.toFromFile.object_listed hmem hprofile hprofileName]
  exact hy

/-- What a job uses remains accessible while deletions spare it. -/
theorem run_keepsUsed {ops : List ProfileOp} (hmet : t.Met) (hrun : forEach apply t ops = .ok u)
    (hspares : ∀ before other after v w, ops = before ++ .deleteJob other true :: after →
      forEach apply t before = .ok v → v.deleteJob other true = .ok w → v.Spares other)
    (hused : t.UsedBy id b) (hb : b ∈ t.accessible) (hpresent : (u.jobs.lookup id).isSome = true) :
    b ∈ u.accessible := by
  have hid : id ∈ t.jobsMet := by
    obtain ⟨p, -, hp, -⟩ := hused
    exact hmet id p hp
  have hkept : forEach apply t ops = .ok u ∧ id ∈ u.jobsMet ∧
      ((u.jobs.lookup id).isSome = true → u.UsedBy id b ∧ b ∈ u.accessible) := by
    refine forEach_invariant (fun done v => forEach apply t done = .ok v ∧ id ∈ v.jobsMet ∧
      ((v.jobs.lookup id).isSome = true → v.UsedBy id b ∧ b ∈ v.accessible)) ?_ ?_ hrun
    · exact ⟨rfl, hid, fun _ => ⟨hused, hb⟩⟩
    · rintro done op rest v w hsplit ⟨hdone, hmetV, hold⟩ hstep
      obtain ⟨hmetW, hjob⟩ := apply_jobs hstep hmetV
      refine ⟨?_, hmetW, fun hthere => ?_⟩
      · rw [forEach_append, hdone]
        exact bind_eq_ok.mpr ⟨v, rfl, bind_eq_ok.mpr ⟨w, hstep, rfl⟩⟩
      · obtain ⟨husedV, hbV⟩ := hold (hjob hthere ▸ hthere)
        refine ⟨husedV.of_kept (hjob hthere) fun p object => apply_objects hstep, ?_⟩
        refine apply_accessible hstep ?_ husedV hthere hbV
        rintro other rfl
        exact hspares done other rest v w hsplit hdone hstep
  exact (hkept.2.2 hpresent).2

end ProfileStore

/-- What the jobs use is accessible when the file is loaded, and remains accessible as long as
they are there exactly when each deletion spares the profiles of the other jobs. -/
theorem used_profiles_remain_iff {filename : String} {order : List String} {file : WorkloadFile}
    {loaded : ProfileStore} (hload : ProfileStore.loadFromJson filename order file = .ok loaded)
    (ops : List ProfileOp) :
    (∀ id b, loaded.UsedBy id b → b ∈ loaded.accessible) ∧
      (loaded.KeepsUsed ops ↔ ∀ before id after t u, ops = before ++ .deleteJob id true :: after →
        forEach ProfileStore.apply loaded before = .ok t → t.deleteJob id true = .ok u →
          t.Spares id) := by
  refine ⟨fun id b hused => ProfileStore.used_when_loaded hload hused, ?_, ?_⟩
  · intro hkeeps before id after t u hsplit hbefore hdelete p object hp hobject other b hother
      hused hb hreach
    obtain ⟨q, same, hq, hsame, hwithout, hjobs, -⟩ := ProfileStore.deleteJob_without hdelete
    obtain rfl : p = q := Option.some.inj (hp.symm.trans hq)
    obtain rfl : object = same := Option.some.inj (hobject.symm.trans hsame)
    have hpresent : (u.jobs.lookup other).isSome = true := by
      obtain ⟨r, -, hr, -⟩ := hused
      rw [hjobs, AList.lookup_erase_ne hother, hr]
      rfl
    have hleft : b ∈ u.accessible := by
      refine hkeeps before [.deleteJob id true] after t u (by simpa using hsplit) hbefore ?_ other b
        hused hb hpresent
      exact bind_eq_ok.mpr ⟨u, hdelete, rfl⟩
    obtain ⟨r, hr⟩ := ProfileStore.mem_accessible.mp hleft
    exact ((hwithout.left b r).mp hr).2 ⟨object.name, rfl, hreach⟩
  · intro hspares before middle after t u hsplit hbefore hmiddle id b hused hb hpresent
    have hmet : t.Met := forEach_preserves (P := ProfileStore.Met)
      (ProfileStore.loadFromJson_met hload)
      (fun _ _ _ _ hv hstep => ProfileStore.apply_met hv hstep) hbefore
    refine ProfileStore.run_keepsUsed hmet hmiddle ?_ hused hb hpresent
    intro before' other after' v w hsplit' hbefore' hdelete
    refine hspares (before ++ before') other (after' ++ after) v w ?_ ?_ hdelete
    · rw [hsplit, hsplit']
      simp only [List.append_assoc, List.cons_append]
    · rw [forEach_append, hbefore]
      exact hbefore'

/-- Two jobs with the same profile. -/
def napTwiceFile : WorkloadFile where
  profiles := [napProfile]
  jobs := [waitJob "1" "nap" one_valid, waitJob "2" "nap" two_valid]

theorem used_profile_removed :
    ∃ loaded s, ProfileStore.loadFromJson "w0" ["nap"] napTwiceFile = .ok loaded ∧
      forEach ProfileStore.apply loaded [.deleteJob (waitJob "1" "nap" (by decide)).id true] =
        .ok s ∧
      s.UsedBy (waitJob "2" "nap" (by decide)).id "nap" ∧ "nap" ∈ loaded.accessible ∧
      s.profileAt "nap" =
        .error "Cannot get profile 'nap': it existed some time ago but is no longer accessible" := by
  refine ⟨_, _, rfl, rfl, ⟨0, napProfile, ?_, rfl, .refl⟩, by decide +kernel, by decide +kernel⟩
  decide +kernel

/-- A job that waits is deleted: the other job keeps its profile. -/
theorem nap_remains :
    ∃ loaded, ProfileStore.loadFromJson "w0" ["nap", "wait"] sharingFile = .ok loaded ∧
      loaded.KeepsUsed [.deleteJob (waitJob "1" "wait" (by decide)).id true] := by
  have haccepted : succeedsWith (ProfileStore.loadFromJson "w0" ["nap", "wait"] sharingFile)
      (fun s => s.objects = [waitProfile "nap", napProfile] ∧
        s.jobs.entries = [⟨(waitJob "2" "nap" (by decide)).id, 1⟩,
          ⟨(waitJob "1" "wait" (by decide)).id, 0⟩]) = true := by decide +kernel
  obtain ⟨loaded, hload, hfacts⟩ := exists_of_succeedsWith haccepted
  obtain ⟨hobjects, hjobs⟩ := of_decide_eq_true hfacts
  refine ⟨loaded, hload, (used_profiles_remain_iff hload _).2.mpr ?_⟩
  have hlists : ∀ a b, ¬loaded.Lists a b := by
    rintro a b ⟨object, hobject, -, hb⟩
    have hall : ∀ object ∈ [waitProfile "nap", napProfile], object.listed = [] := by decide
    rw [hobjects] at hobject
    rw [hall object hobject] at hb
    cases hb
  have hrefers : ∀ a b, ¬loaded.RefersTo a b := by
    rintro a b ⟨p, q, -, -, hq, -⟩
    have hall : ∀ object ∈ [waitProfile "nap", napProfile], object.isSequence = false := by decide
    unfold ProfileStore.subs at hq
    split at hq
    · next hobject =>
      rw [hobjects] at hobject
      cases hall _ (List.mem_of_getElem? hobject)
    · cases hq
  intro before id after t u hsplit hbefore _ p object hp hobject other b hother hused _ hreach
  cases before with
  | cons op before => simp at hsplit
  | nil =>
    obtain rfl : loaded = t := Except.ok.inj hbefore
    obtain ⟨q, same, hq, hsame, hnext⟩ := hused
    obtain rfl | ⟨c, hc, -⟩ := ReflTransGen.cases_head hnext
    swap
    · exact absurd hc (hlists _ c)
    obtain hname | ⟨c, hc, -⟩ := ReflTransGen.cases_head hreach
    swap
    · exact absurd hc (hrefers _ c)
    obtain rfl : (waitJob "1" "wait" (by decide)).id = id := by
      simp only [List.nil_append, List.cons.injEq, ProfileOp.deleteJob.injEq] at hsplit
      exact hsplit.1.1
    have hp' := AList.mem_lookup_iff.mp hp
    have hq' := AList.mem_lookup_iff.mp hq
    rw [hjobs] at hp' hq'
    have hdistinct : (waitJob "1" "wait" (by decide)).id ≠ (waitJob "2" "nap" (by decide)).id := by
      decide
    have hfirst : p = 0 := by
      simpa [hdistinct] using hp'
    have hsecond : q = 1 := by
      rcases List.mem_cons.mp hq' with heq | hlast
      · cases heq
        rfl
      · have heq := List.mem_singleton.mp hlast
        cases heq
        exact absurd rfl hother
    subst hfirst hsecond
    rw [hobjects] at hobject hsame
    cases hobject
    cases hsame
    exact absurd hname (by decide)

end Batsim
