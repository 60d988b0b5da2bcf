import Batsim.Lib.Recursion
import Batsim.ProfileAvailability

/-!
The recursions over composed profiles, `initialize_sequential_tasks` and `remove_profile`, end when
no circular calls can be reached.
-/

namespace Batsim

open Checked Relation Recursion

/-- The profiles that are listed by composed profiles of the file. -/
def WorkloadFile.allListed (file : WorkloadFile) : List String :=
  file.profiles.flatMap ProfileObject.listed

theorem WorkloadFile.mem_allListed (file : WorkloadFile) (a b : String) (h : file.Lists a b) :
    b ∈ file.allListed := by
  obtain ⟨p, hp, -, hb⟩ := h
  exact List.mem_flatMap.mpr ⟨p, hp, hb⟩

/-- What a recursion gives when it does not end: the depth is never enough. -/
def stackOverflow : String := "stack overflow"

namespace ProfileStore

variable {s t t' : ProfileStore} {file : WorkloadFile} {name : String}

/-! ### `initialize_sequential_tasks` -/

theorem vectorAt_ne_overflow {α : Type} {v : List α} {i : Nat} :
    vectorAt v i ≠ .error stackOverflow := by
  intro h
  have hrange := (vectorAt_eq_error h).2
  exact absurd hrange (by decide)

theorem subIoProfile_ne_overflow {objects : List ProfileObject} {io : Option ProfilePtr} {i : Nat} :
    subIoProfile objects io i ≠ .error stackOverflow := by
  intro h
  unfold subIoProfile at h
  split at h
  · cases h
  · rw [bind_eq_error] at h
    rcases h with h | ⟨object, -, h⟩
    · exact vectorAt_ne_overflow h
    · split at h
      · rw [bind_eq_error] at h
        rcases h with h | ⟨sub, -, h⟩
        · exact vectorAt_ne_overflow h
        · cases h
      · exact absurd (Except.error.inj h) (by decide)

/-- A depth that is enough for the profiles that the objects under a name lead to, whatever the IO
profile. -/
def Initializes (s : ProfileStore) (depth : Nat) (name : String) : Prop :=
  ∀ e, depth ≤ e → ∀ (p : ProfilePtr) (object : ProfileObject), s.objects[p]? = some object →
    object.name = name → ∀ io, initializeSequentialTasks s.objects e p io ≠ .error stackOverflow

theorem initializes_step (h : s.FromFile file) {depth : Nat}
    (hsubs : ∀ b, file.Lists name b → s.Initializes depth b) : s.Initializes (depth + 1) name := by
  intro e hle p object hobject hname io herror
  obtain ⟨d, rfl⟩ : ∃ d, e = d + 1 := ⟨e - 1, by omega⟩
  rw [initializeSequentialTasks, bind_eq_error] at herror
  rcases herror with hout | ⟨object', hobject', herror⟩
  · exact vectorAt_ne_overflow hout
  rw [vectorAt_eq_ok, hobject] at hobject'
  cases hobject'
  split at herror
  · next data hdata =>
    rw [bind_eq_error] at herror
    rcases herror with hcollect | ⟨_, -, herror⟩
    · obtain ⟨i, -, hturn⟩ := exists_of_collect_eq_error hcollect
      rw [bind_eq_error] at hturn
      rcases hturn with hout | ⟨q, hq, hturn⟩
      · exact vectorAt_ne_overflow hout
      rw [bind_eq_error] at hturn
      rcases hturn with hout | ⟨subIo, -, hturn⟩
      · exact subIoProfile_ne_overflow hout
      have hsub : q ∈ s.subs p := by
        obtain ⟨name', data', returnCode⟩ := object
        cases hdata
        rw [subs, hobject]
        exact List.mem_of_getElem? (vectorAt_eq_ok.mp hq)
      obtain ⟨sub, hsubObject⟩ : ∃ sub, s.objects[q]? = some sub :=
        ⟨_, List.getElem?_eq_getElem (h.linked.sub_lt hsub)⟩
      have hlists := h.lists_of_sub hobject hsub hsubObject
      rw [hname] at hlists
      exact hsubs sub.name hlists d (by omega) q sub hsubObject rfl subIo hturn
    · cases herror
  · cases herror

theorem mem_indices {repeats n i : Nat} :
    i ∈ ((List.range repeats).flatMap fun _ => List.range n) ↔ 0 < repeats ∧ i < n := by
  rw [List.mem_flatMap]
  constructor
  · rintro ⟨k, hk, hi⟩
    exact ⟨Nat.zero_lt_of_lt (List.mem_range.mp hk), List.mem_range.mp hi⟩
  · rintro ⟨hpos, hi⟩
    exact ⟨0, List.mem_range.mpr hpos, List.mem_range.mpr hi⟩

/-- Without an IO profile, building tasks fails in one way only: the depth is not enough. -/
theorem initialize_outcome (h : s.FromFile file) (depth : Nat) {p : ProfilePtr}
    {object : ProfileObject} (hobject : s.objects[p]? = some object)
    (hname : object.name ∈ file.profiles.map ProfileObject.name) {e : String}
    (hrun : initializeSequentialTasks s.objects depth p none = .error e) : e = stackOverflow := by
  induction depth generalizing p object with
  | zero => exact (Except.error.inj hrun).symm
  | succ depth ih =>
    rw [initializeSequentialTasks, bind_eq_error, vectorAt_eq_ok.mpr hobject] at hrun
    rcases hrun with hout | ⟨object', hobject', hrun⟩
    · cases hout
    cases hobject'
    split at hrun
    · next d hdata =>
      rw [bind_eq_error] at hrun
      rcases hrun with hcollect | ⟨_, -, hrun⟩
      · obtain ⟨i, hi, hturn⟩ := exists_of_collect_eq_error hcollect
        obtain ⟨q, sub, hq, hsub, hsubName, -⟩ :=
          h.linked.sub_loaded (List.mem_of_getElem? hobject) hdata hname (mem_indices.mp hi).2
        rw [vectorAt_eq_ok.mpr hq] at hturn
        exact ih hsub hsubName hturn
      · cases hrun
    · cases hrun

/-- Building the tasks of a profile that leads to circular calls does not end. -/
theorem initialize_circular (h : s.FromFile file) (depth : Nat) {p : ProfilePtr}
    {object : ProfileObject} (hobject : s.objects[p]? = some object)
    (hcyclic : Cyclic file.Lists object.name) :
    initializeSequentialTasks s.objects depth p none = .error stackOverflow := by
  induction depth generalizing p object with
  | zero => rfl
  | succ depth ih =>
    obtain ⟨b, hlists, hb⟩ := hcyclic.exists_next
    have hname : object.name ∈ file.profiles.map ProfileObject.name := by
      obtain ⟨profile, hprofile, hsame, -⟩ := hlists
      exact List.mem_map.mpr ⟨profile, hprofile, hsame⟩
    cases hrun : initializeSequentialTasks s.objects (depth + 1) p none with
    | error e => rw [initialize_outcome h (depth + 1) hobject hname hrun]
    | ok task =>
      -- the tasks of the profile on the way to the cycle would have been built
      obtain ⟨q, sub, hq, hsub, rfl⟩ := h.sub_of_lists hobject hlists
      simp only [initializeSequentialTasks, vectorAt_eq_ok.mpr hobject, bind_eq_ok] at hrun
      obtain ⟨_, hsame, hrun⟩ := hrun
      cases hsame
      unfold subs at hq
      rw [hobject] at hq
      split at hq
      · next name' d returnCode hsequence =>
        cases hsequence
        dsimp only at hrun
        simp only [bind_eq_ok, Except.ok.injEq] at hrun
        obtain ⟨subTasks, hcollect, -⟩ := hrun
        obtain ⟨i, hi, rfl⟩ := List.getElem_of_mem hq
        have hresolved := h.linked.loaded _ (List.mem_of_getElem? hobject) d rfl hname
        have hturn : i ∈ (List.range d.repeats).flatMap fun _ => List.range d.sequence.length :=
          mem_indices.mpr ⟨d.repeats_pos, hresolved.length_eq ▸ hi⟩
        obtain ⟨task', -, hturn⟩ := exists_of_collect_eq_ok hcollect hturn
        simp only [bind_eq_ok, vectorAt_eq_ok] at hturn
        obtain ⟨q', hq', subIo, hsubIo, hinit⟩ := hturn
        rw [List.getElem?_eq_getElem hi] at hq'
        cases hq'
        cases hsubIo
        rw [ih hsub hb] at hinit
        cases hinit
      · cases hq

/-! ### `remove_profile` -/

/-- A depth that is enough to remove a profile, whichever profiles were removed before. -/
def Removes (objects : List ProfileObject) (file : WorkloadFile) (depth : Nat) (name : String) :
    Prop :=
  (∃ object ∈ objects, object.name = name) → ∀ e, depth ≤ e → ∀ t : ProfileStore,
    t.FromFile file → t.objects = objects → removeProfile e t name ≠ .error stackOverflow

/-- A name that is known. -/
theorem known_of_lists (h : s.FromFile file) {object : ProfileObject} (hobject : object ∈ s.objects) :
    s.profiles.lookup object.name ≠ none := by
  intro hnone
  have hknown := h.linked.sound.known object hobject
  rw [exists?, hnone] at hknown
  cases hknown

theorem removes_step {objects : List ProfileObject} {depth : Nat}
    (hsubs : ∀ b, file.Lists name b → Removes objects file depth b) :
    Removes objects file (depth + 1) name := by
  rintro ⟨object, hobject, rfl⟩ e hle t ht hobjects herror
  obtain ⟨d, rfl⟩ : ∃ d, e = d + 1 := ⟨e - 1, by omega⟩
  unfold removeProfile at herror
  split at herror
  · next hnone => exact known_of_lists ht (hobjects ▸ hobject) hnone
  · cases herror
  · next p hname =>
    obtain ⟨same, hsame, hsameName⟩ := ht.linked.sound.named _ p hname
    rw [bind_eq_error] at herror
    rcases herror with hloop | ⟨_, -, herror⟩
    · obtain ⟨q, hq, u, ⟨hu, huObjects⟩, hturn⟩ := exists_of_forEach_eq_error
        (fun u : ProfileStore => u.FromFile file ∧ u.objects = objects) ⟨ht, hobjects⟩
        (by
          rintro q - u u' ⟨hu, huObjects⟩ hstep
          simp only [bind_eq_ok] at hstep
          obtain ⟨sub, -, hremove⟩ := hstep
          exact ⟨removeProfile_fromFile hu hremove,
            (removeProfile_objects hremove).trans huObjects⟩) hloop
      rw [bind_eq_error] at hturn
      rcases hturn with hout | ⟨sub, hsub, hturn⟩
      · exact vectorAt_ne_overflow hout
      rw [vectorAt_eq_ok, huObjects, ← hobjects] at hsub
      have hlists := ht.lists_of_sub hsame hq hsub
      rw [hsameName] at hlists
      exact hsubs sub.name hlists ⟨sub, hobjects ▸ List.mem_of_getElem? hsub, rfl⟩ d (by omega) u hu
        huObjects hturn
    · cases herror

/-- Removing a profile fails in one way only: the depth is not enough. -/
theorem removeProfile_outcome (ht : t.FromFile file) {object : ProfileObject}
    (hobject : object ∈ t.objects) (depth : Nat) :
    removeProfile depth t object.name = .error stackOverflow ∨
      ∃ t', removeProfile depth t object.name = .ok t' := by
  induction depth generalizing t object with
  | zero => exact .inl rfl
  | succ depth ih =>
    cases hrun : removeProfile (depth + 1) t object.name with
    | ok t' => exact .inr ⟨t', rfl⟩
    | error e =>
      left
      unfold removeProfile at hrun
      split at hrun
      · next hnone => exact absurd hnone (known_of_lists ht hobject)
      · cases hrun
      · next p hname =>
        rw [bind_eq_error] at hrun
        rcases hrun with hloop | ⟨_, -, hrun⟩
        · obtain ⟨q, hq, u, ⟨hu, huObjects⟩, hturn⟩ := exists_of_forEach_eq_error
            (fun u : ProfileStore => u.FromFile file ∧ u.objects = t.objects) ⟨ht, rfl⟩
            (by
              rintro q - u u' ⟨hu, huObjects⟩ hstep
              simp only [bind_eq_ok] at hstep
              obtain ⟨sub, -, hremove⟩ := hstep
              exact ⟨removeProfile_fromFile hu hremove,
                (removeProfile_objects hremove).trans huObjects⟩) hloop
          have hlt : q < u.objects.length := huObjects ▸ ht.linked.sub_lt hq
          rw [vectorAt_eq_ok.mpr (List.getElem?_eq_getElem hlt)] at hturn
          rcases ih hu (List.getElem_mem hlt) with hdeep | ⟨u', hu'⟩
          · exact hturn.symm.trans hdeep
          · exact absurd (hturn.symm.trans hu') (by simp)
        · cases hrun

/-- The removal of a profile that leads to circular calls does not end. -/
theorem removeProfile_circular (hs : s.FromFile file) (hsubs : s.SubsNamed) (depth : Nat)
    (ht : t.FromFile file) (hobjects : t.objects = s.objects)
    (hkept : ∀ b, Cyclic file.Lists b → t.profiles.lookup b = s.profiles.lookup b)
    (hcyclic : Cyclic file.Lists name) {p : ProfilePtr}
    (hname : s.profiles.lookup name = some (some p)) :
    removeProfile depth t name = .error stackOverflow := by
  induction depth generalizing t name p with
  | zero => rfl
  | succ depth ih =>
    obtain ⟨object, hobject, rfl⟩ := hs.linked.sound.named name p hname
    -- what a composed profile refers to is known
    have hknown : ∀ q ∈ s.subs p, ∀ sub, s.objects[q]? = some sub →
        s.profiles.lookup sub.name = some (some q) := fun q hq sub hsub =>
      lookup_of_named hs.linked.sound (hsubs p q ⟨_, hname⟩ hq) hsub
    have hsame : t.subs p = s.subs p := by
      unfold subs
      rw [hobjects]
    unfold removeProfile
    rw [hkept _ hcyclic, hname]
    dsimp only
    rw [bind_eq_error]
    left
    refine forEach_eq_error (fun u : ProfileStore => u.FromFile file ∧ u.objects = s.objects ∧
      ∀ b, Cyclic file.Lists b → u.profiles.lookup b = s.profiles.lookup b)
      ⟨ht, hobjects, hkept⟩ ?_ ?_
    · rintro q hq u ⟨hu, huObjects, huKept⟩
      rw [hsame] at hq
      obtain ⟨sub, hsub⟩ : ∃ sub, s.objects[q]? = some sub :=
        ⟨_, List.getElem?_eq_getElem (hs.linked.sub_lt hq)⟩
      rw [huObjects, vectorAt_eq_ok.mpr hsub]
      change removeProfile depth u sub.name = _ ∨ ∃ u', removeProfile depth u sub.name = _ ∧ _
      rcases removeProfile_outcome hu (huObjects ▸ List.mem_of_getElem? hsub) depth with
        hdeep | ⟨u', hu'⟩
      · exact .inl hdeep
      · refine .inr ⟨u', hu', removeProfile_fromFile hu hu',
          (removeProfile_objects hu').trans huObjects, ?_⟩
        intro b hb
        rcases removeProfile_listed hu hu' b with hlookup | hreach
        · exact hlookup.trans (huKept b hb)
        · -- the removal of a profile that leads to `b` would not have ended
          have hdeep := ih hu huObjects huKept (Cyclic.of_reachable hreach hb) (hknown q hq sub hsub)
          rw [hu'] at hdeep
          cases hdeep
    · obtain ⟨b, hlists, hb⟩ := hcyclic.exists_next
      obtain ⟨q, sub, hq, hsub, rfl⟩ := hs.sub_of_lists hobject hlists
      refine ⟨q, hsame ▸ hq, ?_⟩
      rintro u ⟨hu, huObjects, huKept⟩
      rw [huObjects, vectorAt_eq_ok.mpr hsub]
      exact ih hu huObjects huKept hb (hknown q hq sub hsub)

theorem loadFromJson_subsNamed {filename : String} {order : List String}
    (h : loadFromJson filename order file = .ok s) : s.SubsNamed := by
  obtain ⟨t, hloaded, rfl⟩ := loadFromJson_loaded h
  refine removeUnreferencedProfiles_subsNamed hloaded.linked.sound hloaded.closed ?_ order
  intro q p _ hp
  exact hloaded.named (hloaded.closed.2 q p hp)

end ProfileStore

open ProfileStore

/-- On a loaded workload, each of the recursions ends exactly when the profile does not lead to
circular calls. -/
theorem recursions_end_iff_no_circular_call {filename : String} {order : List String}
    {file : WorkloadFile} {s : ProfileStore} (hload : loadFromJson filename order file = .ok s)
    {name : String} {p : ProfilePtr} (hname : s.profiles.lookup name = some (some p)) :
    ((∃ depth, ∀ io, initializeSequentialTasks s.objects depth p io ≠ .error stackOverflow) ↔
        ¬ Cyclic file.Lists name) ∧
      ((∃ depth, removeProfile depth s name ≠ .error stackOverflow) ↔
        ¬ Cyclic file.Lists name) := by
  have hfile := loadFromJson_fromFile hload
  obtain ⟨object, hobject, rfl⟩ := hfile.linked.sound.named name p hname
  constructor
  · constructor
    · rintro ⟨depth, hdepth⟩ hcyclic
      exact hdepth none (initialize_circular hfile depth hobject hcyclic)
    · intro hacyclic
      obtain ⟨depth, hdepth⟩ := exists_depth file.mem_allListed (P := s.Initializes)
        (fun _ _ _ hle h e he => h e (hle.trans he)) (fun _ _ hsubs => initializes_step hfile hsubs)
        hacyclic
      exact ⟨depth, hdepth depth le_rfl p object hobject rfl⟩
  · constructor
    · rintro ⟨depth, hremove⟩ hcyclic
      exact hremove (removeProfile_circular hfile (loadFromJson_subsNamed hload) depth hfile rfl
        (fun _ _ => rfl) hcyclic hname)
    · intro hacyclic
      obtain ⟨depth, hdepth⟩ := exists_depth file.mem_allListed (P := Removes s.objects file)
        (fun _ _ _ hle h hknown e he => h hknown e (hle.trans he))
        (fun _ _ hsubs => removes_step hsubs) hacyclic
      exact ⟨depth, hdepth ⟨object, List.mem_of_getElem? hobject, rfl⟩ depth le_rfl s hfile rfl⟩

/-- The composed profile of two delays leads to no circular call. -/
theorem naps_recursions_end :
    ∃ s p, loadFromJson "w0" ["nap", "naps"] napsFile = .ok s ∧
      s.profiles.lookup "naps" = some (some p) ∧
      (∃ depth, ∀ io, initializeSequentialTasks s.objects depth p io ≠ .error stackOverflow) ∧
      ∃ depth, removeProfile depth s "naps" ≠ .error stackOverflow := by
  obtain ⟨s, hload, hname⟩ := exists_of_succeedsWith
    (x := loadFromJson "w0" ["nap", "naps"] napsFile)
    (P := fun s => s.profiles.lookup "naps" == some (some 1)) (by decide +kernel)
  rw [beq_iff_eq] at hname
  -- a nap lists no profile, and naps are not listed
  have hlists : ∀ a b, napsFile.Lists a b → a = "naps" ∧ b = "nap" := by
    rintro a b ⟨q, hq, rfl, hb⟩
    simp only [napsFile, List.mem_cons, List.not_mem_nil, or_false] at hq
    rcases hq with rfl | rfl
    · cases hb
    · simpa [ProfileObject.listed, napsProfile] using hb
  have hacyclic : ¬ Cyclic napsFile.Lists "naps" := by
    intro hcyclic
    obtain ⟨b, hb, hnext⟩ := hcyclic.exists_next
    obtain ⟨c, hc, -⟩ := hnext.exists_next
    have hnaps := (hlists b c hc).1
    rw [(hlists "naps" b hb).2] at hnaps
    exact absurd hnaps (by decide)
  have hends := recursions_end_iff_no_circular_call hload hname
  exact ⟨s, 1, hload, hname, hends.1.mpr hacyclic, hends.2.mpr hacyclic⟩

/-- A composed profile that calls itself. -/
def foreverProfile : ProfileObject where
  name := "forever"
  data := .sequence
    { repeats := 1, sequence := ["forever"], repeats_pos := Nat.one_pos
      sequence_ne_nil := by decide }

/-- The workload is accepted, and neither recursion ends. -/
theorem circular_profile_accepted :
    ∃ s p, loadFromJson "w0" ["forever"] { profiles := [foreverProfile], jobs := [] } = .ok s ∧
      s.profiles.lookup "forever" = some (some p) ∧
      (∀ depth, initializeSequentialTasks s.objects depth p none = .error stackOverflow) ∧
      ∀ depth, removeProfile depth s "forever" = .error stackOverflow := by
  obtain ⟨s, hload, hname⟩ := exists_of_succeedsWith
    (x := loadFromJson "w0" ["forever"] { profiles := [foreverProfile], jobs := [] })
    (P := fun s => s.profiles.lookup "forever" == some (some 0)) (by decide +kernel)
  rw [beq_iff_eq] at hname
  have hfile := loadFromJson_fromFile hload
  have hcyclic : Cyclic (WorkloadFile.Lists { profiles := [foreverProfile], jobs := [] })
      "forever" :=
    ⟨"forever", .refl, .single ⟨foreverProfile, by decide, rfl, by decide⟩⟩
  obtain ⟨object, hobject, hsame⟩ := hfile.linked.sound.named _ _ hname
  refine ⟨s, 0, hload, hname, ?_, ?_⟩
  · intro depth
    exact initialize_circular hfile depth hobject (hsame ▸ hcyclic)
  · intro depth
    exact removeProfile_circular hfile (loadFromJson_subsNamed hload) depth hfile rfl
      (fun _ _ => rfl) hcyclic hname

end Batsim
