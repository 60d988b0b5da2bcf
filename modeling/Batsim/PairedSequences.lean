import Batsim.CircularProfiles
import Batsim.IoMerge

/-!
The additional IO profile of a composed profile: what is checked when the job is executed, and which
part of it each task gets.
-/

namespace Batsim

open Checked

section pairing

variable (objects : List ProfileObject)

/-- A profile whose references were all set, down to profiles that are not composed. -/
inductive FullyResolved : ProfilePtr → Prop where
  | leaf {p : ProfilePtr} {object : ProfileObject} (hobject : objects[p]? = some object)
      (hleaf : object.isSequence = false) : FullyResolved p
  | sequence {p : ProfilePtr} {object : ProfileObject} {d : SequenceProfileData}
      (hobject : objects[p]? = some object) (hdata : object.data = .sequence d)
      (hlength : d.profileSequence.length = d.sequence.length)
      (hsubs : ∀ q ∈ d.profileSequence, FullyResolved q) : FullyResolved p

/-- `handle_execute_job`, the check of the profile of the `additional_io_job` -/
def checkIoProfile (p ioProfile : ProfilePtr) : Except String Unit := do
  let io ← vectorAt objects ioProfile
  match io.data with
  | .sequence ioData => do
    let job ← vectorAt objects p
    match job.data with
    | .sequence d =>
      xbtAssert (d.sequence.length = ioData.sequence.length)
        (" IO profile sequence size (" ++ toString ioData.sequence.length ++
          ") and job profile sequence size (" ++ toString d.sequence.length ++
          ") should be the same")
    | _ => .error ("the job io profile is a 'SEQUENCE' profile but the the original job is not:" ++
        " they must have compatible profile in order to be merged")
  | _ => .ok ()

/-- The profile at the end of a path of positions. -/
def profileAtPath : ProfilePtr → List Nat → Option ProfilePtr
  | p, [] => some p
  | p, i :: path =>
    match objects[p]? with
    | some { data := .sequence d, .. } => d.profileSequence[i]?.bind fun q => profileAtPath q path
    | _ => none

/-- The leaves of a task, each with its path: the positions in the composed profiles, whichever the
repetition. -/
inductive LeafAt : BatTask → List Nat → BatTask → Prop where
  | here {t : BatTask} (hleaf : t.profile.isSequence = false) : LeafAt t [] t
  | sub {t sub leaf : BatTask} {d : SequenceProfileData} {k : Nat} {path : List Nat}
      (hdata : t.profile.data = .sequence d) (hsub : t.subTasks[k]? = some sub)
      (hleaf : LeafAt sub path leaf) : LeafAt t (k % d.sequence.length :: path) leaf

/-- Each leaf of the task has the IO profile at the same path, which is not composed. -/
def LeavesPaired (task : BatTask) (ioProfile : ProfilePtr) : Prop :=
  ∀ path leaf, LeafAt task path leaf → ∃ q object, profileAtPath objects ioProfile path = some q ∧
    leaf.ioProfile = some q ∧ objects[q]? = some object ∧ object.isSequence = false

/-- The tasks can be built, and each leaf has its part of the IO profile. -/
def PairsLeaves (p ioProfile : ProfilePtr) : Prop :=
  ∃ depth task, initializeSequentialTasks objects depth p (some ioProfile) = .ok task ∧
    LeavesPaired objects task ioProfile

/-- The two profiles have the same shape, at all levels: a profile that is not composed along another
one, or composed profiles whose parts have the same shape, one after the other. The IO profile may
have more parts. -/
inductive SameShape : ProfilePtr → ProfilePtr → Prop where
  | leaf {p q : ProfilePtr} {object ioObject : ProfileObject} (hobject : objects[p]? = some object)
      (hleaf : object.isSequence = false) (hioObject : objects[q]? = some ioObject)
      (hioLeaf : ioObject.isSequence = false) : SameShape p q
  | sequence {p q : ProfilePtr} {object ioObject : ProfileObject} {d ioData : SequenceProfileData}
      (hobject : objects[p]? = some object) (hdata : object.data = .sequence d)
      (hioObject : objects[q]? = some ioObject) (hioData : ioObject.data = .sequence ioData)
      (hlength : d.sequence.length ≤ ioData.sequence.length)
      (hsubs : ∀ (i : Nat) (p' q' : ProfilePtr), d.profileSequence[i]? = some p' →
        ioData.profileSequence[i]? = some q' → SameShape p' q') : SameShape p q

/-- What `initialize_sequential_tasks` does for the part number `i` of a composed profile. -/
def initializePart (depth : Nat) (d : SequenceProfileData) (io : Option ProfilePtr) (i : Nat) :
    Except String BatTask := do
  let sub ← vectorAt d.profileSequence i
  let subIo ← subIoProfile objects io i
  initializeSequentialTasks objects depth sub subIo

end pairing

/-- The positions of the parts that are executed, in order. -/
def SequenceProfileData.turns (d : SequenceProfileData) : List Nat :=
  (List.range d.repeats).flatMap fun _ => List.range d.sequence.length

theorem SequenceProfileData.length_turns (d : SequenceProfileData) :
    d.turns.length = d.repeats * d.sequence.length := by
  rw [turns, List.length_flatMap]
  simp

theorem SequenceProfileData.getElem?_turns (d : SequenceProfileData) {k : Nat}
    (hk : k < d.turns.length) : d.turns[k]? = some (k % d.sequence.length) := by
  rw [d.length_turns] at hk
  have hpos : 0 < d.sequence.length := List.length_pos_iff.mpr d.sequence_ne_nil
  have hrow : (List.range d.repeats)[k / d.sequence.length]? = some (k / d.sequence.length) :=
    List.getElem?_range ((Nat.div_lt_iff_lt_mul hpos).mpr hk)
  have hcol : (List.range d.sequence.length)[k % d.sequence.length]? =
      some (k % d.sequence.length) := List.getElem?_range (Nat.mod_lt k hpos)
  have hentry := getElem?_rows (fun (_ j : Nat) => j) hrow hcol
  simp only [List.map_id', List.length_range] at hentry
  rw [Nat.div_add_mod'] at hentry
  exact hentry

section tasks

variable {objects : List ProfileObject} {p : ProfilePtr} {object : ProfileObject}

theorem initialize_leaf (hobject : objects[p]? = some object) (hleaf : object.isSequence = false)
    (depth : Nat) (io : Option ProfilePtr) :
    initializeSequentialTasks objects (depth + 1) p io =
      .ok { profile := object, ioProfile := io } := by
  rw [initializeSequentialTasks, vectorAt_eq_ok.mpr hobject]
  obtain ⟨name, data, returnCode⟩ := object
  cases data with
  | sequence d => cases hleaf
  | _ => rfl

theorem initialize_sequence {d : SequenceProfileData} {task : BatTask}
    (hobject : objects[p]? = some object) (hdata : object.data = .sequence d) (depth : Nat)
    (io : Option ProfilePtr) :
    initializeSequentialTasks objects (depth + 1) p io = .ok task ↔
      ∃ subTasks, collect (initializePart objects depth d io) d.turns = .ok subTasks ∧
        { profile := object, subTasks := subTasks } = task := by
  simp only [initializeSequentialTasks, vectorAt_eq_ok.mpr hobject, bind_eq_ok, Except.ok.injEq,
    exists_eq_left', hdata]
  rfl

theorem exists_data_of_isSequence (h : object.isSequence = true) :
    ∃ d, object.data = .sequence d := by
  obtain ⟨name, data, returnCode⟩ := object
  cases data with
  | sequence d => exact ⟨d, rfl⟩
  | _ => cases h

/-- A greater depth changes nothing once the tasks can be built. -/
theorem initialize_mono {depth : Nat} {io : Option ProfilePtr} {task : BatTask}
    (h : initializeSequentialTasks objects depth p io = .ok task) {depth' : Nat}
    (hle : depth ≤ depth') : initializeSequentialTasks objects depth' p io = .ok task := by
  induction depth generalizing depth' p io task with
  | zero => cases h
  | succ depth ih =>
    obtain ⟨e, rfl⟩ : ∃ e, depth' = e + 1 := ⟨depth' - 1, by omega⟩
    have hobject := initializeSequentialTasks_profile h
    cases hsequence : task.profile.isSequence with
    | false =>
      rw [initialize_leaf hobject hsequence] at h ⊢
      exact h
    | true =>
      obtain ⟨d, hdata⟩ := exists_data_of_isSequence hsequence
      rw [initialize_sequence hobject hdata] at h ⊢
      obtain ⟨subTasks, hcollect, htask⟩ := h
      refine ⟨subTasks, collect_eq_ok.mpr ((collect_eq_ok.mp hcollect).imp ?_), htask⟩
      intro i sub hpart
      simp only [initializePart, bind_eq_ok] at hpart ⊢
      obtain ⟨q, hq, subIo, hsubIo, hinit⟩ := hpart
      exact ⟨q, hq, subIo, hsubIo, ih hinit (by omega)⟩

/-- The references of a composed profile. -/
theorem FullyResolved.parts {d : SequenceProfileData} (h : FullyResolved objects p)
    (hobject : objects[p]? = some object) (hdata : object.data = .sequence d) :
    d.profileSequence.length = d.sequence.length ∧
      ∀ q ∈ d.profileSequence, FullyResolved objects q := by
  cases h with
  | leaf hsame hleaf =>
    rw [hobject] at hsame
    cases hsame
    rw [ProfileObject.isSequence, hdata] at hleaf
    cases hleaf
  | sequence hsame hdata' hlength hsubs =>
    rw [hobject] at hsame
    cases hsame
    rw [hdata] at hdata'
    cases hdata'
    exact ⟨hlength, hsubs⟩

theorem subIoProfile_eq_ok {q : ProfilePtr} {i : Nat} {subIo : Option ProfilePtr} :
    subIoProfile objects (some q) i = .ok subIo ↔
      ∃ ioObject ioData q', objects[q]? = some ioObject ∧ ioObject.data = .sequence ioData ∧
        ioData.profileSequence[i]? = some q' ∧ subIo = some q' := by
  simp only [subIoProfile, bind_eq_ok, vectorAt_eq_ok]
  constructor
  · rintro ⟨ioObject, hioObject, h⟩
    split at h
    · next ioData hioData =>
      simp only [bind_eq_ok, vectorAt_eq_ok, Except.ok.injEq] at h
      obtain ⟨q', hq', rfl⟩ := h
      exact ⟨ioObject, ioData, q', hioObject, hioData, hq', rfl⟩
    · cases h
  · rintro ⟨ioObject, ioData, q', hioObject, hioData, hq', rfl⟩
    refine ⟨ioObject, hioObject, ?_⟩
    simp only [hioData, bind_eq_ok, vectorAt_eq_ok]
    exact ⟨q', hq', rfl⟩

theorem profileAtPath_cons {ioData : SequenceProfileData} {q q' : ProfilePtr} {i : Nat}
    {path : List Nat} (hobject : objects[q]? = some object) (hdata : object.data = .sequence ioData)
    (hq' : ioData.profileSequence[i]? = some q') :
    profileAtPath objects q (i :: path) = profileAtPath objects q' path := by
  obtain ⟨name, data, returnCode⟩ := object
  cases hdata
  simp [profileAtPath, hobject, hq']

/-- The tasks of the parts, by position. -/
theorem exists_part {d : SequenceProfileData} {depth k : Nat} {io : Option ProfilePtr}
    {subTasks : List BatTask} (h : collect (initializePart objects depth d io) d.turns = .ok subTasks)
    (hk : k < d.turns.length) :
    ∃ sub p' subIo, subTasks[k]? = some sub ∧
      d.profileSequence[k % d.sequence.length]? = some p' ∧
      subIoProfile objects io (k % d.sequence.length) = .ok subIo ∧
      initializeSequentialTasks objects depth p' subIo = .ok sub := by
  obtain ⟨sub, hsub, hpart⟩ := getElem?_of_collect h (d.getElem?_turns hk)
  simp only [initializePart, bind_eq_ok, vectorAt_eq_ok] at hpart
  obtain ⟨p', hp', subIo, hsubIo, hinit⟩ := hpart
  exact ⟨sub, p', subIo, hsub, hp', hsubIo, hinit⟩

/-- The parts of the first repetition. -/
theorem lt_length_turns {d : SequenceProfileData} {i : Nat} (hi : i < d.sequence.length) :
    i < d.turns.length := by
  rw [d.length_turns]
  exact Nat.lt_of_lt_of_le hi (Nat.le_mul_of_pos_left _ d.repeats_pos)

/-- When each leaf has its part of the IO profile, both have the same shape. -/
theorem sameShape_of_paired {depth : Nat} {q : ProfilePtr} {task : BatTask}
    (hp : FullyResolved objects p) (hq : FullyResolved objects q)
    (hinit : initializeSequentialTasks objects depth p (some q) = .ok task)
    (hpaired : LeavesPaired objects task q) : SameShape objects p q := by
  induction depth generalizing p q task with
  | zero => cases hinit
  | succ depth ih =>
    have hobject := initializeSequentialTasks_profile hinit
    cases hsequence : task.profile.isSequence with
    | false =>
      obtain ⟨r, ioObject, hpath, -, hioObject, hioLeaf⟩ := hpaired [] task (.here hsequence)
      cases hpath
      exact .leaf hobject hsequence hioObject hioLeaf
    | true =>
      obtain ⟨d, hdata⟩ := exists_data_of_isSequence hsequence
      obtain ⟨hlength, hparts⟩ := hp.parts hobject hdata
      obtain ⟨subTasks, hcollect, htask⟩ := (initialize_sequence hobject hdata depth _).mp hinit
      have hsubTasks : task.subTasks = subTasks := by rw [← htask]
      have hpos : 0 < d.sequence.length := List.length_pos_iff.mpr d.sequence_ne_nil
      -- the last part tells that the IO profile is composed, and has as many parts
      obtain ⟨_, _, _, -, -, hsubIo, -⟩ := exists_part hcollect
        (lt_length_turns (Nat.sub_one_lt_of_lt hpos))
      obtain ⟨ioObject, ioData, _, hioObject, hioData, hlast, -⟩ := subIoProfile_eq_ok.mp hsubIo
      obtain ⟨hioLength, hioParts⟩ := hq.parts hioObject hioData
      refine .sequence hobject hdata hioObject hioData ?_ ?_
      · have hlt := (List.getElem?_eq_some_iff.mp hlast).1
        rw [Nat.mod_eq_of_lt (Nat.sub_one_lt_of_lt hpos)] at hlt
        omega
      · intro i p' q' hp' hq'
        have hi : i < d.sequence.length := hlength ▸ (List.getElem?_eq_some_iff.mp hp').1
        obtain ⟨sub, p'', subIo, hsub, hp'', hsubIo, hpart⟩ :=
          exists_part hcollect (lt_length_turns hi)
        rw [Nat.mod_eq_of_lt hi] at hp'' hsubIo
        cases hp'.symm.trans hp''
        obtain ⟨_, _, q'', hsame, hsameData, hq'', rfl⟩ := subIoProfile_eq_ok.mp hsubIo
        cases hioObject.symm.trans hsame
        rw [hioData] at hsameData
        cases hsameData
        cases hq'.symm.trans hq''
        refine ih (hparts p' (List.mem_of_getElem? hp')) (hioParts q' (List.mem_of_getElem? hq'))
          hpart ?_
        intro path leaf hleaf
        have hat : LeafAt task (i % d.sequence.length :: path) leaf :=
          .sub hdata (hsubTasks ▸ hsub) hleaf
        obtain ⟨r, object, hpath, hrest⟩ := hpaired _ leaf hat
        rw [Nat.mod_eq_of_lt hi, profileAtPath_cons hioObject hioData hq'] at hpath
        exact ⟨r, object, hpath, hrest⟩

/-- With the same shape, each leaf gets its part of the IO profile. -/
theorem pairsLeaves_of_sameShape {q : ProfilePtr} (h : SameShape objects p q)
    (hp : FullyResolved objects p) (hq : FullyResolved objects q) : PairsLeaves objects p q := by
  induction h with
  | @leaf p q object ioObject hobject hleaf hioObject hioLeaf =>
    refine ⟨1, _, initialize_leaf hobject hleaf 0 _, ?_⟩
    intro path leaf hat
    cases hat with
    | here _ => exact ⟨q, ioObject, rfl, rfl, hioObject, hioLeaf⟩
    | sub hdata _ _ =>
      rw [ProfileObject.isSequence, hdata] at hleaf
      cases hleaf
  | @sequence p q object ioObject d ioData hobject hdata hioObject hioData hle hsubs ih =>
    obtain ⟨hlength, hparts⟩ := hp.parts hobject hdata
    obtain ⟨hioLength, hioParts⟩ := hq.parts hioObject hioData
    obtain ⟨depth, hdepth⟩ := Recursion.exists_common_depth
      (P := fun depth i => ∃ sub, initializePart objects depth d (some q) i = .ok sub ∧
        ∀ q', ioData.profileSequence[i]? = some q' → LeavesPaired objects sub q')
      (by
        rintro e e' i hle' ⟨sub, hpart, hpaired⟩
        refine ⟨sub, ?_, hpaired⟩
        simp only [initializePart, bind_eq_ok] at hpart ⊢
        obtain ⟨p', hp', subIo, hsubIo, hinit⟩ := hpart
        exact ⟨p', hp', subIo, hsubIo, initialize_mono hinit hle'⟩)
      (List.range d.sequence.length) (by
        intro i hi
        have hlt : i < d.sequence.length := List.mem_range.mp hi
        have hp' := List.getElem?_eq_getElem (hlength ▸ hlt)
        have hq' := List.getElem?_eq_getElem (hioLength ▸ hlt.trans_le hle)
        obtain ⟨e, sub, hinit, hpaired⟩ := ih i _ _ hp' hq' (hparts _ (List.mem_of_getElem? hp'))
          (hioParts _ (List.mem_of_getElem? hq'))
        refine ⟨e, sub, ?_, ?_⟩
        · simp only [initializePart, bind_eq_ok, vectorAt_eq_ok]
          exact ⟨_, hp', _, subIoProfile_eq_ok.mpr ⟨_, _, _, hioObject, hioData, hq', rfl⟩, hinit⟩
        · intro q' hsame
          cases hq'.symm.trans hsame
          exact hpaired)
    have hturns : ∀ i ∈ d.turns, i < d.sequence.length := by
      intro i hi
      obtain ⟨_, -, hrange⟩ := List.mem_flatMap.mp hi
      exact List.mem_range.mp hrange
    obtain ⟨subTasks, hcollect⟩ := collect_succeeds fun i hi =>
      (hdepth i (List.mem_range.mpr (hturns i hi))).imp fun _ h => h.1
    refine ⟨depth + 1, _, (initialize_sequence hobject hdata depth _).mpr ⟨subTasks, hcollect, rfl⟩,
      ?_⟩
    intro path leaf hat
    cases hat with
    | here hleaf =>
      rw [ProfileObject.isSequence, hdata] at hleaf
      cases hleaf
    | @sub _ sub _ d' k path hdata' hsub hleaf =>
      rw [hdata] at hdata'
      cases hdata'
      have hk : k < d.turns.length := by
        rw [(collect_eq_ok.mp hcollect).length_eq]
        exact (List.getElem?_eq_some_iff.mp hsub).1
      obtain ⟨sub', hsub', hpart⟩ := getElem?_of_collect hcollect (d.getElem?_turns hk)
      cases hsub.symm.trans hsub'
      have hlt : k % d.sequence.length < d.sequence.length :=
        hturns _ (List.mem_of_getElem? (d.getElem?_turns hk))
      have hq' := List.getElem?_eq_getElem (hioLength ▸ hlt.trans_le hle)
      obtain ⟨same, hsame, hpaired⟩ := hdepth _ (List.mem_range.mpr hlt)
      cases hpart.symm.trans hsame
      rw [profileAtPath_cons hioObject hioData hq']
      exact hpaired _ hq' path leaf hleaf

/-- The tasks of a job can be built with each leaf along its part of the IO profile exactly when both
profiles have the same shape at all levels. -/
theorem leaves_paired_iff_same_shape {q : ProfilePtr} (hp : FullyResolved objects p)
    (hq : FullyResolved objects q) : PairsLeaves objects p q ↔ SameShape objects p q := by
  constructor
  · rintro ⟨depth, task, hinit, hpaired⟩
    exact sameShape_of_paired hp hq hinit hpaired
  · intro h
    exact pairsLeaves_of_sameShape h hp hq

end tasks

/-- The profiles of a workload file are fully resolved, but for those that lead to circular calls. -/
theorem fullyResolved_of_loaded {file : WorkloadFile} {s : ProfileStore} (h : s.FromFile file)
    {p : ProfilePtr} {object : ProfileObject} (hobject : s.objects[p]? = some object)
    (hname : object.name ∈ file.profiles.map ProfileObject.name)
    (hacyclic : ¬ Recursion.Cyclic file.Lists object.name) : FullyResolved s.objects p := by
  have hacc := Recursion.acc_of_not_cyclic file.mem_allListed hacyclic
  clear hacyclic
  generalize hsame : object.name = name at hacc hname
  induction hacc generalizing p object with
  | intro name _ ih =>
    cases hsequence : object.isSequence with
    | false => exact .leaf hobject hsequence
    | true =>
      obtain ⟨d, hdata⟩ := exists_data_of_isSequence hsequence
      have hresolved := h.linked.loaded _ (List.mem_of_getElem? hobject) d hdata (hsame ▸ hname)
      refine .sequence hobject hdata hresolved.length_eq ?_
      intro q hq
      obtain ⟨i, hi, rfl⟩ := List.getElem_of_mem hq
      obtain ⟨q', sub, hq', hsub, hsubName, -⟩ := h.linked.sub_loaded (List.mem_of_getElem? hobject)
        hdata (hsame ▸ hname) (hresolved.length_eq ▸ hi)
      rw [List.getElem?_eq_getElem hi] at hq'
      cases hq'
      have hmem : d.profileSequence[i] ∈ s.subs p := by
        obtain ⟨name', data, returnCode⟩ := object
        cases hdata
        rw [ProfileStore.subs, hobject]
        exact List.getElem_mem hi
      exact ih sub.name (hsame ▸ h.lists_of_sub hobject hmem hsub) hsub rfl hsubName

/-- A profile that computes, one that does it twice, one made of the latter, and two composed
profiles of transfers along them. -/
def pairedObjects : List ProfileObject :=
  [{ name := "compute", data := .parallelTask .parallelHomogeneous 0 rfl },
   { name := "twice", data := .sequence
       { repeats := 2, sequence := ["compute"], profileSequence := [0], repeats_pos := Nat.two_pos
         sequence_ne_nil := by decide } },
   { name := "nested", data := .sequence
       { repeats := 1, sequence := ["twice"], profileSequence := [1], repeats_pos := Nat.one_pos
         sequence_ne_nil := by decide } },
   { name := "transfer", data := .parallelTask .parallelHomogeneous 0 rfl },
   { name := "transfers", data := .sequence
       { repeats := 1, sequence := ["transfer"], profileSequence := [3], repeats_pos := Nat.one_pos
         sequence_ne_nil := by decide } }]

theorem compute_resolved : FullyResolved pairedObjects 0 := .leaf rfl rfl

theorem twice_resolved : FullyResolved pairedObjects 1 := by
  refine .sequence rfl rfl rfl ?_
  intro q hq
  rw [List.mem_singleton.mp hq]
  exact compute_resolved

theorem nested_resolved : FullyResolved pairedObjects 2 := by
  refine .sequence rfl rfl rfl ?_
  intro q hq
  rw [List.mem_singleton.mp hq]
  exact twice_resolved

theorem transfers_resolved : FullyResolved pairedObjects 4 := by
  refine .sequence rfl rfl rfl ?_
  intro q hq
  rw [List.mem_singleton.mp hq]
  exact .leaf rfl rfl

/-- The transfer goes along both repetitions. -/
theorem transfers_paired_with_twice : PairsLeaves pairedObjects 1 4 := by
  refine (leaves_paired_iff_same_shape twice_resolved transfers_resolved).mpr ?_
  refine .sequence rfl rfl rfl rfl (by decide) ?_
  intro i p' q' hp' hq'
  rw [List.mem_singleton.mp (List.mem_of_getElem? hp'),
    List.mem_singleton.mp (List.mem_of_getElem? hq')]
  exact .leaf rfl rfl rfl rfl

/-- The sizes agree at the first level, and the transfer is then read as a composed profile. -/
theorem transfer_read_as_sequence :
    ¬ ∀ (objects : List ProfileObject) (p q : ProfilePtr), FullyResolved objects p →
      FullyResolved objects q → checkIoProfile objects p q = .ok () → PairsLeaves objects p q := by
  intro hall
  obtain ⟨depth, task, hinit, -⟩ := hall pairedObjects 2 4 nested_resolved transfers_resolved rfl
  have herror : initializeSequentialTasks pairedObjects (depth + 3) 2 (some 4) =
      .error "not a sequence" := rfl
  rw [initialize_mono hinit (Nat.le_add_right depth 3)] at herror
  cases herror

end Batsim
