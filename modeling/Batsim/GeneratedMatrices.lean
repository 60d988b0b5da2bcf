import Mathlib.Algebra.BigOperators.Group.List.Basic
import Batsim.IoBounds
import Batsim.ParallelProfiles

/-!
The matrices that are generated for the profiles of parallel tasks, from what the reading of the
profiles checks.
-/

namespace Batsim

open Checked Json

/-! ### From the profiles as they are read -/

/-- `generate_matrices_from_profile`; there are no matrices when a copy goes out of range. -/
def TaskProfileData.generateMatrices (ms : Machines) (hostsToUse : List Nat)
    (storageMapping : Option (List (String × Int))) :
    TaskProfileData → Except String (Option Matrices × List Nat)
  | .parallel data => do
    let matrices ← data.generateParallelTask hostsToUse.length
    .ok (matrices, hostsToUse)
  | .parallelHomogeneous cpu com =>
    .ok (some (generateParallelHomogeneous hostsToUse.length cpu com), hostsToUse)
  | .parallelHomogeneousTotalAmount cpu com =>
    .ok (some (generateParallelHomogeneousTotalAmount hostsToUse.length cpu com), hostsToUse)
  | .parallelHomogeneousPfs bytesToRead bytesToWrite label => do
    let (matrices, hosts) ← generateParallelHomogeneousWithPfs ms hostsToUse storageMapping
      bytesToRead bytesToWrite label
    .ok (some matrices, hosts)
  | .dataStaging nbBytes fromLabel toLabel => do
    let (matrices, hosts) ← generateDataStagingTask ms storageMapping nbBytes fromLabel toLabel
    .ok (some matrices, hosts)

/-- What the reading of a profile checks. -/
def TaskProfileData.Acceptable : TaskProfileData → Prop
  | .parallel data =>
    data.cpu.length = data.nbRes ∧ data.com.length = mulUnsigned data.nbRes data.nbRes ∧
      (∀ a ∈ data.cpu, 0 ≤ a) ∧ ∀ a ∈ data.com, 0 ≤ a
  | .parallelHomogeneous cpu com => 0 ≤ cpu ∧ 0 ≤ com
  | .parallelHomogeneousTotalAmount cpu com => 0 ≤ cpu ∧ 0 ≤ com
  | .parallelHomogeneousPfs .. => True
  | .dataStaging nbBytes _ _ => 0 ≤ nbBytes

section accepted

variable {N : Type} {num : Numbers N} {errorPrefix profileName : String} {desc : Value N}

/-- A compulsory amount is not negative. -/
theorem amountField_nonneg {field : String} {amount : Amount}
    (h : amountField num errorPrefix profileName field desc = .ok amount) : 0 ≤ amount := by
  unfold amountField at h
  split at h
  · cases h
  · simp only [bind_eq_ok, xbtAssert_eq_ok, Except.ok.injEq] at h
    obtain ⟨_, hpos, rfl⟩ := h
    exact hpos
  · cases h

theorem acceptable_of_accepted {profile : TaskProfileData}
    (h : taskProfileFromJson num errorPrefix profileName desc = .ok profile) :
    profile.Acceptable := by
  have haccepted := h
  simp only [taskProfileFromJson, bind_eq_ok] at h
  obtain ⟨_, -, type, -, _, -, h⟩ := h
  split_ifs at h
  · simp only [bind_eq_ok, Except.ok.injEq] at h
    obtain ⟨data, hdata, rfl⟩ := h
    obtain ⟨cpu, com, -, -, hnb, -, hcpu, hsize, hcom, hcpuPos, hcomPos⟩ :=
      parallelFromJson_effect hdata
    exact ⟨hcpu.trans hnb.symm, by rw [hcom, hsize, hnb], hcpuPos, hcomPos⟩
  · simp only [bind_eq_ok, Except.ok.injEq] at h
    obtain ⟨cpu, hcpu, com, hcom, rfl⟩ := h
    exact ⟨amountField_nonneg hcpu, amountField_nonneg hcom⟩
  · simp only [bind_eq_ok, Except.ok.injEq] at h
    obtain ⟨cpu, hcpu, com, hcom, rfl⟩ := h
    exact ⟨amountField_nonneg hcpu, amountField_nonneg hcom⟩
  · simp only [pfsFromJson, bind_eq_ok, Except.ok.injEq] at h
    obtain ⟨_, -, read, -, write, -, label, -, rfl⟩ := h
    trivial
  · simp only [bind_eq_ok, Except.ok.injEq] at h
    obtain ⟨nbBytes, hbytes, _, -, _, -, rfl⟩ := h
    exact amountField_nonneg hbytes

end accepted

/-! ### The entries of a matrix -/

theorem mem_fillMatrix {nbRes : Nat} {entry : Nat → Nat → Amount} {a : Amount} :
    a ∈ fillMatrix nbRes entry ↔ ∃ y < nbRes, ∃ x < nbRes, entry y x = a := by
  simp [fillMatrix]

/-- The entry of a row and a column. -/
theorem getElem?_fillMatrix {nbRes y x : Nat} (entry : Nat → Nat → Amount) (hy : y < nbRes)
    (hx : x < nbRes) : (fillMatrix nbRes entry)[y * nbRes + x]? = some (entry y x) := by
  have hrow : (List.range nbRes)[y]? = some y := List.getElem?_range hy
  have hcol : (List.range nbRes)[x]? = some x := List.getElem?_range hx
  have hentry := getElem?_rows entry hrow hcol
  rwa [List.length_range] at hentry

/-! ### The shape -/

/-- The matrices that a task of the profile should have. -/
structure Matrices.WellShaped (m : Matrices) (profile : TaskProfileData) (nbHosts : Nat) : Prop
    extends m.SizedFor nbHosts where
  computation_nonneg : ∀ a ∈ m.computationVector, 0 ≤ a
  communication_nonneg : ∀ a ∈ m.communicationMatrix, 0 ≤ a
  diagonal : (∀ data, profile ≠ .parallel data) → ∀ i < nbHosts, ∀ a,
    m.communicationMatrix[i * nbHosts + i]? = some a → a = 0
  total : ∀ cpu com, profile = .parallelHomogeneousTotalAmount cpu com →
    m.computationVector.sum = cpu

/-- What makes the matrices well shaped: amounts of a PFS task that are not negative, a number of
computation amounts whose square does not lose a bit, or all those that count. -/
def TaskProfileData.KeepsShape : TaskProfileData → Prop
  | .parallel data => data.nbRes < 2 ^ 16 ∨ 2 ^ 31 ∣ data.nbRes
  | .parallelHomogeneousPfs bytesToRead bytesToWrite _ =>
    bytesToRead > 0 ∨ bytesToWrite > 0 → 0 ≤ bytesToRead ∧ 0 ≤ bytesToWrite
  | _ => True

/-- The matrices that are filled with amounts that are not negative, but on the diagonal. -/
theorem wellShaped_of_fill {nbRes : Nat} {cpu : Amount} {entry : Nat → Nat → Amount} {fills : Prop}
    [Decidable fills] {profile : TaskProfileData} (hcpu : 0 ≤ cpu)
    (hentry : fills → ∀ y < nbRes, ∀ x < nbRes, 0 ≤ entry y x) (hdiagonal : ∀ i, entry i i = 0)
    (htotal : ∀ total com, profile = .parallelHomogeneousTotalAmount total com →
      nbRes * cpu = total) :
    Matrices.WellShaped ⟨List.replicate nbRes cpu, if fills then fillMatrix nbRes entry else []⟩
      profile nbRes := by
  refine ⟨⟨List.length_replicate, ?_⟩, ?_, ?_, ?_, ?_⟩
  · dsimp only
    split
    · exact .inr (length_fillMatrix nbRes entry)
    · exact .inl rfl
  · intro a ha
    rw [List.eq_of_mem_replicate ha]
    exact hcpu
  · intro a ha
    dsimp only at ha
    split at ha
    · next hfills =>
      obtain ⟨y, hy, x, hx, rfl⟩ := mem_fillMatrix.mp ha
      exact hentry hfills y hy x hx
    · cases ha
  · intro _ i hi a ha
    dsimp only at ha
    split at ha
    · rw [getElem?_fillMatrix entry hi hi, hdiagonal i] at ha
      exact (Option.some.inj ha).symm
    · cases ha
  · intro total com hprofile
    rw [List.sum_replicate, nsmul_eq_mul]
    exact htotal total com hprofile

/-! ### The tasks of a `parallel` profile -/

theorem copiedCommunications_eq_mod (nbRes : Nat) :
    copiedCommunications nbRes = nbRes * nbRes % 2 ^ 61 := by
  rw [copiedCommunications, Nat.mod_mul_mod, Nat.mul_assoc]
  omega

/-- A square that ends with 61 zeros in base two. -/
theorem two_pow_dvd_of_square {n : Nat} (h : n * n % 2 ^ 61 = 0) : 2 ^ 31 ∣ n := by
  have hsquare : 2 ^ 61 ∣ n * n := Nat.dvd_of_mod_eq_zero h
  have hhalf : (2 ^ 30) ^ 2 ∣ n ^ 2 := by
    rw [Nat.pow_two n]
    exact Nat.dvd_trans (by decide) hsquare
  obtain ⟨k, rfl⟩ := (Nat.pow_dvd_pow_iff (by decide)).mp hhalf
  have heven : 2 ∣ k * k := by
    have hfactor : 2 ^ 30 * k * (2 ^ 30 * k) = 2 ^ 60 * (k * k) := by
      rw [Nat.mul_mul_mul_comm, ← Nat.pow_add]
    rw [hfactor, Nat.pow_succ] at hsquare
    exact Nat.dvd_of_mul_dvd_mul_left (by decide) hsquare
  have hk : 2 ∣ k := by
    by_contra hodd
    have hone : k % 2 = 1 := by omega
    have hsquareOne : k * k % 2 = 1 := by rw [Nat.mul_mod, hone]
    omega
  exact Nat.mul_dvd_mul (Nat.dvd_refl (2 ^ 30)) hk

theorem memcpy_eq_some {destination source copied : List Amount} {count : Nat} :
    memcpy destination source count = some copied ↔
      (count ≤ destination.length ∧ count ≤ source.length) ∧
        copied = source.take count ++ destination.drop count := by
  rw [memcpy]
  split
  · next hle => simp [hle, eq_comm]
  · next hout => simp [hout]

/-- A copy keeps the length of the buffer. -/
theorem length_memcpy {destination source copied : List Amount} {count : Nat}
    (h : memcpy destination source count = some copied) :
    copied.length = destination.length := by
  obtain ⟨⟨hle, hle'⟩, rfl⟩ := memcpy_eq_some.mp h
  rw [List.length_append, List.length_take, List.length_drop]
  omega

theorem memcpy_nonneg {nbRes : Nat} {source copied : List Amount} {count : Nat}
    (hsource : ∀ a ∈ source, 0 ≤ a)
    (h : memcpy (List.replicate nbRes 0) source count = some copied) : ∀ a ∈ copied, 0 ≤ a := by
  obtain ⟨-, rfl⟩ := memcpy_eq_some.mp h
  intro a ha
  rcases List.mem_append.mp ha with htaken | hdropped
  · exact hsource a (List.mem_of_mem_take htaken)
  · rw [List.eq_of_mem_replicate (List.mem_of_mem_drop hdropped)]

/-- A `parallel` task is well shaped when its square does not lose a bit, or all those that count. -/
theorem parallel_wellShaped_iff {data : ParallelProfileData} {result : Option Matrices}
    (hacceptable : (TaskProfileData.parallel data).Acceptable)
    (h : data.generateParallelTask data.nbRes = .ok result) :
    (∃ m, result = some m ∧ m.WellShaped (.parallel data) data.nbRes) ↔
      data.nbRes < 2 ^ 16 ∨ 2 ^ 31 ∣ data.nbRes := by
  obtain ⟨hcpu, hcom, hcpuPos, hcomPos⟩ := hacceptable
  rw [ParallelProfileData.generateParallelTask, xbtAssert_of rfl] at h
  obtain rfl := Except.ok.inj h
  have hcomLength : data.com.length = data.nbRes * data.nbRes % 2 ^ 32 := hcom
  constructor
  · rintro ⟨m, hm, hshaped⟩
    simp only [Option.bind_eq_bind, Option.bind_eq_some_iff, Option.some.injEq] at hm
    obtain ⟨computations, -, communications, hcopy, rfl⟩ := hm
    have hlength := length_memcpy hcopy
    rw [List.length_replicate] at hlength
    have hle := (memcpy_eq_some.mp hcopy).1.2
    rw [copiedCommunications_eq_mod, hcomLength] at hle
    have hsize : communications.length = data.nbRes * data.nbRes % 2 ^ 32 := hlength
    rcases hshaped.communication with hnil | hsquare
    · right
      apply two_pow_dvd_of_square
      rw [List.length_eq_zero_iff.mpr hnil] at hsize
      omega
    · left
      by_contra hlarge
      have hle : 2 ^ 16 * 2 ^ 16 ≤ data.nbRes * data.nbRes :=
        Nat.mul_le_mul (by omega) (by omega)
      have hwrapped : data.nbRes * data.nbRes % 2 ^ 32 < 2 ^ 32 := Nat.mod_lt _ (by decide)
      dsimp only at hsquare
      omega
  · intro hcond
    have hcopied : copiedCommunications data.nbRes ≤ mulUnsigned data.nbRes data.nbRes ∧
        (mulUnsigned data.nbRes data.nbRes = 0 ∨
          mulUnsigned data.nbRes data.nbRes = data.nbRes * data.nbRes) := by
      rcases hcond with hlt | ⟨k, hk⟩
      · rw [copiedCommunications_eq hlt, mulUnsigned_self hlt]
        exact ⟨le_rfl, .inr rfl⟩
      · have hfactor : data.nbRes * data.nbRes = 2 ^ 61 * (2 * (k * k)) := by
          rw [hk, Nat.mul_mul_mul_comm, ← Nat.pow_add, ← Nat.mul_assoc (2 ^ 61), ← Nat.pow_succ]
        rw [copiedCommunications_eq_mod, mulUnsigned, hfactor]
        omega
    have hcount : copiedComputations data.nbRes ≤ data.nbRes := by
      unfold copiedComputations
      omega
    obtain ⟨computations, hcpuCopy⟩ : ∃ computations, memcpy (List.replicate data.nbRes 0) data.cpu
        (copiedComputations data.nbRes) = some computations :=
      ⟨_, memcpy_eq_some.mpr
        ⟨⟨hcount.trans List.length_replicate.ge, hcount.trans hcpu.ge⟩, rfl⟩⟩
    obtain ⟨communications, hcomCopy⟩ : ∃ communications,
        memcpy (List.replicate (mulUnsigned data.nbRes data.nbRes) 0) data.com
          (copiedCommunications data.nbRes) = some communications :=
      ⟨_, memcpy_eq_some.mpr
        ⟨⟨hcopied.1.trans List.length_replicate.ge, hcopied.1.trans hcom.ge⟩, rfl⟩⟩
    refine ⟨⟨computations, communications⟩, ?_, ⟨⟨?_, ?_⟩, ?_, ?_, ?_, ?_⟩⟩
    · rw [hcpuCopy, hcomCopy]
      rfl
    · exact (length_memcpy hcpuCopy).trans List.length_replicate
    · have hlength := (length_memcpy hcomCopy).trans List.length_replicate
      rcases hcopied.2 with hnone | hall
      · exact .inl (List.length_eq_zero_iff.mp (hlength.trans hnone))
      · exact .inr (hlength.trans hall)
    · exact memcpy_nonneg hcpuPos hcpuCopy
    · exact memcpy_nonneg hcomPos hcomCopy
    · intro hother
      exact absurd rfl (hother data)
    · intro cpu com hprofile
      cases hprofile

/-- The profile with the sizes of its arrays, if these are a number and its square. -/
def TaskProfileData.sized : TaskProfileData → Option ParallelData
  | .parallel data =>
    if h : data.cpu.length = data.nbRes ∧ data.com.length = data.nbRes * data.nbRes then
      some (.parallel data.nbRes data.cpu data.com h.1 h.2)
    else none
  | .parallelHomogeneous cpu com => some (.parallelHomogeneous cpu com)
  | .parallelHomogeneousTotalAmount cpu com => some (.parallelHomogeneousTotalAmount cpu com)
  | .parallelHomogeneousPfs bytesToRead bytesToWrite label =>
    some (.parallelHomogeneousPfs bytesToRead bytesToWrite label)
  | .dataStaging nbBytes fromLabel toLabel => some (.dataStaging nbBytes fromLabel toLabel)

/-- With these sizes, the generation copies the arrays whole. -/
theorem generateMatrices_of_sized {profile : TaskProfileData} {data : ParallelData}
    (hacceptable : profile.Acceptable) (hsized : profile.sized = some data) (ms : Machines)
    (hosts : List Nat) (storageMapping : Option (List (String × Int))) :
    profile.generateMatrices ms hosts storageMapping =
      (generateMatricesFromProfile ms hosts data storageMapping).map fun (m, hosts') =>
        (some m, hosts') := by
  cases profile with
  | parallel raw =>
    rw [TaskProfileData.sized] at hsized
    split_ifs at hsized with hlengths
    obtain rfl := Option.some.inj hsized
    have hlt : raw.nbRes < 2 ^ 16 := by
      by_contra hlarge
      have hle : 2 ^ 16 * 2 ^ 16 ≤ raw.nbRes * raw.nbRes := Nat.mul_le_mul (by omega) (by omega)
      have hwrapped := mulUnsigned_lt raw.nbRes raw.nbRes
      have hcom := hacceptable.2.1
      omega
    by_cases hnb : hosts.length = raw.nbRes
    · have hcpuCopy : memcpy (List.replicate raw.nbRes 0) raw.cpu (copiedComputations raw.nbRes) =
          some raw.cpu := by
        rw [copiedComputations_eq (by omega), ← hlengths.1]
        exact memcpy_all (by simp)
      have hcomCopy : memcpy (List.replicate (mulUnsigned raw.nbRes raw.nbRes) 0) raw.com
          (copiedCommunications raw.nbRes) = some raw.com := by
        rw [copiedCommunications_eq hlt, mulUnsigned_self hlt, ← hlengths.2]
        exact memcpy_all (by simp)
      simp only [TaskProfileData.generateMatrices, generateMatricesFromProfile,
        ParallelProfileData.generateParallelTask, generateParallelTask, hnb, xbtAssert_of, bind,
        Except.bind, hcpuCopy, hcomCopy, Option.bind]
      rfl
    · simp only [TaskProfileData.generateMatrices, generateMatricesFromProfile,
        ParallelProfileData.generateParallelTask, generateParallelTask, xbtAssert, require, if_neg hnb, bind,
        Except.bind]
      rfl
  | parallelHomogeneous cpu com =>
    obtain rfl := Option.some.inj hsized
    rfl
  | parallelHomogeneousTotalAmount cpu com =>
    obtain rfl := Option.some.inj hsized
    rfl
  | parallelHomogeneousPfs bytesToRead bytesToWrite label =>
    obtain rfl := Option.some.inj hsized
    simp only [TaskProfileData.generateMatrices, generateMatricesFromProfile]
    cases generateParallelHomogeneousWithPfs ms hosts storageMapping bytesToRead bytesToWrite label
      <;> rfl
  | dataStaging nbBytes fromLabel toLabel =>
    obtain rfl := Option.some.inj hsized
    simp only [TaskProfileData.generateMatrices, generateMatricesFromProfile]
    cases generateDataStagingTask ms storageMapping nbBytes fromLabel toLabel <;> rfl

/-! ### The tasks of the other profiles -/

theorem generateSpread_wellShaped {profile : TaskProfileData} {nbRes : Nat} {cpu com : Amount}
    (hcpu : 0 ≤ cpu)
    (htotal : ∀ total com, profile = .parallelHomogeneousTotalAmount total com →
      nbRes * cpu = total) : (generateSpread nbRes cpu com).WellShaped profile nbRes := by
  rw [generateSpread]
  refine wellShaped_of_fill hcpu ?_ (fun i => if_pos rfl) htotal
  intro hcom y _ x _
  split
  · exact le_rfl
  · exact le_of_lt hcom

/-- What a PFS task gets, if it does not stop the program. -/
theorem generateParallelHomogeneousWithPfs_effect {ms : Machines} {hosts hosts' : List Nat}
    {storageMapping : Option (List (String × Int))} {bytesToRead bytesToWrite : Amount}
    {label : String} {m : Matrices}
    (h : generateParallelHomogeneousWithPfs ms hosts storageMapping bytesToRead bytesToWrite label =
      .ok (m, hosts')) :
    hosts'.length = hosts.length + 1 ∧ m.computationVector = List.replicate (hosts.length + 1) 0 ∧
      m.communicationMatrix =
        if bytesToRead > 0 ∨ bytesToWrite > 0 then
          fillMatrix (hosts.length + 1) fun row col =>
            if col = row ∨ (col ≠ hosts.length ∧ row ≠ hosts.length) then 0
            else if col = hosts.length then bytesToWrite
            else bytesToRead
        else [] := by
  cases storageMapping with
  | none => cases h
  | some mapping =>
    simp only [generateParallelHomogeneousWithPfs, bind_eq_ok, Except.ok.injEq, Prod.mk.injEq] at h
    obtain ⟨pfs, -, rfl, rfl⟩ := h
    refine ⟨?_, rfl, rfl⟩
    rw [List.length_append, List.length_singleton]

/-- A PFS task is well shaped when it does not communicate, or a negative amount. -/
theorem pfs_wellShaped_iff {ms : Machines} {hosts hosts' : List Nat}
    {storageMapping : Option (List (String × Int))} {bytesToRead bytesToWrite : Amount}
    {label : String} {m : Matrices} (hhosts : hosts ≠ [])
    (h : generateParallelHomogeneousWithPfs ms hosts storageMapping bytesToRead bytesToWrite label =
      .ok (m, hosts')) :
    m.WellShaped (.parallelHomogeneousPfs bytesToRead bytesToWrite label) hosts'.length ↔
      (bytesToRead > 0 ∨ bytesToWrite > 0 → 0 ≤ bytesToRead ∧ 0 ≤ bytesToWrite) := by
  obtain ⟨hlength, hcomputation, hcommunication⟩ := generateParallelHomogeneousWithPfs_effect h
  have hpos : 0 < hosts.length := List.length_pos_iff.mpr hhosts
  constructor
  · intro hshaped hfills
    have hentries : ∀ a ∈ m.communicationMatrix, 0 ≤ a := hshaped.communication_nonneg
    rw [hcommunication, if_pos hfills] at hentries
    constructor
    · refine hentries _ (mem_fillMatrix.mpr ⟨hosts.length, by omega, 0, by omega, ?_⟩)
      rw [if_neg (by omega), if_neg (by omega)]
    · refine hentries _ (mem_fillMatrix.mpr ⟨0, by omega, hosts.length, by omega, ?_⟩)
      rw [if_neg (by omega), if_pos rfl]
  · intro hcond
    obtain ⟨computations, communications⟩ := m
    dsimp only at hcomputation hcommunication
    subst hcomputation hcommunication
    rw [hlength]
    refine wellShaped_of_fill le_rfl ?_ (fun i => if_pos (.inl rfl)) ?_
    · intro hfills y _ x _
      split_ifs
      · exact le_rfl
      · exact (hcond hfills).2
      · exact (hcond hfills).1
    · intro total com hprofile
      cases hprofile

theorem dataStaging_wellShaped {ms : Machines} {hosts' : List Nat}
    {storageMapping : Option (List (String × Int))} {nbBytes : Amount} {fromLabel toLabel : String}
    {m : Matrices}
    (h : generateDataStagingTask ms storageMapping nbBytes fromLabel toLabel = .ok (m, hosts')) :
    m.WellShaped (.dataStaging nbBytes fromLabel toLabel) hosts'.length := by
  cases storageMapping with
  | none => cases h
  | some mapping =>
    simp only [generateDataStagingTask, bind_eq_ok, Except.ok.injEq, Prod.mk.injEq] at h
    obtain ⟨first, -, second, -, rfl, rfl⟩ := h
    refine wellShaped_of_fill le_rfl ?_ (fun i => if_pos (.inl rfl)) ?_
    · intro hbytes y _ x _
      split
      · exact le_rfl
      · exact le_of_lt hbytes
    · intro total com hprofile
      cases hprofile

/-! ### All the profiles -/

/-- The matrices of an accepted profile are well shaped exactly when the profile keeps the shape. -/
theorem generated_wellShaped_iff {N : Type} {num : Numbers N} {errorPrefix profileName : String}
    {desc : Value N} {profile : TaskProfileData} {ms : Machines} {hosts hosts' : List Nat}
    {storageMapping : Option (List (String × Int))} {result : Option Matrices}
    (haccepted : taskProfileFromJson num errorPrefix profileName desc = .ok profile)
    (hhosts : hosts ≠ [])
    (h : profile.generateMatrices ms hosts storageMapping = .ok (result, hosts')) :
    (∃ m, result = some m ∧ m.WellShaped profile hosts'.length) ↔ profile.KeepsShape := by
  have hacceptable := acceptable_of_accepted haccepted
  have hpos : (0 : Amount) < (hosts.length : Amount) :=
    Nat.cast_pos.mpr (List.length_pos_iff.mpr hhosts)
  cases profile with
  | parallel data =>
    simp only [TaskProfileData.generateMatrices, bind_eq_ok, Except.ok.injEq, Prod.mk.injEq] at h
    obtain ⟨_, hgenerated, rfl, rfl⟩ := h
    have hnb : hosts.length = data.nbRes := by
      simp only [ParallelProfileData.generateParallelTask, bind_eq_ok, xbtAssert_eq_ok] at hgenerated
      exact hgenerated.choose_spec.1
    rw [hnb] at hgenerated ⊢
    exact parallel_wellShaped_iff hacceptable hgenerated
  | parallelHomogeneous cpu com =>
    simp only [TaskProfileData.generateMatrices, Except.ok.injEq, Prod.mk.injEq] at h
    obtain ⟨rfl, rfl⟩ := h
    refine iff_of_true ⟨_, rfl, generateSpread_wellShaped hacceptable.1 ?_⟩ trivial
    intro total com' hprofile
    cases hprofile
  | parallelHomogeneousTotalAmount cpu com =>
    simp only [TaskProfileData.generateMatrices, Except.ok.injEq, Prod.mk.injEq] at h
    obtain ⟨rfl, rfl⟩ := h
    refine iff_of_true ⟨_, rfl, generateSpread_wellShaped ?_ ?_⟩ trivial
    · exact div_nonneg hacceptable.1 (le_of_lt hpos)
    · intro total com' hprofile
      obtain ⟨rfl, -⟩ := TaskProfileData.parallelHomogeneousTotalAmount.inj hprofile
      exact mul_div_cancel₀ _ (ne_of_gt hpos)
  | parallelHomogeneousPfs bytesToRead bytesToWrite label =>
    simp only [TaskProfileData.generateMatrices, bind_eq_ok, Except.ok.injEq, Prod.mk.injEq,
      Prod.exists] at h
    obtain ⟨m, hosts'', hgenerated, rfl, rfl⟩ := h
    simp only [Option.some.injEq, exists_eq_left']
    exact pfs_wellShaped_iff hhosts hgenerated
  | dataStaging nbBytes fromLabel toLabel =>
    simp only [TaskProfileData.generateMatrices, bind_eq_ok, Except.ok.injEq, Prod.mk.injEq,
      Prod.exists] at h
    obtain ⟨m, hosts'', hgenerated, rfl, rfl⟩ := h
    exact iff_of_true ⟨m, rfl, dataStaging_wellShaped hgenerated⟩ trivial

/-- A platform with a compute node and a storage node. -/
def storageMachines : Machines where
  machines :=
    [{ permissions := Permissions.computeNode, pstates := ∅, sleepPstates := ∅
       hostNbPstates := 1, hostPstate := 0 },
     { permissions := Permissions.storage, pstates := ∅, sleepPstates := ∅
       hostNbPstates := 1, hostPstate := 0 }]
  nbMachinesInEachState := fun _ => 0

/-- A description of type `parallel_homogeneous_pfs` -/
def pfsDescription (bytesToRead bytesToWrite : Int) : Value Int :=
  .obj [("type", .str "parallel_homogeneous_pfs"), ("bytes_to_read", .num bytesToRead),
    ("bytes_to_write", .num bytesToWrite)]

/-- The job runs on the compute node, and reads 8 from the storage node. -/
theorem reading_task_is_well_shaped :
    ∃ profile result hosts', taskProfileFromJson integerNumbers "" "p" (pfsDescription 8 0) =
        .ok profile ∧
      profile.generateMatrices storageMachines [0] (some []) = .ok (result, hosts') ∧
      ∃ m, result = some m ∧ m.WellShaped profile hosts'.length := by
  have haccepted : taskProfileFromJson integerNumbers "" "p" (pfsDescription 8 0) =
      .ok (.parallelHomogeneousPfs 8 0 "pfs") := rfl
  have hgenerated : (TaskProfileData.parallelHomogeneousPfs 8 0 "pfs").generateMatrices
      storageMachines [0] (some []) = .ok (some ⟨[0, 0], [0, 0, 8, 0]⟩, [0, 1]) := by
    decide +kernel
  refine ⟨_, _, _, haccepted, hgenerated, ?_⟩
  refine (generated_wellShaped_iff haccepted (by decide) hgenerated).mpr ?_
  intro _
  decide

/-- A negative number of bytes to write is accepted, and given to the task. -/
theorem negative_amount_generated :
    ¬ ∀ (desc : Value Int) (profile : TaskProfileData) (ms : Machines) (hosts hosts' : List Nat)
      (storageMapping : Option (List (String × Int))) (result : Option Matrices),
      taskProfileFromJson integerNumbers "" "p" desc = .ok profile → hosts ≠ [] →
      profile.generateMatrices ms hosts storageMapping = .ok (result, hosts') →
      ∃ m, result = some m ∧ m.WellShaped profile hosts'.length := by
  intro hall
  have haccepted : taskProfileFromJson integerNumbers "" "p" (pfsDescription 8 (-1)) =
      .ok (.parallelHomogeneousPfs 8 (-1) "pfs") := rfl
  have hgenerated : (TaskProfileData.parallelHomogeneousPfs 8 (-1) "pfs").generateMatrices
      storageMachines [0] (some []) = .ok (some ⟨[0, 0], [0, -1, 8, 0]⟩, [0, 1]) := by
    decide +kernel
  obtain ⟨m, hm, hshaped⟩ := hall _ _ _ _ _ _ _ haccepted (by decide) hgenerated
  obtain rfl := Option.some.inj hm
  exact absurd (hshaped.communication_nonneg (-1) (by decide)) (by decide)

end Batsim
