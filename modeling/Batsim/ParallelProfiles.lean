import Batsim.JobDescriptions
import Batsim.ParallelTasks

/-!
The profiles of parallel tasks as `Profile::from_json` reads them, and the matrices of a `parallel`
profile with the sizes that the code computes.
-/

namespace Batsim

open Checked Json

/-! ### The data -/

/-- `ParallelProfileData`: the number of resources and the two buffers -/
structure ParallelProfileData where
  nbRes : Nat
  cpu : List Amount
  com : List Amount

/-- The data of the profiles of parallel tasks, as they are read. -/
inductive TaskProfileData where
  | parallel (data : ParallelProfileData)
  | parallelHomogeneous (cpu com : Amount)
  | parallelHomogeneousTotalAmount (cpu com : Amount)
  | parallelHomogeneousPfs (bytesToRead bytesToWrite : Amount) (storageLabel : String)
  | dataStaging (nbBytes : Amount) (fromStorageLabel toStorageLabel : String)

/-- The product of two `unsigned int`s -/
def mulUnsigned (a b : Nat) : Nat := a * b % 2 ^ 32

/-! ### `Profile::from_json` -/

section fromJson

variable {N : Type} (num : Numbers N) (errorPrefix profileName : String)

/-- The beginning of the messages. -/
def profileError (errorPrefix profileName : String) : String :=
  errorPrefix ++ ": profile '" ++ profileName ++ "'"

/-- A number that has to be there and not to be negative. -/
def amountField (field : String) (desc : Value N) : Except String Amount :=
  match desc.member? field with
  | none => .error (profileError errorPrefix profileName ++ " has no '" ++ field ++ "' field")
  | some (.num n) => do
    let amount := num.getDouble n
    xbtAssert (amount ≥ 0) (profileError errorPrefix profileName ++ " has a non-positive '" ++
      field ++ "' field (" ++ toString amount ++ ")")
    .ok amount
  | some _ => .error (profileError errorPrefix profileName ++ " has a non-number '" ++ field ++
      "' field")

/-- A number that is zero when it is not there. -/
def optionalAmount (field : String) (desc : Value N) : Except String Amount :=
  match desc.member? field with
  | none => .ok 0
  | some (.num n) => .ok (num.getDouble n)
  | some _ => .error (profileError errorPrefix profileName ++ " has a non-number '" ++ field ++
      "' field")

/-- A string that has to be there. -/
def labelField (field : String) (desc : Value N) : Except String String :=
  match desc.member? field with
  | none => .error (profileError errorPrefix profileName ++ " has no '" ++ field ++ "' field")
  | some (.str s) => .ok (cString s)
  | some _ => .error (profileError errorPrefix profileName ++ " has a non-string '" ++ field ++
      "' field")

/-- The loop that fills a buffer; `what` is the array that it reads. -/
def amountArray (what : String) (items : List (Value N)) : Except String (List Amount) :=
  collect (fun item => match item with
    | .num n => do
      let amount := num.getDouble n
      xbtAssert (amount ≥ 0) (profileError errorPrefix profileName ++ " " ++ what ++
        " array is invalid: all elements must be non-negative")
      .ok amount
    | _ => .error (profileError errorPrefix profileName ++ " " ++ what ++
        " array is invalid: all elements must be numbers")) items

/-- An array that has to be there. -/
def arrayField (field : String) (desc : Value N) : Except String (List (Value N)) :=
  match desc.member? field with
  | some (.arr items) => .ok items
  | _ => .error (profileError errorPrefix profileName ++ " has a non-array '" ++ field ++ "' field")

/-- The profiles of type `parallel`. -/
def parallelFromJson (desc : Value N) : Except String ParallelProfileData := do
  xbtAssert ((desc.member? "cpu").isSome = true)
    (profileError errorPrefix profileName ++ " has no 'cpu' field")
  xbtAssert ((desc.member? "com").isSome = true)
    (profileError errorPrefix profileName ++ " has no 'com' field")
  let cpuItems ← arrayField errorPrefix profileName "cpu" desc
  xbtAssert (cpuItems.length > 0) (profileError errorPrefix profileName ++
    " has an invalid-sized array 'cpu' (size=" ++ toString cpuItems.length ++
    "): must be strictly positive")
  let nbRes := cpuItems.length
  let cpu ← amountArray num errorPrefix profileName "computation" cpuItems
  let comItems ← arrayField errorPrefix profileName "com" desc
  xbtAssert (comItems.length = mulUnsigned nbRes nbRes) (profileError errorPrefix profileName ++
    " is incoherent: com array has size " ++ toString comItems.length ++
    " whereas the required array size is " ++ toString (mulUnsigned nbRes nbRes))
  let com ← amountArray num errorPrefix profileName "communication" comItems
  .ok { nbRes := nbRes, cpu := cpu, com := com }

/-- The profiles of type `parallel_homogeneous_pfs`. -/
def pfsFromJson (desc : Value N) : Except String TaskProfileData := do
  xbtAssert ((desc.member? "bytes_to_read").isSome = true ∨
      (desc.member? "bytes_to_write").isSome = true) (profileError errorPrefix profileName ++
    " has no 'bytes_to_read' or 'bytes_to_write' field (0 if not set)")
  let bytesToRead ← optionalAmount num errorPrefix profileName "bytes_to_read" desc
  let bytesToWrite ← optionalAmount num errorPrefix profileName "bytes_to_write" desc
  let storageLabel ← (if (desc.member? "storage").isSome = true then
      labelField errorPrefix profileName "storage" desc
    else if (desc.member? "host").isSome = true then
      labelField errorPrefix profileName "host" desc
    else .ok "pfs")
  .ok (.parallelHomogeneousPfs bytesToRead bytesToWrite storageLabel)

/-- `Profile::from_json`, for the profiles of parallel tasks -/
def taskProfileFromJson (desc : Value N) : Except String TaskProfileData := do
  xbtAssert (isObject desc = true)
    (profileError errorPrefix profileName ++ " value must be an object")
  let type ← labelField errorPrefix profileName "type" desc
  -- `GetInt` stops the program on what is no integer
  xbtAssert ((desc.member? "ret").all (isInt num) = true) "RAPIDJSON_ASSERT"
  if type = "parallel" then do
    let data ← parallelFromJson num errorPrefix profileName desc
    .ok (.parallel data)
  else if type = "parallel_homogeneous" then do
    let cpu ← amountField num errorPrefix profileName "cpu" desc
    let com ← amountField num errorPrefix profileName "com" desc
    .ok (.parallelHomogeneous cpu com)
  else if type = "parallel_homogeneous_total" then do
    let cpu ← amountField num errorPrefix profileName "cpu" desc
    let com ← amountField num errorPrefix profileName "com" desc
    .ok (.parallelHomogeneousTotalAmount cpu com)
  else if type = "parallel_homogeneous_pfs" then pfsFromJson num errorPrefix profileName desc
  else if type = "data_staging" then do
    let nbBytes ← amountField num errorPrefix profileName "nb_bytes" desc
    let fromStorageLabel ← labelField errorPrefix profileName "from" desc
    let toStorageLabel ← labelField errorPrefix profileName "to" desc
    .ok (.dataStaging nbBytes fromStorageLabel toStorageLabel)
  -- the other types are not those of parallel tasks
  else .error (profileError errorPrefix profileName ++ " has no parallel task")

end fromJson

/-! ### `generate_parallel_task` -/

/-- `memcpy` of some values, if it neither reads nor writes out of range -/
def memcpy (destination source : List Amount) (count : Nat) : Option (List Amount) :=
  if count ≤ destination.length ∧ count ≤ source.length then
    some (source.take count ++ destination.drop count)
  else none

/-- The number of values in `sizeof(double) * nb_res` bytes, a `size_t` -/
def copiedComputations (nbRes : Nat) : Nat := 8 * nbRes % 2 ^ 64 / 8

/-- The number of values in `sizeof(double) * nb_res * nb_res` bytes, a `size_t` -/
def copiedCommunications (nbRes : Nat) : Nat := 8 * nbRes % 2 ^ 64 * nbRes % 2 ^ 64 / 8

/-- `generate_parallel_task`; there are no matrices when a copy goes out of range. -/
def ParallelProfileData.generateParallelTask (data : ParallelProfileData) (nbRes : Nat) :
    Except String (Option Matrices) := do
  xbtAssert (nbRes = data.nbRes)
    ("the number of resources given by the allocation (" ++ toString nbRes ++ ") is different " ++
      "from the number of resouces given by the profile data (" ++ toString data.nbRes ++ ")")
  let computationAmount : List Amount := List.replicate nbRes 0
  let communicationAmount : List Amount := List.replicate (mulUnsigned nbRes nbRes) 0
  .ok (do
    let computations ← memcpy computationAmount data.cpu (copiedComputations nbRes)
    let communications ← memcpy communicationAmount data.com (copiedCommunications nbRes)
    some ⟨computations, communications⟩)

theorem copiedComputations_eq {nbRes : Nat} (h : nbRes < 2 ^ 32) :
    copiedComputations nbRes = nbRes := by
  unfold copiedComputations
  omega

theorem mulUnsigned_lt (a b : Nat) : mulUnsigned a b < 2 ^ 32 := Nat.mod_lt _ (by decide)

/-- A copy of all the values. -/
theorem memcpy_all {destination source : List Amount} (h : destination.length = source.length) :
    memcpy destination source source.length = some source := by
  rw [memcpy, if_pos ⟨h.ge, le_rfl⟩, List.take_length, List.drop_of_length_le h.le, List.append_nil]

theorem mulUnsigned_self {nbRes : Nat} (h : nbRes < 2 ^ 16) :
    mulUnsigned nbRes nbRes = nbRes * nbRes := by
  have hle : nbRes * nbRes ≤ 65535 * 65535 := Nat.mul_le_mul (by omega) (by omega)
  unfold mulUnsigned
  omega

theorem copiedCommunications_eq {nbRes : Nat} (h : nbRes < 2 ^ 16) :
    copiedCommunications nbRes = nbRes * nbRes := by
  have hle : nbRes * nbRes ≤ 65535 * 65535 := Nat.mul_le_mul (by omega) (by omega)
  have hbytes : 8 * nbRes % 2 ^ 64 = 8 * nbRes := by omega
  rw [copiedCommunications, hbytes, Nat.mul_assoc]
  omega

/-! ### What is read -/

section accepted

variable {N : Type} {num : Numbers N} {errorPrefix profileName : String} {desc : Value N}

theorem arrayField_eq_ok {field : String} {items : List (Value N)} :
    arrayField errorPrefix profileName field desc = .ok items ↔
      desc.member? field = some (.arr items) := by
  unfold arrayField
  split
  · next items' h => simp [h]
  · next hnot =>
    constructor
    · intro h
      cases h
    · intro h
      exact absurd h (hnot items)

/-- A buffer has a value for each item, and no negative one. -/
theorem amountArray_effect {what : String} {items : List (Value N)} {amounts : List Amount}
    (h : amountArray num errorPrefix profileName what items = .ok amounts) :
    amounts.length = items.length ∧ ∀ a ∈ amounts, 0 ≤ a := by
  rw [amountArray, collect_eq_ok] at h
  induction h with
  | nil => simp
  | @cons item amount items amounts hitem _ ih =>
    refine ⟨by simp [ih.1], List.forall_mem_cons.mpr ⟨?_, ih.2⟩⟩
    cases item with
    | num n =>
      simp only [bind_eq_ok, xbtAssert_eq_ok, Except.ok.injEq] at hitem
      obtain ⟨_, hpos, rfl⟩ := hitem
      exact hpos
    | _ => cases hitem

/-- What an accepted description of type `parallel` gives. -/
theorem parallelFromJson_effect {data : ParallelProfileData}
    (h : parallelFromJson num errorPrefix profileName desc = .ok data) :
    ∃ cpu com, desc.member? "cpu" = some (.arr cpu) ∧ desc.member? "com" = some (.arr com) ∧
      data.nbRes = cpu.length ∧ 0 < cpu.length ∧ data.cpu.length = cpu.length ∧
      com.length = mulUnsigned cpu.length cpu.length ∧ data.com.length = com.length ∧
      (∀ a ∈ data.cpu, 0 ≤ a) ∧ ∀ a ∈ data.com, 0 ≤ a := by
  simp only [parallelFromJson, bind_eq_ok, xbtAssert_eq_ok, Except.ok.injEq,
    arrayField_eq_ok] at h
  obtain ⟨_, -, _, -, cpuItems, hcpuItems, _, hpos, cpu, hcpu, comItems, hcomItems, _, hsize, com,
    hcom, rfl⟩ := h
  obtain ⟨hcpuLength, hcpuPos⟩ := amountArray_effect hcpu
  obtain ⟨hcomLength, hcomPos⟩ := amountArray_effect hcom
  exact ⟨cpuItems, comItems, hcpuItems, hcomItems, rfl, hpos, hcpuLength, hsize, hcomLength,
    hcpuPos, hcomPos⟩

/-- The profiles of type `parallel` are those that `parallelFromJson` reads. -/
theorem parallelFromJson_of_accepted {data : ParallelProfileData}
    (h : taskProfileFromJson num errorPrefix profileName desc = .ok (.parallel data)) :
    parallelFromJson num errorPrefix profileName desc = .ok data := by
  simp only [taskProfileFromJson, bind_eq_ok] at h
  obtain ⟨_, -, type, -, _, -, h⟩ := h
  split_ifs at h
  · simp only [bind_eq_ok, Except.ok.injEq, TaskProfileData.parallel.injEq, exists_eq_right] at h
    exact h
  · simp only [bind_eq_ok, Except.ok.injEq, reduceCtorEq, and_false, exists_false] at h
  · simp only [bind_eq_ok, Except.ok.injEq, reduceCtorEq, and_false, exists_false] at h
  · simp only [pfsFromJson, bind_eq_ok, Except.ok.injEq, reduceCtorEq, and_false,
      exists_false] at h
  · simp only [bind_eq_ok, Except.ok.injEq, reduceCtorEq, and_false, exists_false] at h

/-- The arrays have the sizes that they should have, they are stored whole, and the generation copies
them whole, within bounds. -/
structure ParallelProfileData.Exact (data : ParallelProfileData) (cpu com : List (Value N)) :
    Prop where
  entries : com.length = cpu.length * cpu.length
  stored : data.com.length = cpu.length * cpu.length
  copiedComputations : copiedComputations data.nbRes = cpu.length
  copiedCommunications : copiedCommunications data.nbRes = cpu.length * cpu.length
  generated : data.generateParallelTask cpu.length = .ok (some ⟨data.cpu, data.com⟩)

/-- An accepted description has exact sizes exactly when it has less than 65536 computation amounts:
the sizes are products of 32-bit numbers. -/
theorem parallel_profile_exact_iff {data : ParallelProfileData}
    (h : taskProfileFromJson num errorPrefix profileName desc = .ok (.parallel data)) :
    ∃ cpu com, desc.member? "cpu" = some (.arr cpu) ∧ desc.member? "com" = some (.arr com) ∧
      (data.Exact cpu com ↔ cpu.length < 2 ^ 16) := by
  obtain ⟨cpu, com, hcpu, hcom, hnb, hpos, hcpuLength, hsize, hcomLength, -⟩ :=
    parallelFromJson_effect (parallelFromJson_of_accepted h)
  refine ⟨cpu, com, hcpu, hcom, ?_, ?_⟩
  · intro hexact
    by_contra hlarge
    have hle : 2 ^ 16 * 2 ^ 16 ≤ cpu.length * cpu.length := Nat.mul_le_mul (by omega) (by omega)
    have hlt := mulUnsigned_lt cpu.length cpu.length
    have hentries := hexact.entries
    omega
  · intro hlt
    have hexact : com.length = cpu.length * cpu.length := hsize.trans (mulUnsigned_self hlt)
    have hcopied : Batsim.copiedComputations data.nbRes = cpu.length := by
      rw [hnb]
      exact copiedComputations_eq (by omega)
    have hcopied' : Batsim.copiedCommunications data.nbRes = cpu.length * cpu.length := by
      rw [hnb]
      exact copiedCommunications_eq hlt
    refine ⟨hexact, hcomLength.trans hexact, hcopied, hcopied', ?_⟩
    have hcpuCopy : memcpy (List.replicate cpu.length 0) data.cpu cpu.length = some data.cpu := by
      rw [← hcpuLength]
      exact memcpy_all (by simp)
    have hcomCopy : memcpy (List.replicate (mulUnsigned cpu.length cpu.length) 0) data.com
        (cpu.length * cpu.length) = some data.com := by
      rw [← hsize, ← hexact, ← hcomLength]
      exact memcpy_all (by simp)
    rw [hnb] at hcopied hcopied'
    rw [ParallelProfileData.generateParallelTask, xbtAssert_of hnb.symm]
    simp only [bind, Except.bind, hcopied, hcopied', hcpuCopy, hcomCopy, Option.bind]

end accepted

/-! ### A profile over 65536 hosts -/

/-- A description of type `parallel` -/
def parallelDescription (cpu com : List (Value Int)) : Value Int :=
  .obj [("type", .str "parallel"), ("cpu", .arr cpu), ("com", .arr com)]

theorem amountArray_zeros (errorPrefix profileName what : String) (n : Nat) :
    amountArray integerNumbers errorPrefix profileName what (List.replicate n (.num 0)) =
      .ok (List.replicate n 0) := by
  rw [amountArray, collect_eq_ok]
  induction n with
  | zero => exact .nil
  | succ n ih =>
    rw [List.replicate_succ, List.replicate_succ]
    exact .cons rfl ih

/-- Where the product wraps around to zero, an empty `com` array is accepted. -/
theorem parallelFromJson_wrapped {cpu : List (Value Int)} {amounts : List Amount}
    (hread : amountArray integerNumbers "" "p" "computation" cpu = .ok amounts)
    (hpos : 0 < cpu.length) (hwrap : mulUnsigned cpu.length cpu.length = 0) :
    taskProfileFromJson integerNumbers "" "p" (parallelDescription cpu []) =
      .ok (.parallel { nbRes := cpu.length, cpu := amounts, com := [] }) := by
  have hcpu : (parallelDescription cpu []).member? "cpu" = some (.arr cpu) := rfl
  have hcom : (parallelDescription cpu []).member? "com" = some (.arr []) := rfl
  have hparallel : parallelFromJson integerNumbers "" "p" (parallelDescription cpu []) =
      .ok { nbRes := cpu.length, cpu := amounts, com := [] } := by
    simp only [parallelFromJson, hcpu, hcom, arrayField_eq_ok.mpr hcpu, arrayField_eq_ok.mpr hcom,
      bind_eq_ok, xbtAssert_eq_ok, Option.isSome_some]
    exact ⟨(), trivial, (), trivial, _, rfl, (), hpos, _, hread, _, rfl, (), hwrap.symm, [], rfl, rfl⟩
  have htype : labelField "" "p" "type" (parallelDescription cpu []) = .ok "parallel" := rfl
  rw [taskProfileFromJson, htype]
  simp only [bind_eq_ok]
  refine ⟨(), rfl, _, rfl, (), rfl, ?_⟩
  rw [if_pos rfl]
  exact bind_eq_ok.mpr ⟨_, hparallel, rfl⟩

/-- The copy of the communication amounts then reads past the end of the empty buffer. -/
theorem generateParallelTask_zeros {n : Nat} (hcopied : 0 < copiedCommunications n) :
    ParallelProfileData.generateParallelTask
      { nbRes := n, cpu := List.replicate n 0, com := [] } n = .ok none := by
  have hcom : memcpy (List.replicate (mulUnsigned n n) 0) [] (copiedCommunications n) = none := by
    rw [memcpy, if_neg]
    rintro ⟨-, hle⟩
    exact absurd hle (Nat.not_le.mpr hcopied)
  rw [ParallelProfileData.generateParallelTask, xbtAssert_of rfl]
  simp only [bind, Except.bind, hcom, Option.bind_none, Option.bind_fun_none]

/-- 65536 amounts of computation and none of communication. -/
theorem overflowing_profile_accepted :
    ∃ (desc : Value Int) (data : ParallelProfileData) (cpu com : List (Value Int)),
      taskProfileFromJson integerNumbers "" "p" desc = .ok (.parallel data) ∧
      desc.member? "cpu" = some (.arr cpu) ∧ desc.member? "com" = some (.arr com) ∧
      cpu.length < 2 ^ 32 ∧ com.length ≠ cpu.length * cpu.length ∧
      data.generateParallelTask cpu.length = .ok none := by
  have hlength : (List.replicate 65536 (Value.num (0 : Int))).length = 65536 :=
    List.length_replicate
  refine ⟨_, _, _, [], parallelFromJson_wrapped (amountArray_zeros "" "p" "computation" 65536) ?_ ?_,
    rfl, rfl, ?_, ?_, ?_⟩ <;> rw [hlength]
  · decide
  · decide
  · decide
  · decide
  · exact generateParallelTask_zeros (by decide)

theorem parallel_profile_of_one_host :
    ∃ cpu com, (parallelDescription [.num 1] [.num 0]).member? "cpu" = some (.arr cpu) ∧
      (parallelDescription [.num 1] [.num 0]).member? "com" = some (.arr com) ∧
      (ParallelProfileData.Exact { nbRes := 1, cpu := [1], com := [0] } cpu com ↔
        cpu.length < 2 ^ 16) :=
  @parallel_profile_exact_iff Int integerNumbers "" "p" _ _ (by rfl)

end Batsim
