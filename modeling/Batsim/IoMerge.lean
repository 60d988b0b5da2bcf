import Batsim.ParallelTasks

/-!
The matrices of a parallel task with an additional IO job: the merge adds the two, machine by
machine. The indices of the loops are unbounded numbers here.
-/

namespace Batsim

open Checked

/-- The number of machines of a set before a machine. -/
def IntervalSet.rank (s : IntervalSet) (a : Nat) : Nat := s.elements.countP (· < a)

/-- The amount of a machine in a vector over the machines of a set, 0 for the others. -/
def amountOf (s : IntervalSet) (v : List Amount) (a : Nat) : Amount :=
  if a ∈ s then v.getD (s.rank a) 0 else 0

/-- The amount from a machine to another one in a matrix over the machines of a set, 0 for the
others; an empty matrix is full of zeros. -/
def amountBetween (s : IntervalSet) (m : List Amount) (a b : Nat) : Amount :=
  if a ∈ s ∧ b ∈ s then m.getD (s.rank a * s.size + s.rank b) 0 else 0

namespace MergeInput

def computation (x : MergeInput) (a : Nat) : Amount :=
  amountOf x.machineIds x.job.computationVector a +
    amountOf x.ioAllocation x.io.computationVector a

def communication (x : MergeInput) (a b : Nat) : Amount :=
  amountBetween x.machineIds x.job.communicationMatrix a b +
    amountBetween x.ioAllocation x.io.communicationMatrix a b

/-- The vectors are large enough for the sets of machines. -/
structure Fits (x : MergeInput) : Prop where
  jobComputation : x.machineIds.size ≤ x.job.computationVector.length
  ioComputation : x.ioAllocation.size ≤ x.io.computationVector.length
  jobCommunication : x.job.communicationMatrix = [] ∨
    x.machineIds.size * x.machineIds.size ≤ x.job.communicationMatrix.length
  ioCommunication : x.ioAllocation.size * x.ioAllocation.size ≤ x.io.communicationMatrix.length

end MergeInput

section Ranks

variable {s u : IntervalSet} {done rest : List Nat} {a : Nat}

/-- Among the machines met before `a`, those of a subset are those that are smaller. -/
theorem countP_done (hsub : ∀ m, m ∈ s → m ∈ u) (hu : u.elements = done ++ a :: rest) :
    done.countP (· ∈ s) = s.rank a := by
  have hsorted := u.sorted
  rw [hu, List.pairwise_append] at hsorted
  obtain ⟨hdone, hrest, hcross⟩ := hsorted
  have hmem : ∀ m, m ∈ done.filter (· ∈ s) ↔ m ∈ s.elements.filter (· < a) := by
    intro m
    simp only [List.mem_filter, decide_eq_true_eq, IntervalSet.mem_elements]
    constructor
    · rintro ⟨hm, hs⟩
      exact ⟨hs, hcross m hm a (by simp)⟩
    · rintro ⟨hs, hlt⟩
      have hmu : m ∈ u.elements := hsub m hs
      rw [hu, List.mem_append, List.mem_cons] at hmu
      rcases hmu with hm | rfl | hm
      · exact ⟨hm, hs⟩
      · exact absurd hlt (Nat.lt_irrefl _)
      · exact absurd ((List.pairwise_cons.mp hrest).1 m hm) (Nat.lt_asymm hlt)
  have heq : done.filter (· ∈ s) = s.elements.filter (· < a) := by
    refine @List.Perm.eq_of_pairwise _ (· < ·) _ _ ?_ ?_ ?_ ?_
    · intro m n _ _ hmn hnm
      exact absurd hnm (Nat.lt_asymm hmn)
    · exact hdone.filter _
    · exact s.sorted.filter _
    · exact (List.perm_ext_iff_of_nodup ((hdone.filter _).imp Nat.ne_of_lt)
        ((s.sorted.filter _).imp Nat.ne_of_lt)).mpr hmem
  rw [IntervalSet.rank, List.countP_eq_length_filter, heq, ← List.countP_eq_length_filter]

theorem rank_lt (h : a ∈ s) : s.rank a < s.size := by
  rw [IntervalSet.rank, IntervalSet.size, List.countP_lt_length_iff]
  exact ⟨a, h, by simp⟩

/-- All the machines of a subset are met in the end. -/
theorem countP_all (hsub : ∀ m, m ∈ s → m ∈ u) :
    u.elements.countP (· ∈ s) = s.size := by
  have hmem : ∀ m, m ∈ u.elements.filter (· ∈ s) ↔ m ∈ s.elements := by
    intro m
    simp only [List.mem_filter, decide_eq_true_eq, IntervalSet.mem_elements]
    exact ⟨fun h => h.2, fun h => ⟨hsub m h, h⟩⟩
  rw [List.countP_eq_length_filter]
  exact ((List.perm_ext_iff_of_nodup (u.nodup.filter _) s.nodup).mpr hmem).length_eq

theorem index_lt {r r' n : Nat} (h : r < n) (h' : r' < n) : r * n + r' < n * n := by
  have hle : (r + 1) * n ≤ n * n := Nat.mul_le_mul_right n h
  rw [Nat.add_mul, Nat.one_mul] at hle
  omega

end Ranks

theorem vectorAt_getD {α : Type} {v : List α} {i : Nat} (d : α) (h : i < v.length) :
    vectorAt v i = .ok (v.getD i d) := by
  simp [vectorAt, List.getElem?_eq_getElem h]

/-- Writing the next entry of a buffer that is full of zeros from there on. -/
theorem set_next (xs : List Amount) (n : Nat) (amount : Amount) (hn : 0 < n) :
    (xs ++ List.replicate n 0).set xs.length amount =
      (xs ++ [amount]) ++ List.replicate (n - 1) 0 := by
  obtain ⟨n, rfl⟩ : ∃ k, n = k + 1 := ⟨n - 1, by omega⟩
  rw [List.set_append_right _ _ (Nat.le_refl _), Nat.sub_self, List.replicate_succ,
    List.set_cons_zero]
  simp

namespace Merging

variable {x : MergeInput} {a b : Nat} {done rest : List Nat}

/-- `communication_matrix[row_job_host_index++]` when the pair is one of the job, and 0 if not -/
def readJobIf (x : MergeInput) (p : Bool) (m : Merging) : Except String (Amount × Merging) :=
  if p then m.readJob x else .ok (0, m)

def readIoIf (x : MergeInput) (p : Bool) (m : Merging) : Except String (Amount × Merging) :=
  if p then m.readIo x else .ok (0, m)

/-- Whether the job matrix has an entry for two machines. -/
def inJob (x : MergeInput) (a b : Nat) : Bool :=
  x.job.communicationMatrix ≠ [] && a ∈ x.machineIds && b ∈ x.machineIds

/-- Whether the IO matrix has an entry for two machines. -/
def inIo (x : MergeInput) (a b : Nat) : Bool := a ∈ x.ioAllocation && b ∈ x.ioAllocation

/-- The nine cases of the inner loop: each matrix is read when it has the pair. -/
theorem mergeRow_eq (ha : a ∈ x.newAlloc) (hb : b ∈ x.newAlloc) (m : Merging) :
    mergeRow x (a ∉ x.ioAllocation) (a ∉ x.machineIds) m b = (do
      let (jobAmount, m) ← m.readJobIf x (inJob x a b)
      let (ioAmount, m) ← m.readIoIf x (inIo x a b)
      .ok (m.writeCell (jobAmount + ioAmount))) := by
  simp only [MergeInput.newAlloc, IntervalSet.mem_union] at ha hb
  unfold mergeRow readJobIf readIoIf inJob inIo
  simp only [MergeInput.toMergeAlloc, MergeInput.immutJobAlloc, MergeInput.immutIoAlloc,
    IntervalSet.mem_inter, IntervalSet.mem_diff]
  by_cases hbj : b ∈ x.machineIds <;> by_cases hbi : b ∈ x.ioAllocation <;>
    by_cases haj : a ∈ x.machineIds <;> by_cases hai : a ∈ x.ioAllocation <;>
    by_cases hmatrix : x.job.communicationMatrix = [] <;>
    simp_all [bind, Except.bind]

theorem readJobIf_eq (hfits : x.Fits) {m : Merging}
    (hindex : inJob x a b = true →
      m.rowJobHostIndex = x.machineIds.rank a * x.machineIds.size + x.machineIds.rank b) :
    m.readJobIf x (inJob x a b) =
      .ok (amountBetween x.machineIds x.job.communicationMatrix a b,
        { m with rowJobHostIndex := m.rowJobHostIndex + if inJob x a b then 1 else 0 }) := by
  unfold readJobIf
  split
  · next hin =>
    have hin' := hin
    simp only [inJob, ne_eq, decide_not, Bool.and_eq_true, Bool.not_eq_true',
      decide_eq_false_iff_not, decide_eq_true_eq] at hin'
    obtain ⟨⟨hmatrix, ha⟩, hb⟩ := hin'
    have hlt := index_lt (rank_lt ha) (rank_lt hb)
    have hle := hfits.jobCommunication.resolve_left hmatrix
    rw [readJob, hindex hin, vectorAt_getD 0 (Nat.lt_of_lt_of_le hlt hle), amountBetween,
      if_pos ⟨ha, hb⟩]
    rfl
  · next hout =>
    have hzero : amountBetween x.machineIds x.job.communicationMatrix a b = 0 := by
      rw [amountBetween]
      split
      · next hab =>
        have hempty : x.job.communicationMatrix = [] := by
          simpa [inJob, hab.1, hab.2] using hout
        simp [hempty]
      · rfl
    rw [hzero]
    rfl

theorem readIoIf_eq (hfits : x.Fits) {m : Merging}
    (hindex : inIo x a b = true →
      m.rowIoHostIndex = x.ioAllocation.rank a * x.ioAllocation.size + x.ioAllocation.rank b) :
    m.readIoIf x (inIo x a b) =
      .ok (amountBetween x.ioAllocation x.io.communicationMatrix a b,
        { m with rowIoHostIndex := m.rowIoHostIndex + if inIo x a b then 1 else 0 }) := by
  unfold readIoIf
  split
  · next hin =>
    have hin' := hin
    simp only [inIo, Bool.and_eq_true, decide_eq_true_eq] at hin'
    obtain ⟨ha, hb⟩ := hin'
    have hlt := index_lt (rank_lt ha) (rank_lt hb)
    rw [readIo, hindex hin, vectorAt_getD 0 (Nat.lt_of_lt_of_le hlt hfits.ioCommunication),
      amountBetween, if_pos ⟨ha, hb⟩]
    rfl
  · next hout =>
    have hzero : amountBetween x.ioAllocation x.io.communicationMatrix a b = 0 := by
      rw [amountBetween, if_neg (by simpa [inIo] using hout)]
    rw [hzero]
    rfl

/-- The state of the inner loop for the machine `a` after the machines `rows`, entered in `m` with
the entries `xs` written. -/
def rowState (x : MergeInput) (a : Nat) (m : Merging) (xs : List Amount) (zeros : Nat)
    (rows : List Nat) : Merging :=
  { m with
    newCommunicationMatrix :=
      (xs ++ rows.map (x.communication a)) ++ List.replicate (zeros - rows.length) 0
    k := xs.length + rows.length
    rowJobHostIndex := m.rowJobHostIndex + rows.countP (inJob x a)
    rowIoHostIndex := m.rowIoHostIndex + rows.countP (inIo x a) }

/-- Where the row indices are when the inner loop starts for the machine `a`. -/
structure RowStart (x : MergeInput) (a : Nat) (m : Merging) : Prop where
  job : x.job.communicationMatrix ≠ [] → a ∈ x.machineIds →
    m.rowJobHostIndex = x.machineIds.rank a * x.machineIds.size
  io : a ∈ x.ioAllocation → m.rowIoHostIndex = x.ioAllocation.rank a * x.ioAllocation.size

theorem countP_inJob (hmatrix : x.job.communicationMatrix ≠ []) (ha : a ∈ x.machineIds)
    (rows : List Nat) : rows.countP (inJob x a) = rows.countP (· ∈ x.machineIds) := by
  congr 1
  funext b
  simp [inJob, hmatrix, ha]

theorem countP_inIo (ha : a ∈ x.ioAllocation) (rows : List Nat) :
    rows.countP (inIo x a) = rows.countP (· ∈ x.ioAllocation) := by
  congr 1
  funext b
  simp [inIo, ha]

theorem mem_newAlloc_of_job {m : Nat} (h : m ∈ x.machineIds) : m ∈ x.newAlloc := by
  simp [MergeInput.newAlloc, h]

theorem mem_newAlloc_of_io {m : Nat} (h : m ∈ x.ioAllocation) : m ∈ x.newAlloc := by
  simp [MergeInput.newAlloc, h]

/-- One turn of the inner loop. -/
theorem mergeRow_rowState (hfits : x.Fits) (ha : a ∈ x.newAlloc) {m : Merging}
    (hstart : RowStart x a m) {xs : List Amount} {zeros : Nat} {rows : List Nat}
    (hrows : x.newAlloc.elements = rows ++ b :: rest) (hzeros : x.newAlloc.size ≤ zeros) :
    mergeRow x (a ∉ x.ioAllocation) (a ∉ x.machineIds) (rowState x a m xs zeros rows) b =
      .ok (rowState x a m xs zeros (rows ++ [b])) := by
  have hb : b ∈ x.newAlloc := by
    rw [← IntervalSet.mem_elements, hrows]
    simp
  have hjob : inJob x a b = true → (rowState x a m xs zeros rows).rowJobHostIndex =
      x.machineIds.rank a * x.machineIds.size + x.machineIds.rank b := by
    intro hin
    simp only [inJob, ne_eq, decide_not, Bool.and_eq_true, Bool.not_eq_true',
      decide_eq_false_iff_not, decide_eq_true_eq] at hin
    obtain ⟨⟨hmatrix, haj⟩, -⟩ := hin
    simp only [rowState]
    rw [hstart.job hmatrix haj, countP_inJob hmatrix haj,
      countP_done (fun _ => mem_newAlloc_of_job) hrows]
  have hio : inIo x a b = true → (rowState x a m xs zeros rows).rowIoHostIndex =
      x.ioAllocation.rank a * x.ioAllocation.size + x.ioAllocation.rank b := by
    intro hin
    simp only [inIo, Bool.and_eq_true, decide_eq_true_eq] at hin
    simp only [rowState]
    rw [hstart.io hin.1, countP_inIo hin.1, countP_done (fun _ => mem_newAlloc_of_io) hrows]
  have hpos : 0 < zeros - rows.length := by
    have hlen := congrArg List.length hrows
    simp only [List.length_append, List.length_cons] at hlen
    rw [IntervalSet.size] at hzeros
    omega
  have hset := set_next (xs ++ rows.map (x.communication a)) (zeros - rows.length)
    (x.communication a b) hpos
  rw [List.length_append, List.length_map] at hset
  have hread := readIoIf_eq hfits (m := { rowState x a m xs zeros rows with
    rowJobHostIndex := (rowState x a m xs zeros rows).rowJobHostIndex +
      if inJob x a b then 1 else 0 }) hio
  rw [mergeRow_eq ha hb, readJobIf_eq hfits hjob]
  simp only [bind, Except.bind]
  rw [hread]
  simp only [writeCell, rowState, Except.ok.injEq, Merging.mk.injEq]
  refine ⟨trivial, ?_, trivial, ?_, trivial, ?_, trivial, ?_⟩
  · rw [MergeInput.communication] at hset
    rw [hset, List.map_append, List.length_append, List.length_singleton, ← Nat.sub_sub]
    simp [MergeInput.communication]
  · simp only [List.length_append, List.length_singleton]
    omega
  · rw [List.countP_append, List.countP_singleton, Nat.add_assoc]
  · rw [List.countP_append, List.countP_singleton, Nat.add_assoc]

/-- The inner loop. -/
theorem forEach_mergeRow (hfits : x.Fits) (ha : a ∈ x.newAlloc) {m : Merging}
    (hstart : RowStart x a m) {xs : List Amount} {zeros : Nat} (hzeros : x.newAlloc.size ≤ zeros)
    (hm : m.newCommunicationMatrix = xs ++ List.replicate zeros 0) (hk : m.k = xs.length) :
    forEach (mergeRow x (a ∉ x.ioAllocation) (a ∉ x.machineIds)) m x.newAlloc.elements =
      .ok (rowState x a m xs zeros x.newAlloc.elements) := by
  have hloop := forEach_of_steps (rowState x a m xs zeros)
    (fun rows b rest hrows => mergeRow_rowState hfits ha hstart hrows hzeros)
  have hnil : rowState x a m xs zeros [] = m := by
    simp [rowState, ← hm, ← hk]
  rw [hnil] at hloop
  exact hloop

/-- The state of the outer loop after the machines `cols`. -/
def colState (x : MergeInput) (cols : List Nat) : Merging where
  newComputationVector :=
    cols.map x.computation ++ List.replicate (x.newAlloc.size - cols.length) 0
  newCommunicationMatrix :=
    (cols.flatMap fun a => x.newAlloc.elements.map (x.communication a)) ++
      List.replicate ((x.newAlloc.size - cols.length) * x.newAlloc.size) 0
  col := cols.length
  k := cols.length * x.newAlloc.size
  colJobHostIndex := cols.countP (· ∈ x.machineIds)
  rowJobHostIndex := if x.job.communicationMatrix = [] then 0
    else cols.countP (· ∈ x.machineIds) * x.machineIds.size
  colIoHostIndex := cols.countP (· ∈ x.ioAllocation)
  rowIoHostIndex := cols.countP (· ∈ x.ioAllocation) * x.ioAllocation.size

theorem length_flatMap_map (cols : List Nat) :
    (cols.flatMap fun a => x.newAlloc.elements.map (x.communication a)).length =
      cols.length * x.newAlloc.size := by
  induction cols with
  | nil => simp
  | cons a cols ih =>
    rw [List.flatMap_cons, List.length_append, ih, List.length_map, List.length_cons, Nat.add_mul,
      Nat.one_mul, IntervalSet.size, Nat.add_comm]

/-- The computation of the machine `a` is written, and it is known which sets it is in. -/
def enterCol (x : MergeInput) (m : Merging) (a : Nat) : Merging :=
  { m with
    newComputationVector := m.newComputationVector.set m.col (x.computation a)
    colJobHostIndex := m.colJobHostIndex + if a ∈ x.machineIds then 1 else 0
    colIoHostIndex := m.colIoHostIndex + if a ∈ x.ioAllocation then 1 else 0 }

/-- The three cases of the computation vector. -/
theorem mergeCol_eq (hfits : x.Fits) (ha : a ∈ x.newAlloc) {m : Merging}
    (hjob : a ∈ x.machineIds → m.colJobHostIndex = x.machineIds.rank a)
    (hio : a ∈ x.ioAllocation → m.colIoHostIndex = x.ioAllocation.rank a) :
    mergeCol x m a = (do
      let m ← forEach (mergeRow x (a ∉ x.ioAllocation) (a ∉ x.machineIds)) (m.enterCol x a)
        x.newAlloc.elements
      .ok { m with col := m.col + 1 }) := by
  simp only [MergeInput.newAlloc, IntervalSet.mem_union] at ha
  have hjobRead : a ∈ x.machineIds → vectorAt x.job.computationVector m.colJobHostIndex =
      .ok (amountOf x.machineIds x.job.computationVector a) := by
    intro h
    rw [hjob h, vectorAt_getD 0 (Nat.lt_of_lt_of_le (rank_lt h) hfits.jobComputation), amountOf,
      if_pos h]
  have hioRead : a ∈ x.ioAllocation → vectorAt x.io.computationVector m.colIoHostIndex =
      .ok (amountOf x.ioAllocation x.io.computationVector a) := by
    intro h
    rw [hio h, vectorAt_getD 0 (Nat.lt_of_lt_of_le (rank_lt h) hfits.ioComputation), amountOf,
      if_pos h]
  unfold mergeCol readJobComputation readIoComputation writeComputation enterCol
  simp only [MergeInput.toMergeAlloc, MergeInput.immutJobAlloc, MergeInput.immutIoAlloc,
    IntervalSet.mem_inter, IntervalSet.mem_diff]
  by_cases haj : a ∈ x.machineIds
  · by_cases hai : a ∈ x.ioAllocation
    · simp [haj, hai, hjobRead haj, hioRead hai, MergeInput.computation, bind, Except.bind]
    · simp [haj, hai, hjobRead haj, MergeInput.computation, amountOf, bind, Except.bind]
  · have hai : a ∈ x.ioAllocation := ha.resolve_left haj
    simp [haj, hai, hioRead hai, MergeInput.computation, amountOf, bind, Except.bind]

/-- One turn of the outer loop. -/
theorem mergeCol_colState (hfits : x.Fits) {cols : List Nat}
    (hcols : x.newAlloc.elements = cols ++ a :: rest) :
    mergeCol x (colState x cols) a = .ok (colState x (cols ++ [a])) := by
  have ha : a ∈ x.newAlloc := by
    rw [← IntervalSet.mem_elements, hcols]
    simp
  have hrank := countP_done (s := x.machineIds) (fun _ => mem_newAlloc_of_job) hcols
  have hrankIo := countP_done (s := x.ioAllocation) (fun _ => mem_newAlloc_of_io) hcols
  have hlen : cols.length < x.newAlloc.size := by
    rw [IntervalSet.size, hcols]
    simp
  have hstart : RowStart x a ((colState x cols).enterCol x a) := by
    constructor
    · intro hmatrix haj
      simp [enterCol, colState, hmatrix, hrank]
    · intro hai
      simp [enterCol, colState, hrankIo]
  obtain ⟨d, hd⟩ : ∃ d, x.newAlloc.size - cols.length = d + 1 :=
    ⟨x.newAlloc.size - cols.length - 1, by omega⟩
  have hd' : x.newAlloc.size - (cols.length + 1) = d := by omega
  have hzeros : x.newAlloc.size ≤ (x.newAlloc.size - cols.length) * x.newAlloc.size := by
    rw [hd, Nat.add_mul, Nat.one_mul]
    omega
  have hloop := forEach_mergeRow hfits ha hstart hzeros rfl (length_flatMap_map cols).symm
  have hset := set_next (cols.map x.computation) (x.newAlloc.size - cols.length)
    (x.computation a) (by omega)
  rw [List.length_map] at hset
  rw [mergeCol_eq hfits ha (fun _ => hrank) (fun _ => hrankIo), hloop]
  simp only [bind, Except.bind, rowState, enterCol, colState, Except.ok.injEq, Merging.mk.injEq]
  refine ⟨?_, ?_, ?_, ?_, ?_, ?_, ?_, ?_⟩
  · rw [hset, hd, List.length_append, List.length_singleton, hd', List.map_append]
    rfl
  · rw [List.flatMap_append, List.flatMap_singleton, List.length_append, List.length_singleton,
      hd, hd', Nat.add_mul, Nat.one_mul]
    congr 2
    rw [IntervalSet.size]
    omega
  · simp
  · rw [length_flatMap_map, List.length_append, List.length_singleton, Nat.add_mul, Nat.one_mul]
    rfl
  · rw [List.countP_append, List.countP_singleton]
    simp
  · rw [List.countP_append, List.countP_singleton]
    by_cases hmatrix : x.job.communicationMatrix = []
    · simp [hmatrix, inJob]
    · by_cases haj : a ∈ x.machineIds
      · rw [if_neg hmatrix, if_neg hmatrix, countP_inJob hmatrix haj,
          countP_all (fun _ => mem_newAlloc_of_job), if_pos (by simpa using haj), Nat.add_mul,
          Nat.one_mul]
      · simp [hmatrix, inJob, haj]
  · rw [List.countP_append, List.countP_singleton]
    simp
  · rw [List.countP_append, List.countP_singleton]
    by_cases hai : a ∈ x.ioAllocation
    · rw [countP_inIo hai, countP_all (fun _ => mem_newAlloc_of_io),
        if_pos (by simpa using hai), Nat.add_mul, Nat.one_mul]
    · simp [inIo, hai]

end Merging

/-- The merge of vectors that fit: the computations of the machines and the communications of the
pairs, in the order of the machines. -/
theorem merge_eq {x : MergeInput} (hfits : x.Fits) : merge x =
    .ok ⟨x.newAlloc.elements.map x.computation,
      x.newAlloc.elements.flatMap fun a => x.newAlloc.elements.map (x.communication a)⟩ := by
  have hloop := forEach_of_steps (Merging.colState x)
    (fun cols a rest hcols => Merging.mergeCol_colState hfits hcols)
  have hnil : Merging.colState x [] =
      { newComputationVector := List.replicate x.newAlloc.size 0
        newCommunicationMatrix := List.replicate (x.newAlloc.size * x.newAlloc.size) 0 } := by
    simp [Merging.colState]
  rw [hnil] at hloop
  rw [merge]
  simp only [hloop, bind, Except.bind, Merging.colState]
  simp [IntervalSet.size]

/-- The entry of a matrix that is written row after row. -/
theorem getElem?_rows {α β : Type} (f : α → α → β) {rows cols : List α} {i j : Nat} {a b : α}
    (ha : rows[i]? = some a) (hb : cols[j]? = some b) :
    (rows.flatMap fun r => cols.map (f r))[i * cols.length + j]? = some (f a b) := by
  have hj : j < cols.length := (List.getElem?_eq_some_iff.mp hb).1
  induction rows generalizing i with
  | nil => simp at ha
  | cons r rows ih =>
    rw [List.flatMap_cons]
    cases i with
    | zero =>
      obtain rfl : r = a := by simpa using ha
      rw [Nat.zero_mul, Nat.zero_add, List.getElem?_append_left (by simpa using hj)]
      simp [hb]
    | succ i =>
      have hle : (cols.map (f r)).length ≤ (i + 1) * cols.length + j := by
        rw [List.length_map, Nat.add_mul, Nat.one_mul]
        omega
      have hindex : (i + 1) * cols.length + j - (cols.map (f r)).length = i * cols.length + j := by
        rw [List.length_map, Nat.add_mul, Nat.one_mul]
        omega
      rw [List.getElem?_append_right hle, hindex]
      exact ih (by simpa using ha)

end Batsim
