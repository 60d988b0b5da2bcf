import Batsim.ExecuteJobMessages

/-!
The mapping of an `EXECUTE_JOB` event: which objects are accepted, and which ones describe a function
of the executors.
-/

namespace Batsim

open Checked Json

/-! ### What the documentation asks for -/

section documented

variable {N : Type} (num : Numbers N)

/-- An integer, or a string that writes one in base ten. -/
def integer? : Value N → Option Int
  | .num n => num.getInt? n
  | .str s => decimalInt? s
  | _ => none

/-- The members describe the function `f`, from the numbers below the number of members to the
numbers below `nb`. -/
structure DescribesMapping (nb : Nat) (ms : List (String × Value N)) (f : Nat → Nat) : Prop where
  total : ∀ i < ms.length, ∃ m ∈ ms, decimalInt? m.1 = some (i : Int)
  reads : ∀ m ∈ ms, ∃ i < ms.length, decimalInt? m.1 = some (i : Int) ∧
    integer? num m.2 = some (f i : Int)
  lt : ∀ i < ms.length, f i < nb

/-- The mapping is accepted when it describes a function and only then, and the images are kept. -/
structure MappingExact (nb : Nat) (v : Value N) : Prop where
  describes : ∀ mapping, readMappingMember num nb v = .ok mapping → ∃ ms f, v = .obj ms ∧
    DescribesMapping num nb ms f ∧ mapping.length = ms.length ∧
    ∀ i < ms.length, mapping[i]? = some (f i)
  accepted : ∀ ms f, v = .obj ms → DescribesMapping num nb ms f →
    ∃ mapping, readMappingMember num nb v = .ok mapping

/-- The assignments that the code makes of the members of a mapping. -/
def ReadAs (ms : List (String × Value N)) (es : List (Int × Int)) : Prop :=
  List.Forall₂ (fun m e => mappingInt num (.str m.1) = some e.1 ∧ mappingInt num m.2 = some e.2)
    ms es

end documented

/-- The keys are the numbers below some number, and the last value of each is below `nb`. -/
structure Consecutive (nb : Nat) (es : List (Int × Int)) : Prop where
  keys : ∃ n : Nat, ∀ k : Int, k ∈ es.map Prod.fst ↔ 0 ≤ k ∧ k < n
  lt : ∀ (before : List (Int × Int)) (e : Int × Int) (after : List (Int × Int)),
    es = before ++ e :: after → (∀ a ∈ after, a.1 ≠ e.1) → 0 ≤ e.2 ∧ e.2 < nb

/-- A mapping that has members and, if its first digits are those of a function, has nothing else
than these digits and has each key once. -/
structure PlainMapping {N : Type} (num : Numbers N) (nb : Nat)
    (ms : List (String × Value N)) : Prop where
  ne_nil : ms ≠ []
  decimal : ∀ es, ReadAs num ms es → Consecutive nb es →
    ∀ m ∈ ms, (decimalInt? m.1).isSome = true ∧ (integer? num m.2).isSome = true
  nodup : ∀ es, ReadAs num ms es → Consecutive nb es → (ms.map fun m => decimalInt? m.1).Nodup

/-! ### The reading of a mapping -/

theorem intOfDigits_ne_nil {sign z : Int} {ds : List Char} (h : intOfDigits sign ds = some z) :
    ds ≠ [] := by
  simp only [intOfDigits] at h
  split at h
  · next hds => exact hds.1
  · cases h

theorem forall_of_splitSign {cs : List Char} (h : ∀ c ∈ (splitSign cs).2, c.isDigit = true) :
    ∀ c ∈ cs, c = '-' ∨ c = '+' ∨ c.isDigit = true := by
  intro c hc
  unfold splitSign at h
  split at h
  · rcases List.mem_cons.mp hc with rfl | hc
    · exact .inl rfl
    · exact .inr (.inr (h c hc))
  · rcases List.mem_cons.mp hc with rfl | hc
    · exact .inr (.inl rfl)
    · exact .inr (.inr (h c hc))
  · exact .inr (.inr (h c hc))

theorem not_isSpace {c : Char} (h : c = '-' ∨ c = '+' ∨ c.isDigit = true) : isSpace c = false := by
  cases hspace : isSpace c with
  | false => rfl
  | true =>
    simp only [isSpace, Bool.or_eq_true, decide_eq_true_eq] at hspace
    obtain ((((rfl | rfl) | rfl) | rfl) | rfl) | rfl := hspace <;> exact absurd h (by decide)

/-- What a whole string writes is what its first digits write. -/
theorem stoi_of_decimal {s : String} {z : Int} (h : decimalInt? s = some z) :
    stoi (cString s) = some z := by
  unfold decimalInt? at h
  simp only at h
  split at h
  · next hall =>
    have hne := intOfDigits_ne_nil h
    have hdigits : ∀ c ∈ (splitSign s.toList).2, c.isDigit = true := List.all_eq_true.mp hall
    have hplain : ∀ c ∈ s.toList, c = '-' ∨ c = '+' ∨ c.isDigit = true :=
      forall_of_splitSign hdigits
    have hblank : s.toList.dropWhile isSpace = s.toList := by
      cases hs : s.toList with
      | nil => rfl
      | cons c cs =>
        have hc : isSpace c = false := not_isSpace (hplain c (by simp [hs]))
        rw [List.dropWhile_cons, hc]
        rfl
    have hnull : '\x00' ∉ s.toList := fun hmem => absurd (hplain _ hmem) (by decide)
    rw [cString_eq_self.mpr hnull, stoi, hblank]
    simp only
    rw [List.takeWhile_eq_self_iff.mpr hdigits]
    exact h
  · cases h

section mapping

variable {N : Type} {num : Numbers N} {nb : Nat} {ms : List (String × Value N)}

theorem mappingInt_of_integer {v : Value N} {z : Int} (h : integer? num v = some z) :
    mappingInt num v = some z := by
  cases v with
  | num n => exact h
  | str s => exact stoi_of_decimal h
  | _ => cases h

theorem readMappingEntry_eq_ok {m : String × Value N} {e : Int × Int} :
    readMappingEntry num m = .ok e ↔
      mappingInt num (.str m.1) = some e.1 ∧ mappingInt num m.2 = some e.2 := by
  simp only [readMappingEntry, bind_eq_ok, xbtAssert_eq_ok]
  constructor
  · rintro ⟨-, -, h⟩
    split at h
    · next executor resource hkey hvalue =>
      cases h
      exact ⟨hkey, hvalue⟩
    · cases h
  · rintro ⟨hkey, hvalue⟩
    refine ⟨(), ?_, by rw [hkey, hvalue]⟩
    obtain ⟨name, v⟩ := m
    cases v with
    | num n =>
      left
      rw [isInt, show num.getInt? n = some e.2 from hvalue]
      rfl
    | str s => exact .inr rfl
    | _ => cases hvalue

theorem readMapping_eq_ok {es : List (Int × Int)} {mapping : List Nat} :
    readMapping nb es = .ok mapping ↔
      (∀ (i : Nat) (e : Int × Int), es[i]? = some e → e.1 = i ∧ 0 ≤ e.2 ∧ e.2 < nb) ∧
        mapping = es.map fun e => e.2.toNat := by
  rw [readMapping, collect_eq_ok, List.forall₂_iff_get]
  simp only [bind_eq_ok, xbtAssert_eq_ok, Except.ok.injEq, exists_const, List.length_mapIdx,
    List.get_eq_getElem, List.getElem_mapIdx]
  constructor
  · rintro ⟨hlength, hentries⟩
    constructor
    · intro i e he
      obtain ⟨hi, rfl⟩ := List.getElem?_eq_some_iff.mp he
      obtain ⟨hkey, hvalue, -⟩ := hentries i hi (hlength ▸ hi)
      exact ⟨hkey, hvalue⟩
    · apply List.ext_getElem (by simp [hlength])
      intro i hi _
      obtain ⟨-, -, hentry⟩ := hentries i (hlength ▸ hi) hi
      simp [← hentry]
  · rintro ⟨hentries, rfl⟩
    refine ⟨by simp, ?_⟩
    intro i hi _
    obtain ⟨hkey, hvalue⟩ := hentries i es[i] (List.getElem?_eq_getElem hi)
    exact ⟨hkey, hvalue, by simp⟩

/-- The keys of a map stand at their own positions when they are the numbers below some number. -/
theorem keys_at_positions {m : SortedMap Int Int} :
    (∀ (i : Nat) (e : Int × Int), m.entries[i]? = some e → e.1 = i) ↔
      ∃ n : Nat, ∀ k : Int, k ∈ m.entries.map Prod.fst ↔ 0 ≤ k ∧ k < n := by
  constructor
  · intro h
    refine ⟨m.entries.length, fun k => ?_⟩
    rw [List.mem_map]
    constructor
    · rintro ⟨e, he, rfl⟩
      obtain ⟨i, hi, rfl⟩ := List.mem_iff_getElem.mp he
      have hkey := h i _ (List.getElem?_eq_getElem hi)
      omega
    · rintro ⟨hk, hlt⟩
      have hi : k.toNat < m.entries.length := by omega
      refine ⟨_, List.getElem_mem hi, ?_⟩
      have hkey := h k.toNat _ (List.getElem?_eq_getElem hi)
      omega
  · rintro ⟨n, hkeys⟩ i e he
    have hrange : m.entries.map Prod.fst = (List.range n).map fun i : Nat => (i : Int) := by
      apply SortedMap.keys_eq
      · exact List.pairwise_map.mpr (List.pairwise_lt_range.imp fun h => by omega)
      · intro k
        rw [hkeys, List.mem_map]
        constructor
        · rintro ⟨hk, hlt⟩
          exact ⟨k.toNat, List.mem_range.mpr (by omega), by omega⟩
        · rintro ⟨i, hi, rfl⟩
          have hlt := List.mem_range.mp hi
          omega
    have hkey : (m.entries.map Prod.fst)[i]? = some e.1 := by
      rw [List.getElem?_map, he]
      rfl
    rw [hrange, List.getElem?_map] at hkey
    obtain ⟨j, hj, hje⟩ := Option.map_eq_some_iff.mp hkey
    obtain ⟨_, hposition⟩ := List.getElem?_eq_some_iff.mp hj
    rw [List.getElem_range] at hposition
    omega

/-- A mapping is accepted when the assignments make a function of the numbers below some number,
whose values are kept in their order. -/
theorem readMappingMember_eq_ok {mapping : List Nat} :
    readMappingMember num nb (.obj ms) = .ok mapping ↔ ms ≠ [] ∧ ∃ es, ReadAs num ms es ∧
      Consecutive nb es ∧ mapping = (SortedMap.ofAssignments es).entries.map fun e => e.2.toNat := by
  have hreads : ∀ es, collect (readMappingEntry num) ms = .ok es ↔ ReadAs num ms es := by
    intro es
    rw [collect_eq_ok]
    simp only [readMappingEntry_eq_ok]
    rfl
  simp only [readMappingMember, members, bind_eq_ok, xbtAssert_eq_ok, hreads, readMapping_eq_ok,
    Except.ok.injEq, exists_const, List.length_pos_iff]
  constructor
  · rintro ⟨-, hne, es, hes, -, ⟨hentries, rfl⟩, -, rfl⟩
    refine ⟨hne, es, hes, ?_, rfl⟩
    constructor
    · obtain ⟨n, hn⟩ := keys_at_positions.mp fun i e he => (hentries i e he).1
      exact ⟨n, fun k => by rw [← hn, SortedMap.mem_keys_ofAssignments]⟩
    · intro before e after hsplit hafter
      obtain ⟨i, he⟩ := List.mem_iff_getElem?.mp
        (SortedMap.mem_ofAssignments.mpr ⟨before, after, hsplit, hafter⟩)
      exact (hentries i e he).2
  · rintro ⟨hne, es, hes, ⟨⟨n, hn⟩, hlt⟩, rfl⟩
    refine ⟨rfl, hne, es, hes, _, ⟨?_, rfl⟩, by simp, rfl⟩
    intro i e he
    refine ⟨keys_at_positions.mpr ⟨n, fun k => ?_⟩ i e he, ?_⟩
    · rw [SortedMap.mem_keys_ofAssignments, hn]
    · obtain ⟨before, after, hsplit, hafter⟩ :=
        SortedMap.mem_ofAssignments.mp (List.mem_of_getElem? he)
      exact hlt before e after hsplit hafter

theorem readAs_succeeds (h : ∀ m ∈ ms, ∃ e : Int × Int,
    mappingInt num (.str m.1) = some e.1 ∧ mappingInt num m.2 = some e.2) :
    ∃ es, ReadAs num ms es := by
  obtain ⟨es, hes⟩ := collect_succeeds fun m hm =>
    (h m hm).imp fun e he => readMappingEntry_eq_ok.mpr he
  refine ⟨es, ?_⟩
  have hall := collect_eq_ok.mp hes
  simp only [readMappingEntry_eq_ok] at hall
  exact hall

theorem ReadAs.exists_member {es : List (Int × Int)} (h : ReadAs num ms es) {e : Int × Int}
    (he : e ∈ es) : ∃ m ∈ ms, mappingInt num (.str m.1) = some e.1 ∧
      mappingInt num m.2 = some e.2 := by
  obtain ⟨i, hi, rfl⟩ := List.mem_iff_getElem.mp he
  obtain ⟨hlength, hentries⟩ := List.forall₂_iff_get.mp h
  exact ⟨ms[i], List.getElem_mem _, hentries i (hlength ▸ hi) hi⟩

theorem ReadAs.exists_entry {es : List (Int × Int)} (h : ReadAs num ms es)
    {m : String × Value N} (hm : m ∈ ms) : ∃ e ∈ es, mappingInt num (.str m.1) = some e.1 ∧
      mappingInt num m.2 = some e.2 := by
  obtain ⟨i, hi, rfl⟩ := List.mem_iff_getElem.mp hm
  obtain ⟨hlength, hentries⟩ := List.forall₂_iff_get.mp h
  exact ⟨es[i], List.getElem_mem _, hentries i hi (hlength ▸ hi)⟩

section describes

variable {f : Nat → Nat} {es : List (Int × Int)}

/-- The assignments of a mapping that describes a function are its graph. -/
theorem DescribesMapping.mem_iff (h : DescribesMapping num nb ms f) (hes : ReadAs num ms es)
    {e : Int × Int} : e ∈ es ↔ ∃ i < ms.length, e = ((i : Int), (f i : Int)) := by
  constructor
  · intro he
    obtain ⟨m, hm, hkey, hvalue⟩ := hes.exists_member he
    obtain ⟨i, hi, hdecimal, hinteger⟩ := h.reads m hm
    rw [mappingInt, stoi_of_decimal hdecimal, Option.some.injEq] at hkey
    rw [mappingInt_of_integer hinteger, Option.some.injEq] at hvalue
    exact ⟨i, hi, Prod.ext hkey.symm hvalue.symm⟩
  · rintro ⟨i, hi, rfl⟩
    obtain ⟨m, hm, htotal⟩ := h.total i hi
    obtain ⟨j, -, hdecimal, hinteger⟩ := h.reads m hm
    obtain ⟨e, he, hkey, hvalue⟩ := hes.exists_entry hm
    have hij : (i : Int) = j := Option.some.inj (htotal.symm.trans hdecimal)
    obtain rfl : i = j := Int.ofNat.inj hij
    rw [mappingInt, stoi_of_decimal hdecimal, Option.some.injEq] at hkey
    rw [mappingInt_of_integer hinteger, Option.some.injEq] at hvalue
    have hentry : ((i : Int), (f i : Int)) = e := Prod.ext hkey hvalue
    rwa [hentry]

theorem DescribesMapping.readAs (h : DescribesMapping num nb ms f) : ∃ es, ReadAs num ms es := by
  apply readAs_succeeds
  intro m hm
  obtain ⟨i, -, hdecimal, hinteger⟩ := h.reads m hm
  exact ⟨((i : Int), (f i : Int)), stoi_of_decimal hdecimal, mappingInt_of_integer hinteger⟩

theorem DescribesMapping.consecutive (h : DescribesMapping num nb ms f) (hes : ReadAs num ms es) :
    Consecutive nb es := by
  constructor
  · refine ⟨ms.length, fun k => ?_⟩
    rw [List.mem_map]
    constructor
    · rintro ⟨e, he, rfl⟩
      obtain ⟨i, hi, rfl⟩ := (h.mem_iff hes).mp he
      simp [hi]
    · rintro ⟨hk, hlt⟩
      have hi : k.toNat < ms.length := by omega
      refine ⟨_, (h.mem_iff hes).mpr ⟨k.toNat, hi, rfl⟩, ?_⟩
      exact Int.toNat_of_nonneg hk
  · intro before e after hsplit _
    have he : e ∈ es := by simp [hsplit]
    obtain ⟨i, hi, rfl⟩ := (h.mem_iff hes).mp he
    have hlt := h.lt i hi
    simp only
    omega

/-- The images that are kept are those of the function. -/
theorem DescribesMapping.images (h : DescribesMapping num nb ms f) {mapping : List Nat}
    (hread : readMappingMember num nb (.obj ms) = .ok mapping) :
    mapping.length = ms.length ∧ ∀ i < ms.length, mapping[i]? = some (f i) := by
  obtain ⟨-, es, hes, hconsecutive, rfl⟩ := readMappingMember_eq_ok.mp hread
  have hmem : ∀ e : Int × Int, e ∈ (SortedMap.ofAssignments es).entries ↔
      ∃ i < ms.length, e = ((i : Int), (f i : Int)) := by
    intro e
    rw [← h.mem_iff hes]
    refine ⟨SortedMap.mem_of_mem_ofAssignments, fun he => SortedMap.mem_of_agree he ?_⟩
    intro a ha hkey
    obtain ⟨i, -, rfl⟩ := (h.mem_iff hes).mp ha
    obtain ⟨j, -, rfl⟩ := (h.mem_iff hes).mp he
    rw [Int.ofNat.inj hkey]
  have hkeys : (SortedMap.ofAssignments es).entries.map Prod.fst =
      (List.range ms.length).map fun i : Nat => (i : Int) := by
    apply SortedMap.keys_eq
    · exact List.pairwise_map.mpr (List.pairwise_lt_range.imp fun h => by omega)
    · intro k
      simp only [List.mem_map, hmem, List.mem_range]
      constructor
      · rintro ⟨e, ⟨i, hi, rfl⟩, rfl⟩
        exact ⟨i, hi, rfl⟩
      · rintro ⟨i, hi, rfl⟩
        exact ⟨_, ⟨i, hi, rfl⟩, rfl⟩
  have hlength : (SortedMap.ofAssignments es).entries.length = ms.length := by
    simpa using congrArg List.length hkeys
  rw [List.length_map]
  refine ⟨hlength, fun i hi => ?_⟩
  have hentry : (SortedMap.ofAssignments es).entries[i]? = some ((i : Int), (f i : Int)) := by
    have hget := List.getElem?_eq_getElem (hlength ▸ hi)
    obtain ⟨j, -, hj⟩ := (hmem _).mp (List.mem_of_getElem? hget)
    have hkey := congrArg (fun ks : List Int => ks[i]?) hkeys
    simp only [List.getElem?_map, hget, hj, List.getElem?_range hi, Option.map_some,
      Option.some.injEq] at hkey
    rw [hget, hj, Int.ofNat.inj hkey]
  rw [List.getElem?_map, hentry]
  simp

/-- A mapping that describes a function writes its keys and values in base ten, each key once. -/
theorem DescribesMapping.plain (h : DescribesMapping num nb ms f) :
    (∀ m ∈ ms, (decimalInt? m.1).isSome = true ∧ (integer? num m.2).isSome = true) ∧
      (ms.map fun m => decimalInt? m.1).Nodup := by
  constructor
  · intro m hm
    obtain ⟨i, -, hdecimal, hinteger⟩ := h.reads m hm
    simp [hdecimal, hinteger]
  · -- the keys are as many as the numbers that they have to cover
    have hrange : ((List.range ms.length).map fun i : Nat => some (i : Int)).Nodup := by
      apply List.Nodup.map _ List.nodup_range
      intro i j hij
      exact Int.ofNat.inj (Option.some.inj hij)
    have hsub : ((List.range ms.length).map fun i : Nat => some (i : Int)) ⊆
        ms.map fun m => decimalInt? m.1 := by
      intro k hk
      obtain ⟨i, hi, rfl⟩ := List.mem_map.mp hk
      obtain ⟨m, hm, hdecimal⟩ := h.total i (List.mem_range.mp hi)
      exact List.mem_map.mpr ⟨m, hm, hdecimal⟩
    have hperm := (hrange.subperm hsub).perm_of_length_le (by simp)
    exact hperm.nodup_iff.mp hrange

/-- A mapping read as a function, whose keys and values are written in base ten and each key once,
describes it. -/
theorem exists_describesMapping (hes : ReadAs num ms es) (hconsecutive : Consecutive nb es)
    (hdecimal : ∀ m ∈ ms, (decimalInt? m.1).isSome = true ∧ (integer? num m.2).isSome = true)
    (hnodup : (ms.map fun m => decimalInt? m.1).Nodup) : ∃ f, DescribesMapping num nb ms f := by
  -- what was read is what is written
  have hreads : ∀ m ∈ ms, ∃ e ∈ es, decimalInt? m.1 = some e.1 ∧ integer? num m.2 = some e.2 := by
    intro m hm
    obtain ⟨e, he, hkey, hvalue⟩ := hes.exists_entry hm
    obtain ⟨hname, hinteger⟩ := hdecimal m hm
    obtain ⟨k, hk⟩ := Option.isSome_iff_exists.mp hname
    obtain ⟨z, hz⟩ := Option.isSome_iff_exists.mp hinteger
    rw [mappingInt, stoi_of_decimal hk] at hkey
    rw [mappingInt_of_integer hz] at hvalue
    exact ⟨e, he, hk.trans hkey, hz.trans hvalue⟩
  have hkeys : es.map (fun e => some e.1) = ms.map fun m => decimalInt? m.1 := by
    obtain ⟨hlength, hentries⟩ := List.forall₂_iff_get.mp hes
    apply List.ext_getElem (by simp [hlength])
    intro i hi hi'
    rw [List.length_map] at hi hi'
    obtain ⟨hkey, -⟩ := hentries i hi' hi
    obtain ⟨k, hk⟩ := Option.isSome_iff_exists.mp (hdecimal ms[i] (List.getElem_mem hi')).1
    rw [List.get_eq_getElem, mappingInt, stoi_of_decimal hk] at hkey
    simp only [List.getElem_map, hk]
    exact hkey.symm
  have hnodupKeys : (es.map Prod.fst).Nodup := by
    rw [← hkeys, show (fun e : Int × Int => some e.1) = some ∘ Prod.fst from rfl,
      ← List.map_map] at hnodup
    exact hnodup.of_map some
  have hsame : ∀ e ∈ es, ∀ a ∈ es, a.1 = e.1 → a = e := by
    intro e he a ha hkey
    exact List.inj_on_of_nodup_map hnodupKeys ha he hkey
  obtain ⟨n, hn⟩ := hconsecutive.keys
  have hrange : (es.map Prod.fst).Perm ((List.range n).map fun i : Nat => (i : Int)) := by
    apply (List.perm_ext_iff_of_nodup hnodupKeys (List.nodup_range.map Int.ofNat_injective)).mpr
    intro k
    rw [hn, List.mem_map]
    constructor
    · rintro ⟨hk, hlt⟩
      exact ⟨k.toNat, List.mem_range.mpr (by omega), Int.toNat_of_nonneg hk⟩
    · rintro ⟨i, hi, rfl⟩
      exact ⟨Int.natCast_nonneg i, Int.ofNat_lt.mpr (List.mem_range.mp hi)⟩
  have hlength : n = ms.length := by
    have hcount := hrange.length_eq
    rw [List.length_map, List.length_map, List.length_range] at hcount
    rw [← hcount, List.Forall₂.length_eq hes]
  subst hlength
  have hbound : ∀ e ∈ es, 0 ≤ e.2 ∧ e.2 < nb := by
    intro e he
    obtain ⟨before, after, hsplit, hafter⟩ :=
      SortedMap.mem_ofAssignments.mp (SortedMap.mem_of_agree he (hsame e he))
    exact hconsecutive.lt before e after hsplit hafter
  have himage : ∀ i : Nat, ∃ v : Nat, i < ms.length → ((i : Int), (v : Int)) ∈ es := by
    intro i
    by_cases hi : i < ms.length
    · obtain ⟨e, he, hkey⟩ := List.mem_map.mp ((hn i).mpr ⟨by omega, by omega⟩)
      refine ⟨e.2.toNat, fun _ => ?_⟩
      have hentry : ((i : Int), (e.2.toNat : Int)) = e :=
        Prod.ext hkey.symm (Int.toNat_of_nonneg (hbound e he).1)
      rwa [hentry]
    · exact ⟨0, fun h => absurd h hi⟩
  obtain ⟨f, hf⟩ := Classical.skolem.mp himage
  refine ⟨f, ?_, ?_, ?_⟩
  · intro i hi
    have hmem := List.mem_map_of_mem (f := fun e : Int × Int => some e.1) (hf i hi)
    rw [hkeys] at hmem
    obtain ⟨m, hm, hkey⟩ := List.mem_map.mp hmem
    exact ⟨m, hm, hkey⟩
  · intro m hm
    obtain ⟨e, he, hkey, hvalue⟩ := hreads m hm
    obtain ⟨hk, hlt⟩ := (hn e.1).mp (List.mem_map_of_mem he)
    have hi : e.1.toNat < ms.length := by omega
    have hfirst : ((e.1.toNat : Nat) : Int) = e.1 := Int.toNat_of_nonneg hk
    have hentry := hsame e he _ (hf e.1.toNat hi) hfirst
    refine ⟨e.1.toNat, hi, hkey.trans (congrArg some hfirst.symm), ?_⟩
    exact hvalue.trans (congrArg some (congrArg Prod.snd hentry).symm)
  · intro i hi
    have hlt := (hbound _ (hf i hi)).2
    simp only at hlt
    omega

end describes

/-- When exactly a mapping is accepted as it should be. -/
theorem mappingExact_iff {v : Value N} :
    MappingExact num nb v ↔ ∀ ms, v = .obj ms → PlainMapping num nb ms := by
  constructor
  · rintro h ms rfl
    have hne : ms ≠ [] := by
      rintro rfl
      have hnone : DescribesMapping num nb [] fun _ => 0 := by
        constructor <;> simp
      obtain ⟨mapping, hmapping⟩ := h.accepted [] _ rfl hnone
      exact absurd rfl (readMappingMember_eq_ok.mp hmapping).1
    have hplain : ∀ es, ReadAs num ms es → Consecutive nb es →
        ∃ f, DescribesMapping num nb ms f := by
      intro es hes hconsecutive
      obtain ⟨ms', f, hms, hf, -⟩ :=
        h.describes _ (readMappingMember_eq_ok.mpr ⟨hne, es, hes, hconsecutive, rfl⟩)
      cases hms
      exact ⟨f, hf⟩
    constructor
    · exact hne
    · intro es hes hconsecutive
      obtain ⟨f, hf⟩ := hplain es hes hconsecutive
      exact hf.plain.1
    · intro es hes hconsecutive
      obtain ⟨f, hf⟩ := hplain es hes hconsecutive
      exact hf.plain.2
  · intro h
    constructor
    · intro mapping hread
      cases v with
      | obj ms =>
        obtain ⟨hne, es, hes, hconsecutive, -⟩ := readMappingMember_eq_ok.mp hread
        have hplain := h ms rfl
        obtain ⟨f, hf⟩ := exists_describesMapping hes hconsecutive
          (hplain.decimal es hes hconsecutive) (hplain.nodup es hes hconsecutive)
        exact ⟨ms, f, rfl, hf, hf.images hread⟩
      | _ =>
        simp [readMappingMember, isObject] at hread
    · rintro ms f rfl hf
      obtain ⟨es, hes⟩ := hf.readAs
      exact ⟨_, readMappingMember_eq_ok.mpr ⟨(h ms rfl).ne_nil, es, hes, hf.consecutive hes, rfl⟩⟩

end mapping

end Batsim
