import Mathlib.Algebra.GroupWithZero.Nat
import Mathlib.Data.Finset.Card
import Mathlib.Data.List.Basic
import Mathlib.Data.List.Count

/-!
Batches of items that are done one by one, in any order: an item that is done is credited to the
first batch that waits for it, and a batch is over when it waits for nothing.
-/

/-- A batch, under the name that tells what all its items are. -/
structure Batch (K A : Type) where
  name : K
  waiting : Finset A

namespace Batch

variable {K A : Type}

/-! ### The ledger

The batches of one name are served in the order in which they came: the batch that is the `n`th
of its name, counted from the start, is over when all its items are done, each since that batch
came. -/

section ledger

variable [DecidableEq K]

/-- How many batches are called `k`. -/
def countName (k : K) (bs : List (Batch K A)) : Nat := bs.countP fun b => b.name = k

@[simp] theorem countName_append (k : K) (bs cs : List (Batch K A)) :
    countName k (bs ++ cs) = countName k bs + countName k cs := List.countP_append

@[simp] theorem countName_cons (k : K) (b : Batch K A) (bs : List (Batch K A)) :
    countName k (b :: bs) = countName k bs + if b.name = k then 1 else 0 := by
  simp [countName, List.countP_cons]

/-- What is known of the batches that wait and of the names of those that are over: `Since k n a`
says that `a` has been done since the `n`th batch called `k` came. -/
structure Ledger (items : K → Finset A) (Since : K → Nat → A → Prop) (bs : List (Batch K A))
    (ended : List K) : Prop where
  nonempty : ∀ b ∈ bs, b.waiting ≠ ∅
  subset : ∀ b ∈ bs, b.waiting ⊆ items b.name
  nested : bs.Pairwise fun b c => b.name = c.name → b.waiting ⊆ c.waiting
  done : ∀ k n a, 0 < n → n ≤ ended.count k → a ∈ items k → Since k n a
  credited : ∀ before b after, bs = before ++ b :: after → ∀ a ∈ items b.name, a ∉ b.waiting →
    Since b.name (ended.count b.name + countName b.name before + 1) a

theorem split_append {α : Type} {xs ys before after : List α} {x : α}
    (h : xs ++ ys = before ++ x :: after) :
    (∃ mid, xs = before ++ x :: mid ∧ after = mid ++ ys) ∨
      ∃ mid, before = xs ++ mid ∧ ys = mid ++ x :: after := by
  rcases List.append_eq_append_iff.mp h with ⟨mid, hbefore, hys⟩ | ⟨mid, hxs, hafter⟩
  · exact .inr ⟨mid, hbefore, hys⟩
  · cases mid with
    | nil =>
      rw [List.nil_append] at hafter
      rw [List.append_nil] at hxs
      exact .inr ⟨[], by simp [hxs], by simp [hafter]⟩
    | cons y mid =>
      simp only [List.cons_append, List.cons.injEq] at hafter
      obtain ⟨rfl, rfl⟩ := hafter
      exact .inl ⟨mid, hxs, rfl⟩

theorem split_cons {α : Type} {y : α} {ys before after : List α} {x : α}
    (h : y :: ys = before ++ x :: after) :
    (before = [] ∧ x = y ∧ after = ys) ∨ ∃ mid, before = y :: mid ∧ ys = mid ++ x :: after := by
  cases before with
  | nil =>
    simp only [List.nil_append, List.cons.injEq] at h
    exact .inl ⟨rfl, h.1.symm, h.2.symm⟩
  | cons z mid =>
    simp only [List.cons_append, List.cons.injEq] at h
    exact .inr ⟨mid, by rw [h.1], h.2⟩

variable {items : K → Finset A} {Since Since' : K → Nat → A → Prop} {bs : List (Batch K A)}
  {ended : List K}

theorem Ledger.nil : Ledger items Since [] [] where
  nonempty := by simp
  subset := by simp
  nested := .nil
  done k n a hpos hle := by
    rw [List.count_nil] at hle
    omega
  credited before b after h := by simp at h

theorem Ledger.mono (h : Ledger items Since bs ended)
    (himp : ∀ k n a, Since k n a → Since' k n a) : Ledger items Since' bs ended where
  nonempty := h.nonempty
  subset := h.subset
  nested := h.nested
  done k n a hpos hle ha := himp k n a (h.done k n a hpos hle ha)
  credited before b after hbs a ha hnot := himp _ _ a (h.credited before b after hbs a ha hnot)

/-- A batch comes, waiting for all its items. -/
theorem Ledger.come (h : Ledger items Since bs ended) {k : K} (hk : items k ≠ ∅) :
    Ledger items Since (bs ++ [⟨k, items k⟩]) ended where
  nonempty b hb := by
    rcases List.mem_append.mp hb with hb | hb
    · exact h.nonempty b hb
    · rw [List.mem_singleton.mp hb]
      exact hk
  subset b hb := by
    rcases List.mem_append.mp hb with hb | hb
    · exact h.subset b hb
    · rw [List.mem_singleton.mp hb]
  nested := by
    refine List.pairwise_append.mpr ⟨h.nested, by simp, fun b hb c hc hname => ?_⟩
    rw [List.mem_singleton.mp hc] at hname ⊢
    have hsub := h.subset b hb
    rwa [hname] at hsub
  done := h.done
  credited before b after hbs a ha hnot := by
    obtain ⟨mid, hold, -⟩ | ⟨mid, -, hnew⟩ := split_append hbs
    · exact h.credited before b mid hold a ha hnot
    · -- the new batch waits for all its items
      obtain ⟨-, rfl, -⟩ | ⟨rest, -, hrest⟩ := split_cons hnew
      · exact absurd ha hnot
      · simp at hrest

end ledger

/-! ### Items that are done -/

variable [DecidableEq A]

/-- The first batch that waits for `a` does not any more; if it is over, it leaves, and its name
is returned. -/
def credit (a : A) : List (Batch K A) → Option (List (Batch K A) × Option K)
  | [] => none
  | b :: bs =>
    if a ∈ b.waiting then
      if b.waiting.erase a = ∅ then some (bs, some b.name)
      else some ({ b with waiting := b.waiting.erase a } :: bs, none)
    else (credit a bs).map fun r => (b :: r.1, r.2)

/-- What crediting an item does. -/
theorem credit_cases {a : A} {bs bs' : List (Batch K A)} {finished : Option K}
    (h : credit a bs = some (bs', finished)) :
    ∃ before b after, bs = before ++ b :: after ∧ a ∈ b.waiting ∧
      (∀ c ∈ before, a ∉ c.waiting) ∧
      ((b.waiting.erase a = ∅ ∧ bs' = before ++ after ∧ finished = some b.name) ∨
        (b.waiting.erase a ≠ ∅ ∧
          bs' = before ++ { b with waiting := b.waiting.erase a } :: after ∧ finished = none)) := by
  induction bs generalizing bs' with
  | nil => cases h
  | cons b bs ih =>
    simp only [credit] at h
    split at h
    · next hwaits =>
      refine ⟨[], b, bs, rfl, hwaits, by simp, ?_⟩
      split at h
      · next hempty =>
        cases h
        exact .inl ⟨hempty, rfl, rfl⟩
      · next hrest =>
        cases h
        exact .inr ⟨hrest, rfl, rfl⟩
    · next hnot =>
      obtain ⟨⟨cs, finished'⟩, hcs, heq⟩ := Option.map_eq_some_iff.mp h
      cases heq
      obtain ⟨before, c, after, rfl, hc, hbefore, hor⟩ := ih hcs
      refine ⟨b :: before, c, after, rfl, hc, by simpa using ⟨hnot, hbefore⟩, ?_⟩
      obtain ⟨hempty, rfl, rfl⟩ | ⟨hrest, rfl, rfl⟩ := hor
      · exact .inl ⟨hempty, rfl, rfl⟩
      · exact .inr ⟨hrest, rfl, rfl⟩

/-- How many batches wait for an item. -/
def waits (a : A) (bs : List (Batch K A)) : Nat := bs.countP fun b => a ∈ b.waiting

theorem waits_credit {a : A} {bs bs' : List (Batch K A)} {finished : Option K}
    (h : credit a bs = some (bs', finished)) (c : A) :
    waits c bs = waits c bs' + if c = a then 1 else 0 := by
  obtain ⟨before, b, after, rfl, ha, -, hor⟩ := credit_cases h
  obtain ⟨hempty, rfl, -⟩ | ⟨-, rfl, -⟩ := hor
  · have hone : c ∈ b.waiting ↔ c = a := by
      constructor
      · intro hc
        by_contra hne
        have hmem : c ∈ b.waiting.erase a := Finset.mem_erase.mpr ⟨hne, hc⟩
        simp [hempty] at hmem
      · rintro rfl
        exact ha
    simp only [waits, List.countP_append, List.countP_cons, decide_eq_true_eq, hone]
    omega
  · by_cases hca : c = a
    · subst hca
      simp only [waits, List.countP_append, List.countP_cons, Finset.notMem_erase, ha]
      simp
      omega
    · simp [waits, List.countP_append, List.countP_cons, Finset.mem_erase, hca]

/-- How many items are still waited for. -/
def load (bs : List (Batch K A)) : Nat := (bs.map fun b => b.waiting.card).sum

theorem load_credit {a : A} {bs bs' : List (Batch K A)} {finished : Option K}
    (h : credit a bs = some (bs', finished)) : load bs = load bs' + 1 := by
  obtain ⟨before, b, after, rfl, ha, -, hor⟩ := credit_cases h
  have hcard := Finset.card_erase_add_one ha
  obtain ⟨hempty, rfl, -⟩ | ⟨-, rfl, -⟩ := hor
  · rw [hempty, Finset.card_empty] at hcard
    simp only [load, List.map_append, List.map_cons, List.sum_append, List.sum_cons]
    omega
  · simp only [load, List.map_append, List.map_cons, List.sum_append, List.sum_cons]
    omega

/-- The batches that wait and those that were returned are the same before and after. -/
theorem names_credit {a : A} {bs bs' : List (Batch K A)} {finished : Option K}
    (h : credit a bs = some (bs', finished)) :
    (finished.toList ++ bs'.map name).Perm (bs.map name) := by
  obtain ⟨before, b, after, rfl, -, -, hor⟩ := credit_cases h
  obtain ⟨-, rfl, rfl⟩ | ⟨-, rfl, rfl⟩ := hor
  · simpa using List.perm_middle.symm
  · simp

/-- An item is done and credited: all the batches that wait had come. -/
theorem Ledger.credit [DecidableEq K] {items : K → Finset A} {Since : K → Nat → A → Prop}
    {bs bs' : List (Batch K A)} {ended : List K} (h : Ledger items Since bs ended) {a : A}
    {finished : Option K} (hcredit : credit a bs = some (bs', finished))
    (hnew : ∀ k n, n ≤ ended.count k + countName k bs → Since k n a) :
    Ledger items Since bs' (ended ++ finished.toList) := by
  obtain ⟨before, b, after, rfl, ha, hbefore, hor⟩ := credit_cases hcredit
  have hnested := List.pairwise_append.mp h.nested
  obtain ⟨hafter, -⟩ := List.pairwise_cons.mp hnested.2.1
  obtain ⟨hempty, rfl, rfl⟩ | ⟨hrest, rfl, rfl⟩ := hor
  · -- the batch is ended: it was the first of its name
    have honly : ∀ c ∈ b.waiting, c = a := by
      intro c hc
      by_contra hne
      have hmem : c ∈ b.waiting.erase a := Finset.mem_erase.mpr ⟨hne, hc⟩
      simp [hempty] at hmem
    have hfirst : ∀ c ∈ before, c.name ≠ b.name := by
      intro c hc hname
      refine h.nonempty c (by simp [hc]) (Finset.eq_empty_of_forall_notMem fun d hd => ?_)
      have hda := honly d (hnested.2.2 c hc b (by simp) hname hd)
      exact hbefore c hc (hda ▸ hd)
    have hzero : countName b.name before = 0 := by
      simpa [countName, List.countP_eq_zero] using hfirst
    have hcount : ∀ k, (ended ++ [b.name]).count k = ended.count k + if b.name = k then 1 else 0 := by
      intro k
      simp [List.count_append, List.count_singleton]
    refine ⟨fun c hc => h.nonempty c ?_, fun c hc => h.subset c ?_, ?_, ?_, ?_⟩
    · rcases List.mem_append.mp hc with hc | hc <;> simp [hc]
    · rcases List.mem_append.mp hc with hc | hc <;> simp [hc]
    · exact h.nested.sublist (List.Sublist.append_left (List.sublist_cons_self b after) before)
    · intro k n c hpos hle hc
      simp only [Option.toList_some, hcount] at hle
      by_cases hold : n ≤ ended.count k
      · exact h.done k n c hpos hold hc
      · have hk : b.name = k := by
          by_contra hne
          rw [if_neg hne] at hle
          omega
        subst hk
        rw [if_pos rfl] at hle
        have hn : n = ended.count b.name + countName b.name before + 1 := by omega
        by_cases hwaits : c ∈ b.waiting
        · rw [honly c hwaits]
          refine hnew b.name n ?_
          simp only [countName_append, countName_cons, if_true]
          omega
        · rw [hn]
          exact h.credited before b after rfl c hc hwaits
    · intro pre c post hsplit d hd hnot
      simp only [Option.toList_some, hcount]
      obtain ⟨mid, rfl, -⟩ | ⟨mid, rfl, rfl⟩ := split_append hsplit
      · have hne : b.name ≠ c.name := fun heq => hfirst c (by simp) heq.symm
        rw [if_neg hne]
        exact h.credited pre c (mid ++ b :: after) (by simp) d hd hnot
      · have hold := h.credited (before ++ b :: mid) c post (by simp) d hd hnot
        simp only [countName_append, countName_cons] at hold ⊢
        convert hold using 2
        omega
  · -- the batch goes on waiting
    have hnames : ∀ k (mid : List (Batch K A)),
        countName k ({ b with waiting := b.waiting.erase a } :: mid) = countName k (b :: mid) := by
      intro k mid
      simp
    simp only [Option.toList_none, List.append_nil]
    refine ⟨?_, ?_, ?_, h.done, ?_⟩
    · intro c hc
      rcases List.mem_append.mp hc with hc | hc
      · exact h.nonempty c (by simp [hc])
      · rcases List.mem_cons.mp hc with rfl | hc
        · exact hrest
        · exact h.nonempty c (by simp [hc])
    · intro c hc
      rcases List.mem_append.mp hc with hc | hc
      · exact h.subset c (by simp [hc])
      · rcases List.mem_cons.mp hc with rfl | hc
        · exact (Finset.erase_subset a b.waiting).trans (h.subset b (by simp))
        · exact h.subset c (by simp [hc])
    · refine List.pairwise_append.mpr ⟨hnested.1, List.pairwise_cons.mpr ⟨fun c hc hname => ?_,
        (List.pairwise_cons.mp hnested.2.1).2⟩, fun c hc d hd hname => ?_⟩
      · exact (Finset.erase_subset a b.waiting).trans (hafter c hc hname)
      · rcases List.mem_cons.mp hd with rfl | hd
        · have hsub := hnested.2.2 c hc b (by simp) hname
          exact fun x hx => Finset.mem_erase.mpr
            ⟨fun hxa => hbefore c hc (hxa ▸ hx), hsub hx⟩
        · exact hnested.2.2 c hc d (by simp [hd]) hname
    · intro pre c post hsplit d hd hnot
      obtain ⟨mid, rfl, -⟩ | ⟨mid, rfl, htail⟩ := split_append hsplit
      · exact h.credited pre c (mid ++ b :: after) (by simp) d hd hnot
      · obtain ⟨rfl, rfl, rfl⟩ | ⟨rest, rfl, rfl⟩ := split_cons htail
        · rw [List.append_nil]
          by_cases hda : d = a
          · subst hda
            refine hnew _ _ ?_
            simp only [countName_append, countName_cons, if_true]
            omega
          · exact h.credited before b post rfl d hd fun hmem =>
              hnot (Finset.mem_erase.mpr ⟨hda, hmem⟩)
        · have hold := h.credited (before ++ b :: rest) c post (by simp) d hd hnot
          rwa [countName_append, hnames, ← countName_append]

end Batch
