import Mathlib.Data.List.Basic

/-!
Programs that stop on the first failed check: `Except` as an abort monad, with the inversion
rules that take a successful run apart.
-/

namespace Checked

variable {ε α β σ : Type}

/-- Stop with the error `e` unless `p` holds. -/
def require (p : Prop) [Decidable p] (e : ε) : Except ε Unit :=
  if p then .ok () else .error e

@[simp] theorem require_eq_ok {p : Prop} [Decidable p] {e : ε} {u : Unit} :
    require p e = .ok u ↔ p := by
  unfold require
  split <;> simp_all

theorem require_of {p : Prop} [Decidable p] {e : ε} (h : p) : require p e = .ok () := by
  simp [require, h]

@[simp] theorem bind_eq_ok {x : Except ε α} {f : α → Except ε β} {b : β} :
    (x >>= f) = .ok b ↔ ∃ a, x = .ok a ∧ f a = .ok b := by
  cases x with
  | error e => simp [bind, Except.bind]
  | ok a => simp [bind, Except.bind]

theorem bind_eq_error {x : Except ε α} {f : α → Except ε β} {e : ε} :
    (x >>= f) = .error e ↔ x = .error e ∨ ∃ a, x = .ok a ∧ f a = .error e := by
  cases x with
  | error e' => simp [bind, Except.bind]
  | ok a => simp [bind, Except.bind]

@[simp] theorem pure_eq_ok {a b : α} : (pure a : Except ε α) = .ok b ↔ a = b := by
  simp [pure, Except.pure]

/-- The loop `for a in as do s ← f s a`, one iteration after the other. -/
def forEach (f : σ → α → Except ε σ) : σ → List α → Except ε σ
  | s, [] => .ok s
  | s, a :: as => do
    let s ← f s a
    forEach f s as

@[simp] theorem forEach_nil {f : σ → α → Except ε σ} {s : σ} : forEach f s [] = .ok s := rfl

@[simp] theorem forEach_cons {f : σ → α → Except ε σ} {s : σ} {a : α} {as : List α} :
    forEach f s (a :: as) = f s a >>= fun s => forEach f s as := rfl

theorem forEach_append {f : σ → α → Except ε σ} {as bs : List α} {s : σ} :
    forEach f s (as ++ bs) = forEach f s as >>= fun s => forEach f s bs := by
  induction as generalizing s with
  | nil => rfl
  | cons a as ih =>
    simp only [List.cons_append, forEach_cons]
    cases f s a with
    | error e => rfl
    | ok s' => exact ih

/-- Loop rule: what holds before the loop and is kept by every iteration over an element of the
list holds after it; the invariant may mention the elements already done. -/
theorem forEach_invariant {f : σ → α → Except ε σ} {as : List α} {s s' : σ}
    (P : List α → σ → Prop) (h0 : P [] s)
    (hstep : ∀ done a rest t t', as = done ++ a :: rest → P done t → f t a = .ok t' →
      P (done ++ [a]) t')
    (h : forEach f s as = .ok s') : P as s' := by
  suffices key : ∀ rest done t, as = done ++ rest → P done t → forEach f t rest = .ok s' →
      P as s' from key as [] s rfl h0 h
  intro rest
  induction rest with
  | nil =>
    intro done t hsplit hP hrun
    simp only [forEach_nil, Except.ok.injEq] at hrun
    simpa [hsplit, hrun] using hP
  | cons a rest ih =>
    intro done t hsplit hP hrun
    simp only [forEach_cons, bind_eq_ok] at hrun
    obtain ⟨t', hf, hrest⟩ := hrun
    exact ih (done ++ [a]) t' (by simp [hsplit]) (hstep done a rest t t' hsplit hP hf) hrest

/-- The loop rule for an invariant that does not look at the elements already done. -/
theorem forEach_preserves {f : σ → α → Except ε σ} {as : List α} {s s' : σ} {P : σ → Prop}
    (h0 : P s) (hstep : ∀ a ∈ as, ∀ t t', P t → f t a = .ok t' → P t')
    (h : forEach f s as = .ok s') : P s' :=
  forEach_invariant (fun _ => P) h0
    (fun done a rest t t' hsplit hP hf => hstep a (by simp [hsplit]) t t' hP hf) h

/-- A quantity that no iteration changes is unchanged by the loop. -/
theorem forEach_unchanged {f : σ → α → Except ε σ} {as : List α} {s s' : σ} {γ : Type}
    (q : σ → γ) (hstep : ∀ a ∈ as, ∀ t t', f t a = .ok t' → q t' = q t)
    (h : forEach f s as = .ok s') : q s' = q s :=
  forEach_preserves (P := fun t => q t = q s) rfl
    (fun a ha t t' hP hf => (hstep a ha t t' hf).trans hP) h

/-- The loop succeeds when each iteration does, in every state the invariant allows. -/
theorem forEach_succeeds {f : σ → α → Except ε σ} {as : List α} {s : σ}
    (P : List α → σ → Prop) (h0 : P as s)
    (hstep : ∀ a rest t, P (a :: rest) t → ∃ t', f t a = .ok t' ∧ P rest t') :
    ∃ s', forEach f s as = .ok s' ∧ P [] s' := by
  induction as generalizing s with
  | nil => exact ⟨s, rfl, h0⟩
  | cons a as ih =>
    obtain ⟨t, hf, hP⟩ := hstep a as s h0
    obtain ⟨s', hrun, hnil⟩ := ih hP
    exact ⟨s', by simp [hf, hrun], hnil⟩

/-- When it does not depend on the state whether an iteration succeeds, the loop succeeds exactly if
each iteration does. -/
theorem forEach_succeeds_iff {f : σ → α → Except ε σ} {as : List α} {s : σ} (P : σ → Prop)
    {Q : α → Prop} (h0 : P s) (hiff : ∀ a ∈ as, ∀ t, P t → ((∃ t', f t a = .ok t') ↔ Q a))
    (hkeep : ∀ a ∈ as, ∀ t t', P t → f t a = .ok t' → P t') :
    (∃ s', forEach f s as = .ok s') ↔ ∀ a ∈ as, Q a := by
  induction as generalizing s with
  | nil => exact iff_of_true ⟨s, rfl⟩ (by simp)
  | cons b bs ih =>
    have hrest := fun t ht => ih (s := t) ht (fun a ha => hiff a (List.mem_cons_of_mem b ha))
      fun a ha => hkeep a (List.mem_cons_of_mem b ha)
    have hfirst := hiff b List.mem_cons_self s h0
    rw [List.forall_mem_cons, ← hfirst]
    constructor
    · rintro ⟨s', h⟩
      rw [forEach_cons, bind_eq_ok] at h
      obtain ⟨t, ht, h⟩ := h
      exact ⟨⟨t, ht⟩, (hrest t (hkeep b List.mem_cons_self s t h0 ht)).mp ⟨s', h⟩⟩
    · rintro ⟨⟨t, ht⟩, hall⟩
      obtain ⟨s', h⟩ := (hrest t (hkeep b List.mem_cons_self s t h0 ht)).mpr hall
      exact ⟨s', by rw [forEach_cons, bind_eq_ok]; exact ⟨t, ht, h⟩⟩

/-- The loop goes through the states `S done`, when each iteration does. -/
theorem forEach_of_steps {f : σ → α → Except ε σ} {as : List α} (S : List α → σ)
    (hstep : ∀ done a rest, as = done ++ a :: rest → f (S done) a = .ok (S (done ++ [a]))) :
    forEach f (S []) as = .ok (S as) := by
  suffices key : ∀ rest done, as = done ++ rest → forEach f (S done) rest = .ok (S as) from
    key as [] rfl
  intro rest
  induction rest with
  | nil =>
    intro done hsplit
    rw [hsplit, List.append_nil]
    rfl
  | cons a rest ih =>
    intro done hsplit
    rw [forEach_cons, hstep done a rest hsplit]
    exact ih (done ++ [a]) (by simp [hsplit])

/-- When a loop succeeds, it does so on each element. -/
theorem exists_step_of_forEach {f : σ → α → Except ε σ} {as : List α} {s s' : σ}
    (h : forEach f s as = .ok s') : ∀ a ∈ as, ∃ t t', f t a = .ok t' := by
  induction as generalizing s with
  | nil => simp
  | cons b bs ih =>
    rw [forEach_cons, bind_eq_ok] at h
    obtain ⟨t, hfirst, hrest⟩ := h
    intro a ha
    rcases List.mem_cons.mp ha with rfl | ha
    · exact ⟨s, t, hfirst⟩
    · exact ih hrest a ha

/-- When a loop fails, it does so on an element, from a state that it led to. -/
theorem exists_of_forEach_eq_error {f : σ → α → Except ε σ} {as : List α} {s : σ} {e : ε}
    (P : σ → Prop) (h0 : P s) (hstep : ∀ a ∈ as, ∀ t t', P t → f t a = .ok t' → P t')
    (h : forEach f s as = .error e) : ∃ a ∈ as, ∃ t, P t ∧ f t a = .error e := by
  induction as generalizing s with
  | nil => cases h
  | cons b bs ih =>
    rw [forEach_cons, bind_eq_error] at h
    rcases h with hfirst | ⟨t, hfirst, hrest⟩
    · exact ⟨b, List.mem_cons_self, s, h0, hfirst⟩
    · obtain ⟨a, ha, hfail⟩ := ih (hstep b List.mem_cons_self s t h0 hfirst)
        (fun a ha => hstep a (List.mem_cons_of_mem b ha)) hrest
      exact ⟨a, List.mem_cons_of_mem b ha, hfail⟩

/-- A loop that cannot fail otherwise, and that has to fail on an element, does so. -/
theorem forEach_eq_error {f : σ → α → Except ε σ} {as : List α} {s : σ} {e : ε} (P : σ → Prop)
    (h0 : P s) (hstep : ∀ a ∈ as, ∀ t, P t → f t a = .error e ∨ ∃ t', f t a = .ok t' ∧ P t')
    (hfail : ∃ a ∈ as, ∀ t, P t → f t a = .error e) : forEach f s as = .error e := by
  induction as generalizing s with
  | nil =>
    obtain ⟨a, ha, -⟩ := hfail
    cases ha
  | cons b bs ih =>
    rw [forEach_cons, bind_eq_error]
    rcases hstep b List.mem_cons_self s h0 with herror | ⟨t, ht, hPt⟩
    · exact .inl herror
    · obtain ⟨a, ha, hall⟩ := hfail
      rcases List.mem_cons.mp ha with rfl | ha
      · rw [hall s h0] at ht
        cases ht
      · exact .inr ⟨t, ht, ih hPt (fun c hc => hstep c (List.mem_cons_of_mem b hc)) ⟨a, ha, hall⟩⟩

/-- The results of `f` on the elements of a list, in order. -/
def collect (f : α → Except ε β) : List α → Except ε (List β)
  | [] => .ok []
  | a :: as => do
    let b ← f a
    let bs ← collect f as
    .ok (b :: bs)

theorem collect_eq_ok {f : α → Except ε β} {as : List α} {bs : List β} :
    collect f as = .ok bs ↔ List.Forall₂ (fun a b => f a = .ok b) as bs := by
  induction as generalizing bs with
  | nil =>
    constructor
    · intro h
      cases h
      exact .nil
    · intro h
      cases h
      rfl
  | cons a as ih =>
    simp only [collect, bind_eq_ok, Except.ok.injEq]
    constructor
    · rintro ⟨b, hb, rest, hrest, rfl⟩
      exact .cons hb (ih.mp hrest)
    · intro h
      cases h with
      | cons hb hrest => exact ⟨_, hb, _, ih.mpr hrest, rfl⟩

/-- Each element of the list gives one of the results. -/
theorem exists_of_collect_eq_ok {f : α → Except ε β} {as : List α} {bs : List β} {a : α}
    (h : collect f as = .ok bs) (ha : a ∈ as) : ∃ b ∈ bs, f a = .ok b := by
  have hall := collect_eq_ok.mp h
  induction hall with
  | nil => cases ha
  | @cons c b as bs hc hrest ih =>
    rcases List.mem_cons.mp ha with rfl | ha
    · exact ⟨b, List.mem_cons_self, hc⟩
    · obtain ⟨b', hb', hfa⟩ := ih (collect_eq_ok.mpr hrest) ha
      exact ⟨b', List.mem_cons_of_mem b hb', hfa⟩

/-- The result for an element, by its place. -/
theorem getElem?_of_collect {f : α → Except ε β} {as : List α} {bs : List β} {k : Nat} {a : α}
    (h : collect f as = .ok bs) (ha : as[k]? = some a) : ∃ b, bs[k]? = some b ∧ f a = .ok b := by
  have hall := collect_eq_ok.mp h
  clear h
  induction hall generalizing k with
  | nil => cases ha
  | @cons c b as bs hb _ ih =>
    cases k with
    | zero =>
      rw [List.getElem?_cons_zero] at ha
      cases ha
      exact ⟨b, List.getElem?_cons_zero, hb⟩
    | succ k =>
      rw [List.getElem?_cons_succ] at ha
      rw [List.getElem?_cons_succ]
      exact ih ha

/-- A loop succeeds when it does on each element. -/
theorem collect_succeeds {f : α → Except ε β} {as : List α} (h : ∀ a ∈ as, ∃ b, f a = .ok b) :
    ∃ bs, collect f as = .ok bs := by
  induction as with
  | nil => exact ⟨[], rfl⟩
  | cons a as ih =>
    obtain ⟨b, hb⟩ := h a List.mem_cons_self
    obtain ⟨bs, hbs⟩ := ih fun c hc => h c (List.mem_cons_of_mem a hc)
    exact ⟨b :: bs, collect_eq_ok.mpr (.cons hb (collect_eq_ok.mp hbs))⟩

/-- The first failure is the failure of the loop. -/
theorem exists_of_collect_eq_error {f : α → Except ε β} {as : List α} {e : ε}
    (h : collect f as = .error e) : ∃ a ∈ as, f a = .error e := by
  induction as with
  | nil => cases h
  | cons a as ih =>
    cases ha : f a with
    | error e' =>
      rw [collect, ha] at h
      cases h
      exact ⟨a, by simp, ha⟩
    | ok b =>
      cases hrest : collect f as with
      | error e' =>
        have hsame : e' = e := by
          rw [collect, ha, hrest] at h
          exact Except.error.inj h
        obtain ⟨a', hmem, hfails⟩ := ih (hrest.trans (by rw [hsame]))
        exact ⟨a', List.mem_cons_of_mem a hmem, hfails⟩
      | ok bs =>
        rw [collect, ha, hrest] at h
        cases h

/-- The computation succeeds, with a result that satisfies `P`. -/
def succeedsWith {α : Type} (x : Except ε α) (P : α → Bool) : Bool :=
  match x with
  | .ok a => P a
  | .error _ => false

theorem exists_of_succeedsWith {α : Type} {x : Except ε α} {P : α → Bool}
    (h : succeedsWith x P = true) : ∃ a, x = .ok a ∧ P a = true := by
  cases x with
  | ok a => exact ⟨a, rfl, h⟩
  | error e => cases h

end Checked
