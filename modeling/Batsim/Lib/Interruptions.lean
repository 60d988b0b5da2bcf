import Batsim.Lib.Rounds

/-!
Labels when threads are killed or interrupted: what was on the killed threads goes, and what was
on the interrupted ones changes with them.
-/

namespace Pool

variable {M T : Type} {A : Type*} (f : T → Option A) (g : M → Option A) {p : Pool M T}

/-- What the threads outside the blocked ones are. -/
theorem mem_outside {t : T} :
    t ∈ p.woken.filterMap Entry.thread? ++ p.fresh ++ p.mailbox.filterMap Prod.snd ↔
      .resume t ∈ p.woken ∨ t ∈ p.fresh ∨ ∃ m, (m, some t) ∈ p.mailbox := by
  simp

/-- When only blocked threads are hit, an interruption rewrites the threads where they are. -/
theorem threads_interrupt_map {hit : T → Bool} {next : T → T}
    (outside : ∀ t, .resume t ∈ p.woken ∨ t ∈ p.fresh ∨ (∃ m, (m, some t) ∈ p.mailbox) →
      hit t = false) :
    (p.interrupt hit next).threads.Perm (p.threads.map fun t => if hit t then next t else t) := by
  let step : T → T := fun t => if hit t then next t else t
  have hout : ∀ t ∈ p.woken.filterMap Entry.thread? ++ p.fresh ++ p.mailbox.filterMap Prod.snd,
      step t = t := by
    intro t ht
    simp [step, outside t (mem_outside.mp ht)]
  have hkeep : (p.woken.filterMap Entry.thread? ++ p.fresh ++
      p.mailbox.filterMap Prod.snd).map step =
      p.woken.filterMap Entry.thread? ++ p.fresh ++ p.mailbox.filterMap Prod.snd := by
    rw [List.map_congr_left hout, List.map_id']
  have hhit : (p.blocked.filter hit).map next = (p.blocked.filter hit).map step :=
    List.map_congr_left fun t ht => by simp [step, (List.mem_filter.mp ht).2]
  have hmiss : (p.blocked.filter fun t => !hit t) = (p.blocked.filter fun t => !hit t).map step := by
    have hid : ∀ t ∈ p.blocked.filter fun t => !hit t, step t = id t := by
      intro t ht
      have hfalse := (List.mem_filter.mp ht).2
      simp only [Bool.not_eq_true'] at hfalse
      simp [step, hfalse]
    rw [List.map_congr_left hid, List.map_id]
  have hblocked : ((p.blocked.filter hit).map next ++ p.blocked.filter fun t => !hit t).Perm
      (p.blocked.map step) := by
    rw [hhit, hmiss, ← List.map_append]
    exact (List.filter_append_perm hit p.blocked).map step
  have htotal : p.threads.map step =
      (p.woken.filterMap Entry.thread? ++ p.fresh ++ p.mailbox.filterMap Prod.snd) ++
        p.blocked.map step := by
    rw [threads, List.map_append, hkeep]
  exact (threads_interrupt p hit next).trans (htotal ▸ hblocked.append_left _)

/-- Interrupting threads whose labels change by `update`, which changes no other label. -/
theorem labels_interrupt_map {hit : T → Bool} {next : T → T} {update : A → A}
    (outside : ∀ t, .resume t ∈ p.woken ∨ t ∈ p.fresh ∨ (∃ m, (m, some t) ∈ p.mailbox) →
      hit t = false)
    (struck : ∀ t, hit t = true → f (next t) = (f t).map update)
    (spared : ∀ t ∈ p.threads, hit t = false → (f t).map update = f t)
    (messages : ∀ m, (g m).map update = g m) :
    (p.interrupt hit next).labels f g = (p.labels f g).map update := by
  have hthreads : ((p.interrupt hit next).threads.filterMap f).Perm
      ((p.threads.filterMap f).map update) := by
    refine ((threads_interrupt_map outside).filterMap f).trans (.of_eq ?_)
    rw [List.filterMap_map, List.map_filterMap]
    refine List.filterMap_congr fun t ht => ?_
    cases hhit : hit t with
    | true => simp [hhit, struck t hhit]
    | false => simp [hhit, spared t ht hhit]
  have hqueue : (p.queue.filterMap g).map update = p.queue.filterMap g := by
    rw [List.map_filterMap]
    exact List.filterMap_congr fun m _ => messages m
  rw [labels, labels, queue_interrupt, Multiset.map_add, Multiset.coe_eq_coe.mpr hthreads,
    Multiset.map_coe, Multiset.map_coe, hqueue]

/-- Killing threads that carry nothing on the messages they were sending: their labels go. -/
theorem labels_kill_filter {dead : T → Bool} {alive : A → Prop} [DecidablePred alive]
    (threads : ∀ t x, f t = some x → (alive x ↔ dead t = false))
    (messages : ∀ m x, g m = some x → alive x)
    (sending : ∀ m t, (m, some t) ∈ p.mailbox → dead t = true → g m = none) :
    (p.kill dead).labels f g = (p.labels f g).filter alive := by
  have hthreads : (p.kill dead).threads.filterMap f =
      (p.threads.filterMap f).filter fun x => decide (alive x) := by
    rw [threads_kill, List.filterMap_filter, List.filter_filterMap]
    refine List.filterMap_congr fun t _ => ?_
    cases hf : f t with
    | none => simp
    | some x => cases hd : dead t <;> simp [Option.filter, threads t x hf, hd]
  have hall : (p.queue.filterMap g).filter (fun x => decide (alive x)) = p.queue.filterMap g := by
    refine List.filter_eq_self.mpr fun x hx => ?_
    obtain ⟨m, -, hm⟩ := List.mem_filterMap.mp hx
    exact decide_eq_true (messages m x hm)
  have hqueue : (p.kill dead).labels (fun _ => none) g = p.labels (fun _ => none) g :=
    labels_kill _ _ (fun _ _ => rfl) sending
  simp only [labels, List.filterMap_none, Multiset.coe_nil, zero_add] at hqueue
  rw [labels, labels, Multiset.filter_add, hthreads, hqueue]
  simp only [Multiset.filter_coe, hall]

/-- Killing leaves at most the labels that were there. -/
theorem labels_kill_le (dead : T → Bool) : (p.kill dead).labels f g ≤ p.labels f g := by
  refine add_le_add ?_ ?_
  · rw [threads_kill]
    exact (List.filter_sublist.filterMap f).subperm
  · exact ((queue_kill p dead).filterMap g).subperm

end Pool
