import Pandora.Lib.Rotation
import Pandora.Task.List

/-!
# The chain of the tasks

`Chained q live`: through `next`, the list goes from the head through `live` to the tail, and `current` is
in it. That is all `task_get_next` depends on. Linking a task keeps it (`Chained.link`). So does the
removal of a task whose `prev` link leads to the task before it (`Chained.remove`); the links of the
other tasks may be stale.
-/

namespace Pandora

open Linked

/-- The list through `next` (module doc). -/
structure Chained (q : TaskQueue) (live : List Nat) : Prop where
  walk : Walk (fun a => (q.task a).next) 0 q.head live
  tail : live ≠ [] → live.getLast? = some q.tail
  current : live ≠ [] → q.current ∈ live

/-- `prev` of `t` is the task before `t`, or null where there is none. -/
def PrevIn (q : TaskQueue) (live : List Nat) (t : Nat) : Prop :=
  ∃ l m, live = l ++ t :: m ∧ (q.task t).prev = l.getLast?.getD 0

section

variable {q q' : TaskQueue} {live : List Nat} {t : Nat} {v : Task}

theorem Chained.congr (h : Chained q live) (hhead : q'.head = q.head) (htail : q'.tail = q.tail)
    (hcurrent : q'.current = q.current) (hnext : ∀ a ∈ live, (q'.task a).next = (q.task a).next) :
    Chained q' live where
  walk := hhead ▸ h.walk.congr hnext
  tail := fun hne => htail ▸ h.tail hne
  current := fun hne => hcurrent ▸ h.current hne

theorem Chained.switch (h : Chained q live) (ht : t ∈ live) : Chained { q with current := t } live :=
  ⟨h.walk, h.tail, fun _ => ht⟩

theorem Chained.getNext (h : Chained q live) (hne : live ≠ []) : taskGetNext q ∈ live :=
  getNext_mem h.walk (h.current hne)

theorem Chained.head_mem (h : Chained q live) (hne : live ≠ []) : q.head ∈ live := by
  cases live with
  | nil => contradiction
  | cons a l => exact h.walk.head ▸ List.mem_cons_self

/-- The first task is current at once. -/
theorem Chained.link (h : Chained q live) (ht : t ≠ 0) (hfresh : t ∉ live) (hnext : v.next = 0) :
    Chained (taskLink (q.set t v) t) (live ++ [t]) ∧
      (taskLink (q.set t v) t).current = if live = [] then t else q.current := by
  have hset : (q.set t v).task t = v := by rw [TaskQueue.set_task, if_pos rfl]
  have hother : ∀ a ∈ live, (q.set t v).task a = q.task a := fun a ha => by
    rw [TaskQueue.set_task, if_neg]
    rintro rfl
    exact hfresh ha
  rcases List.eq_nil_or_concat live with rfl | ⟨l, a, rfl⟩
  · -- the list was empty
    have hhead : q.head = 0 := h.walk
    rw [taskLink_empty (q := q.set t v) hhead t]
    refine ⟨⟨⟨rfl, ht, ?_⟩, fun _ => rfl, fun _ => List.mem_cons_self⟩, rfl⟩
    change ((q.set t v).task t).next = 0
    rw [hset, hnext]
  · simp only [List.concat_eq_append] at *
    have hhead : q.head ≠ 0 := h.walk.ne_null (h.head_mem (by simp))
    obtain rfl : q.tail = a := by
      have := h.tail (by simp)
      simpa using this.symm
    have hat : q.tail ≠ t := by
      rintro he
      exact hfresh (by simp [he])
    have hlt : ∀ b ∈ l, b ≠ q.tail := fun b hb he => by
      have := (List.nodup_append.1 h.walk.nodup).2.2 b hb q.tail (by simp)
      exact this he
    have hcur : q.current ∈ l ++ [q.tail] := h.current (by simp)
    rw [taskLink_tail (q := q.set t v) hhead t]
    refine ⟨⟨?_, fun _ => by simp, fun _ => List.mem_append_left _ hcur⟩, by simp⟩
    rw [List.append_assoc]
    refine h.walk.snoc ht ?_ (fun b hb => ?_) ?_
    · rw [TaskQueue.setPrev_next, TaskQueue.setNext_next, TaskQueue.set_tail, if_pos rfl]
    · simp only [TaskQueue.setPrev_next, TaskQueue.setNext_next, TaskQueue.set_tail]
      rw [if_neg (hlt b hb), hother b (by simp [hb])]
    · simp only [TaskQueue.setPrev_next, TaskQueue.setNext_next, TaskQueue.set_tail]
      rw [if_neg (Ne.symm hat), hset, hnext]

/-- A task in the middle is unlinked from the one before it, and the first one from the head. -/
theorem Chained.remove_walk (h : Chained q live) (hp : PrevIn q live t) :
    Walk (fun a => ((taskListRemove q t).task a).next) 0 (taskListRemove q t).head
      (live.erase t) := by
  obtain ⟨l, m, rfl, hprev⟩ := hp
  have hnodup := h.walk.nodup
  have htl : t ∉ l := fun hm => (List.nodup_append.1 hnodup).2.2 t hm t List.mem_cons_self rfl
  rw [List.erase_append_right _ htl, List.erase_cons_head]
  rcases List.eq_nil_or_concat l with rfl | ⟨l, b, rfl⟩
  · have hhead : (taskListRemove q t).head = (q.task t).next := by
      rw [taskListRemove_eq]
      exact if_pos h.walk.head.symm
    rw [List.nil_append, hhead]
    refine h.walk.2.2.congr fun a _ => ?_
    rw [taskListRemove_next, if_neg fun hc => hc.1 hprev]
  · simp only [List.concat_eq_append, List.getLast?_append, List.getLast?_singleton,
      Option.some_or, Option.getD_some] at h hnodup htl hprev ⊢
    have hwalk := h.walk
    rw [List.append_assoc, List.singleton_append] at hwalk hnodup ⊢
    have hb0 : b ≠ 0 := hwalk.ne_null (by simp)
    obtain ⟨-, hbm, hcross⟩ := List.nodup_append.1 hnodup
    have hhead : (taskListRemove q t).head = q.head := by
      rw [taskListRemove_eq]
      refine if_neg fun he => htl ?_
      cases l with
      | nil =>
        have hb : q.head = b := hwalk.head
        simp [he, hb]
      | cons c l =>
        have hc : q.head = c := hwalk.head
        simp [he, hc]
    have hother : ∀ c ∈ l ++ m, ((taskListRemove q t).task c).next = (q.task c).next := fun c hc => by
      rw [taskListRemove_next, hprev, if_neg]
      rintro ⟨-, rfl⟩
      rcases List.mem_append.1 hc with hc | hc
      · exact hcross c hc c List.mem_cons_self rfl
      · exact (List.nodup_cons.1 hbm).1 (.tail _ hc)
    rw [hhead]
    refine hwalk.unlink ?_ (fun c hc => hother c (List.mem_append_left _ hc))
      fun c hc => hother c (List.mem_append_right _ hc)
    rw [taskListRemove_next, hprev, if_pos ⟨hb0, rfl⟩]

theorem Chained.remove_tail (h : Chained q live) (hp : PrevIn q live t) (hne : live.erase t ≠ []) :
    (live.erase t).getLast? = some (taskListRemove q t).tail := by
  obtain ⟨l, m, rfl, hprev⟩ := hp
  have hnodup := h.walk.nodup
  have htl : t ∉ l := fun hm => (List.nodup_append.1 hnodup).2.2 t hm t List.mem_cons_self rfl
  have htail := h.tail (by simp)
  rw [List.erase_append_right _ htl, List.erase_cons_head] at hne ⊢
  rw [taskListRemove_eq]
  dsimp only
  rcases List.eq_nil_or_concat m with rfl | ⟨m, c, rfl⟩
  · -- the last task: the one before it becomes the last
    have hlast : t = q.tail := by simpa using htail
    rw [List.append_nil] at hne ⊢
    rw [if_pos hlast, hprev, List.getLast?_eq_some_getLast hne]
    rfl
  · simp only [List.concat_eq_append] at hnodup htail ⊢
    rw [← List.cons_append, ← List.append_assoc, List.getLast?_concat] at htail
    have hlast : c = q.tail := Option.some.inj htail
    have htc : t ≠ c := by
      rintro rfl
      have := (List.nodup_append.1 hnodup).2.1
      simp at this
    rw [← hlast, if_neg htc]
    simp

theorem Chained.remove_current (h : Chained q live) (hp : PrevIn q live t) (hne : live.erase t ≠ []) :
    (taskListRemove q t).current ∈ live.erase t := by
  have hhead : (taskListRemove q t).head ∈ live.erase t := by
    have hwalk := h.remove_walk hp
    cases hl : live.erase t with
    | nil => contradiction
    | cons a l =>
      rw [hl] at hwalk
      exact hwalk.head ▸ List.mem_cons_self
  obtain ⟨l, m, rfl, -⟩ := hp
  have hnodup := h.walk.nodup
  have hcur := h.current (by simp)
  rw [taskListRemove_eq] at hhead ⊢
  dsimp only at hhead ⊢
  by_cases hc : t = q.current
  · rw [if_pos hc]
    by_cases hnext : (q.task t).next = 0
    · rw [if_pos hnext]
      exact hhead
    · rw [if_neg hnext]
      -- the task behind it
      cases m with
      | nil => exact absurd h.walk.last hnext
      | cons c m =>
        have hb : (q.task t).next = c := h.walk.after.head
        have hct : c ≠ t := by
          rintro rfl
          have := (List.nodup_append.1 hnodup).2.1
          simp at this
        rw [hb, hnodup.mem_erase_iff]
        exact ⟨hct, by simp⟩
  · rw [if_neg hc, hnodup.mem_erase_iff]
    exact ⟨Ne.symm hc, hcur⟩

/-- **A task is removed from the chain** where its `prev` link is right. -/
theorem Chained.remove (h : Chained q live) (hp : PrevIn q live t) :
    Chained (taskListRemove q t) (live.erase t) :=
  ⟨h.remove_walk hp, h.remove_tail hp, h.remove_current hp⟩

/-- A live task whose `next` is `t` is the one before it. -/
theorem Chained.prevIn (h : Chained q live) (ht : t ∈ live)
    (hp : (q.task t).prev = 0 ∧ q.head = t ∨
      (q.task t).prev ∈ live ∧ (q.task (q.task t).prev).next = t) : PrevIn q live t := by
  rcases hp with ⟨hprev, hhead⟩ | ⟨hmem, hnext⟩
  · cases live with
    | nil => cases ht
    | cons a l =>
      obtain rfl : t = a := hhead.symm.trans h.walk.head
      exact ⟨[], l, rfl, hprev⟩
  · obtain ⟨l, m, hl⟩ := List.append_of_mem hmem
    rw [hl] at h
    have hafter := h.walk.after
    cases m with
    | nil => exact absurd (hnext.symm.trans hafter) (h.walk.ne_null (hl ▸ ht))
    | cons c m =>
      obtain rfl : t = c := hnext.symm.trans hafter.head
      exact ⟨l ++ [(q.task t).prev], m, by rw [hl]; simp, by simp⟩

end

end Pandora
