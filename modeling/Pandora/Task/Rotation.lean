import Pandora.Task.Chain

/-!
# The rotation of the tasks

`task_get_next` goes round the chain of the tasks. Removing a task from a list that is linked both
ways (`TaskRun.Ok`) leaves the chain of the others in their order (`Ok.remove_chain`, `Ok.remove_tail`)
and hands `current` on to the task behind the removed one where that was `current`
(`Ok.remove_current`), so the rotation goes on through the tasks that are left (`Ok.remove_visits`).
-/

namespace Pandora

open Linked

/-- `task_switch(task_get_next())`, on the list -/
def TaskQueue.turn (q : TaskQueue) : TaskQueue := { q with current := taskGetNext q }

section

variable {q : TaskQueue} {live : List Nat} {t : Nat}

theorem taskGetNext_eq_following (q : TaskQueue) :
    taskGetNext q = following (fun a => (q.task a).next) 0 q.head q.current := rfl

/-- Turning leaves the chain. -/
theorem turn_iterate (q : TaskQueue) (k : Nat) :
    TaskQueue.turn^[k] q =
      { q with current := (following (fun a => (q.task a).next) 0 q.head)^[k] q.current } := by
  induction k with
  | zero => rfl
  | succ k ih =>
    rw [Function.iterate_succ_apply', Function.iterate_succ_apply', ih]
    rfl

/-! ## Removal -/

/-- The first task has no predecessor. -/
theorem prev_head {m : List Nat} (h : TaskRun.Ok ⟨q, t :: m⟩) : (q.task t).prev = 0 := by
  have hb : Walk (fun a => (q.task a).prev) 0 q.tail (m.reverse ++ [t]) := by
    simpa using h.backward
  exact hb.last

/-- Another one has the task before it. -/
theorem prev_inner {l m : List Nat} {b : Nat} (h : TaskRun.Ok ⟨q, l ++ b :: t :: m⟩) :
    (q.task t).prev = b ∧ b ≠ 0 := by
  have hb : Walk (fun a => (q.task a).prev) 0 q.tail (m.reverse ++ t :: b :: l.reverse) := by
    simpa using h.backward
  exact ⟨hb.after.head, hb.after.2.1⟩

theorem tail_of_concat {l : List Nat} {b : Nat} (h : TaskRun.Ok ⟨q, l ++ [b]⟩) : q.tail = b := by
  have hb : Walk (fun a => (q.task a).prev) 0 q.tail (b :: l.reverse) := by
    simpa using h.backward
  exact hb.head

/-- The links of a list that is linked both ways are right. -/
theorem TaskRun.Ok.prevIn (h : TaskRun.Ok ⟨q, live⟩) (ht : t ∈ live) : PrevIn q live t := by
  obtain ⟨l, m, rfl⟩ := List.append_of_mem ht
  refine ⟨l, m, rfl, ?_⟩
  rcases List.eq_nil_or_concat l with rfl | ⟨l, b, rfl⟩
  · exact prev_head h
  · simp only [List.concat_eq_append, List.append_assoc, List.singleton_append] at h
    simpa using (prev_inner h).1

theorem TaskRun.Ok.chained (h : TaskRun.Ok ⟨q, live⟩) : Chained q live where
  walk := h.forward
  tail := fun hne => by
    obtain ⟨l, b, rfl⟩ := (List.eq_nil_or_concat live).resolve_left hne
    rw [List.concat_eq_append] at h ⊢
    rw [tail_of_concat h, List.getLast?_concat]
  current := h.current

theorem erase_ne_nil_of_two {t : Nat} {l : List Nat} (ht : t ∈ l) (hlen : 2 ≤ l.length) :
    l.erase t ≠ [] := by
  have hlength := List.length_erase_of_mem ht
  intro hnil
  rw [hnil, List.length_nil] at hlength
  omega

/-- The chain without the first task, or without a later one behind its predecessor. -/
theorem TaskRun.Ok.remove_chain (h : TaskRun.Ok ⟨q, live⟩) (ht : t ∈ live) :
    Walk (fun a => ((taskListRemove q t).task a).next) 0 (taskListRemove q t).head
      (live.erase t) :=
  h.chained.remove_walk (h.prevIn ht)

/-- The chain that is left ends in `task_tail`. -/
theorem TaskRun.Ok.remove_tail (h : TaskRun.Ok ⟨q, live⟩) (ht : t ∈ live) (hlen : 2 ≤ live.length) :
    (live.erase t).getLast? = some (taskListRemove q t).tail :=
  h.chained.remove_tail (h.prevIn ht) (erase_ne_nil_of_two ht hlen)

/-- `current` is handed on to the task behind the removed one. -/
theorem TaskRun.Ok.remove_current (h : TaskRun.Ok ⟨q, live⟩) (ht : t ∈ live) (hlen : 2 ≤ live.length) :
    (taskListRemove q t).current = if t = q.current then live.next t ht else q.current := by
  rw [taskListRemove_eq]
  dsimp only
  by_cases hc : t = q.current
  · rw [if_pos hc, if_pos hc, ← h.forward.following_eq_next ht]
    unfold following
    by_cases hnext : (q.task t).next = 0
    · -- the last task is not the first one
      have hhead : t ≠ q.head := by
        intro he
        have hwalk := h.forward
        obtain ⟨l, m, rfl⟩ := List.append_of_mem ht
        cases m with
        | cons c m => exact hwalk.after.2.1 (hwalk.after.head.symm.trans hnext)
        | nil =>
          cases l with
          | nil => simp at hlen
          | cons b l =>
            have hb : q.head = b := hwalk.head
            have hnodup := hwalk.nodup
            rw [List.cons_append, List.nodup_cons] at hnodup
            exact hnodup.1 (by rw [← hb, ← he]; simp)
      rw [if_pos hnext, if_pos hnext, if_neg hhead]
    · rw [if_neg hnext, if_neg hnext]
  · rw [if_neg hc, if_neg hc]

theorem TaskRun.Ok.remove_current_mem (h : TaskRun.Ok ⟨q, live⟩) (ht : t ∈ live) (hlen : 2 ≤ live.length) :
    (taskListRemove q t).current ∈ live.erase t :=
  h.chained.remove_current (h.prevIn ht) (erase_ne_nil_of_two ht hlen)

/-- The rotation through the tasks that are left, from any turn on. -/
theorem TaskRun.Ok.remove_visits (h : TaskRun.Ok ⟨q, live⟩) (ht : t ∈ live) (hlen : 2 ≤ live.length) :
    ∃ i, ∃ hi : i < (live.erase t).length,
      (taskListRemove q t).current = (live.erase t)[i] ∧ ∀ k,
        (List.range (live.length - 1)).map
            (fun j => (TaskQueue.turn^[k + j + 1] (taskListRemove q t)).current) =
          (live.erase t).rotate (i + k + 1) := by
  obtain ⟨i, hi, hc⟩ := List.getElem_of_mem (h.remove_current_mem ht hlen)
  refine ⟨i, hi, hc.symm, fun k => ?_⟩
  have hchain := h.remove_chain ht
  rw [← List.length_erase_of_mem ht, ← hchain.visits hi k, hc]
  refine List.map_congr_left fun j _ => ?_
  rw [turn_iterate]

end

end Pandora
