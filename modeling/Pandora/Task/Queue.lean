import Mathlib.Logic.Function.Basic
import Mathlib.Tactic.SplitIfs

/-!
# The task list (`task/task.h`, `task/task.c`)

The memory of task structures and the three list globals. `TaskQueue.task` maps an address to the
`struct task` there; a freed structure keeps its last contents, as the memory does. `0` is `NULL`.
-/

namespace Pandora

/-- `struct registers` -/
structure Registers where
  edi : Nat := 0
  esi : Nat := 0
  ebp : Nat := 0
  ebx : Nat := 0
  edx : Nat := 0
  ecx : Nat := 0
  eax : Nat := 0
  ip : Nat := 0
  cs : Nat := 0
  flags : Nat := 0
  esp : Nat := 0
  ss : Nat := 0
deriving DecidableEq, Repr

/-- `struct task`; the default is what `memset(task, 0, sizeof(struct task))` leaves. -/
structure Task where
  pageDirectory : Nat := 0
  registers : Registers := {}
  process : Nat := 0
  next : Nat := 0
  prev : Nat := 0
deriving DecidableEq, Repr

structure TaskQueue where
  task : Nat → Task
  head : Nat := 0
  tail : Nat := 0
  current : Nat := 0

namespace TaskQueue

/-- `*t = v` -/
def set (q : TaskQueue) (t : Nat) (v : Task) : TaskQueue :=
  { q with task := Function.update q.task t v }

/-- `t->next = v` -/
def setNext (q : TaskQueue) (t v : Nat) : TaskQueue := q.set t { q.task t with next := v }

/-- `t->prev = v` -/
def setPrev (q : TaskQueue) (t v : Nat) : TaskQueue := q.set t { q.task t with prev := v }

end TaskQueue

/-- The end of `task_new`: the initialised task `t` is put at the end of the list. -/
def taskLink (q : TaskQueue) (t : Nat) : TaskQueue :=
  if q.head = 0 then { q with head := t, tail := t, current := t }
  else
    let q := q.setNext q.tail t
    let q := q.setPrev t q.tail
    { q with tail := t }

def taskGetNext (q : TaskQueue) : Nat :=
  if (q.task q.current).next = 0 then q.head else (q.task q.current).next

def taskListRemove (q : TaskQueue) (t : Nat) : TaskQueue :=
  let q := if (q.task t).prev ≠ 0 then q.setNext (q.task t).prev (q.task t).next else q
  let q := if t = q.head then { q with head := (q.task t).next } else q
  let q := if t = q.tail then { q with tail := (q.task t).prev } else q
  if t = q.current then { q with current := taskGetNext q } else q

/-! ## Reading after a write -/

namespace TaskQueue

@[simp] theorem set_head (q : TaskQueue) (t : Nat) (v : Task) : (q.set t v).head = q.head := rfl
@[simp] theorem set_tail (q : TaskQueue) (t : Nat) (v : Task) : (q.set t v).tail = q.tail := rfl
@[simp] theorem set_current (q : TaskQueue) (t : Nat) (v : Task) :
    (q.set t v).current = q.current := rfl
@[simp] theorem setNext_head (q : TaskQueue) (t v : Nat) : (q.setNext t v).head = q.head := rfl
@[simp] theorem setNext_tail (q : TaskQueue) (t v : Nat) : (q.setNext t v).tail = q.tail := rfl
@[simp] theorem setNext_current (q : TaskQueue) (t v : Nat) :
    (q.setNext t v).current = q.current := rfl
@[simp] theorem setPrev_head (q : TaskQueue) (t v : Nat) : (q.setPrev t v).head = q.head := rfl
@[simp] theorem setPrev_tail (q : TaskQueue) (t v : Nat) : (q.setPrev t v).tail = q.tail := rfl
@[simp] theorem setPrev_current (q : TaskQueue) (t v : Nat) :
    (q.setPrev t v).current = q.current := rfl

theorem set_task (q : TaskQueue) (t : Nat) (v : Task) (a : Nat) :
    (q.set t v).task a = if a = t then v else q.task a := by
  simp [set, Function.update_apply]

theorem setNext_next (q : TaskQueue) (t v a : Nat) :
    ((q.setNext t v).task a).next = if a = t then v else (q.task a).next := by
  rw [setNext, set_task]
  split <;> rfl

theorem setNext_prev (q : TaskQueue) (t v a : Nat) :
    ((q.setNext t v).task a).prev = (q.task a).prev := by
  rw [setNext, set_task]
  split
  · rename_i h
    rw [h]
  · rfl

theorem setPrev_prev (q : TaskQueue) (t v a : Nat) :
    ((q.setPrev t v).task a).prev = if a = t then v else (q.task a).prev := by
  rw [setPrev, set_task]
  split <;> rfl

theorem setPrev_next (q : TaskQueue) (t v a : Nat) :
    ((q.setPrev t v).task a).next = (q.task a).next := by
  rw [setPrev, set_task]
  split
  · rename_i h
    rw [h]
  · rfl

end TaskQueue

/-! ## What linking and removal do -/

theorem taskLink_empty {q : TaskQueue} (h : q.head = 0) (t : Nat) :
    taskLink q t = { q with head := t, tail := t, current := t } :=
  if_pos h

/-- Linking behind a tail field by field (`setPrev` reads the tail after `setNext`, the same). -/
theorem taskLink_tail {q : TaskQueue} (h : q.head ≠ 0) (t : Nat) :
    taskLink q t = { (q.setNext q.tail t).setPrev t q.tail with tail := t } :=
  if_neg h

/-- The updates of the three globals, after the predecessor has been linked on. -/
theorem taskListRemove_globals (q : TaskQueue) (t : Nat) :
    (let q := if t = q.head then { q with head := (q.task t).next } else q
     let q := if t = q.tail then { q with tail := (q.task t).prev } else q
     if t = q.current then { q with current := taskGetNext q } else q) =
      { task := q.task
        head := if t = q.head then (q.task t).next else q.head
        tail := if t = q.tail then (q.task t).prev else q.tail
        current :=
          if t = q.current then
            if (q.task t).next = 0 then (if t = q.head then (q.task t).next else q.head)
            else (q.task t).next
          else q.current } := by
  have hcur : ∀ q : TaskQueue, (if t = q.current then { q with current := taskGetNext q } else q) =
      { q with current := if t = q.current then
          (if (q.task t).next = 0 then q.head else (q.task t).next) else q.current } := fun q => by
    split
    · rename_i h
      simp only [taskGetNext, ← h]
    · rfl
  have hhead : (if t = q.head then { q with head := (q.task t).next } else q) =
      { q with head := if t = q.head then (q.task t).next else q.head } := by
    split <;> rfl
  have htail : ∀ q : TaskQueue, (if t = q.tail then { q with tail := (q.task t).prev } else q) =
      { q with tail := if t = q.tail then (q.task t).prev else q.tail } := fun q => by
    split <;> rfl
  refine (hcur _).trans ?_
  rw [htail, hhead]

/-- Removal field by field: the one link it writes is `next` of the predecessor, and the removed
task hands `current` to its successor or to the head that is left. -/
theorem taskListRemove_eq (q : TaskQueue) (t : Nat) :
    taskListRemove q t =
      { task := (if (q.task t).prev ≠ 0 then q.setNext (q.task t).prev (q.task t).next else q).task
        head := if t = q.head then (q.task t).next else q.head
        tail := if t = q.tail then (q.task t).prev else q.tail
        current :=
          if t = q.current then
            if (q.task t).next = 0 then (if t = q.head then (q.task t).next else q.head)
            else (q.task t).next
          else q.current } := by
  -- the first write changes neither `next` nor `prev` of `t` itself
  have hnext : ((q.setNext (q.task t).prev (q.task t).next).task t).next = (q.task t).next := by
    rw [TaskQueue.setNext_next]
    split <;> rfl
  have hprev := q.setNext_prev (q.task t).prev (q.task t).next t
  unfold taskListRemove
  rw [taskListRemove_globals]
  by_cases h : (q.task t).prev ≠ 0
  · simp only [if_pos h, hnext, hprev, TaskQueue.setNext_head, TaskQueue.setNext_tail,
      TaskQueue.setNext_current]
  · simp only [if_neg h]

/-- No removal writes a `prev` link. -/
theorem taskListRemove_prev (q : TaskQueue) (t a : Nat) :
    ((taskListRemove q t).task a).prev = (q.task a).prev := by
  rw [taskListRemove_eq]
  dsimp only
  split
  · exact q.setNext_prev _ _ a
  · rfl

theorem taskListRemove_next (q : TaskQueue) (t a : Nat) :
    ((taskListRemove q t).task a).next =
      if (q.task t).prev ≠ 0 ∧ a = (q.task t).prev then (q.task t).next else (q.task a).next := by
  rw [taskListRemove_eq]
  dsimp only
  by_cases h : (q.task t).prev ≠ 0
  · rw [if_pos h, TaskQueue.setNext_next, if_congr (and_iff_right h) rfl rfl]
  · rw [if_neg h, if_neg fun hc => h hc.1]

end Pandora
