import Pandora.Lib.Linked
import Pandora.Lib.Run
import Pandora.Task.Queue

/-!
# Runs of the task list

`TaskRun.live` is the list of live tasks in creation order. `TaskRun.Ok` says that the task list is
that list, linked both ways, with `current` in it. `task_list_remove` links the predecessor of the
removed task on but leaves the `prev` link of its successor: it keeps `Ok` exactly when there is no
successor (`free_ok_iff`), so a run stays `Ok` exactly as long as only the last task is freed
(`task_list_ok_iff`).
-/

namespace Pandora

open Linked

structure TaskRun where
  queue : TaskQueue
  live : List Nat

inductive TaskOp where
  | new (task : Nat)
  | free (task : Nat)
  | switch (task : Nat)
deriving DecidableEq, Repr

/-- One call. `task_new` gets a zeroed structure at the address `task` from `kzalloc`; only its
links matter to the list. -/
def TaskOp.step (s : TaskRun) : TaskOp → TaskRun
  | new t => ⟨taskLink (s.queue.set t {}) t, s.live ++ [t]⟩
  | free t => ⟨taskListRemove s.queue t, s.live.erase t⟩
  | switch t => ⟨{ s.queue with current := t }, s.live⟩

/-- New structures are not null and not live; the others take live tasks. -/
def TaskOp.Valid (s : TaskRun) : TaskOp → Prop
  | new t => t ≠ 0 ∧ t ∉ s.live
  | free t => t ∈ s.live
  | switch t => t ∈ s.live

/-- A freed task is the last of the list. -/
def TaskOp.FreesLast (s : TaskRun) : TaskOp → Prop
  | free t => s.live.getLast? = some t
  | _ => True

/-- The task list is the list of live tasks, linked both ways, and `current` is one of them. -/
structure TaskRun.Ok (s : TaskRun) : Prop where
  forward : Walk (fun a => (s.queue.task a).next) 0 s.queue.head s.live
  backward : Walk (fun a => (s.queue.task a).prev) 0 s.queue.tail s.live.reverse
  current : s.live ≠ [] → s.queue.current ∈ s.live
  getNext : s.live ≠ [] → taskGetNext s.queue ∈ s.live

/-- `task_get_next` returns a live task where `current` is one. -/
theorem getNext_mem {q : TaskQueue} {live : List Nat}
    (hf : Walk (fun a => (q.task a).next) 0 q.head live) (hc : q.current ∈ live) :
    taskGetNext q ∈ live := by
  unfold taskGetNext
  split
  · cases live with
    | nil => simp at hc
    | cons a l => exact hf.head ▸ List.mem_cons_self
  · rename_i h
    obtain ⟨l₁, l₂, rfl⟩ := List.append_of_mem hc
    cases l₂ with
    | nil => exact absurd hf.last h
    | cons b l₂ => exact hf.after.head ▸ by simp

theorem TaskRun.Ok.of {s : TaskRun}
    (hf : Walk (fun a => (s.queue.task a).next) 0 s.queue.head s.live)
    (hb : Walk (fun a => (s.queue.task a).prev) 0 s.queue.tail s.live.reverse)
    (hc : s.live ≠ [] → s.queue.current ∈ s.live) : s.Ok :=
  ⟨hf, hb, hc, fun h => getNext_mem hf (hc h)⟩

/-! ## `task_new` -/

theorem new_ok {s : TaskRun} (h : s.Ok) {t : Nat} (ht : t ≠ 0) (hfresh : t ∉ s.live) :
    TaskRun.Ok ((TaskOp.new t).step s) := by
  obtain ⟨q, live⟩ := s
  have hzero : (q.set t {}).task t = {} := by rw [TaskQueue.set_task, if_pos rfl]
  have hother : ∀ a ∈ live, (q.set t {}).task a = q.task a := fun a ha => by
    rw [TaskQueue.set_task, if_neg]
    rintro rfl
    exact hfresh ha
  have hf : Walk (fun a => ((q.set t {}).task a).next) 0 q.head live :=
    h.forward.congr fun a ha => by rw [hother a ha]
  have hb : Walk (fun a => ((q.set t {}).task a).prev) 0 q.tail live.reverse :=
    h.backward.congr fun a ha => by rw [hother a (List.mem_reverse.1 ha)]
  rcases List.eq_nil_or_concat live with rfl | ⟨l, a, rfl⟩
  · -- the list was empty
    have hhead : q.head = 0 := hf
    have hlink : taskLink (q.set t {}) t = { q.set t {} with head := t, tail := t, current := t } :=
      taskLink_empty (q := q.set t {}) hhead t
    refine .of ?_ ?_ fun _ => ?_ <;> simp [TaskOp.step, hlink, hzero, ht]
  · simp only [List.concat_eq_append] at *
    have hhead : q.head ≠ 0 := by
      cases l with
      | nil => exact hf.head ▸ hf.2.1
      | cons b l => exact hf.head ▸ hf.2.1
    have htail : q.tail = a := by
      rw [List.reverse_append] at hb
      exact hb.head
    have hlink : taskLink (q.set t {}) t =
        { ((q.set t {}).setNext a t).setPrev t a with tail := t } :=
      htail ▸ taskLink_tail (q := q.set t {}) hhead t
    have hnd : (l ++ [a]).Nodup := h.forward.nodup
    have hat : a ≠ t := fun he => hfresh (by simp [he])
    have hal : ∀ b ∈ l, b ≠ a := fun b hb he =>
      (List.nodup_append.1 hnd).2.2 b hb a (by simp) he
    have hlt : ∀ b ∈ l, b ≠ t := fun b hb he => hfresh (by simp [← he, hb])
    refine .of ?_ ?_ fun _ => ?_
    · simp only [TaskOp.step, hlink, TaskQueue.setPrev_next, TaskQueue.setNext_next,
        TaskQueue.setNext_head, TaskQueue.setPrev_head, TaskQueue.set_head, List.append_assoc,
        List.cons_append, List.nil_append]
      refine hf.snoc ht ?_ (fun b hb => ?_) ?_
      · rw [if_pos rfl]
      · rw [if_neg (hal b hb)]
      · rw [if_neg (Ne.symm hat), hzero]
    · simp only [TaskOp.step, hlink, TaskQueue.setPrev_prev, TaskQueue.setNext_prev,
        List.reverse_append, List.reverse_cons, List.reverse_nil, List.nil_append,
        List.cons_append]
      refine ⟨rfl, ht, ?_⟩
      rw [List.reverse_append] at hb
      beta_reduce
      rw [if_pos rfl]
      refine (htail ▸ hb).congr fun b hb => ?_
      rw [if_neg]
      rcases List.mem_cons.1 hb with rfl | hb
      · exact hat
      · exact hlt b (List.mem_reverse.1 hb)
    · have hc : q.current ∈ l ++ [a] := h.current (by simp)
      simp only [TaskOp.step, hlink, TaskQueue.setPrev_current, TaskQueue.setNext_current,
        TaskQueue.set_current]
      exact List.mem_append_left _ hc

/-! ## `task_free` -/

theorem free_last_ok {s : TaskRun} (h : s.Ok) {l : List Nat} {t : Nat} (hl : s.live = l ++ [t]) :
    TaskRun.Ok ((TaskOp.free t).step s) := by
  obtain ⟨q, live⟩ := s
  simp only at hl
  subst hl
  have hf := h.forward
  have hb := h.backward
  simp only [List.reverse_append, List.reverse_cons, List.reverse_nil, List.nil_append,
    List.cons_append] at hf hb
  have hnd := hf.nodup
  have htl : t ∉ l := fun ht => (List.nodup_append.1 hnd).2.2 t ht t (by simp) rfl
  have hnext : (q.task t).next = 0 := hf.last
  have htail : t = q.tail := hb.head.symm
  have herase : (l ++ [t]).erase t = l := by
    rw [List.erase_append_right _ htl]
    simp
  have hprev : Walk (fun a => (q.task a).prev) 0 (q.task t).prev l.reverse := hb.2.2
  have hfor : Walk (fun a => ((taskListRemove q t).task a).next) 0 (taskListRemove q t).head l := by
    rw [taskListRemove_eq]
    rcases List.eq_nil_or_concat l with rfl | ⟨l', a, rfl⟩
    · have : t = q.head := hf.head.symm
      simp only [if_pos this, hnext, walk_nil]
    · simp only [List.concat_eq_append] at *
      rw [List.reverse_append] at hprev
      have ha : (q.task t).prev = a := hprev.head
      have ha0 : a ≠ 0 := hprev.2.1
      have hhead : t ≠ q.head := by
        intro he
        cases l' with
        | nil => exact htl (by simp [he, hf.head])
        | cons b l' => exact htl (by simp [he, hf.head])
      simp only [ha, ha0, ne_eq, not_false_eq_true, if_true, if_neg hhead, TaskQueue.setNext_next,
        hnext]
      rw [List.append_assoc] at hf
      refine Walk.cut (m := [t]) hf (by simp) fun b hbl => ?_
      rw [if_neg]
      rintro rfl
      exact (List.nodup_append.1 (List.nodup_append.1 hnd).1).2.2 b hbl b (by simp) rfl
  have hback : Walk (fun a => ((taskListRemove q t).task a).prev) 0 (taskListRemove q t).tail
      l.reverse := by
    simp only [taskListRemove_prev]
    rw [taskListRemove_eq]
    simp only [if_pos htail]
    exact hprev
  refine .of ?_ ?_ fun hne => ?_
  · simpa only [TaskOp.step, herase] using hfor
  · simpa only [TaskOp.step, herase] using hback
  · simp only [TaskOp.step, herase] at hne ⊢
    have hcur := h.current (by simp)
    rw [taskListRemove_eq]
    simp only
    split
    · -- the last task was current: the head takes over
      simp only [hnext]
      cases l with
      | nil => exact absurd rfl hne
      | cons b l =>
        have hb : q.head = b := hf.head
        have : t ≠ q.head := fun he => htl (by simp [he, hb])
        rw [if_neg this, hb]
        exact List.mem_cons_self
    · rename_i hct
      rcases List.mem_append.1 hcur with hm | hm
      · exact hm
      · exact absurd (List.mem_singleton.1 hm).symm hct

/-- The list is as it was: its ends, the current task, and the structures of its tasks. -/
structure SameTasks (q q' : TaskQueue) (live : List Nat) : Prop where
  head : q'.head = q.head
  tail : q'.tail = q.tail
  current : q'.current = q.current
  task : ∀ t ∈ live, q'.task t = q.task t

theorem SameTasks.refl (q : TaskQueue) (live : List Nat) : SameTasks q q live :=
  ⟨rfl, rfl, rfl, fun _ _ => rfl⟩

/-- The only task, removed again, leaves the list empty. -/
theorem taskListRemove_taskLink_nil {q : TaskQueue} (hhead : q.head = 0) (htail : q.tail = 0)
    (hcurrent : q.current = 0) {t : Nat} {v : Task} (hnext : v.next = 0) (hprev : v.prev = 0) :
    SameTasks q (taskListRemove (taskLink (q.set t v) t) t) [] := by
  have hset : (q.set t v).task t = v := by rw [TaskQueue.set_task, if_pos rfl]
  have hlink : taskLink (q.set t v) t =
      { q.set t v with head := t, tail := t, current := t } := if_pos hhead
  have hremove : taskListRemove (taskLink (q.set t v) t) t =
      { q.set t v with head := 0, tail := 0, current := 0 } := by
    unfold taskListRemove taskGetNext
    simp [hlink, hset, hnext, hprev]
  rw [hremove]
  exact ⟨hhead.symm, htail.symm, hcurrent.symm, by simp⟩

/-- A new task that is removed again leaves the list as it was. -/
theorem taskListRemove_taskLink {q : TaskQueue} {live : List Nat}
    (hf : Walk (fun a => (q.task a).next) 0 q.head live) (hlive : live.getLast? = some q.tail)
    (hc : q.current ∈ live) {t : Nat} (hfresh : t ∉ live) {v : Task} (hnext : v.next = 0) :
    SameTasks q (taskListRemove (taskLink (q.set t v) t) t) live := by
  obtain ⟨a, htail⟩ : ∃ a, q.tail = a := ⟨_, rfl⟩
  rw [htail] at hlive
  obtain ⟨l, rfl⟩ := List.getLast?_eq_some_iff.1 hlive
  have ha0 : a ≠ 0 := hf.ne_null (by simp)
  have hat : a ≠ t := fun he => hfresh (by simp [he])
  have hmem : q.head ∈ l ++ [a] := by
    cases l with
    | nil => exact hf.head ▸ List.mem_cons_self
    | cons b l => exact hf.head ▸ List.mem_cons_self
  have hhead : q.head ≠ 0 := hf.ne_null hmem
  have hth : t ≠ q.head := fun he => hfresh (he ▸ hmem)
  have htc : t ≠ q.current := fun he => hfresh (he ▸ hc)
  have hlast : (q.task a).next = 0 := hf.last
  -- the new task, linked behind `a`
  obtain ⟨q₁, hq₁⟩ : ∃ q₁, ((q.set t v).setNext a t).setPrev t a = q₁ := ⟨_, rfl⟩
  have hlink : taskLink (q.set t v) t = { q₁ with tail := t } := by
    rw [← hq₁, ← htail]
    exact taskLink_tail (q := q.set t v) hhead t
  have hset : (q.set t v).task t = v := by rw [TaskQueue.set_task, if_pos rfl]
  have hprev₁ : (q₁.task t).prev = a := by rw [← hq₁, TaskQueue.setPrev_prev, if_pos rfl]
  have hnext₁ : (q₁.task t).next = 0 := by
    rw [← hq₁, TaskQueue.setPrev_next, TaskQueue.setNext_next, if_neg (Ne.symm hat), hset, hnext]
  have htask₁ : ∀ b ≠ t, b ≠ a → q₁.task b = q.task b := fun b hbt hba => by
    rw [← hq₁]
    unfold TaskQueue.setPrev TaskQueue.setNext
    rw [TaskQueue.set_task, if_neg hbt, TaskQueue.set_task, if_neg hba, TaskQueue.set_task, if_neg hbt]
  have hend₁ : q₁.task a = { q.task a with next := t } := by
    rw [← hq₁]
    unfold TaskQueue.setPrev TaskQueue.setNext
    rw [TaskQueue.set_task, if_neg hat, TaskQueue.set_task, if_pos rfl, TaskQueue.set_task, if_neg hat]
  have hglobals : q₁.head = q.head ∧ q₁.current = q.current := by
    rw [← hq₁]
    exact ⟨rfl, rfl⟩
  rw [hlink, taskListRemove_eq]
  dsimp only
  rw [hprev₁, hnext₁, if_pos ha0, if_pos rfl, hglobals.1, hglobals.2, if_neg hth, if_neg htc]
  refine ⟨rfl, htail.symm, rfl, fun b hb => ?_⟩
  have hbt : b ≠ t := fun he => hfresh (he ▸ hb)
  unfold TaskQueue.setNext
  dsimp only
  rw [TaskQueue.set_task]
  split
  · rename_i hba
    rw [hba, hend₁]
    dsimp only
    rw [← hlast]
  · rename_i hba
    exact htask₁ b hbt hba

/-- Freeing a task that has a successor leaves the successor's `prev` link at the freed task. -/
theorem free_inner_not_ok {s : TaskRun} (h : s.Ok) {l m : List Nat} {t u : Nat}
    (hl : s.live = l ++ t :: u :: m) : ¬ TaskRun.Ok ((TaskOp.free t).step s) := by
  obtain ⟨q, live⟩ := s
  simp only at hl
  subst hl
  have hnd := h.forward.nodup
  have htl : t ∉ l := fun ht => (List.nodup_append.1 hnd).2.2 t ht t (by simp) rfl
  have hback : Walk (fun a => (q.task a).prev) 0 q.tail (m.reverse ++ u :: t :: l.reverse) := by
    simpa using h.backward
  have hprev : (q.task u).prev = t := hback.after.head
  have ht0 : t ≠ 0 := hback.after.2.1
  have herase : (l ++ t :: u :: m).erase t = l ++ u :: m := by
    rw [List.erase_append_right _ htl]
    simp
  intro hok
  have hb := hok.backward
  simp only [TaskOp.step, herase, taskListRemove_prev, List.reverse_append, List.reverse_cons,
    List.append_assoc, List.cons_append, List.nil_append] at hb
  have hu := hb.after
  rw [hprev] at hu
  rcases hl : l.reverse with _ | ⟨a, l'⟩
  · rw [hl] at hu
    exact ht0 hu
  · rw [hl] at hu
    have : t ∈ l := by rw [← List.mem_reverse, hl, hu.head]; exact List.mem_cons_self
    exact htl this

theorem free_ok_iff {s : TaskRun} (h : s.Ok) {t : Nat} (ht : t ∈ s.live) :
    TaskRun.Ok ((TaskOp.free t).step s) ↔ s.live.getLast? = some t := by
  constructor
  · intro hok
    obtain ⟨l, m, hl⟩ := List.append_of_mem ht
    cases m with
    | nil => simp [hl]
    | cons u m => exact absurd hok (free_inner_not_ok h hl)
  · intro hlast
    obtain ⟨l, hl⟩ := List.getLast?_eq_some_iff.1 hlast
    exact free_last_ok h hl

/-! ## Runs -/

theorem step_ok_iff {s : TaskRun} {op : TaskOp} (h : s.Ok) (hv : op.Valid s) :
    TaskRun.Ok (op.step s) ↔ op.FreesLast s := by
  cases op with
  | new t => exact iff_of_true (new_ok h hv.1 hv.2) trivial
  | free t => exact free_ok_iff h hv
  | switch t => exact iff_of_true (.of h.forward h.backward fun _ => hv) trivial

theorem boot_ok (task : Nat → Task) : TaskRun.Ok ⟨{ task }, []⟩ :=
  .of rfl rfl fun h => absurd rfl h

/-- **The task list over whole runs**: from the boot state, the list is the list of live tasks after
every step of a run exactly when each freed task is the last of the list when it is freed. -/
theorem task_list_ok_iff (task : Nat → Task) {ops : List TaskOp}
    (hv : Run.Steps TaskOp.step TaskOp.Valid ⟨{ task }, []⟩ ops) :
    Run.Steps TaskOp.step (fun s op => TaskRun.Ok (op.step s)) ⟨{ task }, []⟩ ops ↔
      Run.Steps TaskOp.step TaskOp.FreesLast ⟨{ task }, []⟩ ops :=
  Run.inv_iff (fun _ _ hi hv => step_ok_iff hi hv) (boot_ok task) hv

theorem task_list_ok_iff_pair :
    Run.Steps TaskOp.step (fun s op => TaskRun.Ok (op.step s)) ⟨{ task := fun _ => {} }, []⟩
        [.new 0x1000000, .new 0x1001000, .free 0x1001000] ↔
      Run.Steps TaskOp.step TaskOp.FreesLast ⟨{ task := fun _ => {} }, []⟩
        [.new 0x1000000, .new 0x1001000, .free 0x1001000] :=
  task_list_ok_iff _ (by simp [TaskOp.step, TaskOp.Valid])

/-- Two tasks, the first freed: `prev` from the tail still leads to it. -/
theorem task_list_stale_prev :
    Run.Steps TaskOp.step TaskOp.Valid ⟨{ task := fun _ => {} }, []⟩
        [.new 0x1000000, .new 0x1001000, .free 0x1000000] ∧
      ¬ TaskRun.Ok (Run.exec TaskOp.step ⟨{ task := fun _ => {} }, []⟩
        [.new 0x1000000, .new 0x1001000, .free 0x1000000]) := by
  refine ⟨by simp [TaskOp.step, TaskOp.Valid], ?_⟩
  have h1 : TaskRun.Ok ((TaskOp.new 0x1000000).step ⟨{ task := fun _ => {} }, []⟩) :=
    new_ok (boot_ok _) (by decide) (by simp)
  exact free_inner_not_ok (l := []) (m := []) (new_ok h1 (by decide) (by simp [TaskOp.step])) rfl

end Pandora
