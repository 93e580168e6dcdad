import Pandora.Process.Ghosts
import Pandora.Paging.New

/-!
# No memory for a page directory (`memory/paging/paging.c`, `task/task.c`)

`paging_new_4gb` uses what `kzalloc` answers without a look. Where one of its 1026 requests is denied, so
are all later ones, and the last of them is its result, which `task_init` tests; but it has written a table,
or the address of the directory, through a null pointer by then (`pagingNew4gb_never_fails_cleanly`).
-/

namespace Pandora

open ByteMem

/-! ## The heap stays the kernel's -/

section

variable {k : Kmem}

theorem pagingNew4gb_loop_kernel (directory flags : Nat) : ∀ (n i offset : Nat) (k : Kmem),
    k.heap.Kernel → (pagingNew4gb.loop directory flags n i offset k).heap.Kernel
  | 0, _, _, _, h => h
  | n + 1, i, offset, k, h => by
    unfold pagingNew4gb.loop
    obtain ⟨⟨entry, k₁⟩, h₁⟩ : ∃ r, kzalloc k 4096 = r := ⟨_, rfl⟩
    have hk₁ : k₁.heap.Kernel := by
      have := h.kzalloc 4096
      rwa [h₁] at this
    rw [h₁]
    dsimp only
    generalize pagingNew4gb.fill entry offset flags 1024 0 _ = m
    refine pagingNew4gb_loop_kernel directory flags n _ _ _ ?_
    simpa only [follow_heap] using hk₁

theorem pagingNew4gb_kernel (h : k.heap.Kernel) (flags : Nat) :
    (pagingNew4gb k flags).2.heap.Kernel := by
  unfold pagingNew4gb
  obtain ⟨⟨directory, k₁⟩, h₁⟩ : ∃ r, kzalloc k 4096 = r := ⟨_, rfl⟩
  have hk₁ : k₁.heap.Kernel := by
    have := h.kzalloc 4096
    rwa [h₁] at this
  rw [h₁]
  dsimp only
  have hk₂ := pagingNew4gb_loop_kernel directory flags 1024 0 0 k₁ hk₁
  generalize pagingNew4gb.loop directory flags 1024 0 0 k₁ = k₂ at hk₂ ⊢
  rw [follow_heap]
  exact hk₂.kzalloc 4

theorem pagingFree4gb_loop_kernel (chunk : Nat) : ∀ (n i : Nat) (k : Kmem),
    k.heap.Kernel → (pagingFree4gb.loop chunk n i k).heap.Kernel
  | 0, _, _, h => h
  | n + 1, i, k, h => by
    unfold pagingFree4gb.loop
    refine pagingFree4gb_loop_kernel chunk n _ _ ((?_ : Heap.Kernel _).kfree _)
    simp only [follow_heap]
    exact h

theorem pagingFree4gb_kernel (h : k.heap.Kernel) (chunk : Nat) :
    (pagingFree4gb k chunk).heap.Kernel := by
  have h₁ := pagingFree4gb_loop_kernel chunk 1024 0 k h
  unfold pagingFree4gb
  generalize pagingFree4gb.loop chunk 1024 0 k = k₁ at h₁ ⊢
  exact (h₁.kfree _).kfree _

theorem kzalloc_denied {size : Nat} (h : k.denied = true) : (kzalloc k size).2.denied = true := by
  unfold kzalloc kmalloc
  dsimp only
  split <;> simp [h]

theorem pagingNew4gb_loop_denied (directory flags : Nat) : ∀ (n i offset : Nat) (k : Kmem),
    k.denied = true → (pagingNew4gb.loop directory flags n i offset k).denied = true
  | 0, _, _, _, h => h
  | n + 1, i, offset, k, h => by
    unfold pagingNew4gb.loop
    obtain ⟨⟨entry, k₁⟩, h₁⟩ : ∃ r, kzalloc k 4096 = r := ⟨_, rfl⟩
    have hd₁ : k₁.denied = true := by
      have hd : (kzalloc k 4096).2.denied = true := kzalloc_denied h
      rwa [h₁] at hd
    rw [h₁]
    dsimp only
    generalize pagingNew4gb.fill entry offset flags 1024 0 _ = m
    refine pagingNew4gb_loop_denied directory flags n _ _ _ ?_
    simpa only [follow_denied] using hd₁

theorem pagingNew4gb_denied {flags : Nat} (h : kzalloc k 4096 = (0, k.deny)) :
    (pagingNew4gb k flags).2.denied = true := by
  have hloop := pagingNew4gb_loop_denied 0 flags 1024 0 0 k.deny rfl
  unfold pagingNew4gb
  rw [h]
  dsimp only
  generalize pagingNew4gb.loop 0 flags 1024 0 0 k.deny = k₁ at hloop ⊢
  rw [follow_denied]
  exact kzalloc_denied hloop

end

/-! ## What a failure should leave -/

/-- The flags of a task. -/
def taskPagingFlags : Nat := pagingIsPresent ||| pagingAccessFromAll

/-- One of the requests is answered with null. -/
def PagingDenied (k : Kmem) (flags : Nat) : Prop :=
  k.denied = false ∧ (pagingNew4gb k flags).2.denied = true

/-- `task_new`, once it has its block, answers an error, and that block is free. -/
def TaskGivesUp (σ : Type) (k : Kmem) : Prop :=
  ∀ (K : Kernel σ) (process b : Nat) (K₁ : Kernel σ), b < 25600 →
    K.kzalloc sizeofTask = (blockAddr b, K₁) → K₁.kmem = k →
    iserr (taskNew K process).1 ∧ Free ((taskNew K process).2.entries b)

/-- `paging_new_4gb` answers null, has followed no null pointer and leaves the block table; and the task
is given up. -/
structure DirectoryFailsCleanly (σ : Type) (k : Kmem) (flags : Nat) : Prop where
  null : (pagingNew4gb k flags).1 = 0
  writes : (pagingNew4gb k flags).2.fault = false
  blocks : ∀ b, (pagingNew4gb k flags).2.heap.table.entries b = k.heap.table.entries b
  task : flags = taskPagingFlags → TaskGivesUp σ k

section

variable {σ : Type} {k : Kmem} {flags : Nat}

/-- It answers null, and has followed it. -/
theorem PagingDenied.null (h : PagingDenied k flags) (hk : k.heap.Kernel) (hf : flags < 4096) :
    ∃ k', pagingNew4gb k flags = (0, k') ∧ k'.fault = true := by
  obtain ⟨hd, hden⟩ := h
  rcases pagingNew4gb_cases hk hf with ⟨chunk, k', dir, table, he, hnew⟩ | ⟨-, hfault⟩
  · rw [he] at hden
    rw [hnew.quiet.denied, hd] at hden
    cases hden
  · exact hfault

/-- **Running out of memory is never clean**: null is answered, but behind a write through it. -/
theorem pagingNew4gb_never_fails_cleanly (hk : k.heap.Kernel) (hf : flags < 4096)
    (h : PagingDenied k flags) : ¬ DirectoryFailsCleanly σ k flags := by
  obtain ⟨k', he, hfault⟩ := h.null hk hf
  intro hclean
  have hwrites := hclean.writes
  rw [he, hfault] at hwrites
  cases hwrites

/-- The task itself is given up. -/
theorem PagingDenied.taskGivesUp (h : PagingDenied k taskPagingFlags) (hk : k.heap.Kernel) :
    TaskGivesUp σ k := by
  intro K process b K₁ hb hz hk₁
  obtain ⟨k', he, -⟩ := h.null hk (by decide)
  have hinit : taskInit K₁ (blockAddr b) process =
      (-eio, Kernel.setTask { K₁ with kmem := k' } (blockAddr b) {}) := by
    unfold taskInit
    rw [hk₁]
    have he' : pagingNew4gb k (pagingIsPresent ||| pagingAccessFromAll) = (0, k') := he
    rw [he']
    rfl
  obtain ⟨K₂, hK₂⟩ : ∃ K₂, Kernel.setTask { K₁ with kmem := k' } (blockAddr b) {} = K₂ := ⟨_, rfl⟩
  have hnew : taskNew K process = (Word.ofInt (-eio), taskFree K₂ (blockAddr b)) := by
    unfold taskNew
    rw [hz]
    dsimp only
    rw [if_neg (blockAddr_ne_zero b), hinit, hK₂]
    rfl
  rw [hnew]
  refine ⟨iserr_neg (by decide) (by decide), ?_⟩
  have hkernel : K₂.kmem.heap.Kernel := by
    have := pagingNew4gb_kernel hk taskPagingFlags
    rw [he] at this
    exact hK₂ ▸ this
  have hfollow : (K₂.follow (blockAddr b)).kmem.heap.Kernel := by
    unfold Kernel.follow
    rw [follow_heap]
    exact hkernel
  have hpaging := pagingFree4gb_kernel hfollow
    ((K₂.follow (blockAddr b)).queue.task (blockAddr b)).pageDirectory
  unfold taskFree
  dsimp only
  generalize pagingFree4gb _ _ = k₃ at hpaging ⊢
  exact kfree_free hpaging hb

end

/-! ## A full heap -/

/-- Every block is taken. -/
def fullKmem : Kmem where
  heap := { saddr := 0x01000000, table := { entries := fun _ => entryTaken ||| isFirst, total := 25600 } }
  mem := fun _ => 0

theorem fullKmem_denied : PagingDenied fullKmem taskPagingFlags := by
  have hfull : kzalloc fullKmem 4096 = (0, fullKmem.deny) := by
    rcases kzalloc_page (k := fullKmem) ⟨rfl, rfl⟩ 4096 (by decide) (by decide) with
      ⟨b, -, hfree, -, -⟩ | ⟨he, -⟩
    · exact absurd hfree (by decide : ¬ Free (entryTaken ||| isFirst))
    · exact he
  exact ⟨rfl, pagingNew4gb_denied hfull⟩

theorem pagingNew4gb_full : ¬ DirectoryFailsCleanly Unit fullKmem taskPagingFlags :=
  pagingNew4gb_never_fails_cleanly ⟨rfl, rfl⟩ (by decide) fullKmem_denied

/-- On a full heap each table is written at the address null. -/
theorem pagingNew4gb_full_writes :
    PagingDenied fullKmem taskPagingFlags ∧
      (pagingNew4gb fullKmem taskPagingFlags).2.fault = true ∧
      ¬ DirectoryFailsCleanly Unit fullKmem taskPagingFlags := by
  obtain ⟨k', he, hfault⟩ := fullKmem_denied.null ⟨rfl, rfl⟩ (by decide)
  refine ⟨fullKmem_denied, by rw [he]; exact hfault, fun hclean => ?_⟩
  have hwrites := hclean.writes
  rw [he, hfault] at hwrites
  cases hwrites

end Pandora
