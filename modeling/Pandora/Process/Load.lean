import Pandora.Process.Frame

/-!
# Loads that succeed

What a load did when it succeeded, call by call: `elfLoad_success`, `processLoadData_success` and
`processLoad_success` name the kernel after each of the calls.
-/

namespace Pandora

open ByteMem

section

variable {σ : Type} {F : FileLayer σ} {K K' : Kernel σ} {filename : List UInt8}
  {process out stale : Nat} {res : Int}

/-- The first free slot, or all are taken. -/
theorem processGetFreeSlot_cases (K : Kernel σ) :
    (∃ i < maxProcesses, processGetFreeSlot K = i ∧ K.processes i = 0 ∧
      ∀ j < i, K.processes j ≠ 0) ∨
    (processGetFreeSlot K = -eistkn ∧ ∀ i < maxProcesses, K.processes i ≠ 0) := by
  unfold processGetFreeSlot
  cases hf : (List.range maxProcesses).find? fun i => K.processes i = 0 with
  | some i =>
    obtain ⟨hi, hlt, hbefore⟩ := List.find?_range_eq_some.1 hf
    exact .inl ⟨i, List.mem_range.1 hlt, rfl, of_decide_eq_true hi,
      fun j hj => by simpa using hbefore j hj⟩
  | none =>
    refine .inr ⟨rfl, fun i hi => ?_⟩
    have := List.find?_eq_none.1 hf i (List.mem_range.2 hi)
    simpa using this

theorem elfProcessLoaded_cases (K : Kernel σ) (elfFile : Nat) :
    (elfProcessLoaded K elfFile).1 = allOk ∨ (elfProcessLoaded K elfFile).1 = -einformat := by
  unfold elfProcessLoaded
  dsimp only
  split
  · unfold elfValidateLoaded
    split
    · exact .inl rfl
    · exact .inr rfl
  · exact .inl rfl

theorem toInt_blockAddr_ne_zero {b : Nat} (hb : b < 25600) : Word.toInt (blockAddr b) ≠ 0 := by
  have := blockAddr_lt hb
  have := blockAddr_ne_zero b
  rw [Word.toInt_of_lt (by omega)]
  omega

/-- The calls of `process_load_for_slot` from the task on, where there is one. -/
theorem processLoadForSlot_task_eq (out : Nat) {processSlot b : Nat} {K₁ : Kernel σ}
    (hb : b < 25600)
    (ht : taskNew (K.setProcess process { K.processAt process with id := processSlot }) process =
      (blockAddr b, K₁)) :
    ∃ res K₂, processMapMemory (K₁.setProcess process
        { K₁.processAt process with task := blockAddr b }) process = (res, K₂) ∧
      processLoadForSlot.task K out process processSlot =
        if res < 0 then (res, 0, processFreeProcess K₂ process)
        else (res, process,
          { K₂ with processes := Function.update K₂.processes processSlot process }) := by
  unfold processLoadForSlot.task
  dsimp only
  rw [ht]
  dsimp only
  rw [if_neg (toInt_blockAddr_ne_zero hb)]
  obtain ⟨⟨res, K₂⟩, hm⟩ : ∃ r, processMapMemory (K₁.setProcess process
    { K₁.processAt process with task := blockAddr b }) process = r := ⟨_, rfl⟩
  refine ⟨res, K₂, hm, ?_⟩
  rw [hm]
  dsimp only
  by_cases hres : res < 0
  · rw [if_pos hres, if_pos hres]
    unfold processLoadForSlot.out
    rw [if_pos hres]
  · rw [if_neg hres, if_neg hres]

/-- The calls of `process_load_for_slot` from the task on, where it succeeds. -/
theorem processLoadForSlot_task_success {processSlot b : Nat} {K₁ : Kernel σ} (hb : b < 25600)
    (ht : taskNew (K.setProcess process { K.processAt process with id := processSlot }) process =
      (blockAddr b, K₁)) (h : 0 ≤ (processLoadForSlot.task K out process processSlot).1) :
    ∃ K₂, processMapMemory (K₁.setProcess process
        { K₁.processAt process with task := blockAddr b }) process =
        ((processLoadForSlot.task K out process processSlot).1, K₂) ∧
      processLoadForSlot.task K out process processSlot =
        ((processLoadForSlot.task K out process processSlot).1, process,
          { K₂ with processes := Function.update K₂.processes processSlot process }) := by
  obtain ⟨res, K₂, hmap, he⟩ := processLoadForSlot_task_eq out hb ht
  rw [he] at h ⊢
  by_cases hres : res < 0
  · rw [if_pos hres] at h
    exact absurd h (not_le.2 hres)
  · rw [if_neg hres]
    exact ⟨K₂, hmap, rfl⟩

/-- The calls of `process_load_for_slot` once the process is allocated. -/
theorem processLoadForSlot_process_eq (out processSlot : Nat) {stack : Nat} {K₁ K₂ : Kernel σ}
    (hd : processLoadData F (K.setProcess process {}) filename process = (res, K₁))
    (hz : K₁.kzalloc userProgramStackSize = (stack, K₂)) :
    processLoadForSlot.process F K filename out process processSlot =
      if res < 0 then (res, 0, processFreeProcess K₁ process)
      else if stack = 0 then (-enomem, 0, processFreeProcess (K₂.setProcess process
        { K₂.processAt process with stack := stack }) process)
      else processLoadForSlot.task (K₂.setProcess process
        { K₂.processAt process with stack := stack }) out process processSlot := by
  unfold processLoadForSlot.process processLoadForSlot.out
  dsimp only
  rw [hd]
  dsimp only
  by_cases hres : res < 0
  · rw [if_pos hres, if_pos hres, if_pos hres]
  rw [if_neg hres, if_neg hres, hz]
  dsimp only
  by_cases hstack : stack = 0
  · rw [if_pos hstack, if_pos hstack, if_pos (by decide)]
  · rw [if_neg hstack, if_neg hstack]

/-- The calls of `process_load`: no slot is free, or the first free one is loaded. -/
theorem processLoad_cases (F : FileLayer σ) (K : Kernel σ) (filename : List UInt8) (out stale : Nat) :
    ((∀ i < maxProcesses, K.processes i ≠ 0) ∧
      processLoad F K filename out stale = (-eistkn, out, K)) ∨
    ∃ processSlot < maxProcesses, K.processes processSlot = 0 ∧
      processGetFreeSlot K = processSlot ∧ (∀ j < processSlot, K.processes j ≠ 0) ∧
      ∃ process K₁, K.kzalloc sizeofProcess = (process, K₁) ∧
        processLoad F K filename out stale =
          if process = 0 then (-enomem, out, K₁)
          else processLoadForSlot.process F K₁ filename out process processSlot := by
  rcases processGetFreeSlot_cases K with ⟨slot, hslot, hget, hzero, hbefore⟩ | ⟨hget, hall⟩
  · obtain ⟨⟨process, K₁⟩, hz⟩ : ∃ r, K.kzalloc sizeofProcess = r := ⟨_, rfl⟩
    refine .inr ⟨slot, hslot, hzero, hget, hbefore, process, K₁, hz, ?_⟩
    have hempty : processGet K slot = 0 := by
      unfold processGet
      rw [if_neg (by omega), hzero]
    unfold processLoad
    dsimp only
    rw [if_neg (show ¬ processGetFreeSlot K < 0 by omega), hget, Int.toNat_natCast]
    unfold processLoadForSlot
    rw [if_neg (not_not_intro hempty), hz]
  · refine .inl ⟨hall, ?_⟩
    unfold processLoad
    dsimp only
    rw [hget, if_pos (by decide)]

/-- The calls of `process_load_for_slot` once the process is allocated, where it succeeds. -/
theorem processLoadForSlot_process_success {processSlot : Nat}
    (h : 0 ≤ (processLoadForSlot.process F K filename out process processSlot).1) :
    ∃ K₁ stack K₂, 0 ≤ (processLoadData F (K.setProcess process {}) filename process).1 ∧
      (processLoadData F (K.setProcess process {}) filename process).2 = K₁ ∧
      K₁.kzalloc userProgramStackSize = (stack, K₂) ∧ stack ≠ 0 ∧
      processLoadForSlot.process F K filename out process processSlot =
        processLoadForSlot.task (K₂.setProcess process
          { K₂.processAt process with stack := stack }) out process processSlot := by
  obtain ⟨⟨res, K₁⟩, hd⟩ : ∃ r, processLoadData F (K.setProcess process {}) filename process = r :=
    ⟨_, rfl⟩
  obtain ⟨⟨stack, K₂⟩, hz⟩ : ∃ r, K₁.kzalloc userProgramStackSize = r := ⟨_, rfl⟩
  rw [processLoadForSlot_process_eq out processSlot hd hz] at h ⊢
  by_cases hres : res < 0
  · rw [if_pos hres] at h
    exact absurd h (not_le.2 hres)
  rw [if_neg hres] at h ⊢
  by_cases hstack : stack = 0
  · rw [if_pos hstack] at h
    exact absurd h (show ¬ 0 ≤ -enomem by decide)
  · rw [if_neg hstack, hd]
    exact ⟨K₁, stack, K₂, not_lt.1 hres, rfl, hz, hstack, rfl⟩

/-- The calls of a successful `process_load`. -/
theorem processLoad_success (h : 0 ≤ (processLoad F K filename out stale).1) :
    ∃ processSlot < maxProcesses, ∃ process K₁, K.processes processSlot = 0 ∧
      processGetFreeSlot K = processSlot ∧
      K.kzalloc sizeofProcess = (process, K₁) ∧ process ≠ 0 ∧
      processLoad F K filename out stale =
        processLoadForSlot.process F K₁ filename out process processSlot := by
  rcases processLoad_cases F K filename out stale with
    ⟨-, he⟩ | ⟨slot, hslot, hzero, hget, -, process, K₁, hz, he⟩
  · rw [he] at h
    exact absurd h (show ¬ 0 ≤ -eistkn by decide)
  · rw [he] at h ⊢
    by_cases hp : process = 0
    · rw [if_pos hp] at h
      exact absurd h (show ¬ 0 ≤ -enomem by decide)
    · rw [if_neg hp]
      exact ⟨slot, hslot, process, K₁, hzero, hget, hz, hp, rfl⟩

end

end Pandora
