import Pandora.Process.Aliases
import Pandora.Process.Faultless

/-!
# Loads that fail (`task/process.c`)

`process_load_for_slot` has many points at which it can fail, and one label behind them all. What it
should leave then is nothing: the table, the current process, the list of the tasks and the blocks of
the heap are as before, and no bad pointer was followed on the way (`LoadsCleanly`). It does so exactly
where the requests that are not checked are served, and `_process` is null where the slot is taken
(`load_fails_cleanly_iff`).
-/

namespace Pandora

open ByteMem

/-! ## What a failure should leave -/

section

variable {σ : Type}

/-- The list of the tasks: none, or `live`, in blocks that are allocated. -/
def Kernel.TaskList (owned : σ → Nat → Prop) (K : Kernel σ) (live : List Nat) : Prop :=
  (live = [] ∧ K.queue.head = 0 ∧ K.queue.tail = 0 ∧ K.queue.current = 0) ∨
    TasksIn (K.Allocated owned) K.queue live

/-- Nothing is left of what was done between `K` and `K'`, but by the file layer. -/
structure Traceless (owned : σ → Nat → Prop) (K K' : Kernel σ) (live : List Nat) : Prop where
  processes : K'.processes = K.processes
  current : K'.currentProcess = K.currentProcess
  tasks : SameTasks K.queue K'.queue live
  blocks : ∀ b, K'.Allocated owned b ↔ K.Allocated owned b

/-- `r` is the answer of `process_load_for_slot`: it has failed without a trace, or all that a process
needs is there; and no pointer that is null, uninitialised or an error code was followed. -/
structure LoadsCleanly (owned : σ → Nat → Prop) (K : Kernel σ) (slot : Nat) (live : List Nat)
    (r : Int × Nat × Kernel σ) : Prop where
  pointers : r.2.2.kmem.fault = false
  failure : r.1 < 0 → Traceless owned K r.2.2 live
  success : 0 ≤ r.1 → Entered K r.2.2 r.2.1 slot ∧ ∃ obj dir, ∃ table : Nat → Nat,
    Live r.2.2 r.2.1 obj dir pagingUserWriteable table

/-- The condition (module doc): the data are loaded without a fault, and 1027 blocks are free when the
task is made. -/
structure LoadServed (F : FileLayer σ) (K : Kernel σ) (filename : List UInt8) (stale slot : Nat) :
    Prop where
  unused : processGet K slot ≠ 0 → stale = 0
  data : processGet K slot = 0 → ∀ process K₁, K.kzalloc sizeofProcess = (process, K₁) →
    process ≠ 0 → DataServed F (K₁.setProcess process {}) filename
  task : processGet K slot = 0 → ∀ process K₁ stack K₂ K₃, K.kzalloc sizeofProcess = (process, K₁) →
    process ≠ 0 → TaskStage F K₁ filename process stack K₂ K₃ →
    1027 ≤ (freeBlocks K₃.kmem.heap).card

end

/-! ## Without a fault -/

section

variable {σ : Type} {F : FileLayer σ} {owned : σ → Nat → Prop} {rest : Nat → Prop}
  {K₀ K K' L : Kernel σ} {obj : Role → Option (Nat × Nat)} {filename : List UInt8}
  {process bp np out stale slot : Nat} {live : List Nat}

/-- The task of a process with its program. -/
theorem Loading.taskNew_sound_iff (h : Loading owned rest K₀ K L process obj)
    (htail : K.queue.head ≠ 0 → ∃ b < 25600, K.queue.tail = blockAddr b) (hs : L.kmem.Sound)
    (slot : Nat) :
    (taskNew (L.setProcess process { L.processAt process with id := slot }) process).2.kmem.Sound ↔
      1027 ≤ (freeBlocks L.kmem.heap).card := by
  obtain ⟨b, n, hb, hprocess⟩ := h.block
  obtain ⟨L', hL'⟩ : ∃ L', L.setProcess process { L.processAt process with id := slot } = L' :=
    ⟨_, rfl⟩
  have hat : L'.processAt process = { L.processAt process with id := slot } := by
    rw [← hL']
    exact Function.update_self _ _ _
  have hkmem : L'.kmem = L.kmem := by rw [← hL']; rfl
  have hqueue : L'.queue = K.queue := by rw [← hL', ← h.queue]; rfl
  have hscope : Scope owned rest K₀ L' obj := by
    rw [← hL', hprocess]
    exact h.scope.setProcess hb _
  have hprogram : ProgramAt L' obj process := by
    refine h.program.congr (by rw [hat]) (by rw [hat]) (by rw [hat]) ?_ fun _ _ => rfl
    rw [← hL']
    rfl
  have hiff := hscope.taskNew_sound_iff hprocess hb h.untasked hprogram (by rw [hqueue]; exact htail)
    (by rw [hkmem]; exact hs)
  rw [hL']
  rwa [hkmem] at hiff

/-- **A load follows no bad pointer**, once the process is allocated, exactly where its data are served
and there are blocks for its task. -/
theorem Scope.process_sound_iff (hF : F.Sound owned) (hR : F.Regular) (hC : F.ClosesCarefully)
    (h : Scope owned rest K₀ K obj) (hprocess : process = blockAddr bp)
    (hbp : obj .process = some (bp, np)) (hnone : ∀ r, r ≠ .process → obj r = none)
    (htail : K.queue.head ≠ 0 → ∃ b < 25600, K.queue.tail = blockAddr b) (hs : K.kmem.Sound)
    (hshort : (processLoadForSlot.process F K filename out process slot).2.2.kmem.short = false) :
    (processLoadForSlot.process F K filename out process slot).2.2.kmem.Sound ↔
      DataServed F (K.setProcess process {}) filename ∧ ∀ stack K₁ K₂,
        TaskStage F K filename process stack K₁ K₂ → 1027 ≤ (freeBlocks K₂.kmem.heap).card := by
  have h₁ : Scope owned rest K₀ (K.setProcess process {}) obj := by
    rw [hprocess]
    exact h.setProcess hbp {}
  have hrises := processLoadForSlot_process_data_rises (F := F) K filename out process slot
  have hdata : (Pandora.processLoadData F (K.setProcess process {}) filename process).2.kmem.Sound ↔
      DataServed F (K.setProcess process {}) filename :=
    h₁.processLoadData_sound_iff hF hR hC (hnone .elfFile (by decide)) (hnone .image (by decide)) hs
      (hrises.short_eq hshort)
  constructor
  · intro hsound
    refine ⟨hdata.1 (hrises.sound hsound), fun stack K₁ K₂ hstage => ?_⟩
    obtain ⟨L, hL⟩ : ∃ L, K₂.setProcess process { K₂.processAt process with stack := stack } = L :=
      ⟨_, rfl⟩
    have hkmem : L.kmem = K₂.kmem := by rw [← hL]; rfl
    have hst := (hstage.task_rises hL out slot).sound hsound
    have hsL : L.kmem.Sound :=
      (taskNew_rises (L.setProcess process { L.processAt process with id := slot }) process).sound hst
    obtain ⟨obj', hloading⟩ := h.atTask hF hR hprocess hbp hnone hstage (hkmem ▸ hsL)
    rw [hL] at hloading
    rw [← hkmem]
    exact (hloading.taskNew_sound_iff htail hsL slot).1 hst
  · rintro ⟨hserved, hroom⟩
    obtain ⟨res, p, K', he, hs', -⟩ := h.process_outcome hF hR hprocess hbp hnone (hdata.2 hserved)
      hshort fun {stack K₁ K₂ L} hstage hs₂ hL => by
        obtain ⟨obj', hloading⟩ := h.atTask hF hR hprocess hbp hnone hstage hs₂
        rw [hL] at hloading
        have hkmem : L.kmem = K₂.kmem := by rw [← hL]; rfl
        refine (hloading.taskNew_sound_iff htail (hkmem ▸ hs₂) slot).2 ?_
        rw [hkmem]
        exact hroom stack K₁ K₂ hstage
    rw [he]
    exact hs'

/-! ## The whole load -/

/-- Before the load nothing is in scope. -/
theorem Tidy.scope (ht : Tidy (owned K.files) K.kmem) :
    Scope owned (K.Allocated owned) K K fun _ : Role => none := by
  have h : Scope owned _ K K fun _ : Role => none :=
    .init ht (by simp) (by simp) fun _ j hj => absurd hj (inChunk_none j)
  have hrest : (fun b => b < 25600 ∧ ¬ Free (K.entries b) ∧ ¬ owned K.files b ∧
      ∀ _ : Role, ¬ InChunk none b) = K.Allocated owned := by
    funext b
    simp [Kernel.Allocated, inChunk_none]
  rw [hrest] at h
  exact h

/-- The tail of the list is a block. -/
theorem Kernel.TaskList.tail (h : K.TaskList owned live) (hhead : K.queue.head ≠ 0) :
    ∃ b < 25600, K.queue.tail = blockAddr b := by
  rcases h with ⟨-, h0, -⟩ | htasks
  · exact absurd h0 hhead
  · obtain ⟨b, hb, hrest⟩ := htasks.rest _ (List.mem_of_getLast? htasks.tail)
    exact ⟨b, hrest.1, hb⟩

theorem Traceless.refl (owned : σ → Nat → Prop) (K : Kernel σ) (live : List Nat) :
    Traceless owned K K live :=
  ⟨rfl, rfl, .refl _ live, fun _ => Iff.rfl⟩

/-- A load that gives up leaves no trace. -/
theorem GivenUp.traceless (h : GivenUp owned (K.Allocated owned) K L K')
    (hL : L = { K with kmem := L.kmem }) (hlist : K.TaskList owned live) : Traceless owned K K' live where
  processes := h.processes.trans (by rw [hL])
  current := h.current.trans (by rw [hL])
  tasks := by
    have hqueue : L.queue = K.queue := by rw [hL]
    rcases hlist with ⟨rfl, hhead, htail, hcurrent⟩ | htasks
    · rw [← hqueue] at hhead htail hcurrent ⊢
      exact h.noTasks hhead htail hcurrent
    · rw [← hqueue] at htasks ⊢
      exact h.tasks live htasks
  blocks := fun b => by
    constructor
    · rintro ⟨hlt, hf, hown⟩
      rcases h.scope.cover b hlt hf with hrest | ho | ⟨r, hr⟩
      · exact hrest
      · exact absurd ho hown
      · exact absurd hr (inChunk_none b)
    · exact h.scope.taken b

/-- `process_load_for_slot` where the slot is free. -/
theorem processLoadForSlot_free {K₁ : Kernel σ} (hget : processGet K slot = 0)
    (hz : K.kzalloc sizeofProcess = (process, K₁)) :
    processLoadForSlot F K filename out stale slot = if process = 0 then (-enomem, out, K₁)
      else processLoadForSlot.process F K₁ filename out process slot := by
  unfold processLoadForSlot
  rw [if_neg (not_not_intro hget), hz]

/-- The process is allocated before all else. -/
theorem processLoadForSlot_kzalloc_sound {K₁ : Kernel σ} (hF : F.Rises) (hget : processGet K slot = 0)
    (hz : K.kzalloc sizeofProcess = (process, K₁)) (hfault : K.kmem.fault = false)
    (hshort : (processLoadForSlot F K filename out stale slot).2.2.kmem.short = false) :
    K₁.kmem.Sound := by
  have hk₁ : (Pandora.kzalloc K.kmem sizeofProcess).2 = K₁.kmem := congrArg (fun r => r.2.kmem) hz
  have hrises : K₁.kmem.Rises (processLoadForSlot F K filename out stale slot).2.2.kmem := by
    rw [processLoadForSlot_free hget hz]
    split
    · exact .refl _
    · exact processLoadForSlot_process_rises hF _ _ _ _ _
  refine ⟨?_, hrises.short_eq hshort⟩
  rw [← hk₁]
  exact (kzalloc_fault _ _).trans hfault

/-- Where the slot is taken and `_process` happens to be null, nothing is done. -/
theorem processLoadForSlot_taken (hget : processGet K slot ≠ 0) (hstale : stale = 0) :
    processLoadForSlot F K filename out stale slot = (-eistkn, out, K) := by
  unfold processLoadForSlot
  rw [if_pos hget, if_pos hstale]

/-- An uninitialised `_process` is followed. -/
theorem processLoadForSlot_stale (hget : processGet K slot ≠ 0) (hstale : stale ≠ 0) :
    (processLoadForSlot F K filename out stale slot).2.2.kmem.fault = true := by
  obtain ⟨L, hL⟩ : ∃ L : Kernel σ, { K with kmem := { K.kmem with fault := true } } = L := ⟨_, rfl⟩
  have hf : L.kmem.fault = true := by rw [← hL]
  unfold processLoadForSlot
  rw [if_pos hget, if_neg hstale, hL]
  exact (processLoadForSlot_out_rises L out stale (-eistkn)).fault hf

/-- **`process_load_for_slot` follows no bad pointer** exactly where the condition holds. -/
theorem processLoadForSlot_sound_iff (hF : F.Sound owned) (hR : F.Regular) (hC : F.ClosesCarefully)
    (ht : Tidy (owned K.files) K.kmem)
    (htail : K.queue.head ≠ 0 → ∃ b < 25600, K.queue.tail = blockAddr b) (hfault : K.kmem.fault = false)
    (hshort : (processLoadForSlot F K filename out stale slot).2.2.kmem.short = false) :
    (processLoadForSlot F K filename out stale slot).2.2.kmem.Sound ↔
      LoadServed F K filename stale slot := by
  by_cases hget : processGet K slot ≠ 0
  · -- the slot is taken
    have htaken : ∀ {P : Prop}, processGet K slot = 0 → P := fun h0 => absurd h0 hget
    by_cases hstale : stale = 0
    · exact iff_of_true ⟨by rw [processLoadForSlot_taken hget hstale]; exact hfault, hshort⟩
        ⟨fun _ => hstale, htaken, htaken⟩
    · refine iff_of_false (fun hsound => ?_) fun hserved => hstale (hserved.unused hget)
      have hf := hsound.fault
      rw [processLoadForSlot_stale hget hstale] at hf
      cases hf
  have hget : processGet K slot = 0 := not_not.1 hget
  obtain ⟨⟨process, K₁⟩, hz⟩ : ∃ r, K.kzalloc sizeofProcess = r := ⟨_, rfl⟩
  have hs₁ : K₁.kmem.Sound := processLoadForSlot_kzalloc_sound hF.rises hget hz hfault hshort
  rw [processLoadForSlot_free hget hz] at hshort ⊢
  have hz₁ : (K.kzalloc sizeofProcess).2 = K₁ := by rw [hz]
  rcases ht.scope.kzalloc (i := .process) rfl (show 1 ≤ sizeofProcess by decide) (by decide)
    (hz₁ ▸ hs₁) with ⟨he₁, -⟩ | ⟨b, n, -, -, -, he₁, h₁⟩
  · -- no process
    rw [hz, Prod.mk.injEq] at he₁
    obtain ⟨rfl, -⟩ := he₁
    rw [if_pos rfl]
    refine iff_of_true hs₁
      ⟨fun h => absurd hget h, fun _ p L hz' hp => ?_, fun _ p L stack K₂ K₃ hz' hp => ?_⟩
    · rw [hz, Prod.mk.injEq] at hz'
      exact absurd hz'.1.symm hp
    · rw [hz, Prod.mk.injEq] at hz'
      exact absurd hz'.1.symm hp
  · rw [hz, Prod.mk.injEq] at he₁
    obtain ⟨rfl, hK₁⟩ := he₁
    rw [← hK₁] at h₁
    have hp := blockAddr_ne_zero b
    rw [if_neg hp] at hshort ⊢
    have hqueue : K₁.queue = K.queue := by rw [hK₁]
    rw [h₁.process_sound_iff hF hR hC rfl (Function.update_self _ _ _)
      (fun r hr => Function.update_of_ne hr _ _) (by rw [hqueue]; exact htail) hs₁ hshort]
    -- the condition, for the kernel after the allocation of the process
    constructor
    · rintro ⟨hdata, htask⟩
      refine ⟨fun h => absurd hget h, fun _ p L hz' _ => ?_, fun _ p L stack K₂ K₃ hz' _ => ?_⟩
      · rw [hz, Prod.mk.injEq] at hz'
        obtain ⟨rfl, rfl⟩ := hz'
        exact hdata
      · rw [hz, Prod.mk.injEq] at hz'
        obtain ⟨rfl, rfl⟩ := hz'
        exact htask stack K₂ K₃
    · intro h
      exact ⟨h.data hget _ _ hz hp, fun _ _ _ => h.task hget _ _ _ _ _ hz hp⟩

/-- A load without a fault leaves no trace where it fails. -/
theorem processLoadForSlot_clean (hF : F.Sound owned) (hR : F.Regular)
    (ht : Tidy (owned K.files) K.kmem) (hlist : K.TaskList owned live)
    (hfault : K.kmem.fault = false)
    (hsound : (processLoadForSlot F K filename out stale slot).2.2.kmem.Sound) :
    LoadsCleanly owned K slot live (processLoadForSlot F K filename out stale slot) := by
  by_cases hget : processGet K slot ≠ 0
  · have hstale : stale = 0 := by
      by_contra hstale
      have hf := hsound.fault
      rw [processLoadForSlot_stale hget hstale] at hf
      cases hf
    rw [processLoadForSlot_taken hget hstale]
    exact ⟨hfault, fun _ => .refl owned K live, fun h => absurd h (show ¬ 0 ≤ -eistkn by decide)⟩
  have hget : processGet K slot = 0 := not_not.1 hget
  obtain ⟨⟨process, K₁⟩, hz⟩ : ∃ r, K.kzalloc sizeofProcess = r := ⟨_, rfl⟩
  have hs₁ : K₁.kmem.Sound := processLoadForSlot_kzalloc_sound hF.rises hget hz hfault hsound.short
  rw [processLoadForSlot_free hget hz] at hsound ⊢
  have hz₁ : (K.kzalloc sizeofProcess).2 = K₁ := by rw [hz]
  rcases ht.scope.kzalloc (i := .process) rfl (show 1 ≤ sizeofProcess by decide) (by decide)
    (hz₁ ▸ hs₁) with ⟨he₁, h₁⟩ | ⟨b, n, -, -, -, he₁, h₁⟩
  · -- no process
    rw [hz, Prod.mk.injEq] at he₁
    obtain ⟨rfl, hK₁⟩ := he₁
    rw [← hK₁] at h₁
    rw [if_pos rfl]
    have hgiven : GivenUp owned (K.Allocated owned) K K K₁ :=
      .of_queue (by rw [hK₁]) (by rw [hK₁]) (by rw [hK₁]) h₁
    exact ⟨hs₁.fault, fun _ => hgiven.traceless rfl hlist,
      fun h => absurd h (show ¬ 0 ≤ -enomem by decide)⟩
  · rw [hz, Prod.mk.injEq] at he₁
    obtain ⟨rfl, hK₁⟩ := he₁
    rw [← hK₁] at h₁
    rw [if_neg (blockAddr_ne_zero b)] at hsound ⊢
    have hL : K₁ = { K with kmem := K₁.kmem } := by rw [hK₁]
    obtain ⟨res, p, K', hr, -, hcases⟩ := h₁.process_outcome hF hR rfl (Function.update_self _ _ _)
      (fun r hr => Function.update_of_ne hr _ _)
      ((processLoadForSlot_process_data_rises _ filename out _ slot).sound hsound) hsound.short
      fun hstage _ hL => (hstage.task_rises hL out slot).sound hsound
    rw [hr] at hsound ⊢
    rcases hcases with ⟨hres, rfl, obj', dir, table, hsucceeded⟩ | ⟨hneg, hgiven⟩
    · refine ⟨hsound.fault, fun h => absurd hres (not_le.2 h), fun _ =>
        ⟨⟨?_, ?_, hsucceeded.entered.id, hsucceeded.entered.fresh⟩, obj', dir, table,
          hsucceeded.live⟩⟩
      · rw [hsucceeded.entered.processes, hL]
      · rw [hsucceeded.entered.current, hL]
    · exact ⟨hsound.fault, fun _ => hgiven.traceless hL hlist, fun h => absurd h (not_le.2 hneg)⟩

/-- **A failed load leaves no trace**, and no load follows a bad pointer, exactly where the condition
holds. -/
theorem load_fails_cleanly_iff (hF : F.Sound owned) (hR : F.Regular) (hC : F.ClosesCarefully)
    (ht : Tidy (owned K.files) K.kmem) (hlist : K.TaskList owned live) (hfault : K.kmem.fault = false)
    (hshort : (processLoadForSlot F K filename out stale slot).2.2.kmem.short = false) :
    LoadsCleanly owned K slot live (processLoadForSlot F K filename out stale slot) ↔
      LoadServed F K filename stale slot := by
  rw [← processLoadForSlot_sound_iff hF hR hC ht hlist.tail hfault hshort]
  exact ⟨fun hclean => ⟨hclean.pointers, hshort⟩, processLoadForSlot_clean hF hR ht hlist hfault⟩

end

/-! ## At boot, and with a process in the slot -/

theorem wholeFile_closesCarefully (l : List UInt8) : (wholeFile l).ClosesCarefully :=
  fun _ _ _ => rfl

/-- The load of a small program at boot. -/
theorem load_fails_cleanly_padded :
    LoadsCleanly noBlocks bootKernel 0 []
        (processLoadForSlot (wholeFile (paddedElf (List.replicate 16 0))) bootKernel [0x73] 0 0 0) ↔
      LoadServed (wholeFile (paddedElf (List.replicate 16 0))) bootKernel [0x73] 0 0 := by
  have hlen : (List.replicate 16 (0 : UInt8)).length = 16 := List.length_replicate
  obtain ⟨process, K', hload, hs⟩ := paddedElf_load hlen
  have hget : processGetFreeSlot bootKernel = 0 := rfl
  have heq : processLoad (wholeFile (paddedElf (List.replicate 16 0))) bootKernel [0x73] 0 0 =
      processLoadForSlot (wholeFile (paddedElf (List.replicate 16 0))) bootKernel [0x73] 0 0 0 := by
    unfold processLoad
    dsimp only
    rw [hget, if_neg (by decide), Int.toNat_zero]
  rw [heq] at hload
  exact load_fails_cleanly_iff (wholeFile_sound _)
    (paddedElf_regular hlen)
    (wholeFile_closesCarefully _) bootKernel_tidy (.inl ⟨rfl, rfl, rfl, rfl⟩) rfl
    (by rw [hload]; exact hs.short)

/-- With the slot taken, the uninitialised pointer is freed: the live process, if its address was left
there. -/
theorem load_follows_uninitialised :
    livingKernel.TaskList noBlocks [blockAddr 1026] ∧ processGet livingKernel 0 = blockAddr 1027 ∧
      ¬ LoadsCleanly noBlocks livingKernel 0 [blockAddr 1026]
        (processLoadForSlot (wholeFile []) livingKernel [0x73] 0 (blockAddr 1027) 0) := by
  have hget : processGet livingKernel 0 = blockAddr 1027 := rfl
  refine ⟨.inr ⟨⟨rfl, blockAddr_ne_zero 1026, rfl⟩, rfl, List.mem_singleton_self _, fun t ht => ?_⟩,
    hget, fun hclean => ?_⟩
  · have htask : livingHolds .task = some (1026, 1) := rfl
    have hchain := (livingKernel_chain htask).2
    exact ⟨1026, List.mem_singleton.1 ht, by decide,
      hchain.not_free (Nat.le_refl _) (by decide) (by decide), id⟩
  · have hf := hclean.pointers
    rw [processLoadForSlot_stale (by rw [hget]; exact blockAddr_ne_zero 1027)
      (blockAddr_ne_zero 1027)] at hf
    cases hf

end Pandora
