import Pandora.Process.CopyString
import Pandora.Process.World

/-!
# What copying a string out of a task leaves alone

`copy_string_from_task` borrows a block of the heap and an entry of the task's page tables. It gives both
back, so a call that returns leaves every block that was taken as it was, wherever the pointer of the
program leads (`Scope.copyStringFromTask`): what it reads is another matter (`CopyString`).
-/

namespace Pandora

open ByteMem

section

variable {σ : Type} {owned : σ → Nat → Prop} {rest : Nat → Prop} {K₀ K K' K₁ : Kernel σ}
  {obj : Role → Option (Nat × Nat)} {m u : Mem} {process task dir f virt phys tmp c : Nat}
  {table : Nat → Nat}

/-- The rounds from `i` on write to the block only: its page stays mapped to itself. -/
theorem DirApart.copy_loop (h : DirApart dir tmp table) (hd : PageDir u dir f table)
    (hf : f &&& pagingIsPresent ≠ 0) (hmap : pageEntry u table (tmp / 4096) = tmp + 7) :
    ∀ (n i : Nat) (m m' : Mem), i + n < 4096 → (∀ x, (x < tmp ∨ tmp + 4096 ≤ x) → m x = u x) →
      strncpyThrough.loop (mmu dir) tmp virt n i m = some m' →
      ∀ x, (x < tmp ∨ tmp + 4096 ≤ x) → m' x = u x := by
  obtain ⟨hal, hlo, hhi⟩ := h.window
  -- where a byte of the block is written
  have htarget : ∀ {m : Mem} {i : Nat}, i < 4096 → (∀ x, (x < tmp ∨ tmp + 4096 ≤ x) → m x = u x) →
      mmu dir m (Word.add tmp i) = some (tmp + i) := fun {m i} hi hm => by
    obtain ⟨hdm, hentries⟩ := h.congr hd hm
    have hone : (tmp + 7) &&& pagingIsPresent = (tmp + 7) % 2 := Nat.and_one_is_mod _
    rw [Word.add_of_lt (by omega), mmu_eq hdm hf (by omega), hentries _ (by omega),
      show (tmp + i) / 4096 = tmp / 4096 by omega, hmap, hone, if_neg (by omega)]
    congr 1
    omega
  have hupdate : ∀ {m : Mem} {i : Nat} (v : UInt8), i < 4096 →
      (∀ x, (x < tmp ∨ tmp + 4096 ≤ x) → m x = u x) →
      ∀ x, (x < tmp ∨ tmp + 4096 ≤ x) → Function.update m (tmp + i) v x = u x :=
    fun v hi hm x hx => (Function.update_of_ne (by omega) _ _).trans (hm x hx)
  intro n
  induction n with
  | zero =>
    intro i m m' hi hm he
    unfold strncpyThrough.loop at he
    rw [htarget (by omega) hm, Option.map_some, Option.some.injEq] at he
    rw [← he]
    exact hupdate 0 (by omega) hm
  | succ n ih =>
    intro i m m' hi hm he
    unfold strncpyThrough.loop at he
    rw [htarget (by omega) hm] at he
    cases hs : mmu dir m (Word.add virt i) with
    | none =>
      rw [hs] at he
      cases he
    | some s =>
      rw [hs] at he
      dsimp only at he
      split at he
      · rw [Option.some.injEq] at he
        rw [← he]
        exact hupdate 0 (by omega) hm
      · exact ih (i + 1) _ m' (by omega) (hupdate _ (by omega) hm) he

/-- The table entry is put back and the string is copied below the heap: the memory that was taken before
is as it was. -/
theorem Prepared.restored (h : Prepared K K₁ task dir f tmp (c + 1) table)
    (hf : f &&& pagingIsPresent ≠ 0) (hc : c + 1 < 4096) (hphys : phys + (c + 1) ≤ 0x01000000)
    (he : strncpyThrough (mmu dir) (whileMapped K.mem table tmp (c + 1)) tmp virt (c + 1) = some m) :
    ∃ m', pagingSet m dir tmp (pageEntry K.mem table (tmp / 4096)) = (allOk, m') ∧
      ∀ x, 0x01000000 ≤ x → x < 2 ^ 32 → (x < tmp ∨ tmp + 4096 ≤ x) →
        strncpy m' phys tmp (c + 1) x = K.mem x := by
  have hp := h.page_lt
  have hw := h.apart.window
  have hlo := hw.lo
  have hal := hw.aligned
  have hhi := hw.hi
  obtain ⟨-, hdu, hmapped⟩ := h.mapped
  have hblock := h.apart.copy_loop hdu hf ((hmapped _ hp).trans (if_pos rfl)) _ 0 _ m (by omega)
    (fun _ _ => rfl) he
  obtain ⟨hdm, -⟩ := h.apart.congr hdu hblock
  obtain ⟨a, ha⟩ : ∃ a, entryAddr table (tmp / 4096) = a := ⟨_, rfl⟩
  have hset : pagingSet m dir tmp (pageEntry K.mem table (tmp / 4096)) =
      (allOk, write32 m (entryAddr table (tmp / 4096)) (pageEntry K.mem table (tmp / 4096))) :=
    hdm.set (by omega) hal
  rw [ha] at hset
  refine ⟨_, hset, fun x hx hlt hout => ?_⟩
  have hcopy : ∀ m', strncpy m' phys tmp (c + 1) x = m' x := fun m' => by
    unfold strncpy
    exact strncpy_loop_outside (by omega) (by omega)
  rw [hcopy]
  by_cases hin : a ≤ x ∧ x < a + 4
  · -- a byte of the entry
    obtain ⟨i, rfl⟩ : ∃ i, x = a + i := ⟨x - a, by omega⟩
    unfold write32 pageEntry
    rw [if_pos hin, ha, Nat.add_sub_cancel_left, byte_read32 _ _ (by omega)]
  · rw [write32_apply (by omega), hblock x hout]
    unfold whileMapped
    rw [ha, write32_apply (by omega)]
    exact fill_apply_of_outside (by omega) hlt (by omega)

/-- Nothing was taken or given back, and what was taken is as it was. -/
structure TakenKept (K K' : Kernel σ) : Prop where
  state : K' = { K with kmem := K'.kmem }
  kernel : K'.kmem.heap.Kernel
  entries : K'.entries = K.entries
  kept : ∀ j < 25600, ¬ Free (K.entries j) → SameBlock K.mem K'.mem j

theorem Holdings.taskDir (h : Holdings K process obj dir f table) (hs : Scope owned rest K₀ K obj)
    (hf : f &&& pagingIsPresent ≠ 0) (htask : (K.processAt process).task = task) :
    TaskDir K task dir f table := by
  have hd := h.toTasked.heldDir hs
  rw [← htask]
  exact ⟨hd.pageDir, hf, hd.chunk, hd.chunkWindow, hd.chunkTaken, hd.dirTaken, hd.tableTaken⟩

/-- **Copying a string out of a task** leaves what was taken, and takes nothing. -/
theorem Scope.copyStringFromTask (h : Scope owned rest K₀ K obj)
    (ho : Holdings K process obj dir f table) (hf : f &&& pagingIsPresent ≠ 0)
    (htask : (K.processAt process).task = task) {res : Int} (hc : c + 1 < 4096)
    (hphys : phys + (c + 1) ≤ 0x01000000)
    (he : copyStringFromTask K task virt phys (c + 1 : Nat) = some (res, K')) : TakenKept K K' := by
  have ht := ho.taskDir h hf htask
  have hsound : K.kmem.heap.Sound := { toKernel := h.tidy.kernel, clean := h.tidy.clean }
  have hmax : ¬ (4096 : Int) ≤ (c + 1 : Nat) := by omega
  have hint : Word.ofInt (c + 1 : Nat) = c + 1 := Word.ofInt_natCast (by omega)
  have hdeny : K.kzalloc (c + 1) = (0, { K with kmem := K.kmem.deny }) → TakenKept K K' := fun hz => by
    unfold Pandora.copyStringFromTask at he
    rw [if_neg hmax, hint, hz] at he
    dsimp only at he
    rw [if_pos rfl, Option.some.injEq, Prod.mk.injEq] at he
    obtain ⟨-, rfl⟩ := he
    exact ⟨rfl, h.tidy.kernel, rfl, fun j _ _ => .refl _ j⟩
  rcases kzalloc_page h.tidy.kernel (c + 1) (by omega) (by omega) with ⟨b, hb, hfree, -, hz⟩ | ⟨hz, -⟩
  case inr => exact hdeny (by unfold Kernel.kzalloc; rw [hz])
  have hzk : K.kzalloc (c + 1) = (blockAddr b, { K with kmem := K.kmem.take b 1 (c + 1) }) := by
    unfold Kernel.kzalloc
    rw [hz]
  rcases ht.prepared hsound hc with hz' | ⟨tmp, K₁, hz', hprep⟩
  · exact hdeny hz'
  rw [hzk, Prod.mk.injEq] at hz'
  obtain ⟨rfl, hK₁⟩ := hz'
  rw [hprep.call (hK₁ ▸ hzk) hc] at he
  cases hcopy : strncpyThrough (mmu dir) (whileMapped K.mem table (blockAddr b) (c + 1)) (blockAddr b)
      virt (c + 1) with
  | none =>
    rw [hcopy] at he
    cases he
  | some m =>
    obtain ⟨m', hset, hmem⟩ := hprep.restored hf hc hphys hcopy
    rw [hcopy] at he
    dsimp only at he
    rw [hset] at he
    dsimp only at he
    rw [if_neg (show ¬ allOk < 0 by decide), Option.some.injEq, Prod.mk.injEq] at he
    obtain ⟨-, rfl⟩ := he
    have hrun : FreeRun K.entries b 1 := fun k hk => by
      obtain rfl : k = 0 := by omega
      exact hfree
    obtain ⟨m'', hm''⟩ : ∃ m'', strncpy m' phys (blockAddr b) (c + 1) = m'' := ⟨_, rfl⟩
    rw [hm''] at hmem ⊢
    have hheap : (K₁.withMem m'').kmem.heap = (K.kmem.take b 1 (c + 1)).heap := by
      rw [← hK₁]
      rfl
    refine ⟨?_, ?_, kfree_take_entries hsound (Nat.le_refl 1) (by omega) hrun hheap, fun j hj htaken => ?_⟩
    · rw [← hK₁]
      rfl
    · refine Heap.Kernel.kfree ?_ _
      rw [hheap]
      exact h.tidy.kernel.markBlocksTaken b 1
    · have hkfree : ((K₁.withMem m'').kfree (blockAddr b)).mem = m'' := follow_mem _ _
      rw [hkfree]
      intro x hx hx'
      -- the block of the string was free
      have hne : j ≠ b := fun he => htaken (he ▸ hfree)
      have hlt := blockAddr_lt hj
      unfold blockAddr at hx hx' hmem hlt
      exact hmem x (by omega) (by omega) (by omega)

end

end Pandora
