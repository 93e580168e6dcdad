import Pandora.Lib.CString
import Pandora.Lib.Linked
import Pandora.Process.Malloc

/-!
# Command arguments (`task/process.c`)

`process_inject_arguments` copies a list of arguments, which another process has built, into
allocations of a new process. The list, the copies and the page tables lie in different blocks:
a `DataBlock` is a taken block that no part of a directory is in, and what an allocation
(`Malloced.sameBlock`) or a write to another such block (`HeldDir.write`) leaves alone.

`ArgumentList m root bs ws`: the list from `root` on has its nodes in the blocks `bs`, with the words
`ws` cut to 511 characters. `Injected` is what the copying loop has made of the first nodes, and
`processInjectArguments_spec` what the call leaves.
-/

namespace Pandora

open ByteMem

/-! ## Blocks apart from a directory -/

section

variable {σ : Type} {K K' : Kernel σ} {process dir f size b i j p : Nat} {table : Nat → Nat} {m : Mem}

/-- A taken block that no part of the directory is in. -/
structure DataBlock (K : Kernel σ) (process dir : Nat) (table : Nat → Nat) (b : Nat) : Prop where
  lt : b < 25600
  taken : ¬ Free (K.entries b)
  dir_ne : blockAddr b ≠ dir
  chunk_ne : blockAddr b ≠ (K.queue.task (K.processAt process).task).pageDirectory
  table_ne : ∀ i < 1024, blockAddr b ≠ table i

theorem DataBlock.outsideTables (h : DataBlock K process dir table b)
    (hp : PageDir K.mem dir f table) {x : Nat} (hx : blockAddr b ≤ x) (hx' : x < blockAddr b + 4096) :
    OutsideTables table x := fun i hi => by
  have := (inWindow_blockAddr h.lt).disjoint (hp.window i hi) (h.table_ne i hi)
  omega

/-- A write to a block apart from the directory. -/
theorem HeldDir.write (h : HeldDir K process dir f table) (hb : DataBlock K process dir table b)
    (hm : ∀ x, (x < blockAddr b ∨ blockAddr b + 4096 ≤ x) → m x = K.mem x) :
    HeldDir (K.withMem m) process dir f table ∧
      ∀ p < 2 ^ 20, pageEntry m table p = pageEntry K.mem table p := by
  have hwin := inWindow_blockAddr hb.lt
  have hdir := hwin.disjoint h.pageDir.dirWindow hb.dir_ne
  have hchunk := hwin.disjoint h.chunkWindow hb.chunk_ne
  refine ⟨⟨⟨h.pageDir.congr fun x hx hx' => hm x (by omega), ⟨?_, h.chunk.apart⟩⟩, h.heap,
    h.chunkWindow, h.chunkTaken, h.dirTaken, h.tableTaken⟩, fun p hp => ?_⟩
  · have hread : read32 m (K.queue.task (K.processAt process).task).pageDirectory =
        read32 K.mem (K.queue.task (K.processAt process).task).pageDirectory :=
      read32_congr fun k hk => hm _ (by omega)
    exact hread.trans h.chunk.directory
  · refine pageEntry_congr hp fun i hi x hx hx' => hm x ?_
    have := hwin.disjoint (h.pageDir.window i hi) (hb.table_ne i hi)
    omega

theorem DataBlock.withMem (h : DataBlock K process dir table b) (m : Mem) :
    DataBlock (K.withMem m) process dir table b :=
  ⟨h.lt, h.taken, h.dir_ne, h.chunk_ne, h.table_ne⟩

/-- A write to one block leaves the others alone. -/
theorem sameBlock_of_outside {m' : Mem} (hne : j ≠ b)
    (hm : ∀ x, (x < blockAddr b ∨ blockAddr b + 4096 ≤ x) → m' x = m x) : SameBlock m m' j :=
  fun x hx hx' => hm x (by unfold blockAddr at *; omega)

/-- A directory is in memory, and where the task of the process says. -/
theorem HeldDir.of_eq (h : HeldDir K process dir f table) (hk : K'.kmem = K.kmem)
    (hq : K'.queue = K.queue) (ht : (K'.processAt process).task = (K.processAt process).task) :
    HeldDir K' process dir f table := by
  have hmem : K'.mem = K.mem := congrArg Kmem.mem hk
  have he : K'.entries = K.entries := congrArg (fun k => k.heap.table.entries) hk
  have hchunk : (K'.queue.task (K'.processAt process).task).pageDirectory =
      (K.queue.task (K.processAt process).task).pageDirectory := by rw [hq, ht]
  refine ⟨⟨hmem ▸ h.pageDir, ?_⟩, hk ▸ h.heap, hchunk ▸ h.chunkWindow, ?_, he ▸ h.dirTaken,
    he ▸ h.tableTaken⟩
  · rw [hchunk, hmem]
    exact h.chunk
  · rw [hchunk, he]
    exact h.chunkTaken

theorem DataBlock.of_eq (h : DataBlock K process dir table b) (hk : K'.kmem = K.kmem)
    (hq : K'.queue = K.queue) (ht : (K'.processAt process).task = (K.processAt process).task) :
    DataBlock K' process dir table b := by
  have he : K'.entries = K.entries := congrArg (fun k => k.heap.table.entries) hk
  exact ⟨h.lt, he ▸ h.taken, h.dir_ne, by rw [hq, ht]; exact h.chunk_ne, h.table_ne⟩

/-! ## Allocations -/

theorem processMalloc_kzalloc_rises (K : Kernel σ) (process size : Nat) :
    (K.kzalloc size).2.kmem.Rises (processMalloc K process size).2.kmem := by
  unfold processMalloc
  dsimp only
  split
  · exact .refl _
  · split
    · exact Kernel.kfree_rises _ _
    · split
      · exact (Kernel.mapTo_rises _ _ _ _ _ _).trans (Kernel.kfree_rises _ _)
      · exact Kernel.mapTo_rises _ _ _ _ _ _

theorem processMalloc_rises (K : Kernel σ) (process size : Nat) :
    K.kmem.Rises (processMalloc K process size).2.kmem :=
  (K.kzalloc_rises size).trans (processMalloc_kzalloc_rises K process size)

theorem processMalloc_processes (K : Kernel σ) (process size : Nat) :
    (processMalloc K process size).2.processes = K.processes := by
  unfold processMalloc
  dsimp only
  split
  · rfl
  · split
    · rfl
    · split <;> rfl

/-- `process_malloc` that returns a pointer, where a run of blocks is free. -/
theorem processMalloc_of_run (hd : HeldDir K process dir f table) (h1 : 1 ≤ size)
    (h2 : size ≤ 2 ^ 32 - 4096) (hrun : HasRun K.entries 25600 (blocksFor size))
    (hne : (processMalloc K process size).1 ≠ 0) :
    ∃ b i K', processMalloc K process size = (blockAddr b, K') ∧
      Malloced K K' process size dir f table b i := by
  refine processMalloc_spec hd h1 h2 hrun ?_
  by_contra hno
  refine hne (processMalloc_full fun i hi h0 => hno ⟨i, hi, h0⟩)

/-- `process_malloc` of one block that returns a pointer. -/
theorem processMalloc_page (hd : HeldDir K process dir f table) (h1 : 1 ≤ size) (h2 : size ≤ 4096)
    (hne : (processMalloc K process size).1 ≠ 0) :
    ∃ b i K', processMalloc K process size = (blockAddr b, K') ∧
      Malloced K K' process size dir f table b i := by
  rcases kzalloc_page hd.heap size h1 h2 with ⟨b, hb, hfree, -, -⟩ | ⟨he, -⟩
  · have hone : blocksFor size = 1 := by
      unfold blocksFor
      omega
    refine processMalloc_of_run hd h1 (by omega) (hone ▸ ⟨b, by omega, fun i hi => ?_⟩) hne
    obtain rfl : i = 0 := by omega
    exact hfree
  · refine absurd ?_ hne
    unfold processMalloc Kernel.kzalloc
    rw [he]
    rfl

/-- A refused `process_malloc` of one block writes to no block that is taken. -/
theorem processMalloc_refused_sameBlock (hd : HeldDir K process dir f table) (h1 : 1 ≤ size)
    (h2 : size ≤ 4096) (h0 : (processMalloc K process size).1 = 0) (hj : j < 25600)
    (htaken : ¬ Free (K.entries j)) : SameBlock K.mem (processMalloc K process size).2.mem j := by
  have hone : blocksFor size = 1 := by
    unfold blocksFor
    omega
  rcases kzalloc_page hd.heap size h1 h2 with ⟨b, hb, hfree, -, he⟩ | ⟨he, -⟩
  · have hrun : FreeRun K.entries b 1 := fun i hi => by
      obtain rfl : i = 0 := by omega
      exact hfree
    by_cases hslot : ∃ i < maxProgramAllocations, ((K.processAt process).allocations i).ptr = 0
    · -- with a slot the call is served
      obtain ⟨b', i, K', hr, -⟩ := processMalloc_spec hd h1 (by omega)
        (hone ▸ ⟨b, by omega, hrun⟩) hslot
      rw [hr] at h0
      exact absurd h0 (blockAddr_ne_zero b')
    · have hindex := processFindFreeAllocationIndex_none (p := K.processAt process)
        fun i hi h0 => hslot ⟨i, hi, h0⟩
      have hr : (processMalloc K process size).2 =
          { K with kmem := kfree (K.kmem.take b 1 size) (blockAddr b) } := by
        unfold processMalloc Kernel.kzalloc
        rw [he]
        dsimp only
        rw [if_neg (blockAddr_ne_zero b), hindex, if_pos (show -enomem < 0 by decide)]
        rfl
      have hmem : (processMalloc K process size).2.mem = (K.kmem.take b 1 size).mem := by
        rw [hr]
        exact kfree_mem _ _
      rw [hmem]
      exact take_sameBlock hj htaken (by omega) hrun (by omega)
  · have hr : (processMalloc K process size).2 = { K with kmem := K.kmem.deny } := by
      unfold processMalloc Kernel.kzalloc
      rw [he]
      rfl
    rw [hr]
    exact fun _ _ _ => rfl

/-- `process_malloc` that returns a pointer and does not run short. -/
theorem processMalloc_served (hd : HeldDir K process dir f table) (h1 : 1 ≤ size)
    (h2 : size ≤ 2 ^ 32 - 4096) (hne : (processMalloc K process size).1 ≠ 0)
    (hs : (processMalloc K process size).2.kmem.Sound) :
    ∃ b i K', processMalloc K process size = (blockAddr b, K') ∧
      Malloced K K' process size dir f table b i := by
  have hrises := processMalloc_kzalloc_rises K process size
  have hz := (hrises.sound hs).short
  have hk : (K.kzalloc size).2.kmem = (kzalloc K.kmem size).2 := rfl
  rw [hk] at hz
  rcases kzalloc_sound hd.heap (by omega) hz with he | ⟨b, n, hb, -, hrun, hle, -⟩
  · refine absurd ?_ hne
    unfold processMalloc Kernel.kzalloc
    rw [he]
    rfl
  · have hblocks : blocksFor size ≤ n := by
      unfold blocksFor
      omega
    exact processMalloc_of_run hd h1 h2 ⟨b, by omega, fun i hi => hrun i (by omega)⟩ hne

section

variable (h : Malloced K K' process size dir f table b i)

include h

theorem Malloced.queue_eq : K'.queue = K.queue := by rw [h.state]

theorem Malloced.files_eq : K'.files = K.files := by rw [h.state]

theorem Malloced.task_eq : (K'.processAt process).task = (K.processAt process).task := by
  rw [h.state]
  simp [Process.setAllocation]

/-- The blocks that were taken are still taken, and those of the allocation are. -/
theorem Malloced.entries_eq (h1 : 1 ≤ size) (j : Nat) :
    K'.entries j = if b ≤ j ∧ j < b + blocksFor size then chainEntry (blocksFor size) (j - b)
      else K.entries j := by
  have hfits := h.fits
  unfold Kernel.entries
  rw [h.heap]
  exact markBlocksTaken_entries (blocksFor_pos h1) (show b + blocksFor size ≤ 2 ^ 31 by omega) j

theorem Malloced.not_free (h1 : 1 ≤ size) (hj : ¬ Free (K.entries j)) : ¬ Free (K'.entries j) := by
  rw [h.entries_eq h1]
  split
  · exact chainEntry_not_free _ _
  · exact hj

theorem Malloced.heldDir (hd : HeldDir K process dir f table) (h1 : 1 ≤ size) :
    HeldDir K' process dir f table where
  toProcessDir := h.directory hd
  heap := by
    rw [h.heap]
    exact hd.heap.markBlocksTaken _ _
  chunkWindow := by
    rw [h.queue_eq, h.task_eq]
    exact hd.chunkWindow
  chunkTaken := by
    rw [h.queue_eq, h.task_eq]
    exact h.not_free h1 hd.chunkTaken
  dirTaken := h.not_free h1 hd.dirTaken
  tableTaken := fun i hi => h.not_free h1 (hd.tableTaken i hi)

theorem Malloced.dataBlock (h1 : 1 ≤ size) (hj : DataBlock K process dir table j) :
    DataBlock K' process dir table j where
  lt := hj.lt
  taken := h.not_free h1 hj.taken
  dir_ne := hj.dir_ne
  chunk_ne := by
    rw [h.queue_eq, h.task_eq]
    exact hj.chunk_ne
  table_ne := hj.table_ne

/-- The blocks of the allocation were free, so no part of the directory is there. -/
theorem Malloced.newBlock (hd : HeldDir K process dir f table) (h1 : 1 ≤ size) :
    DataBlock K' process dir table b := by
  have hpos := blocksFor_pos h1
  have hfits := h.fits
  have hfree : Free (K.entries b) := h.free 0 hpos
  have hne : ∀ {a}, InWindow a → ¬ Free (K.entries (blockOf a)) → blockAddr b ≠ a := by
    rintro a hwin htaken rfl
    have hblock : blockOf (blockAddr b) = b := blockAddr_inj.1 hwin.blockAddr.2
    rw [hblock] at htaken
    exact htaken hfree
  refine ⟨by omega, ?_, hne hd.pageDir.dirWindow hd.dirTaken, ?_,
    fun i hi => hne (hd.pageDir.window i hi) (hd.tableTaken i hi)⟩
  · rw [h.entries_eq h1, if_pos ⟨Nat.le_refl b, by omega⟩]
    exact chainEntry_not_free _ _
  · rw [h.queue_eq, h.task_eq]
    exact hne hd.chunkWindow hd.chunkTaken

/-- The other data blocks are not written to. -/
theorem Malloced.sameBlock (hd : HeldDir K process dir f table)
    (hj : DataBlock K process dir table j) : SameBlock K.mem K'.mem j := fun x hx hx' => by
  have hlt := blockAddr_lt hj.lt
  have hle := le_blocksFor size
  have hwin := inWindow_blockAddr hj.lt
  have hblock : blockOf (blockAddr j) = j := blockAddr_inj.1 hwin.blockAddr.2
  have hapart := hwin.apart_run (by rw [hblock]; exact hj.taken) h.free
  exact h.frame x (by omega) (hj.outsideTables hd.pageDir hx hx') (by omega)

theorem Malloced.ne (h1 : 1 ≤ size) (hj : ¬ Free (K.entries j)) : j ≠ b := by
  rintro rfl
  exact hj (h.free 0 (blocksFor_pos h1))

/-- The page of a taken block keeps its entry. -/
theorem Malloced.pageEntry_eq (hj : j < 25600) (htaken : ¬ Free (K.entries j)) :
    pageEntry K'.mem table (4096 + j) = pageEntry K.mem table (4096 + j) := by
  rw [h.pages _ (by omega), if_neg]
  rintro ⟨h1, h2⟩
  have := h.free (j - b) (by omega)
  rw [show b + (j - b) = j by omega] at this
  exact htaken this

theorem Malloced.newPage (h1 : 1 ≤ size) :
    pageEntry K'.mem table (4096 + b) = 4096 * (4096 + b) ||| pagingUserWriteable := by
  have hpos := blocksFor_pos h1
  have hfits := h.fits
  rw [h.pages _ (by omega), if_pos ⟨by omega, by omega⟩]

theorem Malloced.tidy {own : Nat → Prop} (h1 : 1 ≤ size) (ht : Tidy own K.kmem) :
    Tidy own K'.kmem where
  kernel := by
    rw [h.heap]
    exact ht.kernel.markBlocksTaken _ _
  clean := fun j hj hfree => by
    have he := h.entries_eq h1 j
    unfold Kernel.entries at he
    rw [he] at hfree ⊢
    split at hfree
    · exact absurd hfree (chainEntry_not_free _ _)
    · rename_i hout
      rw [if_neg hout]
      exact ht.clean j hj hfree
  owned := fun j hj => ⟨(ht.owned j hj).1, h.not_free h1 (ht.owned j hj).2⟩

end

end

/-! ## Strings -/

section

variable {u m : Mem} {dest src n i count : Nat} {l : List UInt8}

/-- `strncpy` reads its source as it was, where it does not write to it. -/
theorem strncpy_loop_eq (h : CString u (src + i) l) (hsrc : src + i + l.length < 2 ^ 32)
    (hdest : dest + i + n < 2 ^ 32)
    (hsep : src + i + l.length < dest + i ∨ dest + i + n < src + i)
    (he : ∀ x, src + i ≤ x → x ≤ src + i + l.length → m x = u x) :
    strncpy.loop dest src n i m = copyString u dest src n i m := by
  induction n generalizing i m l with
  | zero => rfl
  | succ n ih =>
    unfold strncpy.loop copyString
    rw [Word.add_of_lt (a := dest) (by omega), Word.add_of_lt (a := src) (by omega),
      he (src + i) (Nat.le_refl _) (by omega)]
    cases l with
    | nil => rw [if_pos (cstring_nil.1 h), if_pos (cstring_nil.1 h)]
    | cons c l =>
      obtain ⟨hc, hc0, hrest⟩ := h
      rw [List.length_cons] at hsrc hsep he
      rw [hc, if_neg hc0, if_neg hc0]
      refine ih (l := l) hrest (by omega) (by omega) (by omega) fun x hx hx' => ?_
      rw [Function.update_of_ne (by omega), he x (by omega) (by omega)]

/-- `strncpy` to where the source is not. -/
theorem strncpy_spec (h : CString m src l) (hsrc : src + l.length < 2 ^ 32)
    (hdest : dest + count ≤ 2 ^ 32) (hcount : 1 ≤ count)
    (hsep : src + l.length < dest ∨ dest + count ≤ src) :
    CString (strncpy m dest src count) dest (l.take (count - 1)) ∧
      ∀ x, (x < dest ∨ dest + count ≤ x) → strncpy m dest src count x = m x := by
  unfold strncpy
  rw [strncpy_loop_eq (u := m) (i := 0) h hsrc (by omega) (by omega) fun _ _ _ => rfl]
  obtain ⟨hstr, hframe⟩ := copyString_spec (m := m) (show CString m (src + 0) l from h) hsrc
    (show dest + 0 + (count - 1) < 2 ^ 32 by omega)
  exact ⟨hstr, fun x hx => hframe x (by omega)⟩

end

/-! ## The list of arguments -/

section

variable {m m' : Mem} {root b c : Nat} {bs : List Nat} {ws : List (List UInt8)} {w : List UInt8}

/-- The list from `root` on: nodes in the blocks `bs`, which hold the words `ws`. -/
structure ArgumentList (m : Mem) (root : Nat) (bs : List Nat) (ws : List (List UInt8)) : Prop where
  walk : Linked.Walk (argumentNext m) 0 root (bs.map blockAddr)
  strings : List.Forall₂ (fun b w => CString m (blockAddr b) (w.take 511)) bs ws

/-- The string and the link of a node are in its block. -/
theorem argumentNext_eq (hb : b < 25600) : argumentNext m (blockAddr b) = read32 m (blockAddr b + 512) := by
  have := blockAddr_lt hb
  unfold argumentNext
  rw [Word.add_of_lt (by omega)]

theorem cstring_take_congr {a : Nat} (h : CString m a (w.take 511))
    (he : ∀ x, a ≤ x → x < a + 512 → m' x = m x) : CString m' a (w.take 511) :=
  h.congr fun x hx hx' => he x hx (by
    have := List.length_take_le 511 w
    omega)

theorem argumentNext_sameBlock (hb : b < 25600) (hs : SameBlock m m' b) :
    argumentNext m' (blockAddr b) = argumentNext m (blockAddr b) := by
  rw [argumentNext_eq hb, argumentNext_eq hb]
  exact read32_congr fun k hk => hs _ (by omega) (by omega)

/-- A list is what its blocks hold. -/
theorem ArgumentList.sameBlocks (h : ArgumentList m root bs ws) (hb : ∀ b ∈ bs, b < 25600)
    (hs : ∀ b ∈ bs, SameBlock m m' b) : ArgumentList m' root bs ws where
  walk := h.walk.congr fun a ha => by
    obtain ⟨b, hmem, rfl⟩ := List.mem_map.1 ha
    exact argumentNext_sameBlock (hb b hmem) (hs b hmem)
  strings := ((List.forall₂_and_left _ _).2 ⟨hs, h.strings⟩).imp fun _ _ ⟨hsame, hw⟩ =>
    cstring_take_congr hw fun x hx hx' => hsame x hx (by omega)

theorem ArgumentList.length_eq (h : ArgumentList m root bs ws) : bs.length = ws.length :=
  h.strings.length_eq

/-- A node: the string is copied, and the list ends here. -/
theorem argumentNode_spec {u : Mem} {token : Nat} (hb : b < 25600) (hw : CString u token w)
    (hend : token + w.length < 2 ^ 32) (hm : m' = write32 (copyString u (blockAddr b) token 511 0 m)
      (Word.add (blockAddr b) 512) 0) :
    CString m' (blockAddr b) (w.take 511) ∧ argumentNext m' (blockAddr b) = 0 ∧
      ∀ x, (x < blockAddr b ∨ blockAddr b + 4096 ≤ x) → m' x = m x := by
  have hlt := blockAddr_lt hb
  rw [Word.add_of_lt (by omega)] at hm
  obtain ⟨hstr, hframe⟩ := copyString_spec (m := m) (show CString u (token + 0) w from hw) hend
    (show blockAddr b + 0 + 511 < 2 ^ 32 by omega)
  subst hm
  refine ⟨cstring_take_congr hstr fun x _ hx => write32_apply (by omega), ?_, fun x hx => ?_⟩
  · rw [argumentNext_eq hb, read32_write32 _ _ (by decide)]
  · rw [write32_apply (by omega), hframe x (by omega)]

/-- A list of one node. -/
theorem ArgumentList.single (hw : CString m (blockAddr b) (w.take 511))
    (hnext : argumentNext m (blockAddr b) = 0) : ArgumentList m (blockAddr b) [b] [w] where
  walk := ⟨rfl, blockAddr_ne_zero b, hnext⟩
  strings := .cons hw .nil

/-- A node `b` is put behind the last one. -/
theorem ArgumentList.snoc (h : ArgumentList m root (bs ++ [c]) ws)
    (hlt : ∀ b ∈ bs ++ [c], b < 25600) (hold : ∀ b ∈ bs, SameBlock m m' b)
    (hlast : ∀ x, blockAddr c ≤ x → x < blockAddr c + 512 → m' x = m x)
    (hlink : argumentNext m' (blockAddr c) = blockAddr b)
    (hw : CString m' (blockAddr b) (w.take 511)) (hnext : argumentNext m' (blockAddr b) = 0) :
    ArgumentList m' root (bs ++ [c, b]) (ws ++ [w]) where
  walk := by
    have hwalk := h.walk
    rw [List.map_append, List.map_singleton] at hwalk
    rw [List.map_append]
    refine hwalk.snoc (blockAddr_ne_zero b) hlink (fun a ha => ?_) hnext
    obtain ⟨j, hj, rfl⟩ := List.mem_map.1 ha
    exact argumentNext_sameBlock (hlt j (List.mem_append_left _ hj)) (hold j hj)
  strings := by
    have hkept : List.Forall₂ (fun b w => CString m' (blockAddr b) (w.take 511)) (bs ++ [c]) ws := by
      have hfirst : ∀ j ∈ bs ++ [c], ∀ x, blockAddr j ≤ x → x < blockAddr j + 512 → m' x = m x := by
        intro j hj x hx hx'
        rcases List.mem_append.1 hj with hj | hj
        · exact hold j hj x hx (by omega)
        · obtain rfl := List.mem_singleton.1 hj
          exact hlast x hx hx'
      exact ((List.forall₂_and_left _ _).2 ⟨hfirst, h.strings⟩).imp fun _ _ ⟨hsame, hw⟩ =>
        cstring_take_congr hw hsame
    rw [show bs ++ [c, b] = bs ++ [c] ++ [b] by simp]
    exact List.rel_append hkept (List.Forall₂.cons hw .nil)

/-! ## Counting -/

/-- The nodes are counted. -/
theorem processCountCommandArguments_spec {l : List Nat} (h : Linked.Walk (argumentNext m) 0 root l)
    {fuel i : Nat} (hfuel : l.length < fuel) :
    processCountCommandArguments m fuel root i = some (i + l.length) := by
  induction l generalizing root fuel i with
  | nil =>
    obtain ⟨fuel, rfl⟩ : ∃ n, fuel = n + 1 := ⟨fuel - 1, by omega⟩
    unfold processCountCommandArguments
    rw [if_pos (Linked.walk_nil.1 h)]
    rfl
  | cons b l ih =>
    obtain ⟨fuel, rfl⟩ : ∃ n, fuel = n + 1 := ⟨fuel - 1, by omega⟩
    obtain ⟨rfl, hne, hwalk⟩ := h
    rw [List.length_cons] at hfuel ⊢
    unfold processCountCommandArguments
    rw [if_neg hne, ih hwalk (by omega), Nat.add_assoc, Nat.add_comm 1]

end

/-! ## Copying -/

section

variable {σ : Type}

/-- A `process_malloc` that finds a slot and a run of blocks, without a fault. -/
def MallocServed (K : Kernel σ) (process size : Nat) : Prop :=
  (processMalloc K process size).1 ≠ 0 ∧ (processMalloc K process size).2.kmem.Sound

/-- One round of `process_inject_arguments` that gets its allocation. -/
def injectRound (K : Kernel σ) (process argv current i : Nat) : Kernel σ :=
  let (argumentStr, K) := processMalloc K process 512
  K.withMem (write32 (strncpy K.mem argumentStr current 512) (Word.add argv (4 * i)) argumentStr)

/-- The next `n` rounds get their allocations. -/
def RoundsServed (process argv : Nat) : (n current i : Nat) → Kernel σ → Prop
  | 0, _, _, _ => True
  | n + 1, current, i, K =>
    MallocServed K process 512 ∧
      RoundsServed process argv n (argumentNext (injectRound K process argv current i).mem current)
        (i + 1) (injectRound K process argv current i)

/-- Every allocation for `argc` arguments is served. -/
def ArgumentsServed (K : Kernel σ) (process root argc : Nat) : Prop :=
  MallocServed K process (Word.mul 4 argc) ∧
    RoundsServed process (processMalloc K process (Word.mul 4 argc)).1 argc root 0
      (processMalloc K process (Word.mul 4 argc)).2

/-- Only memory and the table of allocations have changed. -/
structure Kernel.DataOnly (K K' : Kernel σ) (process : Nat) : Prop where
  state : K' = { K with kmem := K'.kmem, processAt := K'.processAt }
  task : (K'.processAt process).task = (K.processAt process).task

theorem Kernel.DataOnly.trans {K K' K'' : Kernel σ} {process : Nat} (h : K.DataOnly K' process)
    (h' : K'.DataOnly K'' process) : K.DataOnly K'' process where
  state := by
    have h1 := h.state
    have h2 := h'.state
    rw [h1] at h2
    exact h2
  task := h'.task.trans h.task

/-- The arguments `ws` of a process: a vector in the block `a` with pointers to copies in the blocks
`cs`, which the process sees at their addresses. -/
structure Injected (K : Kernel σ) (process dir f : Nat) (table : Nat → Nat) (a : Nat) (cs : List Nat)
    (ws : List (List UInt8)) : Prop where
  held : HeldDir K process dir f table
  vector : DataBlock K process dir table a
  copies : ∀ c ∈ cs, DataBlock K process dir table c ∧ c ≠ a
  items : ∀ i (h : i < cs.length), read32 K.mem (blockAddr a + 4 * i) = blockAddr cs[i]
  strings : List.Forall₂ (fun c w => CString K.mem (blockAddr c) (w.take 511)) cs ws
  pages : ∀ c, c = a ∨ c ∈ cs →
    pageEntry K.mem table (4096 + c) = 4096 * (4096 + c) ||| pagingUserWriteable

variable {K : Kernel σ} {process dir f a b i : Nat} {table : Nat → Nat} {cs bs : List Nat}
  {ws done : List (List UInt8)} {w : List UInt8}

theorem Malloced.dataOnly {K' : Kernel σ} {size : Nat}
    (h : Malloced K K' process size dir f table b i) : K.DataOnly K' process where
  state := by rw [h.state]
  task := h.task_eq

theorem blocksFor_small {size : Nat} (h1 : 1 ≤ size) (h2 : size ≤ 4096) : blocksFor size = 1 := by
  unfold blocksFor
  omega

/-- `strncpy` writes to its destination only. -/
theorem strncpy_loop_outside {dest src n i x : Nat} {m : Mem} (hdest : dest + i + n < 2 ^ 32)
    (hx : x < dest + i ∨ dest + i + n < x) : strncpy.loop dest src n i m x = m x := by
  induction n generalizing i m with
  | zero =>
    unfold strncpy.loop
    rw [Word.add_of_lt (by omega)]
    exact Function.update_of_ne (by omega) _ _
  | succ n ih =>
    unfold strncpy.loop
    rw [Word.add_of_lt (a := dest) (by omega)]
    split
    · exact Function.update_of_ne (by omega) _ _
    · rw [ih (by omega) (by omega)]
      exact Function.update_of_ne (by omega) _ _

/-- What a round writes, once its string is allocated: the copy in the block `c`, and the pointer to it
in the block `a` of the vector. -/
theorem injectRound_writes {K₁ : Kernel σ} {c : Nat} (current : Nat)
    (h : processMalloc K process 512 = (blockAddr c, K₁)) (hc : c < 25600) (ha : a < 25600)
    (hi : i < 1024) :
    ∃ m₁ m₂, strncpy K₁.mem (blockAddr c) current 512 = m₁ ∧
      write32 m₁ (blockAddr a + 4 * i) (blockAddr c) = m₂ ∧
      injectRound K process (blockAddr a) current i = K₁.withMem m₂ ∧
      (∀ x, (x < blockAddr c ∨ blockAddr c + 4096 ≤ x) → m₁ x = K₁.mem x) ∧
      ∀ x, (x < blockAddr a ∨ blockAddr a + 4096 ≤ x) → m₂ x = m₁ x := by
  have hltc := blockAddr_lt hc
  have hlta := blockAddr_lt ha
  refine ⟨_, _, rfl, rfl, ?_, fun x hx => ?_, fun x hx => ?_⟩
  · unfold injectRound
    rw [h]
    dsimp only
    rw [Word.add_of_lt (by omega)]
  · exact strncpy_loop_outside (by omega) (by omega)
  · exact write32_apply (by omega)

/-- One round: the copy of the string at `b` is the next argument. -/
theorem Injected.round (h : Injected K process dir f table a cs done)
    (hb : DataBlock K process dir table b) (hw : CString K.mem (blockAddr b) (w.take 511))
    (hlen : cs.length < 1024) (hs : MallocServed K process 512) :
    ∃ c K', injectRound K process (blockAddr a) (blockAddr b) cs.length = K' ∧
      (processMalloc K process 512).1 ≠ 0 ∧
      Injected K' process dir f table a (cs ++ [c]) (done ++ [w]) ∧ K.DataOnly K' process ∧
      ∀ j, DataBlock K process dir table j → j ≠ a →
        DataBlock K' process dir table j ∧ SameBlock K.mem K'.mem j := by
  obtain ⟨c, i, K₁, hmalloc, hm⟩ := processMalloc_served h.held (by decide) (by decide) hs.1 hs.2
  have h1 : 1 ≤ 512 := by decide
  have hd₁ := hm.heldDir h.held h1
  have hc := hm.newBlock h.held h1
  have ha := hm.dataBlock h1 h.vector
  have hca : a ≠ c := hm.ne h1 h.vector.taken
  have hcb : b ≠ c := hm.ne h1 hb.taken
  have hltc := blockAddr_lt hc.lt
  have hlta := blockAddr_lt ha.lt
  have hltb := blockAddr_lt hb.lt
  have hwlen := List.length_take_le 511 w
  -- the string is copied
  have hw₁ : CString K₁.mem (blockAddr b) (w.take 511) :=
    cstring_take_congr hw fun x hx hx' => hm.sameBlock h.held hb x hx (by omega)
  have hbc : blockAddr b + 4096 ≤ blockAddr c ∨ blockAddr c + 4096 ≤ blockAddr b := by
    unfold blockAddr
    omega
  obtain ⟨hcopy, -⟩ := strncpy_spec hw₁ (by omega)
    (show blockAddr c + 512 ≤ 2 ^ 32 by omega) (by decide) (by omega)
  rw [List.take_take, Nat.min_self] at hcopy
  obtain ⟨m₁, m₂, hm₁, hm₂, hround, hframe₁, hframe₂⟩ :=
    injectRound_writes (blockAddr b) hmalloc hc.lt ha.lt hlen
  rw [hm₁] at hcopy
  obtain ⟨hd₂, hpages₂⟩ := hd₁.write hc hframe₁
  -- the vector gets the pointer
  obtain ⟨hd₃, hpages₃⟩ := hd₂.write (ha.withMem m₁) hframe₂
  have hsame : ∀ j, DataBlock K process dir table j → j ≠ a →
      DataBlock (K₁.withMem m₂) process dir table j ∧ SameBlock K.mem m₂ j := fun j hj hja => by
    refine ⟨(hm.dataBlock h1 hj).withMem m₂, ?_⟩
    exact ((hm.sameBlock h.held hj).trans (sameBlock_of_outside (hm.ne h1 hj.taken) hframe₁)).trans
      (sameBlock_of_outside hja hframe₂)
  -- the words of the vector before the new one
  have hvector : ∀ x, blockAddr a ≤ x → x < blockAddr a + 4 * cs.length → m₂ x = K.mem x :=
    fun x hx hx' => by
      have hout : m₁ x = K₁.mem x := hframe₁ x (by unfold blockAddr at *; omega)
      rw [← hm₂, write32_apply (by omega), hout]
      exact hm.sameBlock h.held h.vector x hx (by omega)
  have hpage : ∀ j < 25600, pageEntry m₂ table (4096 + j) = pageEntry K₁.mem table (4096 + j) :=
    fun j hj => (hpages₃ _ (by omega)).trans (hpages₂ _ (by omega))
  refine ⟨c, _, hround, hs.1, ⟨hd₃, ha.withMem m₂, fun j hj => ?_, fun j hj => ?_, ?_, fun j hj => ?_⟩,
    ⟨by rw [hm.state]; rfl, hm.task_eq⟩, hsame⟩
  · rcases List.mem_append.1 hj with hj | hj
    · obtain ⟨hdata, hne⟩ := h.copies j hj
      exact ⟨(hsame j hdata hne).1, hne⟩
    · obtain rfl := List.mem_singleton.1 hj
      exact ⟨hc.withMem m₂, Ne.symm hca⟩
  · rw [List.length_append, List.length_singleton] at hj
    change read32 m₂ (blockAddr a + 4 * j) = _
    rcases Nat.lt_or_ge j cs.length with hlt | hge
    · rw [List.getElem_append_left hlt, ← h.items j hlt]
      exact read32_congr fun k hk => hvector _ (by omega) (by omega)
    · obtain rfl : j = cs.length := by omega
      rw [← hm₂, read32_write32 _ _ (by omega)]
      simp
  · have hold : List.Forall₂ (fun c w => CString m₂ (blockAddr c) (w.take 511)) cs done :=
      ((List.forall₂_and_left _ _).2 ⟨h.copies, h.strings⟩).imp fun j v ⟨⟨hdata, hne⟩, hv⟩ =>
        cstring_take_congr hv fun x hx hx' => (hsame j hdata hne).2 x hx (by omega)
    refine List.rel_append hold (.cons ?_ .nil)
    refine cstring_take_congr hcopy fun x hx hx' => hframe₂ x ?_
    unfold blockAddr at *
    omega
  · change pageEntry m₂ table (4096 + j) = _
    by_cases hjc : j = c
    · rw [hjc, hpage c hc.lt]
      exact hm.newPage h1
    · have hdata : DataBlock K process dir table j := by
        rcases hj with rfl | hj
        · exact h.vector
        · rcases List.mem_append.1 hj with hj | hj
          · exact (h.copies j hj).1
          · exact absurd (List.mem_singleton.1 hj) hjc
      have hold : pageEntry K.mem table (4096 + j) = 4096 * (4096 + j) ||| pagingUserWriteable := by
        refine h.pages j ?_
        rcases hj with rfl | hj
        · exact .inl rfl
        · rcases List.mem_append.1 hj with hj | hj
          · exact .inr hj
          · exact absurd (List.mem_singleton.1 hj) hjc
      rw [hpage j hdata.lt, hm.pageEntry_eq hdata.lt hdata.taken, hold]

/-- The rounds for the nodes in the blocks `bs`. -/
theorem Injected.rounds (h : Injected K process dir f table a cs done) {current fuel : Nat}
    (hb : ∀ b ∈ bs, DataBlock K process dir table b ∧ b ≠ a)
    (hl : ArgumentList K.mem current bs ws) (hlen : cs.length + bs.length ≤ 1024)
    (hs : RoundsServed process (blockAddr a) bs.length current cs.length K)
    (hfuel : bs.length < fuel) :
    ∃ cs' K', processInjectArguments.loop process (blockAddr a) fuel current cs.length K =
        some (allOk, K') ∧
      Injected K' process dir f table a cs' (done ++ ws) ∧ K.DataOnly K' process := by
  induction bs generalizing ws cs done current fuel K with
  | nil =>
    obtain ⟨hwalk, hstrings⟩ := hl
    cases hstrings
    obtain ⟨fuel, rfl⟩ : ∃ n, fuel = n + 1 := ⟨fuel - 1, by omega⟩
    refine ⟨cs, K, ?_, by rwa [List.append_nil], ⟨rfl, rfl⟩⟩
    unfold processInjectArguments.loop
    rw [if_pos (Linked.walk_nil.1 hwalk)]
  | cons b bs ih =>
    obtain ⟨hwalk, hstrings⟩ := hl
    cases hstrings with
    | @cons _ w _ ws hw hrest =>
    obtain ⟨fuel, rfl⟩ : ∃ n, fuel = n + 1 := ⟨fuel - 1, by omega⟩
    rw [List.map_cons, Linked.walk_cons] at hwalk
    obtain ⟨rfl, hne, hwalk⟩ := hwalk
    rw [List.length_cons] at hlen hs hfuel
    obtain ⟨hserved, hs⟩ := hs
    obtain ⟨hdata, hba⟩ := hb b List.mem_cons_self
    obtain ⟨c, K', hround, hptr, h', hout, hkeep⟩ := h.round hdata hw (by omega) hserved
    rw [hround] at hs
    -- the nodes have not changed
    have hsame : ∀ j ∈ bs, SameBlock K.mem K'.mem j := fun j hj =>
      have hj' := hb j (.tail _ hj)
      (hkeep j hj'.1 hj'.2).2
    have hnext : argumentNext K'.mem (blockAddr b) = argumentNext K.mem (blockAddr b) :=
      argumentNext_sameBlock hdata.lt (hkeep b hdata hba).2
    rw [hnext] at hs
    have hlist : ArgumentList K'.mem (argumentNext K.mem (blockAddr b)) bs ws :=
      ArgumentList.sameBlocks ⟨hwalk, hrest⟩ (fun j hj => (hb j (.tail _ hj)).1.lt) hsame
    have hlength : (cs ++ [c]).length = cs.length + 1 := by simp
    obtain ⟨cs', K'', hloop, hfinal, hout'⟩ := ih h'
      (fun j hj => ⟨(hkeep j (hb j (.tail _ hj)).1 (hb j (.tail _ hj)).2).1, (hb j (.tail _ hj)).2⟩)
      hlist (by omega) (by rw [hlength]; exact hs) (show bs.length < fuel by omega)
    rw [hlength] at hloop
    refine ⟨cs', K'', ?_, by rwa [List.append_assoc] at hfinal, hout.trans hout'⟩
    unfold processInjectArguments.loop
    rw [if_neg hne]
    unfold injectRound at hround
    obtain ⟨⟨ptr, K₁⟩, hm⟩ : ∃ r, processMalloc K process 512 = r := ⟨_, rfl⟩
    rw [hm] at hround hptr ⊢
    dsimp only at hround hptr ⊢
    rw [if_neg hptr]
    have hmem : write32 (strncpy K₁.mem ptr (blockAddr b) 512)
        (Word.add (blockAddr a) (4 * cs.length)) ptr = K'.mem := by
      rw [← hround]
      rfl
    rw [hmem, hnext, ← hloop, ← hround]
    rfl

/-- What `process_inject_arguments` leaves, where its allocations are served. -/
theorem processInjectArguments_spec {root : Nat} (hd : HeldDir K process dir f table)
    (hb : ∀ b ∈ bs, DataBlock K process dir table b) (hl : ArgumentList K.mem root bs ws)
    (hpos : 1 ≤ ws.length) (hlen : ws.length ≤ 1024)
    (hs : ArgumentsServed K process root ws.length) :
    ∃ a cs K', processInjectArguments K process root = some (allOk, K') ∧
      Injected K' process dir f table a cs ws ∧
      (K'.processAt process).arguments = ⟨ws.length, blockAddr a⟩ ∧ K.DataOnly K' process := by
  have hsize : Word.mul 4 ws.length = 4 * ws.length := Word.mul_of_lt (by omega)
  have hcount : processCountCommandArguments K.mem argumentFuel root 0 = some ws.length := by
    have hfuel : (bs.map blockAddr).length < argumentFuel := by
      unfold argumentFuel
      rw [List.length_map, hl.length_eq]
      omega
    rw [processCountCommandArguments_spec hl.walk hfuel, Nat.zero_add, List.length_map, hl.length_eq]
  obtain ⟨hmalloc, hrounds⟩ := hs
  rw [hsize] at hmalloc hrounds
  obtain ⟨a, i, K₁, he, hm⟩ := processMalloc_served hd (by omega) (by omega) hmalloc.1 hmalloc.2
  rw [he] at hrounds
  have h1 : 1 ≤ 4 * ws.length := by omega
  have hstart : Injected K₁ process dir f table a [] [] :=
    ⟨hm.heldDir hd h1, hm.newBlock hd h1, by simp, by simp, .nil, fun c hc => by
      obtain rfl : c = a := by simpa using hc
      exact hm.newPage h1⟩
  have hlist : ArgumentList K₁.mem root bs ws :=
    hl.sameBlocks (fun b hmem => (hb b hmem).lt) fun b hmem => hm.sameBlock hd (hb b hmem)
  have hlength := hl.length_eq
  have hfuel : bs.length < argumentFuel := by
    unfold argumentFuel
    omega
  obtain ⟨cs, K₂, hloop, hfinal, hout⟩ := hstart.rounds
    (fun b (hmem : b ∈ bs) => ⟨hm.dataBlock h1 (hb b hmem), hm.ne h1 (hb b hmem).taken⟩) hlist
    (by rw [List.length_nil]; omega) (by rw [hlength]; exact hrounds) hfuel
  obtain ⟨K₃, hK₃⟩ : ∃ K₃, K₂.setProcess process
    { K₂.processAt process with arguments := ⟨ws.length, blockAddr a⟩ } = K₃ := ⟨_, rfl⟩
  have hat : K₃.processAt process =
      { K₂.processAt process with arguments := ⟨ws.length, blockAddr a⟩ } := by
    rw [← hK₃]
    exact Function.update_self _ _ _
  have hkmem : K₃.kmem = K₂.kmem := by rw [← hK₃]; rfl
  have hqueue : K₃.queue = K₂.queue := by rw [← hK₃]; rfl
  have htask : (K₃.processAt process).task = (K₂.processAt process).task := by rw [hat]
  have hmem : K₃.mem = K₂.mem := congrArg Kmem.mem hkmem
  refine ⟨a, cs, K₃, ?_, ⟨hfinal.held.of_eq hkmem hqueue htask,
    hfinal.vector.of_eq hkmem hqueue htask, fun c hc => ?_, ?_, ?_, ?_⟩, by rw [hat],
    (hm.dataOnly.trans hout).trans ⟨by rw [← hK₃]; rfl, htask⟩⟩
  · unfold processInjectArguments
    rw [hcount]
    dsimp only
    rw [if_neg (by omega), hsize, he]
    dsimp only
    rw [if_neg (blockAddr_ne_zero a)]
    rw [List.length_nil] at hloop
    rw [hloop]
    dsimp only
    rw [if_neg (show ¬ allOk < 0 by decide), hK₃]
  · exact ⟨(hfinal.copies c hc).1.of_eq hkmem hqueue htask, (hfinal.copies c hc).2⟩
  · rw [hmem]
    exact hfinal.items
  · rw [hmem]
    exact hfinal.strings
  · rw [hmem]
    exact hfinal.pages

end

end Pandora
