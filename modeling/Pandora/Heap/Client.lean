import Pandora.Heap.Alloc
import Pandora.Lib.Run

/-!
# Runs of the heap

A client of one heap calls `heap_malloc` and `heap_free`; `Client.live` is what it may still free:
the pointers it got, with the sizes it asked for. `HeapOp.step` makes one call, `HeapOp.Valid` is
what the client promises (sizes that do not wrap, frees of live pointers only).

The invariant of a run is `Client.Inv`: every live pointer is the address of the first block of a
chain of `blocksFor size` blocks inside the table. A step keeps it when the heap does not run short
(`HeapOp.Served`), and only then: `safe_iff_served`.
-/

namespace Pandora

structure Alloc where
  ptr : Nat
  size : Nat
deriving DecidableEq, Repr

structure Client where
  heap : Heap
  live : List Alloc

inductive HeapOp where
  | malloc (size : Nat)
  | free (ptr : Nat)
deriving DecidableEq, Repr

/-- One call; a null result of `heap_malloc` is no allocation. -/
def HeapOp.step (c : Client) : HeapOp → Client
  | malloc size =>
    let r := heapMalloc c.heap size
    { heap := r.2, live := if r.1 = 0 then c.live else ⟨r.1, size⟩ :: c.live }
  | free ptr => { heap := heapFree c.heap ptr, live := c.live.filter (·.ptr ≠ ptr) }

theorem HeapOp.step_malloc {c : Client} {size : Nat} (h : size ≤ 2 ^ 32 - 4096) :
    (malloc size).step c =
      { heap := (heapMallocBlocks c.heap (blocksFor size)).2
        live := if (heapMallocBlocks c.heap (blocksFor size)).1 = 0 then c.live
          else ⟨(heapMallocBlocks c.heap (blocksFor size)).1, size⟩ :: c.live } := by
  simp only [step, heapMalloc_eq h]

def HeapOp.Valid (c : Client) : HeapOp → Prop
  | malloc size => 1 ≤ size ∧ size ≤ 2 ^ 32 - 4096
  | free ptr => ∃ a ∈ c.live, a.ptr = ptr

/-- `b` is one of the blocks of the allocation `a`. -/
def Heap.Covers (heap : Heap) (a : Alloc) (b : Nat) : Prop :=
  heap.blockOf a.ptr ≤ b ∧ b < heap.blockOf a.ptr + blocksFor a.size

/-- What a call must do: the blocks of a new allocation lie below `N` and in no live allocation,
and no entry is written from `N` on. -/
def HeapOp.Safe (N : Nat) (c : Client) (op : HeapOp) : Prop :=
  (∀ size, op = malloc size → (heapMalloc c.heap size).1 ≠ 0 →
    ∀ b, c.heap.Covers ⟨(heapMalloc c.heap size).1, size⟩ b →
      b < N ∧ ∀ a ∈ c.live, ¬ c.heap.Covers a b) ∧
  ∀ i ∈ (op.step c).heap.table.written, i < N

/-- The heap does not run short: a request finds a long enough run of free blocks, or the last
block is taken. -/
def HeapOp.Served (c : Client) : HeapOp → Prop
  | malloc size => ¬ c.heap.RunsShort (blocksFor size)
  | free _ => True

/-- The invariant of a run (module doc). -/
structure Client.Inv (N : Nat) (c : Client) : Prop where
  shape : c.heap.Shape
  total : c.heap.table.total = N
  written : ∀ i ∈ c.heap.table.written, i < N
  chain : ∀ a ∈ c.live, IsChain c.heap.table.entries N (c.heap.blockOf a.ptr) (blocksFor a.size)
  inside : ∀ a ∈ c.live, c.heap.blockOf a.ptr + blocksFor a.size ≤ N
  address : ∀ a ∈ c.live, heapBlockToAddress c.heap (c.heap.blockOf a.ptr) = a.ptr

theorem Client.Inv.create {heap h : Heap} {ptr end' N : Nat} {entries : Nat → UInt8}
    (hp : ptr < 2 ^ 32) (hc : heapCreate heap ptr end' ⟨entries, N, []⟩ = (allOk, h)) :
    Client.Inv N ⟨h, []⟩ where
  shape := heapCreate_shape hp hc
  total := by obtain ⟨-, -, -, rfl⟩ := heapCreate_ok hc; rfl
  written := by
    obtain ⟨-, -, -, rfl⟩ := heapCreate_ok hc
    simp [HeapTable.clear]
  chain := by simp
  inside := by simp
  address := by simp

section
variable {N : Nat} {c : Client} (hI : c.Inv N)
include hI

theorem Client.Inv.lt_pow {s n : Nat} (hs : s + n ≤ N) : s + n ≤ 2 ^ 31 := by
  have := hI.shape.total_lt
  have := hI.total
  omega

/-- A live allocation has no free block. -/
theorem Client.Inv.not_free {a : Alloc} (ha : a ∈ c.live) {b : Nat} (hb : c.heap.Covers a b) :
    ¬ Free (c.heap.table.entries b) :=
  (hI.chain a ha).not_free hb.1 hb.2 (by have := hI.inside a ha; have := hb.2; omega)

/-- Taking `n` free blocks from `s` on for a new allocation. -/
theorem Client.Inv.taken {s n size : Nat} (hn : n = blocksFor size) (h1 : 1 ≤ n) (hs : s + n ≤ N)
    (hrun : FreeRun c.heap.table.entries s n) :
    Client.Inv N ⟨heapMarkBlocksTaken c.heap s n,
      ⟨heapBlockToAddress c.heap s, size⟩ :: c.live⟩ := by
  have hpow := hI.lt_pow hs
  have htot := hI.total
  have hlt := hI.shape.total_lt
  have hblock : ∀ p, (heapMarkBlocksTaken c.heap s n).blockOf p = c.heap.blockOf p := by
    simp [Heap.blockOf]
  have haddr : ∀ b, heapBlockToAddress (heapMarkBlocksTaken c.heap s n) b =
      heapBlockToAddress c.heap b := by
    simp [heapBlockToAddress]
  have hnew : c.heap.blockOf (heapBlockToAddress c.heap s) = s :=
    blockOf_blockToAddress hI.shape.saddr_lt (by omega)
  refine ⟨⟨by simpa using hI.shape.saddr_lt, by simpa using hlt⟩, by simpa using htot,
    fun i hi => ?_, fun a ha => ?_, fun a ha => ?_, fun a ha => ?_⟩
  · rcases (markBlocksTaken_written h1 hpow i).1 hi with hi | hi
    · omega
    · exact hI.written i hi
  · simp only [hblock]
    rcases List.mem_cons.1 ha with rfl | ha
    · rw [hnew, ← hn]
      refine ⟨h1, by omega, fun k hk _ => ?_⟩
      rw [markBlocksTaken_entries h1 hpow, if_pos (by omega), show s + k - s = k by omega]
    · -- the blocks of the others are taken, so they are not among the marked ones
      refine (hI.chain a ha).congr fun i h h' ht => ?_
      rw [markBlocksTaken_entries h1 hpow, if_neg]
      rintro ⟨hsi, hin⟩
      have := hrun (i - s) (by omega)
      rw [show s + (i - s) = i by omega] at this
      exact hI.not_free ha ⟨h, h'⟩ this
  · simp only [hblock]
    rcases List.mem_cons.1 ha with rfl | ha
    · rw [hnew, ← hn]
      exact hs
    · exact hI.inside a ha
  · simp only [hblock, haddr]
    rcases List.mem_cons.1 ha with rfl | ha
    · rw [hnew]
    · exact hI.address a ha

/-- Freeing a live pointer. -/
theorem Client.Inv.freed {ptr : Nat} (hp : ∃ a ∈ c.live, a.ptr = ptr) :
    Client.Inv N ((HeapOp.free ptr).step c) := by
  obtain ⟨a, ha, rfl⟩ := hp
  have htot := hI.total
  have hlt := hI.shape.total_lt
  have hin := hI.inside a ha
  have hch := hI.chain a ha
  have hpos := hch.pos
  have hblock : ∀ p, (heapFree c.heap a.ptr).blockOf p = c.heap.blockOf p := by
    simp [Heap.blockOf]
  have haddr : ∀ b, heapBlockToAddress (heapFree c.heap a.ptr) b = heapBlockToAddress c.heap b := by
    simp [heapBlockToAddress]
  -- the other chains keep their entries
  have hkeep : ∀ a' ∈ c.live, a'.ptr ≠ a.ptr → ∀ i, c.heap.blockOf a'.ptr ≤ i →
      i < c.heap.blockOf a'.ptr + blocksFor a'.size →
      (heapFree c.heap a.ptr).table.entries i = c.heap.table.entries i := by
    intro a' ha' hne i h h'
    have hb : c.heap.blockOf a'.ptr ≠ c.heap.blockOf a.ptr := fun he =>
      hne (by rw [← hI.address a' ha', he, hI.address a ha])
    have hdis := (hI.chain a' ha').disjoint hch hb
    rw [← hI.address a ha]
    rcases Nat.lt_or_ge (c.heap.blockOf a.ptr) (2 ^ 19) with hlow | hhigh
    · rw [heapFree_low hI.shape.saddr_lt hlow,
        markBlocksFree_chain (by rwa [htot]) (by omega), if_neg (by omega)]
    · rw [heapFree_high hI.shape hhigh (by omega)]
  have hlive : ∀ a', a' ∈ ((HeapOp.free a.ptr).step c).live ↔ a' ∈ c.live ∧ a'.ptr ≠ a.ptr := by
    simp [HeapOp.step]
  refine ⟨⟨by simpa [HeapOp.step] using hI.shape.saddr_lt, by simpa [HeapOp.step] using hlt⟩,
    by simpa [HeapOp.step] using htot, fun i hi => ?_, fun a' ha' => ?_, fun a' ha' => ?_,
    fun a' ha' => ?_⟩
  · rcases heapFree_written hi with hi | hi
    · omega
    · exact hI.written i hi
  · obtain ⟨hm, hne⟩ := (hlive a').1 ha'
    simp only [HeapOp.step, hblock]
    exact (hI.chain a' hm).congr fun i h h' _ => hkeep a' hm hne i h h'
  · obtain ⟨hm, -⟩ := (hlive a').1 ha'
    simp only [HeapOp.step, hblock]
    exact hI.inside a' hm
  · obtain ⟨hm, -⟩ := (hlive a').1 ha'
    simp only [HeapOp.step, hblock, haddr]
    exact hI.address a' hm

/-- A step that is served keeps the invariant. -/
theorem Client.Inv.step {op : HeapOp} (hv : op.Valid c) (hs : op.Served c) :
    Client.Inv N (op.step c) := by
  cases op with
  | free ptr => exact hI.freed hv
  | malloc size =>
    have h1 := blocksFor_pos hv.1
    rw [HeapOp.step_malloc hv.2]
    rcases heapMallocBlocks_served h1 hs with ⟨s, hsn, hrun, -, he⟩ | ⟨he, -⟩
    · rw [he]
      rw [hI.total] at hsn
      have ht := hI.taken rfl h1 hsn hrun
      dsimp only
      split
      · -- the block at the null address is taken but nobody's
        exact ⟨ht.shape, ht.total, ht.written, fun a ha => ht.chain a (.tail _ ha),
          fun a ha => ht.inside a (.tail _ ha), fun a ha => ht.address a (.tail _ ha)⟩
      · exact ht
    · rw [he]
      simpa using hI

/-- **A call does what it must exactly when it is served.** -/
theorem Client.Inv.safe_iff_served {op : HeapOp} (hv : op.Valid c) :
    op.Safe N c ↔ op.Served c := by
  constructor
  · intro hsafe
    cases op with
    | free ptr => trivial
    | malloc size =>
      rintro ⟨hno, h0, hlast⟩
      have h1 := blocksFor_pos hv.1
      have hle := blocksFor_le hv.2
      have htot := hI.total
      have hlt := hI.shape.total_lt
      have hm := heapMallocBlocks_spec c.heap (blocksFor size)
      have hw := hsafe.2
      rw [HeapOp.step_malloc hv.2] at hw
      generalize heapMallocBlocks c.heap (blocksFor size) = r at hm hw
      cases hm with
      | found s _ hs hrun _ => exact hno ⟨s, hs, hrun⟩
      | short s hs htail _ _ =>
        -- the marking loop runs over the end of the table
        have hover := short_lt hs htail hno
        have := hw N ((markBlocksTaken_written h1 (by omega) N).2 (.inl (by omega)))
        omega
      | none hl _ => exact hl.elim h0 (· hlast)
  · intro hs
    refine ⟨fun size he hne b hb => ?_, (hI.step hv hs).written⟩
    subst he
    rw [heapMalloc_eq hv.2] at hne hb
    have htot := hI.total
    have hlt := hI.shape.total_lt
    rcases heapMallocBlocks_served (blocksFor_pos hv.1) hs with ⟨s, hsn, hrun, -, he⟩ | ⟨he, -⟩
    · rw [he] at hb
      have hnew : c.heap.blockOf (heapBlockToAddress c.heap s) = s :=
        blockOf_blockToAddress hI.shape.saddr_lt (by have := blocksFor_pos hv.1; omega)
      obtain ⟨h, h'⟩ := hb
      simp only [hnew] at h h'
      refine ⟨by omega, fun a ha hcov => hI.not_free ha hcov ?_⟩
      have := hrun (b - s) (by omega)
      rwa [show s + (b - s) = b by omega] at this
    · rw [he] at hne
      exact absurd rfl hne

end

/-- **Heap safety over whole runs**: from a heap set up by `heap_create`, the calls of a run of a
client that keeps its promises all do what they must exactly when the heap runs short at none of
them. -/
theorem heap_safe_iff_served {heap h : Heap} {ptr end' N : Nat} {entries : Nat → UInt8}
    (hp : ptr < 2 ^ 32) (hc : heapCreate heap ptr end' ⟨entries, N, []⟩ = (allOk, h))
    {ops : List HeapOp} (hv : Run.Steps HeapOp.step HeapOp.Valid ⟨h, []⟩ ops) :
    Run.Steps HeapOp.step (HeapOp.Safe N) ⟨h, []⟩ ops ↔
      Run.Steps HeapOp.step HeapOp.Served ⟨h, []⟩ ops :=
  Run.steps_iff (fun _ _ hi hv hs => Client.Inv.step hi hv hs)
    (fun _ _ hi hv => Client.Inv.safe_iff_served hi hv) (.create hp hc) hv

/-- A heap of one block, all free. -/
def oneBlockHeap : Heap := { saddr := 0x1000, table := HeapTable.clear ⟨fun _ => 0, 1, []⟩ }

theorem oneBlockHeap_create :
    heapCreate ⟨⟨fun _ => 0, 0, []⟩, 0⟩ 0x1000 0x2000 ⟨fun _ => 0, 1, []⟩ = (allOk, oneBlockHeap) :=
  heapCreate_of (by decide) (by decide) (by decide +kernel)

theorem heap_safe_iff_served_one :
    Run.Steps HeapOp.step (HeapOp.Safe 1) ⟨oneBlockHeap, []⟩ [.malloc 4096, .free 0x1000] ↔
      Run.Steps HeapOp.step HeapOp.Served ⟨oneBlockHeap, []⟩ [.malloc 4096, .free 0x1000] := by
  refine heap_safe_iff_served (by decide) oneBlockHeap_create ⟨⟨by decide, by decide⟩, ?_, trivial⟩
  have haddr : (heapMalloc oneBlockHeap 4096).1 = 0x1000 := by decide +kernel
  exact ⟨⟨0x1000, 4096⟩, by simp [HeapOp.step, haddr], rfl⟩

/-- A request of two blocks from an empty heap of one block: the answer is block `0`, and the
allocation runs over the end of the table. -/
theorem heap_unsafe_short_run :
    heapCreate ⟨⟨fun _ => 0, 0, []⟩, 0⟩ 0x1000 0x2000 ⟨fun _ => 0, 1, []⟩ =
        (allOk, oneBlockHeap) ∧
      Run.Steps HeapOp.step HeapOp.Valid ⟨oneBlockHeap, []⟩ [.malloc 8192] ∧
      ¬ Run.Steps HeapOp.step (HeapOp.Safe 1) ⟨oneBlockHeap, []⟩ [.malloc 8192] := by
  refine ⟨oneBlockHeap_create, ⟨⟨by decide, by decide⟩, trivial⟩, fun hs => ?_⟩
  have haddr : (heapMalloc oneBlockHeap 8192).1 = 0x1000 := by decide +kernel
  have hblock : oneBlockHeap.blockOf 0x1000 = 0 := by decide +kernel
  have hcov : oneBlockHeap.Covers ⟨(heapMalloc oneBlockHeap 8192).1, 8192⟩ 1 := by
    simp [Heap.Covers, haddr, hblock, blocksFor]
  have := (hs.1.1 8192 rfl (by rw [haddr]; decide) 1 hcov).1
  omega

end Pandora
