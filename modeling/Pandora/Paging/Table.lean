import Pandora.Paging.Defs

/-!
# Two-level tables in memory

`PageDir m dir f table`: the directory `dir` and its 1024 tables lie in distinct pages of the kernel
heap window, and entry `i` of the directory is the address `table i` with the flags `f`. The window
ends below `2 ^ 28`, so the mask `0xFFFF000` of `paging_get` finds the same table as the mask
`0xFFFFF000` of `paging_set`. Under `PageDir` the operations act on `pageEntry`, the entry of each
of the `2 ^ 20` pages (`PageDir.get`, `PageDir.set`).
-/

namespace Pandora

open ByteMem

/-- A page of the kernel heap. -/
structure InWindow (a : Nat) : Prop where
  aligned : a % 4096 = 0
  lo : 0x01000000 ≤ a
  hi : a < 0x07400000

theorem inWindow_blockAddr {b : Nat} (h : b < 25600) : InWindow (blockAddr b) := by
  unfold blockAddr
  exact ⟨by omega, by omega, by omega⟩

theorem not_inWindow_zero : ¬ InWindow 0 := fun h => absurd h.lo (by decide)

/-- Words of different pages are disjoint. -/
theorem InWindow.disjoint {a b : Nat} (ha : InWindow a) (hb : InWindow b) (h : a ≠ b) :
    a + 4096 ≤ b ∨ b + 4096 ≤ a := by
  have := ha.aligned
  have := hb.aligned
  omega

structure PageDir (m : Mem) (dir f : Nat) (table : Nat → Nat) : Prop where
  flags_lt : f < 4096
  dirWindow : InWindow dir
  window : ∀ i < 1024, InWindow (table i)
  inj : ∀ i < 1024, ∀ j < 1024, table i = table j → i = j
  ne_dir : ∀ i < 1024, table i ≠ dir
  entry : ∀ i < 1024, read32 m (dir + 4 * i) = table i + f

/-- Where the entry of page `p` is. -/
def entryAddr (table : Nat → Nat) (p : Nat) : Nat := table (p / 1024) + 4 * (p % 1024)

/-- The entry of page `p`. -/
def pageEntry (m : Mem) (table : Nat → Nat) (p : Nat) : Nat := read32 m (entryAddr table p)

section

variable {m m' : Mem} {dir f p q v val : Nat} {table : Nat → Nat}

theorem pageEntry_lt (m : Mem) (table : Nat → Nat) (p : Nat) : pageEntry m table p < 2 ^ 32 :=
  read32_lt _ _

/-- The indexes of an aligned address, as the indexes of its page. -/
theorem getIndexes_of_aligned (h : v % 4096 = 0) (d t : Nat) :
    pagingGetIndexes v d t = (allOk, v / 4096 / 1024, v / 4096 % 1024) := by
  unfold pagingGetIndexes pagingIsAligned
  rw [decide_eq_true h, if_neg (by decide), show v / (1024 * 4096) = v / 4096 / 1024 by omega,
    show v % (1024 * 4096) / 4096 = v / 4096 % 1024 by omega]

theorem entryAddr_mem (table : Nat → Nat) (p : Nat) :
    table (p / 1024) ≤ entryAddr table p ∧ entryAddr table p + 4 ≤ table (p / 1024) + 4096 := by
  unfold entryAddr
  omega

/-- The entries stand in every memory that agrees on the tables. -/
theorem pageEntry_congr (hp : p < 2 ^ 20)
    (hm : ∀ i < 1024, ∀ x, table i ≤ x → x < table i + 4096 → m' x = m x) :
    pageEntry m' table p = pageEntry m table p := by
  have := entryAddr_mem table p
  exact read32_congr fun j hj => hm (p / 1024) (by omega) _ (by omega) (by omega)

namespace PageDir

variable (h : PageDir m dir f table)

include h

theorem entryAddr_disjoint (hp : p < 2 ^ 20) (hq : q < 2 ^ 20) (hne : p ≠ q) :
    entryAddr table p + 4 ≤ entryAddr table q ∨ entryAddr table q + 4 ≤ entryAddr table p := by
  by_cases hi : p / 1024 = q / 1024
  · unfold entryAddr
    rw [hi]
    omega
  · have hne : table (p / 1024) ≠ table (q / 1024) := fun he =>
      hi (h.inj _ (by omega) _ (by omega) he)
    have := (h.window (p / 1024) (by omega)).disjoint (h.window (q / 1024) (by omega)) hne
    have := entryAddr_mem table p
    have := entryAddr_mem table q
    omega

/-- The directory entry of a page leads to its table, under either mask. -/
theorem entry_and (hp : p < 2 ^ 20) :
    read32 m (Word.add dir (4 * (p / 1024))) &&& 0xFFFFF000 = table (p / 1024) ∧
      read32 m (Word.add dir (4 * (p / 1024))) &&& 0xFFFF000 = table (p / 1024) := by
  have hd := h.dirWindow.hi
  have hf := h.flags_lt
  obtain ⟨hal, hlo, hhi⟩ := h.window (p / 1024) (by omega)
  rw [Word.add_of_lt (by omega), h.entry _ (by omega)]
  constructor
  · rw [Word.and_page_mask (by omega)]
    omega
  · rw [Word.and_page_mask_28]
    omega

theorem add_entryAddr (hp : p < 2 ^ 20) :
    Word.add (table (p / 1024)) (4 * (p % 1024)) = entryAddr table p := by
  have := (h.window (p / 1024) (by omega)).hi
  exact Word.add_of_lt (by omega)

theorem get (hv : v < 2 ^ 32) (hal : v % 4096 = 0) :
    pagingGet m dir v = pageEntry m table (v / 4096) := by
  have hp : v / 4096 < 2 ^ 20 := by omega
  unfold pagingGet
  rw [getIndexes_of_aligned hal]
  dsimp only
  rw [(h.entry_and hp).2, h.add_entryAddr hp]
  rfl

theorem set (hv : v < 2 ^ 32) (hal : v % 4096 = 0) :
    pagingSet m dir v val = (allOk, write32 m (entryAddr table (v / 4096)) val) := by
  have hp : v / 4096 < 2 ^ 20 := by omega
  unfold pagingSet pagingIsAligned
  rw [decide_eq_true hal, if_neg (by decide), getIndexes_of_aligned hal]
  dsimp only
  rw [if_neg (by decide), (h.entry_and hp).1, h.add_entryAddr hp]

/-- The directory stands in every memory that agrees on its page. -/
theorem congr (hm : ∀ x, dir ≤ x → x < dir + 4096 → m' x = m x) : PageDir m' dir f table where
  flags_lt := h.flags_lt
  dirWindow := h.dirWindow
  window := h.window
  inj := h.inj
  ne_dir := h.ne_dir
  entry := fun i hi => by
    rw [← h.entry i hi]
    exact read32_congr fun j hj => hm _ (by omega) (by omega)

/-- Writing an entry leaves the directory. -/
theorem write (hp : p < 2 ^ 20) : PageDir (write32 m (entryAddr table p) val) dir f table := by
  have hd := (h.window (p / 1024) (by omega)).disjoint h.dirWindow (h.ne_dir _ (by omega))
  have := entryAddr_mem table p
  exact h.congr fun x _ _ => write32_apply (by omega)

theorem pageEntry_write (hp : p < 2 ^ 20) (hq : q < 2 ^ 20) (hval : val < 2 ^ 32) :
    pageEntry (write32 m (entryAddr table p) val) table q =
      if q = p then val else pageEntry m table q := by
  unfold pageEntry
  split
  · rename_i hqp
    rw [hqp, read32_write32 _ _ hval]
  · rename_i hqp
    exact read32_write32_of_disjoint (h.entryAddr_disjoint hq hp hqp)

end PageDir

end

end Pandora
