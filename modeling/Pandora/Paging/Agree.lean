import Pandora.Paging.Table

/-!
# The setter and the getter of page entries

`paging_set` takes the address of a table from a directory entry with the mask `0xFFFFF000`,
`paging_get` with `0xFFFF000`, which has one digit less and loses the top four bits of the address.
For a directory whose tables may lie anywhere (`Tables`), `setterAddr` and `getterAddr` are the two
addresses of an entry. They are the same exactly for a table below `2 ^ 28` (`getterAddr_eq_iff`),
so the two agree on a whole directory exactly when all its tables lie there
(`paging_get_set_iff`). `PageDir` is such a directory.
-/

namespace Pandora

open ByteMem

/-- The table in entry `i` of the directory: the entry without its flags. -/
def tableAt (m : Mem) (dir i : Nat) : Nat := read32 m (dir + 4 * i) / 4096 * 4096

/-- A directory and its 1024 tables: different pages, which may lie anywhere. -/
structure Tables (m : Mem) (dir : Nat) : Prop where
  dir_le : dir + 4096 ≤ 2 ^ 32
  inj : ∀ i < 1024, ∀ j < 1024, tableAt m dir i = tableAt m dir j → i = j
  apart : ∀ i < 1024, tableAt m dir i + 4096 ≤ dir ∨ dir + 4096 ≤ tableAt m dir i

/-- Where `paging_set` has the entry of the page `virt`. -/
def setterAddr (m : Mem) (dir virt : Nat) : Nat :=
  tableAt m dir (virt / 4096 / 1024) + 4 * (virt / 4096 % 1024)

/-- Where `paging_get` has it. -/
def getterAddr (m : Mem) (dir virt : Nat) : Nat :=
  tableAt m dir (virt / 4096 / 1024) % 2 ^ 28 + 4 * (virt / 4096 % 1024)

/-- What is set is what is read, and every other page `w` keeps its entry. -/
def EntryAgrees (m : Mem) (dir v w x : Nat) : Prop :=
  (pagingSet m dir v x).1 = allOk →
    pagingGet (pagingSet m dir v x).2 dir v = x ∧
      (w ≠ v → pagingGet (pagingSet m dir v x).2 dir w = pagingGet m dir w)

section

variable {m : Mem} {dir v w x i : Nat}

theorem tableAt_lt (m : Mem) (dir i : Nat) : tableAt m dir i < 2 ^ 32 := by
  have := read32_lt m (dir + 4 * i)
  unfold tableAt
  omega

theorem tableAt_mod (m : Mem) (dir i : Nat) : tableAt m dir i % 4096 = 0 := by
  unfold tableAt
  omega

theorem setterAddr_mod (m : Mem) (dir v : Nat) : setterAddr m dir v % 4 = 0 := by
  have := tableAt_mod m dir (v / 4096 / 1024)
  unfold setterAddr
  omega

theorem getterAddr_mod (m : Mem) (dir v : Nat) : getterAddr m dir v % 4 = 0 := by
  have := tableAt_mod m dir (v / 4096 / 1024)
  unfold getterAddr
  omega

/-- The shorter mask finds the table exactly where the four bits it lacks are zero. -/
theorem getterAddr_eq_iff :
    getterAddr m dir v = setterAddr m dir v ↔ tableAt m dir (v / 4096 / 1024) < 2 ^ 28 := by
  unfold getterAddr setterAddr
  omega

namespace Tables

variable (h : Tables m dir)

include h

theorem get (hv : v < 2 ^ 32) (hal : v % 4096 = 0) :
    pagingGet m dir v = read32 m (getterAddr m dir v) := by
  have hdir := h.dir_le
  have hlt := tableAt_lt m dir (v / 4096 / 1024)
  have hmod := tableAt_mod m dir (v / 4096 / 1024)
  have htable : read32 m (dir + 4 * (v / 4096 / 1024)) &&& 0xFFFF000 =
      tableAt m dir (v / 4096 / 1024) % 2 ^ 28 := by
    rw [Word.and_page_mask_28]
    unfold tableAt
    omega
  unfold pagingGet getterAddr
  rw [getIndexes_of_aligned hal]
  dsimp only
  rw [Word.add_of_lt (show dir + 4 * (v / 4096 / 1024) < 2 ^ 32 by omega), htable,
    Word.add_of_lt (by omega)]

theorem set (hv : v < 2 ^ 32) (hal : v % 4096 = 0) :
    pagingSet m dir v x = (allOk, write32 m (setterAddr m dir v) x) := by
  have hdir := h.dir_le
  have hlt := tableAt_lt m dir (v / 4096 / 1024)
  have hmod := tableAt_mod m dir (v / 4096 / 1024)
  have htable : read32 m (dir + 4 * (v / 4096 / 1024)) &&& 0xFFFFF000 =
      tableAt m dir (v / 4096 / 1024) := Word.and_page_mask (read32_lt _ _)
  unfold pagingSet pagingIsAligned setterAddr
  rw [decide_eq_true hal, if_neg (by decide), getIndexes_of_aligned hal]
  dsimp only
  rw [if_neg (by decide), Word.add_of_lt (show dir + 4 * (v / 4096 / 1024) < 2 ^ 32 by omega), htable,
    Word.add_of_lt (by omega)]

/-- An entry is in no directory. -/
theorem tableAt_write (hv : v < 2 ^ 32) (hi : i < 1024) :
    tableAt (write32 m (setterAddr m dir v) x) dir i = tableAt m dir i := by
  have hd := h.apart (v / 4096 / 1024) (by omega)
  have hword : read32 (write32 m (setterAddr m dir v) x) (dir + 4 * i) = read32 m (dir + 4 * i) := by
    apply read32_write32_of_disjoint
    unfold setterAddr
    omega
  unfold tableAt
  rw [hword]

theorem write (hv : v < 2 ^ 32) : Tables (write32 m (setterAddr m dir v) x) dir where
  dir_le := h.dir_le
  inj := fun i hi j hj he => by
    rw [h.tableAt_write hv hi, h.tableAt_write hv hj] at he
    exact h.inj i hi j hj he
  apart := fun i hi => by
    rw [h.tableAt_write hv hi]
    exact h.apart i hi

/-- What the getter reads after a call of the setter. -/
theorem get_set (hv : v < 2 ^ 32) (hal : v % 4096 = 0) (hw : w < 2 ^ 32) (hwal : w % 4096 = 0)
    (hx : x < 2 ^ 32) :
    pagingGet (pagingSet m dir v x).2 dir w =
      if getterAddr m dir w = setterAddr m dir v then x else read32 m (getterAddr m dir w) := by
  have hsame : getterAddr (write32 m (setterAddr m dir v) x) dir w = getterAddr m dir w := by
    unfold getterAddr
    rw [h.tableAt_write hv (by omega)]
  rw [h.set hv hal, (h.write hv).get hw hwal, hsame]
  split
  · rename_i heq
    rw [heq, read32_write32 _ _ hx]
  · rename_i hne
    -- two words at multiples of four are the same word or disjoint
    have hg := getterAddr_mod m dir w
    have hs := setterAddr_mod m dir v
    exact read32_write32_of_disjoint (by omega)

/-- One call: the entry is read back where the getter has its table right (or the word it reads
instead is already `x`), and the entry of `w` changes where the getter takes the written word for
it. -/
theorem entryAgrees_iff (hv : v < 2 ^ 32) (hal : v % 4096 = 0) (hw : w < 2 ^ 32)
    (hwal : w % 4096 = 0) (hx : x < 2 ^ 32) :
    EntryAgrees m dir v w x ↔
      (tableAt m dir (v / 4096 / 1024) < 2 ^ 28 ∨ read32 m (getterAddr m dir v) = x) ∧
        (w ≠ v → getterAddr m dir w = setterAddr m dir v → read32 m (setterAddr m dir v) = x) := by
  have hok : (pagingSet m dir v x).1 = allOk := by rw [h.set hv hal]
  have hself : pagingGet (pagingSet m dir v x).2 dir v = x ↔
      tableAt m dir (v / 4096 / 1024) < 2 ^ 28 ∨ read32 m (getterAddr m dir v) = x := by
    rw [h.get_set hv hal hv hal hx, ← getterAddr_eq_iff]
    split
    · rename_i heq
      exact iff_of_true rfl (.inl heq)
    · rename_i hne
      exact (or_iff_right hne).symm
  have hother : pagingGet (pagingSet m dir v x).2 dir w = pagingGet m dir w ↔
      (getterAddr m dir w = setterAddr m dir v → read32 m (setterAddr m dir v) = x) := by
    rw [h.get_set hv hal hw hwal hx, h.get hw hwal]
    split
    · rename_i heq
      rw [heq, forall_prop_of_true rfl]
      exact eq_comm
    · rename_i hne
      exact iff_of_true rfl fun heq => absurd heq hne
  unfold EntryAgrees
  rw [forall_prop_of_true hok, hself, hother]

/-- Below `2 ^ 28` no two pages share an entry. -/
theorem getterAddr_ne (hlow : ∀ i < 1024, tableAt m dir i < 2 ^ 28) (hv : v < 2 ^ 32)
    (hal : v % 4096 = 0) (hw : w < 2 ^ 32) (hwal : w % 4096 = 0) (hne : w ≠ v) :
    getterAddr m dir w ≠ setterAddr m dir v := by
  intro heq
  rw [getterAddr_eq_iff.2 (hlow _ (by omega))] at heq
  unfold setterAddr at heq
  have hvm := tableAt_mod m dir (v / 4096 / 1024)
  have hwm := tableAt_mod m dir (w / 4096 / 1024)
  have hi := h.inj (w / 4096 / 1024) (by omega) (v / 4096 / 1024) (by omega) (by omega)
  rw [hi] at heq
  omega

end Tables

/-- The directories that `paging_new_4gb` builds. -/
theorem PageDir.tableAt {f : Nat} {table : Nat → Nat} (h : PageDir m dir f table) (hi : i < 1024) :
    Pandora.tableAt m dir i = table i := by
  have hal := (h.window i hi).aligned
  have hf := h.flags_lt
  unfold Pandora.tableAt
  rw [h.entry i hi]
  omega

theorem PageDir.tables {f : Nat} {table : Nat → Nat} (h : PageDir m dir f table) : Tables m dir where
  dir_le := by
    have := h.dirWindow.hi
    omega
  inj := fun i hi j hj he => h.inj i hi j hj (by rwa [h.tableAt hi, h.tableAt hj] at he)
  apart := fun i hi => by
    rw [h.tableAt hi]
    exact (h.window i hi).disjoint h.dirWindow (h.ne_dir i hi)

/-- The kernel heap ends below `2 ^ 28`: on its directories the two agree. -/
theorem PageDir.entryAgrees {f : Nat} {table : Nat → Nat} (h : PageDir m dir f table)
    (hv : v < 2 ^ 32) (hal : v % 4096 = 0) (hw : w < 2 ^ 32) (hwal : w % 4096 = 0)
    (hx : x < 2 ^ 32) : EntryAgrees m dir v w x := by
  have hlow : ∀ i < 1024, Pandora.tableAt m dir i < 2 ^ 28 := fun i hi => by
    have := (h.window i hi).hi
    rw [h.tableAt hi]
    omega
  refine (h.tables.entryAgrees_iff hv hal hw hwal hx).2 ⟨.inl (hlow _ (by omega)), fun hne heq => ?_⟩
  exact absurd heq (h.tables.getterAddr_ne hlow hv hal hw hwal hne)

/-- **The setter and the getter agree on a directory** exactly when its tables lie below `2 ^ 28`:
for every page that is set, every other page and every value. For one call, `entryAgrees_iff` says
what the lost bits do. -/
theorem paging_get_set_iff (h : Tables m dir) :
    ((∀ v < 2 ^ 32, v % 4096 = 0 → ∀ w < 2 ^ 32, w % 4096 = 0 → ∀ x < 2 ^ 32,
        EntryAgrees m dir v w x) ↔ ∀ i < 1024, tableAt m dir i < 2 ^ 28) ∧
      ∀ v < 2 ^ 32, v % 4096 = 0 → ∀ w < 2 ^ 32, w % 4096 = 0 → ∀ x < 2 ^ 32,
        (EntryAgrees m dir v w x ↔
          (tableAt m dir (v / 4096 / 1024) < 2 ^ 28 ∨ read32 m (getterAddr m dir v) = x) ∧
            (w ≠ v → getterAddr m dir w = setterAddr m dir v →
              read32 m (setterAddr m dir v) = x)) := by
  have hcall := fun v hv hal w hw hwal x hx =>
    h.entryAgrees_iff (v := v) (w := w) (x := x) hv hal hw hwal hx
  refine ⟨⟨fun hall i hi => ?_, fun hlow v hv hal w hw hwal x hx => ?_⟩, hcall⟩
  · -- set the first page of the table to what the getter does not read there
    obtain ⟨v, hvi⟩ : ∃ v, v = i * 1024 * 4096 := ⟨_, rfl⟩
    have hv : v < 2 ^ 32 := by omega
    have hal : v % 4096 = 0 := by omega
    have hindex : v / 4096 / 1024 = i := by omega
    obtain ⟨x, hx, hne⟩ : ∃ x < 2 ^ 32, read32 m (getterAddr m dir v) ≠ x := by
      by_cases hzero : read32 m (getterAddr m dir v) = 0
      · exact ⟨1, by decide, by omega⟩
      · exact ⟨0, by decide, hzero⟩
    have hagrees := (hcall v hv hal v hv hal x hx).1 (hall v hv hal v hv hal x hx)
    rw [hindex] at hagrees
    exact hagrees.1.resolve_right hne
  · refine (hcall v hv hal w hw hwal x hx).2 ⟨.inl (hlow _ (by omega)), fun hne heq => ?_⟩
    exact absurd heq (h.getterAddr_ne hlow hv hal hw hwal hne)

end

/-! ## Tables in one piece -/

/-- A directory at `0x1000` whose tables follow each other from `base` on. -/
def tablesFrom (base : Nat) : Mem := fun a =>
  if 0x1000 ≤ a ∧ a < 0x2000 then byte (base + 4096 * ((a - 0x1000) / 4) + 7) (a % 4) else 0

theorem tablesFrom_tableAt {base i : Nat} (hal : base % 4096 = 0) (hbase : base + 2 ^ 22 ≤ 2 ^ 32)
    (hi : i < 1024) : tableAt (tablesFrom base) 0x1000 i = base + 4096 * i := by
  have hentry : read32 (tablesFrom base) (0x1000 + 4 * i) = base + 4096 * i + 7 := by
    apply read32_of_bytes (by omega)
    intro j hj
    have hdiv : (0x1000 + 4 * i + j - 0x1000) / 4 = i := by omega
    have hmod : (0x1000 + 4 * i + j) % 4 = j := by omega
    refine (if_pos (by omega)).trans ?_
    rw [hdiv, hmod]
  unfold tableAt
  rw [hentry]
  omega

theorem tablesFrom_tables {base : Nat} (hal : base % 4096 = 0) (hbase : base + 2 ^ 22 ≤ 2 ^ 32)
    (hlo : 0x2000 ≤ base) : Tables (tablesFrom base) 0x1000 where
  dir_le := by decide
  inj := fun i hi j hj he => by
    rw [tablesFrom_tableAt hal hbase hi, tablesFrom_tableAt hal hbase hj] at he
    omega
  apart := fun i hi => by
    rw [tablesFrom_tableAt hal hbase hi]
    omega

theorem paging_get_set_iff_low :
    (∀ v < 2 ^ 32, v % 4096 = 0 → ∀ w < 2 ^ 32, w % 4096 = 0 → ∀ x < 2 ^ 32,
      EntryAgrees (tablesFrom 0x2000) 0x1000 v w x) ↔
        ∀ i < 1024, tableAt (tablesFrom 0x2000) 0x1000 i < 2 ^ 28 :=
  (paging_get_set_iff (tablesFrom_tables (by decide) (by decide) (by decide))).1

/-- Tables from `2 ^ 28` on: the first entry is set at `0x10000000`, and read at `0`. -/
theorem paging_get_set_high :
    Tables (tablesFrom 0x10000000) 0x1000 ∧ ¬ EntryAgrees (tablesFrom 0x10000000) 0x1000 0 0 1 := by
  have h : Tables (tablesFrom 0x10000000) 0x1000 :=
    tablesFrom_tables (by decide) (by decide) (by decide)
  have htable := tablesFrom_tableAt (show 0x10000000 % 4096 = 0 by decide) (by decide)
    (show 0 < 1024 by decide)
  refine ⟨h, fun hagrees => ?_⟩
  have hcases := ((h.entryAgrees_iff (by decide) rfl (by decide) rfl (by decide)).1 hagrees).1
  have haddr : getterAddr (tablesFrom 0x10000000) 0x1000 0 = 0 := by
    unfold getterAddr
    rw [Nat.zero_div, htable]
    decide
  rw [haddr, Nat.zero_div, htable] at hcases
  have hzero : read32 (tablesFrom 0x10000000) 0 = 0 := by decide
  rw [hzero] at hcases
  exact absurd hcases (by decide)

end Pandora
