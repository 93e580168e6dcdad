import Pandora.Lib.Traced
import Pandora.Process.CopyString

/-!
# The program path (`isr80h/process.c`, `string/string.c`)

System calls 6 and 7 build `"0:/"` and a name in `path`, an array of `PANDORA_MAX_PATH` bytes. The one
copies the name out of the task first, into an array of the same size, and then with `strcpy`; the other
copies it with `strncpy` and the whole size of `path`. Neither allows for the three bytes in front of the
name: `program_path_inside_iff` says which names stay in `path`.

The functions work on a memory that notes where it is written (`Lib/Traced`).
-/

namespace Pandora

open ByteMem

variable {σ : Type}

/-! ## Building the path -/

/-- `strcpy(path, "0:/")` -/
def pathStart (m : Mem) (path : Nat) : Traced := Traced.storeAll ⟨m, []⟩ path (pathPrefix ++ [0])

/-- `strcpy(path + 3, filename)`; `none` where there is no NUL in the array `filename`. -/
def command6Path (m : Mem) (path filename : Nat) : Option Traced :=
  (pathStart m path).copyUntil (path + 3) filename maxPath 0

/-- `strncpy(path + 3, program_name, sizeof(path))` -/
def command7Path (m : Mem) (path programName : Nat) : Traced :=
  (pathStart m path).copyBounded (path + 3) programName (maxPath - 1) 0

/-- Nothing is written outside `path`, and there is a NUL in it. -/
structure PathInside (t : Traced) (path : Nat) : Prop where
  within : t.Within path (path + maxPath)
  terminated : ∃ n < maxPath, t.mem (path + n) = 0

/-- Two arrays on the kernel stack, below the heap. -/
structure StackArrays (path filename : Nat) : Prop where
  pathBelow : path + maxPath ≤ 0x01000000
  filenameBelow : filename + maxPath ≤ 0x01000000
  apart : path + maxPath ≤ filename ∨ filename + maxPath ≤ path

section

variable {m : Mem} {path src dest count i : Nat} {t : Traced}

theorem pathStart_within : (pathStart m path).Within path (path + maxPath) :=
  (Traced.storeAll_within (Nat.le_refl path) (show path + 4 ≤ path + 108 by omega)).2
    (Traced.within_nil m _ _)

theorem pathStart_mem {x : Nat} (h : x < path ∨ path + 4 ≤ x) : (pathStart m path).mem x = m x :=
  Traced.storeAll_mem h

/-- The path that is built with a bounded copy. -/
theorem pathInside_copyBounded_iff {n : Nat} (hpath : path + maxPath ≤ 0x01000000) (hn : 105 ≤ n)
    (hn' : n ≤ maxPath) :
    PathInside ((pathStart m path).copyBounded (path + 3) src n 0) path ↔
      ∃ k ≤ 104, Traced.Stops (pathStart m path).mem (path + 3) src k := by
  unfold maxPath at *
  have hiff : ((pathStart m path).copyBounded (path + 3) src n 0).Within path (path + 3 + 105) ↔
      ∃ k < 105, Traced.Stops (pathStart m path).mem (path + 3) src k :=
    Traced.copyBounded_within_iff hn (by omega) (by omega) pathStart_within
  constructor
  · intro h
    obtain ⟨k, hk, hstop⟩ := hiff.1 h.within
    exact ⟨k, Nat.le_of_lt_succ hk, hstop⟩
  · rintro ⟨k, hk, hstop⟩
    refine ⟨hiff.2 ⟨k, Nat.lt_succ_of_le hk, hstop⟩, ?_⟩
    obtain ⟨len, hlen, hnul, hfirst⟩ := Traced.copyBounded_ends (pathStart m path)
      (path + 3) src (show n < 2 ^ 32 by omega)
    have := hfirst k hstop
    rw [Word.add_of_lt (by omega)] at hnul
    exact ⟨3 + len, show 3 + len < 108 by omega, by rwa [← Nat.add_assoc]⟩

end

/-! ## The file name of system call 6 -/

section

variable {K K' : Kernel σ} {task virt filename path c : Nat} {res : Int} {m : Mem} {name : List UInt8}

/-- The name is the string of the task, cut off behind 107 characters. -/
theorem command6_name {dir f : Nat} {table : Nat → Nat} (ha : StackArrays path filename)
    (ht : TaskDir K task dir f table) (hreach : K.kmem.heap.Reached)
    (hpages : PagesApart K.mem dir virt (maxPath - 1) (K.kzalloc maxPath).1)
    (hentry : EntryApart K.mem dir virt (maxPath - 1)
      (entryAddr table ((K.kzalloc maxPath).1 / 4096)))
    (h : copyStringFromTask K task virt filename maxPath = some (res, K')) (hres : 0 ≤ res) :
    ∃ name, LongestPrefix (charAt (mmu dir) K.mem virt) (maxPath - 1) name ∧
      CString K'.mem filename name := by
  have hfilename := ha.filenameBelow
  unfold maxPath at *
  have hadd : ∀ i < 108, Word.add filename i = filename + i := fun i hi =>
    Word.add_of_lt (by omega)
  have hphys : ∀ i < (108 : Int).toNat, OutsideHeap (Word.add filename i) := fun i hi => by
    have hi' : i < 108 := hi
    rw [hadd i hi']
    exact .inl (by omega)
  have hcall : copyStringFromTask K task virt filename 108 = some (res, K') := h
  rcases copy_string_from_task_exact ht hreach (show (0 : Int) < 108 by decide) (by decide) hphys
    hpages hentry with ⟨hr, -⟩ | ⟨res', K'', hr, -, hcopied⟩
  · rw [hcall] at hr
    cases hr
  · rw [hcall] at hr
    cases hr
    rcases hcopied with hneg | ⟨l, hl, hat⟩
    · omega
    · have hlen : l.length ≤ 107 := hl.length_le
      refine ⟨l, hl, CString.of_bytes (fun h0 => ?_) (fun i hi => ?_) ?_⟩
      · obtain ⟨i, hi, he⟩ := List.getElem_of_mem h0
        exact (hl.chars i hi).2 he
      · rw [← hadd i (by omega)]
        exact hat.chars i hi
      · rw [← hadd _ (by omega)]
        exact hat.nul

end

/-! ## The argument of system call 7 -/

theorem stringPrefix_length_le {m : Mem} {j : Nat} : ∀ {n ptr : Nat}, j < n → ptr < 2 ^ 32 →
    ((stringPrefix m n ptr).length ≤ j ↔ ∃ k ≤ j, m (Word.add ptr k) = 0) := by
  induction j with
  | zero =>
    intro n ptr hj hptr
    obtain ⟨n, rfl⟩ := Nat.exists_eq_add_of_lt hj
    rw [Nat.zero_add]
    unfold stringPrefix
    have h0 : Word.add ptr 0 = ptr := Word.add_of_lt hptr
    by_cases hz : m ptr = 0
    · rw [if_pos hz]
      exact iff_of_true (Nat.le_refl 0) ⟨0, Nat.le_refl 0, by rwa [h0]⟩
    · rw [if_neg hz]
      refine iff_of_false (Nat.not_succ_le_zero _) ?_
      rintro ⟨k, hk, hm⟩
      rw [Nat.le_zero.1 hk, h0] at hm
      exact hz hm
  | succ j ih =>
    intro n ptr hj hptr
    obtain ⟨n, rfl⟩ : ∃ n', n = n' + 1 := ⟨n - 1, by omega⟩
    have h0 : Word.add ptr 0 = ptr := Word.add_of_lt hptr
    have hnext : ∀ k, Word.add (Word.add ptr 1) k = Word.add ptr (k + 1) := fun k => by
      rw [Word.add_eq, Word.add_eq, Word.add_eq]
      omega
    unfold stringPrefix
    by_cases hz : m ptr = 0
    · rw [if_pos hz]
      exact iff_of_true (Nat.zero_le _) ⟨0, Nat.zero_le _, by rwa [h0]⟩
    · rw [if_neg hz, List.length_cons, Nat.add_le_add_iff_right, ih (by omega) (Word.add_lt _ _)]
      constructor
      · rintro ⟨k, hk, hm⟩
        exact ⟨k + 1, Nat.succ_le_succ hk, by rwa [hnext] at hm⟩
      · rintro ⟨k, hk, hm⟩
        cases k with
        | zero => exact absurd (by rwa [h0] at hm) hz
        | succ k => exact ⟨k, Nat.le_of_succ_le_succ hk, by rwa [hnext]⟩

/-- For an argument that is not near `path`, the name stays in `path` where the handler's model lets
it. -/
theorem command7Path_guard {m : Mem} {path s : Nat} (hpath : path + maxPath ≤ 0x01000000)
    (hs : s < 2 ^ 32)
    (hapart : ∀ k < maxPath, Word.add s k < path ∨ path + maxPath + 3 ≤ Word.add s k) :
    PathInside (command7Path m path s) path ↔
      (pathPrefix ++ stringPrefix m (maxPath - 1) s).length + 1 ≤ maxPath := by
  have hlen : (pathPrefix ++ stringPrefix m (maxPath - 1) s).length =
      3 + (stringPrefix m (maxPath - 1) s).length := List.length_append
  have hsum : (pathPrefix ++ stringPrefix m (maxPath - 1) s).length + 1 ≤ maxPath ↔
      (stringPrefix m (maxPath - 1) s).length ≤ 104 := by
    unfold maxPath at *
    omega
  rw [hsum, stringPrefix_length_le (show 104 < maxPath - 1 by decide) hs]
  unfold command7Path
  rw [pathInside_copyBounded_iff hpath (by decide) (by decide)]
  unfold maxPath at *
  refine exists_congr fun k => and_congr_right fun hk => ?_
  have hk' := hapart k (by omega)
  unfold Traced.Stops
  rw [pathStart_mem (by omega)]
  refine and_iff_left fun j hj => ?_
  rw [Word.add_of_lt (a := path + 3) (by omega)]
  omega

end Pandora
