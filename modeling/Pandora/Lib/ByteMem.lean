import Mathlib.Data.Nat.Bitwise
import Mathlib.Logic.Function.Basic
import Pandora.Lib.Word

/-!
# Byte memories

A memory gives every address a byte. A 32-bit word lies at four consecutive addresses, the low byte
first. A write is described by what it reads back (`read32_write32`) and by what it leaves alone
(`write32_apply`, `read32_write32_of_disjoint`, `fill_apply_of_outside`): two memories that agree
on the four bytes agree on the word (`read32_congr`).
-/

namespace ByteMem

abbrev Mem := Nat → UInt8

/-- The word at `a`. -/
def read32 (m : Mem) (a : Nat) : Nat :=
  (m a).toNat + 2 ^ 8 * (m (a + 1)).toNat + 2 ^ 16 * (m (a + 2)).toNat +
    2 ^ 24 * (m (a + 3)).toNat

/-- The half word at `a`. -/
def read16 (m : Mem) (a : Nat) : Nat := (m a).toNat + 2 ^ 8 * (m (a + 1)).toNat

/-- Byte `i` of `v`. -/
def byte (v i : Nat) : UInt8 := UInt8.ofNat (v / 2 ^ (8 * i))

/-- The word `v` is written at `a`. -/
def write32 (m : Mem) (a v : Nat) : Mem := fun x =>
  if a ≤ x ∧ x < a + 4 then byte v (x - a) else m x

/-- The `n` bytes from `a` on, wrapping at `2 ^ 32`, become `v`. -/
def fill (m : Mem) (a n : Nat) (v : UInt8) : Mem := fun x =>
  if Word.sub x a < n then v else m x

/-- The `n` bytes from `a` on. -/
def slice (m : Mem) (a n : Nat) : List UInt8 := (List.range n).map fun i => m (a + i)

/-- The bytes of `l` are written from `a` on. -/
def writeBytes (m : Mem) (a : Nat) (l : List UInt8) : Mem := fun x =>
  if h : a ≤ x ∧ x - a < l.length then l[x - a] else m x

variable {m m' : Mem} {a b n v x : Nat}

theorem read32_lt (m : Mem) (a : Nat) : read32 m a < 2 ^ 32 := by
  have h0 := (m a).toNat_lt
  have h1 := (m (a + 1)).toNat_lt
  have h2 := (m (a + 2)).toNat_lt
  have h3 := (m (a + 3)).toNat_lt
  unfold read32
  omega

theorem read32_congr (h : ∀ i < 4, m (a + i) = m' (a + i)) : read32 m a = read32 m' a := by
  have h0 : m a = m' a := h 0 (by decide)
  unfold read32
  rw [h0, h 1 (by decide), h 2 (by decide), h 3 (by decide)]

theorem write32_apply (h : x < a ∨ a + 4 ≤ x) : write32 m a v x = m x :=
  if_neg (by omega)

theorem byte_toNat (v i : Nat) : (byte v i).toNat = v / 2 ^ (8 * i) % 2 ^ 8 :=
  UInt8.toNat_ofNat'

/-- The bytes of a word that is read. -/
theorem byte_read32 (m : Mem) (a : Nat) {i : Nat} (hi : i < 4) : byte (read32 m a) i = m (a + i) := by
  have h0 := (m a).toNat_lt
  have h1 := (m (a + 1)).toNat_lt
  have h2 := (m (a + 2)).toNat_lt
  have h3 := (m (a + 3)).toNat_lt
  refine UInt8.toNat_inj.1 ?_
  rw [byte_toNat]
  unfold read32
  obtain rfl | rfl | rfl | rfl : i = 0 ∨ i = 1 ∨ i = 2 ∨ i = 3 := by omega
  · have hz : m (a + 0) = m a := rfl
    rw [hz]
    omega
  · omega
  · omega
  · omega

/-- A word is what its bytes are. -/
theorem read32_of_bytes (hv : v < 2 ^ 32) (h : ∀ i < 4, m (a + i) = byte v i) :
    read32 m a = v := by
  have h0 : m a = byte v 0 := h 0 (by decide)
  unfold read32
  rw [h0, h 1 (by decide), h 2 (by decide), h 3 (by decide)]
  simp only [byte_toNat]
  omega

theorem read32_write32 (m : Mem) (a : Nat) (hv : v < 2 ^ 32) : read32 (write32 m a v) a = v := by
  refine read32_of_bytes hv fun i hi => ?_
  unfold write32
  rw [if_pos (by omega), Nat.add_sub_cancel_left]

theorem read32_write32_of_disjoint (h : b + 4 ≤ a ∨ a + 4 ≤ b) :
    read32 (write32 m a v) b = read32 m b :=
  read32_congr fun i hi => write32_apply (by omega)

/-! ## Ranges -/

theorem sub_lt_iff (ha : a + n ≤ 2 ^ 32) (hx : x < 2 ^ 32) :
    Word.sub x a < n ↔ a ≤ x ∧ x < a + n := by
  rw [Word.sub_eq]
  omega

theorem fill_apply_of_mem {c : UInt8} (ha : a + n ≤ 2 ^ 32) (h : a ≤ x) (h' : x < a + n) :
    fill m a n c x = c :=
  if_pos ((sub_lt_iff ha (by omega)).2 ⟨h, h'⟩)

theorem fill_apply_of_outside {c : UInt8} (ha : a + n ≤ 2 ^ 32) (hx : x < 2 ^ 32)
    (h : x < a ∨ a + n ≤ x) : fill m a n c x = m x :=
  if_neg fun hc => by
    have := (sub_lt_iff ha hx).1 hc
    omega

/-! ## Lists of bytes -/

@[simp] theorem slice_length (m : Mem) (a n : Nat) : (slice m a n).length = n := by
  simp [slice]

@[simp] theorem slice_zero (m : Mem) (a : Nat) : slice m a 0 = [] := rfl

theorem slice_add (m : Mem) (a n k : Nat) : slice m a (n + k) = slice m a n ++ slice m (a + n) k := by
  simp only [slice, List.range_add, List.map_append, List.map_map, Function.comp_def, Nat.add_assoc]

theorem getElem_slice {i : Nat} (h : i < (slice m a n).length) : (slice m a n)[i] = m (a + i) := by
  simp [slice]

theorem slice_congr (h : ∀ i < n, m (a + i) = m' (b + i)) : slice m a n = slice m' b n :=
  List.map_congr_left fun i hi => h i (List.mem_range.1 hi)

theorem slice_inj : slice m a n = slice m' b n ↔ ∀ i < n, m (a + i) = m' (b + i) := by
  unfold slice
  rw [List.map_inj_left]
  exact forall_congr' fun i => by rw [List.mem_range]

/-- Consecutive slices of one length. -/
theorem flatMap_slice (m : Mem) (k n : Nat) :
    (List.range n).flatMap (fun i => slice m (i * k) k) = slice m 0 (n * k) := by
  induction n with
  | zero => simp
  | succ n ih =>
    rw [List.range_succ, List.flatMap_append, ih, Nat.succ_mul, slice_add, Nat.zero_add]
    simp

theorem writeBytes_apply_of_outside {l : List UInt8} (h : x < a ∨ a + l.length ≤ x) :
    writeBytes m a l x = m x :=
  dif_neg (by omega)

theorem writeBytes_apply {l : List UInt8} {i : Nat} (h : i < l.length) :
    writeBytes m a l (a + i) = l[i] := by
  unfold writeBytes
  rw [dif_pos ⟨by omega, by omega⟩]
  congr 1
  omega

@[simp] theorem writeBytes_nil (m : Mem) (a : Nat) : writeBytes m a [] = m :=
  funext fun _ => writeBytes_apply_of_outside (by simp; omega)

theorem writeBytes_append (m : Mem) (a : Nat) (l l' : List UInt8) :
    writeBytes (writeBytes m a l) (a + l.length) l' = writeBytes m a (l ++ l') := by
  funext x
  rcases Nat.lt_or_ge x a with hlo | hlo
  · rw [writeBytes_apply_of_outside (by omega), writeBytes_apply_of_outside (by omega),
      writeBytes_apply_of_outside (by omega)]
  · obtain ⟨i, rfl⟩ := Nat.exists_eq_add_of_le hlo
    rcases Nat.lt_or_ge i l.length with hi | hi
    · rw [writeBytes_apply_of_outside (by omega), writeBytes_apply hi,
        writeBytes_apply (by rw [List.length_append]; omega), List.getElem_append_left hi]
    · obtain ⟨j, rfl⟩ := Nat.exists_eq_add_of_le hi
      rcases Nat.lt_or_ge j l'.length with hj | hj
      · rw [← Nat.add_assoc, writeBytes_apply hj, Nat.add_assoc,
          writeBytes_apply (by rw [List.length_append]; omega),
          List.getElem_append_right (by omega)]
        congr 1
        omega
      · rw [writeBytes_apply_of_outside (by omega), writeBytes_apply_of_outside (by omega),
          writeBytes_apply_of_outside (by rw [List.length_append]; omega)]

/-- What was written determines the list. -/
theorem writeBytes_inj {l l' : List UInt8} (hl : l.length = l'.length) :
    writeBytes m a l = writeBytes m a l' ↔ l = l' := by
  constructor
  · intro h
    refine List.ext_getElem hl fun i hi hi' => ?_
    rw [← writeBytes_apply hi, h, writeBytes_apply hi']
  · rintro rfl
    rfl

end ByteMem
