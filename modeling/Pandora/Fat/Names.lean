import Mathlib.Data.List.TakeWhile
import Mathlib.Data.Nat.Count
import Pandora.Fat.Directory

/-!
# Names and entries of a directory

Names are compared without regard to case (`SameName`); `istrncmp` decides that for the names of
directory entries, which have at most twelve characters (`istrncmp_eq_zero`). The name of a deleted
entry begins with the byte 0xE5 and so is the name of no live one (`not_sameName_of_deleted`).

The entries of a directory end before the first that begins with 0x00 (`EndsAt`). The count over the
disk is that of the live entries up to there (`totalItems_loop_eq`), or it does not end.
-/

namespace Pandora

open ByteMem

/-! ## Comparing -/

/-- The same characters but for their case. -/
def SameString (l l' : List UInt8) : Prop := l.map tolower = l'.map tolower

instance (l l' : List UInt8) : Decidable (SameString l l') := by
  unfold SameString
  infer_instance

theorem tolower_eq_zero {c : UInt8} : tolower c = 0 ↔ c = 0 := by
  unfold tolower
  constructor
  · intro h
    split at h
    · rename_i hc
      have h1 := UInt8.le_iff_toNat_le.1 hc.1
      have h2 := UInt8.le_iff_toNat_le.1 hc.2
      have h3 := congrArg UInt8.toNat h
      simp at h1 h2 h3
      omega
    · exact h
  · rintro rfl
    decide

theorem tolower_eq_deleted {c : UInt8} : tolower c = 0xE5 ↔ c = 0xE5 := by
  unfold tolower
  constructor
  · intro h
    split at h
    · rename_i hc
      have h1 := UInt8.le_iff_toNat_le.1 hc.1
      have h2 := UInt8.le_iff_toNat_le.1 hc.2
      have h3 := congrArg UInt8.toNat h
      simp at h1 h2 h3
      omega
    · exact h
  · rintro rfl
    decide

theorem cstring_of_lt {l : List UInt8} {i : Nat} (h : i < l.length) : cstring l i = l[i] := by
  simp [cstring, h]

theorem cstring_of_ge {l : List UInt8} {i : Nat} (h : l.length ≤ i) : cstring l i = 0 := by
  simp [cstring, h]

theorem istrncmp_loop_eq_zero {l l' : List UInt8} (hl : (0 : UInt8) ∉ l) (hl' : (0 : UInt8) ∉ l') :
    ∀ n i : Nat, l.length - i < n → (istrncmp.loop (cstring l) (cstring l') n i = 0 ↔
      SameString (l.drop i) (l'.drop i))
  | 0, i, h => absurd h (Nat.not_lt_zero _)
  | n + 1, i, h => by
    have hne : ∀ {l : List UInt8} {j : Nat}, (0 : UInt8) ∉ l → (hj : j < l.length) → l[j] ≠ 0 :=
      fun h0 hj he => h0 (he ▸ List.getElem_mem hj)
    unfold istrncmp.loop SameString
    dsimp only
    rcases Nat.lt_or_ge i l.length with hi | hi
    · rw [cstring_of_lt hi, List.drop_eq_getElem_cons hi]
      have h0 := hne hl hi
      rcases Nat.lt_or_ge i l'.length with hi' | hi'
      · rw [cstring_of_lt hi', List.drop_eq_getElem_cons hi', List.map_cons, List.map_cons,
          List.cons.injEq]
        have ih := istrncmp_loop_eq_zero hl hl' n (i + 1) (by omega)
        by_cases hlow : tolower l[i] = tolower l'[i]
        · rw [if_neg (fun hc => hc.2 hlow), if_neg h0, ih]
          exact ⟨fun hs => ⟨hlow, hs⟩, fun hs => hs.2⟩
        · have hdiff : l[i] ≠ l'[i] := fun he => hlow (congrArg tolower he)
          rw [if_pos ⟨hdiff, hlow⟩]
          have hnat : l[i].toNat ≠ l'[i].toNat := fun he => hdiff (UInt8.toNat_inj.1 he)
          exact iff_of_false (by omega) (fun hs => hlow hs.1)
      · rw [cstring_of_ge hi', List.drop_eq_nil_of_le hi']
        have hlow : tolower l[i] ≠ tolower 0 := fun he => h0 (tolower_eq_zero.1 he)
        have hnat : l[i].toNat ≠ (0 : UInt8).toNat := fun he => h0 (UInt8.toNat_inj.1 he)
        rw [if_pos ⟨h0, hlow⟩]
        exact iff_of_false (by omega) (by simp [hi])
    · rw [cstring_of_ge hi, List.drop_eq_nil_of_le hi]
      rcases Nat.lt_or_ge i l'.length with hi' | hi'
      · rw [cstring_of_lt hi', List.drop_eq_getElem_cons hi']
        have h0 := hne hl' hi'
        have hlow : tolower 0 ≠ tolower l'[i] := fun he => h0 (tolower_eq_zero.1 he.symm)
        have hnat : (0 : UInt8).toNat ≠ l'[i].toNat := fun he => h0 (UInt8.toNat_inj.1 he.symm)
        rw [if_pos ⟨h0.symm, hlow⟩]
        exact iff_of_false (by omega) (by simp [hi'])
      · rw [cstring_of_ge hi', List.drop_eq_nil_of_le hi', if_neg (fun hc => hc.1 rfl), if_pos rfl]
        exact iff_of_true rfl rfl

/-- `istrncmp` compares the whole of a string shorter than `n`. -/
theorem istrncmp_eq_zero {l l' : List UInt8} (hl : (0 : UInt8) ∉ l) (hl' : (0 : UInt8) ∉ l') {n : Nat}
    (h : l.length < n) : istrncmp (cstring l) (cstring l') n = 0 ↔ SameString l l' :=
  istrncmp_loop_eq_zero hl hl' n 0 (by omega)

/-! ## Names of entries -/

theorem zero_notMem_properString (chars : List UInt8) : (0 : UInt8) ∉ fat16ToProperString chars :=
  fun h => by
    have := List.mem_takeWhile_imp h
    simp at this

theorem properString_length (chars : List UInt8) :
    (fat16ToProperString chars).length ≤ chars.length := (List.takeWhile_sublist _).length_le

/-- The first character of the name says whether the entry is unused, or where the entries end. -/
def FatDirectoryItem.mark (item : FatDirectoryItem) : UInt8 := item.filename.headD 0

/-- The name field has eight characters and the extension three. -/
structure FatDirectoryItem.Sized (item : FatDirectoryItem) : Prop where
  filename : item.filename.length = 8
  ext : item.ext.length = 3

section

variable {item item' : FatDirectoryItem} {name : List UInt8}

theorem zero_notMem_fullName (item : FatDirectoryItem) :
    (0 : UInt8) ∉ fat16GetFullRelativeFilename item := by
  have hname := zero_notMem_properString item.filename
  have hext := zero_notMem_properString item.ext
  unfold fat16GetFullRelativeFilename
  dsimp only
  split
  · simp [hname, hext]
  · exact hname

theorem fullName_length (h : item.Sized) : (fat16GetFullRelativeFilename item).length ≤ 12 := by
  have hname := properString_length item.filename
  have hext := properString_length item.ext
  rw [h.filename] at hname
  rw [h.ext] at hext
  unfold fat16GetFullRelativeFilename
  dsimp only
  split
  · simp only [List.length_append, List.length_cons]
    omega
  · omega

/-- The entry has that name, up to case. -/
def FatDirectoryItem.Named (item : FatDirectoryItem) (name : List UInt8) : Prop :=
  SameString (fat16GetFullRelativeFilename item) name

instance (item : FatDirectoryItem) (name : List UInt8) : Decidable (item.Named name) := by
  unfold FatDirectoryItem.Named
  infer_instance

/-- What the search compares. -/
theorem named_iff (h : item.Sized) (hname : (0 : UInt8) ∉ name) :
    istrncmp (cstring (fat16GetFullRelativeFilename item)) (cstring name) maxPath = 0 ↔
      item.Named name := by
  have hlen := fullName_length h
  refine istrncmp_eq_zero (zero_notMem_fullName item) hname ?_
  unfold maxPath
  omega

/-- Only the name of a deleted entry begins with 0xE5. -/
theorem head_fullName (item : FatDirectoryItem) :
    ((fat16GetFullRelativeFilename item).map tolower).head? = some 0xE5 ↔ item.mark = 0xE5 := by
  unfold fat16GetFullRelativeFilename FatDirectoryItem.mark fat16ToProperString
  cases item.filename with
  | nil =>
    dsimp only [List.headD_nil]
    refine iff_of_false ?_ (by decide)
    split
    · simp [tolower]
    · simp
  | cons c rest =>
    dsimp only [List.headD_cons]
    by_cases hc : c ≠ 0 ∧ c ≠ 0x20
    · rw [List.takeWhile_cons_of_pos (by simpa using hc)]
      split
      · simp [tolower_eq_deleted]
      · simp [tolower_eq_deleted]
    · rw [List.takeWhile_cons_of_neg (by simpa using hc)]
      refine iff_of_false ?_ (fun he => hc ⟨by rw [he]; decide, by rw [he]; decide⟩)
      split
      · simp [tolower]
      · simp

theorem FatDirectoryItem.Named.mark_iff (h : item.Named (fat16GetFullRelativeFilename item')) :
    item.mark = 0xE5 ↔ item'.mark = 0xE5 := by
  unfold FatDirectoryItem.Named SameString at h
  rw [← head_fullName, h, head_fullName]

end

/-! ## The entries of a directory -/

/-- An entry in use. -/
def FatDirectoryItem.Live (item : FatDirectoryItem) : Prop := item.mark ≠ 0xE5

instance (item : FatDirectoryItem) : Decidable item.Live := by
  unfold FatDirectoryItem.Live
  infer_instance

/-- Entry `T` is the first that begins with 0x00. -/
structure EndsAt (entry : Nat → FatDirectoryItem) (T : Nat) : Prop where
  before : ∀ i < T, (entry i).mark ≠ 0
  mark : (entry T).mark = 0

theorem EndsAt.unique {entry : Nat → FatDirectoryItem} {T T' : Nat} (h : EndsAt entry T)
    (h' : EndsAt entry T') : T = T' := by
  rcases Nat.lt_trichotomy T T' with hlt | heq | hgt
  · exact absurd h.mark (h'.before T hlt)
  · exact heq
  · exact absurd h'.mark (h.before T' hgt)

theorem fatDirectoryItem_congr {m m' : Mem} {a a' : Nat} (h : ∀ i < 32, m (a + i) = m' (a' + i)) :
    fatDirectoryItem m a = fatDirectoryItem m' a' := by
  have hslice : ∀ o n, o + n ≤ 32 → slice m (a + o) n = slice m' (a' + o) n := fun o n hon =>
    slice_congr fun i hi => by
      rw [Nat.add_assoc, Nat.add_assoc]
      exact h (o + i) (by omega)
  have hbyte : ∀ o, o < 32 → m (a + o) = m' (a' + o) := h
  have hname := hslice 0 8 (by decide)
  rw [Nat.add_zero, Nat.add_zero] at hname
  unfold fatDirectoryItem read16 read32
  rw [hname, hslice 8 3 (by decide)]
  simp only [Nat.add_assoc]
  rw [hbyte 11 (by decide), hbyte 20 (by decide), hbyte (20 + 1) (by decide), hbyte 26 (by decide),
    hbyte (26 + 1) (by decide), hbyte 28 (by decide), hbyte (28 + 1) (by decide),
    hbyte (28 + 2) (by decide), hbyte (28 + 3) (by decide)]

theorem fatDirectoryItem_sized (m : Mem) (a : Nat) : (fatDirectoryItem m a).Sized :=
  ⟨slice_length _ _ _, slice_length _ _ _⟩

theorem directoryItems_sized (m : Mem) (a i : Nat) : (directoryItems m a i).Sized :=
  fatDirectoryItem_sized _ _

/-- The first entry that was read to `a`. -/
theorem fatDirectoryItem_writeBytes (m m' : Mem) (a pos n i : Nat) (h : 32 * (i + 1) ≤ n) :
    directoryItems (writeBytes m a (slice m' pos n)) a i = directoryItems m' pos i := by
  unfold directoryItems sizeofFatDirectoryItem
  refine fatDirectoryItem_congr fun k hk => ?_
  have hlen : 32 * i + k < (slice m' pos n).length := by
    rw [slice_length]
    omega
  rw [Nat.add_assoc, writeBytes_apply hlen, getElem_slice, Nat.add_assoc]

/-! ## The count -/

section

variable {disk : Disk}

/-- One round of the count. -/
theorem totalItems_loop_succ {pos : Nat} (hpos : pos + 32 ≤ 2 ^ 31) (n : Nat) (i : Int) :
    fat16GetTotalItemsForDirectory.loop disk (n + 1) ⟨pos⟩ i =
      if (fatDirectoryItem disk.image pos).mark = 0 then
        some (i, ⟨Word.int (pos + 32 : Nat)⟩)
      else fat16GetTotalItemsForDirectory.loop disk n ⟨Word.int (pos + 32 : Nat)⟩
        (if (fatDirectoryItem disk.image pos).Live then i + 1 else i) := by
  have hr := diskstreamerRead_eq disk 32 pos 0 (fun _ => 0) hpos
  have hitem := fatDirectoryItem_writeBytes (fun _ => 0) disk.image 0 pos 32 0 (by decide)
  unfold directoryItems at hitem
  rw [Nat.mul_zero, Nat.add_zero, Nat.add_zero] at hitem
  have hsize : ((sizeofFatDirectoryItem : Nat) : Int) = (32 : Nat) := rfl
  rw [fat16GetTotalItemsForDirectory.loop, hsize, hr]
  dsimp only
  rw [hitem, if_neg (show ¬ (0 : Int) ≠ allOk by decide)]
  have hmark : (fatDirectoryItem disk.image pos).filename.headD 0 =
      (fatDirectoryItem disk.image pos).mark := rfl
  rw [hmark]
  by_cases h0 : (fatDirectoryItem disk.image pos).mark = 0
  · rw [if_pos h0, if_pos h0]
  · rw [if_neg h0, if_neg h0]
    by_cases h5 : (fatDirectoryItem disk.image pos).mark = 0xE5
    · have hdead : ¬ (fatDirectoryItem disk.image pos).Live := not_not_intro h5
      rw [if_pos h5, if_neg hdead]
    · have hlive : (fatDirectoryItem disk.image pos).Live := h5
      rw [if_neg h5, if_pos hlive]

theorem directoryItems_next (m : Mem) (pos j : Nat) :
    directoryItems m (pos + 32) j = directoryItems m pos (j + 1) := by
  unfold directoryItems sizeofFatDirectoryItem
  rw [Nat.mul_succ, Nat.add_comm (32 * j), Nat.add_assoc]

/-- How many of the first `n` entries are in use. -/
def liveItems (entry : Nat → FatDirectoryItem) (n : Nat) : Nat :=
  Nat.count (fun i => (entry i).Live) n

theorem liveItems_succ (m : Mem) (pos n : Nat) :
    ((liveItems (directoryItems m pos) (n + 1) : Nat) : Int) =
      (if (fatDirectoryItem m pos).Live then 1 else 0) +
        (liveItems (directoryItems m (pos + 32)) n : Nat) := by
  have hnext : (fun j => (directoryItems m (pos + 32) j).Live) =
      fun j => (directoryItems m pos (j + 1)).Live :=
    funext fun j => by rw [directoryItems_next]
  have hfirst : directoryItems m pos 0 = fatDirectoryItem m pos := rfl
  unfold liveItems
  rw [Nat.count_succ', hfirst]
  simp only [hnext]
  split <;> omega

/-- The count up to the end. -/
theorem totalItems_loop_eq : ∀ (n pos L : Nat) (i : Int), pos + 32 * n ≤ 2 ^ 31 →
    EndsAt (directoryItems disk.image pos) L → L < n →
    ∃ stream, fat16GetTotalItemsForDirectory.loop disk n ⟨pos⟩ i =
      some (i + (liveItems (directoryItems disk.image pos) L : Nat), stream)
  | 0, _, _, _, _, _, h => absurd h (Nat.not_lt_zero _)
  | n + 1, pos, 0, i, hpos, hends, _ => by
    have hmark : (fatDirectoryItem disk.image pos).mark = 0 := hends.mark
    refine ⟨⟨Word.int (pos + 32 : Nat)⟩, ?_⟩
    rw [totalItems_loop_succ (by omega), if_pos hmark]
    have hzero : liveItems (directoryItems disk.image pos) 0 = 0 := Nat.count_zero _
    rw [hzero, Int.natCast_zero, Int.add_zero]
  | n + 1, pos, L + 1, i, hpos, hends, hL => by
    have hmark : (fatDirectoryItem disk.image pos).mark ≠ 0 := hends.before 0 (Nat.succ_pos L)
    have hnext : EndsAt (directoryItems disk.image (pos + 32)) L :=
      ⟨fun j hj => by rw [directoryItems_next]; exact hends.before (j + 1) (by omega),
        by rw [directoryItems_next]; exact hends.mark⟩
    rw [totalItems_loop_succ (by omega), if_neg hmark, Word.int_of_mem (by omega) (by omega),
      liveItems_succ]
    obtain ⟨stream, hs⟩ := totalItems_loop_eq n (pos + 32) L
      (if (fatDirectoryItem disk.image pos).Live then i + 1 else i) (by omega) hnext (by omega)
    refine ⟨stream, ?_⟩
    rw [hs]
    split <;> simp [Int.add_assoc]

/-- Without an end there is no count. -/
theorem totalItems_loop_none : ∀ (n pos : Nat) (i : Int), pos + 32 * n ≤ 2 ^ 31 →
    (∀ j < n, (directoryItems disk.image pos j).mark ≠ 0) →
    fat16GetTotalItemsForDirectory.loop disk n ⟨pos⟩ i = none
  | 0, _, _, _, _ => rfl
  | n + 1, pos, i, hpos, h => by
    have hmark : (fatDirectoryItem disk.image pos).mark ≠ 0 := h 0 (Nat.succ_pos n)
    have hrest : ∀ j < n, (directoryItems disk.image (pos + 32) j).mark ≠ 0 := fun j hj => by
      rw [directoryItems_next]
      exact h (j + 1) (by omega)
    rw [totalItems_loop_succ (by omega), if_neg hmark]
    cases n with
    | zero => rfl
    | succ n =>
      rw [Word.int_of_mem (by omega) (by omega)]
      exact totalItems_loop_none (n + 1) (pos + 32) _ (by omega) hrest

/-- A count that ends has met the end of the entries. -/
theorem endsAt_of_loop {n pos : Nat} {i : Int} {r : Int × DiskStream} (hpos : pos + 32 * n ≤ 2 ^ 31)
    (h : fat16GetTotalItemsForDirectory.loop disk n ⟨pos⟩ i = some r) :
    ∃ L < n, EndsAt (directoryItems disk.image pos) L := by
  have hex : ∃ L, L < n ∧ (directoryItems disk.image pos L).mark = 0 := by
    by_contra hno
    rw [totalItems_loop_none n pos i hpos fun j hj hz => hno ⟨j, hj, hz⟩] at h
    cases h
  have hfind := Nat.find_spec hex
  refine ⟨Nat.find hex, hfind.1, fun j hj hz => ?_, hfind.2⟩
  have := hfind.1
  exact Nat.find_min hex hj ⟨by omega, hz⟩

end

end Pandora
