import Pandora.Fat.Names
import Pandora.Lib.CString

/-!
# The name of an entry, byte by byte (`fs/fat/fat16.c`)

The fields of a directory entry have no terminator when they are full, so the copy has to stop by
count. `Copying` is the state of the two copies on memory: the bytes, the cursor they share and, as a
ghost, the addresses that were read. `fullRelativeFilenameAt_spec` says that the name the two copies
leave is that of `fat16_get_full_relative_filename` on the fields as lists, and that no copy has read
behind its field.

`istrncmp` reads its strings where they are in memory (`istrncmp_cstring`). `SameLetter` is what it
takes for equal, without its case fold.
-/

namespace Pandora

open ByteMem

/-! ## Copying -/

structure Copying where
  mem : Mem
  out : Nat
  reads : List Nat := []

namespace Copying

/-- The byte at `a` is read. -/
def see (s : Copying) (a : Nat) : Copying := { s with reads := a :: s.reads }

/-- `c` is written at the cursor, which moves on. -/
def put (s : Copying) (c : UInt8) : Copying :=
  { s with mem := Function.update s.mem s.out c, out := s.out + 1 }

end Copying

/-- A character of a name. -/
def isProper (c : UInt8) : Bool := c ≠ 0 ∧ c ≠ 0x20

/-- The loop of `fat16_to_proper_string`: `n = size - 1 - i` characters may follow this one. -/
def fat16ToProperStringAt.loop : (n src : Nat) → Copying → Copying
  | 0, src, s =>
    let s := s.see src
    -- the size is reached
    if isProper (s.mem src) then s.put (s.mem src) else s
  | n + 1, src, s =>
    let s := s.see src
    if isProper (s.mem src) then loop n (src + 1) (s.put (s.mem src)) else s

/-- `fat16_to_proper_string` from the address `src`. -/
def fat16ToProperStringAt (src size : Nat) (s : Copying) : Copying :=
  let s := fat16ToProperStringAt.loop (size - 1) src s
  { s with mem := Function.update s.mem s.out 0 }

/-- `fat16_get_full_relative_filename` on the entry at `item`: the name goes to `out`. -/
def fat16GetFullRelativeFilenameAt (m : Mem) (item out maxLen : Nat) : Copying :=
  let s := fat16ToProperStringAt item 8 { mem := fill m out maxLen 0, out }
  let s := s.see (item + 8)
  if isProper (s.mem (item + 8)) then fat16ToProperStringAt (item + 8) 3 (s.put 0x2E) else s

section

variable {m : Mem} {s : Copying} {src size n out item : Nat}

@[simp] theorem writeBytes_single (m : Mem) (a : Nat) (c : UInt8) :
    writeBytes m a [c] = Function.update m a c := by
  funext x
  by_cases hx : x = a
  · subst hx
    rw [Function.update_self]
    exact writeBytes_apply (l := [c]) (i := 0) (by simp)
  · rw [Function.update_of_ne hx]
    exact writeBytes_apply_of_outside (by simp; omega)

theorem slice_succ (m : Mem) (a n : Nat) : slice m a (n + 1) = m a :: slice m (a + 1) n := by
  rw [Nat.add_comm n 1, slice_add]
  rfl

theorem toProperString_cons (c : UInt8) (l : List UInt8) :
    fat16ToProperString (c :: l) = if isProper c then c :: fat16ToProperString l else [] := by
  unfold fat16ToProperString isProper
  rw [List.takeWhile_cons]

/-- What a copy leaves: the characters of the field behind the cursor, and nothing read but the
field. -/
structure CopiedField (s : Copying) (src size : Nat) (s' : Copying) : Prop where
  mem : s'.mem = writeBytes s.mem s.out (fat16ToProperString (slice s.mem src size))
  out : s'.out = s.out + (fat16ToProperString (slice s.mem src size)).length
  reads : ∀ a ∈ s'.reads, a ∈ s.reads ∨ src ≤ a ∧ a < src + size

theorem toProperString_loop_spec : ∀ (n src : Nat) (s : Copying),
    (src + (n + 1) ≤ s.out ∨ s.out + (n + 1) ≤ src) →
      CopiedField s src (n + 1) (fat16ToProperStringAt.loop n src s)
  | 0, src, s, _ => by
    have hfield : fat16ToProperString (slice s.mem src 1) =
        if isProper (s.mem src) then [s.mem src] else [] := by
      rw [slice_succ, slice_zero, toProperString_cons]
      rfl
    have hread : ∀ a ∈ src :: s.reads, a ∈ s.reads ∨ src ≤ a ∧ a < src + 1 := fun a ha => by
      rcases List.mem_cons.1 ha with rfl | ha
      · exact .inr ⟨Nat.le_refl _, Nat.lt_succ_self _⟩
      · exact .inl ha
    unfold fat16ToProperStringAt.loop Copying.see
    dsimp only
    by_cases hc : isProper (s.mem src) = true
    · rw [if_pos hc]
      rw [if_pos hc] at hfield
      refine ⟨?_, ?_, hread⟩
      · rw [hfield, writeBytes_single]
        rfl
      · rw [hfield]
        rfl
    · rw [if_neg hc]
      rw [if_neg hc] at hfield
      refine ⟨?_, ?_, hread⟩
      · rw [hfield, writeBytes_nil]
      · rw [hfield]
        rfl
  | n + 1, src, s, hapart => by
    have hfield : fat16ToProperString (slice s.mem src (n + 1 + 1)) =
        if isProper (s.mem src) then
          s.mem src :: fat16ToProperString (slice s.mem (src + 1) (n + 1)) else [] := by
      rw [slice_succ, toProperString_cons]
    unfold fat16ToProperStringAt.loop
    dsimp only
    by_cases hc : isProper (s.mem src) = true
    · have hc' : isProper ((s.see src).mem src) = true := hc
      have ih := toProperString_loop_spec n (src + 1) ((s.see src).put (s.mem src)) (by
        unfold Copying.put Copying.see
        dsimp only
        omega)
      -- the field is read before it could be written
      have hrest : slice ((s.see src).put (s.mem src)).mem (src + 1) (n + 1) =
          slice s.mem (src + 1) (n + 1) := by
        apply slice_congr
        intro i hi
        exact Function.update_of_ne (by unfold Copying.see; dsimp only; omega) _ _
      rw [if_pos hc']
      rw [if_pos hc] at hfield
      refine ⟨?_, ?_, fun a ha => ?_⟩
      · refine ih.mem.trans ?_
        rw [hrest, hfield]
        have happend := writeBytes_append s.mem s.out [s.mem src]
          (fat16ToProperString (slice s.mem (src + 1) (n + 1)))
        rw [writeBytes_single] at happend
        exact happend
      · refine ih.out.trans ?_
        rw [hrest, hfield, List.length_cons]
        unfold Copying.put Copying.see
        dsimp only
        omega
      · rcases ih.reads a ha with hold | hnew
        · rcases List.mem_cons.1 hold with rfl | hold
          · exact .inr ⟨Nat.le_refl _, by omega⟩
          · exact .inl hold
        · exact .inr (by omega)
    · have hc' : ¬ isProper ((s.see src).mem src) = true := hc
      rw [if_neg hc']
      rw [if_neg hc] at hfield
      refine ⟨?_, ?_, fun a ha => ?_⟩
      · rw [hfield, writeBytes_nil]
        rfl
      · rw [hfield]
        rfl
      · rcases List.mem_cons.1 ha with rfl | ha
        · exact .inr ⟨Nat.le_refl _, by omega⟩
        · exact .inl ha

theorem toProperStringAt_spec (src : Nat) {size : Nat} {s : Copying} (hsize : 0 < size)
    (hapart : src + size ≤ s.out ∨ s.out + size ≤ src) :
    ∃ l, l = fat16ToProperString (slice s.mem src size) ∧
      (fat16ToProperStringAt src size s).mem =
        Function.update (writeBytes s.mem s.out l) (s.out + l.length) 0 ∧
      (fat16ToProperStringAt src size s).out = s.out + l.length ∧
      ∀ a ∈ (fat16ToProperStringAt src size s).reads, a ∈ s.reads ∨ src ≤ a ∧ a < src + size := by
  obtain ⟨n, rfl⟩ : ∃ n, size = n + 1 := ⟨size - 1, by omega⟩
  have hspec := toProperString_loop_spec n src s (by omega)
  refine ⟨_, rfl, ?_, hspec.out, hspec.reads⟩
  unfold fat16ToProperStringAt
  rw [Nat.add_sub_cancel]
  dsimp only
  rw [hspec.mem, hspec.out]

/-- The bytes that were zeroed first are the name and its terminator. -/
theorem terminated_name {l : List UInt8} {maxLen i : Nat} (hroom : out + maxLen ≤ 2 ^ 32)
    (hi : i < maxLen) :
    Function.update (writeBytes (fill m out maxLen 0) out l) (out + l.length) 0 (out + i) =
      cstring l i := by
  rcases Nat.lt_trichotomy i l.length with hlt | heq | hgt
  · rw [Function.update_of_ne (by omega), writeBytes_apply hlt, cstring_of_lt hlt]
  · rw [heq, Function.update_self, cstring_of_ge (Nat.le_refl _)]
  · rw [Function.update_of_ne (by omega), writeBytes_apply_of_outside (by omega),
      fill_apply_of_mem hroom (by omega) (by omega), cstring_of_ge (by omega)]

/-- The entry is behind or before the bytes that are written, or the other way round. -/
structure NameRoom (item out maxLen : Nat) : Prop where
  item_le : item + 32 ≤ 2 ^ 32
  out_le : out + maxLen ≤ 2 ^ 32
  room : 13 ≤ maxLen
  apart : item + 32 ≤ out ∨ out + maxLen ≤ item

/-- The two copies: the name of the entry is in memory and its terminator behind it, nothing has been
read but the name field by the first copy, and the two fields in all. -/
theorem fullRelativeFilenameAt_spec {maxLen : Nat} (h : NameRoom item out maxLen) :
    ∃ name, name = fat16GetFullRelativeFilename (fatDirectoryItem m item) ∧
      (fat16GetFullRelativeFilenameAt m item out maxLen).mem =
        Function.update (writeBytes (fill m out maxLen 0) out name) (out + name.length) 0 ∧
      (∀ a ∈ (fat16ToProperStringAt item 8 { mem := fill m out maxLen 0, out }).reads,
        item ≤ a ∧ a < item + 8) ∧
      ∀ a ∈ (fat16GetFullRelativeFilenameAt m item out maxLen).reads,
        item ≤ a ∧ a < item + 11 := by
  obtain ⟨hitem, hout, hroom, hapart⟩ := h
  -- the buffer is no part of the entry
  have hentry : ∀ i < 32, fill m out maxLen 0 (item + i) = m (item + i) := fun i hi =>
    fill_apply_of_outside hout (by omega) (by omega)
  have hslice : slice (fill m out maxLen 0) item 8 = slice m item 8 :=
    slice_congr fun i hi => hentry i (by omega)
  obtain ⟨base, hbase, hmem, hcursor, hreads⟩ := toProperStringAt_spec item
    (show 0 < 8 by decide) (show item + 8 ≤ Copying.out { mem := fill m out maxLen 0, out } ∨ _ by
      dsimp only
      omega)
  rw [hslice] at hbase
  have hlen : base.length ≤ 8 := by
    rw [hbase]
    exact (properString_length _).trans (Nat.le_of_eq (slice_length _ _ _))
  have hreads₀ : ∀ a ∈ (fat16ToProperStringAt item 8 { mem := fill m out maxLen 0, out }).reads,
      item ≤ a ∧ a < item + 8 := fun a ha => (hreads a ha).resolve_left List.not_mem_nil
  obtain ⟨s₁, hs₁⟩ : ∃ s₁, fat16ToProperStringAt item 8 { mem := fill m out maxLen 0, out } = s₁ :=
    ⟨_, rfl⟩
  rw [hs₁] at hmem hcursor hreads₀
  dsimp only at hmem hcursor
  -- the extension is as it was
  have hext : ∀ i < 3, s₁.mem (item + 8 + i) = m (item + 8 + i) := fun i hi => by
    rw [hmem, Function.update_of_ne (by omega), writeBytes_apply_of_outside (by omega), Nat.add_assoc,
      hentry (8 + i) (by omega)]
  have hhead : s₁.mem (item + 8) = (fatDirectoryItem m item).ext.headD 0 := hext 0 (by decide)
  have hname : fat16GetFullRelativeFilename (fatDirectoryItem m item) =
      if isProper (s₁.mem (item + 8)) then
        base ++ 0x2E :: fat16ToProperString (slice m (item + 8) 3) else base := by
    unfold fat16GetFullRelativeFilename isProper
    dsimp only
    rw [← hhead, hbase]
    simp only [decide_eq_true_eq]
    rfl
  rw [hname, hs₁]
  unfold fat16GetFullRelativeFilenameAt
  rw [hs₁]
  dsimp only
  have hsee : (s₁.see (item + 8)).mem (item + 8) = s₁.mem (item + 8) := rfl
  have hread : ∀ a ∈ (s₁.see (item + 8)).reads, item ≤ a ∧ a < item + 11 := fun a ha => by
    rcases List.mem_cons.1 ha with rfl | ha
    · omega
    · have := hreads₀ a ha
      omega
  rw [hsee]
  by_cases hc : isProper (s₁.mem (item + 8)) = true
  · rw [if_pos hc, if_pos hc]
    obtain ⟨s₂, hs₂⟩ : ∃ s₂, (s₁.see (item + 8)).put 0x2E = s₂ := ⟨_, rfl⟩
    -- the dot takes the place of the terminator
    have hmem₂ : s₂.mem = writeBytes (fill m out maxLen 0) out (base ++ [0x2E]) := by
      rw [← hs₂, ← writeBytes_append, writeBytes_single, ← hcursor]
      refine (congrArg (fun m => Function.update m s₁.out 0x2E) hmem).trans ?_
      rw [hcursor, Function.update_idem]
    have hcursor₂ : s₂.out = out + (base.length + 1) := by
      rw [← hs₂]
      exact (congrArg (· + 1) hcursor).trans (Nat.add_assoc _ _ _)
    obtain ⟨ext, he, hmem₃, -, hreads₃⟩ := toProperStringAt_spec (item + 8)
      (show 0 < 3 by decide) (show item + 8 + 3 ≤ s₂.out ∨ s₂.out + 3 ≤ item + 8 by omega)
    have hslice₂ : slice s₂.mem (item + 8) 3 = slice m (item + 8) 3 := by
      apply slice_congr
      intro i hi
      rw [hmem₂, writeBytes_apply_of_outside (by rw [List.length_append]; simp; omega), Nat.add_assoc,
        hentry (8 + i) (by omega)]
    rw [hslice₂] at he
    rw [hs₂, ← he]
    refine ⟨_, rfl, ?_, hreads₀, fun a ha => ?_⟩
    · have happend := writeBytes_append (fill m out maxLen 0) out (base ++ [0x2E]) ext
      rw [List.length_append, List.length_singleton, List.append_assoc, List.singleton_append]
        at happend
      rw [hmem₃, hmem₂, hcursor₂, happend, List.length_append, List.length_cons]
      congr 1
      omega
    · rcases hreads₃ a ha with hold | hnew
      · rw [← hs₂] at hold
        exact hread a hold
      · omega
  · rw [if_neg hc, if_neg hc]
    exact ⟨base, rfl, hmem.trans (by rw [← hcursor]), hreads₀, hread⟩

/-- The longest prefix of the field without a null or a space. -/
structure LongestProper (field l : List UInt8) : Prop where
  isPrefixOf : l <+: field
  proper : ∀ c ∈ l, c ≠ 0 ∧ c ≠ 0x20
  longest : ∀ l', l' <+: field → (∀ c ∈ l', c ≠ 0 ∧ c ≠ 0x20) → l'.length ≤ l.length

theorem toProperString_longest (field : List UInt8) :
    LongestProper field (fat16ToProperString field) where
  isPrefixOf := List.takeWhile_prefix _
  proper := fun c hc => by simpa using List.mem_takeWhile_imp hc
  longest := fun l' hl' hp => by
    have hall : l'.takeWhile (fun c => c ≠ 0 ∧ c ≠ 0x20) = l' :=
      List.takeWhile_eq_self_iff.2 fun c hc => by simpa using hp c hc
    obtain ⟨r, rfl⟩ := hl'
    unfold fat16ToProperString
    rw [List.takeWhile_append_of_pos fun c hc => by simpa using hp c hc]
    simp

/-! ## Comparing in memory -/

/-- The same character, or a letter in its two cases. -/
def SameLetter (c d : UInt8) : Prop :=
  c = d ∨ (65 ≤ c ∧ c ≤ 90 ∧ d = c + 32) ∨ (65 ≤ d ∧ d ≤ 90 ∧ c = d + 32)

theorem tolower_eq_iff {c d : UInt8} : tolower c = tolower d ↔ SameLetter c d := by
  unfold tolower SameLetter
  simp only [UInt8.le_iff_toNat_le, ← UInt8.toNat_inj]
  split <;> split <;> simp only [UInt8.toNat_add, UInt8.reduceToNat] at * <;> omega

/-- `char` is signed on the target; the bytes from `2 ^ 7` on are negative there and no letters. -/
theorem tolower_signed (c : UInt8) :
    (tolower c).toInt8 = if 65 ≤ c.toInt8 ∧ c.toInt8 ≤ 90 then c.toInt8 + 32 else c.toInt8 := by
  have h : ∀ b : BitVec 8, (tolower ⟨b⟩).toInt8 =
      if 65 ≤ (⟨b⟩ : UInt8).toInt8 ∧ (⟨b⟩ : UInt8).toInt8 ≤ 90 then (⟨b⟩ : UInt8).toInt8 + 32
      else (⟨b⟩ : UInt8).toInt8 := by
    decide
  exact h c.toBitVec

theorem sameString_iff {l l' : List UInt8} :
    SameString l l' ↔ l.length = l'.length ∧
      ∀ i (h : i < l.length) (h' : i < l'.length), SameLetter l[i] l'[i] := by
  unfold SameString
  rw [List.ext_getElem_iff]
  simp only [List.length_map, List.getElem_map, tolower_eq_iff]

/-- The characters of a string in memory, up to its terminator. -/
theorem string_apply {p i : Nat} {l : List UInt8} (h : CString m p l) (hi : i ≤ l.length) :
    m (p + i) = cstring l i := by
  induction l generalizing p i with
  | nil =>
    obtain rfl : i = 0 := by simpa using hi
    exact h
  | cons c l ih =>
    cases i with
    | zero => exact h.1
    | succ i =>
      rw [Nat.add_comm i 1, ← Nat.add_assoc, ih h.2.2 (by simpa using hi), Nat.add_comm 1 i]
      rfl

/-- The comparison goes no further than the shorter of the two strings and its terminator. -/
theorem istrncmp_loop_cstring {l l' : List UInt8} {str1 str2 : Nat → UInt8}
    (h1 : ∀ i ≤ l.length, str1 i = cstring l i) (h2 : ∀ i ≤ l'.length, str2 i = cstring l' i) :
    ∀ n i : Nat, i ≤ l.length → i ≤ l'.length →
      istrncmp.loop str1 str2 n i = istrncmp.loop (cstring l) (cstring l') n i
  | 0, _, _, _ => rfl
  | n + 1, i, hi, hi' => by
    unfold istrncmp.loop
    dsimp only
    rw [h1 i hi, h2 i hi']
    split
    · rfl
    · rename_i hsame
      split
      · rfl
      · rename_i hne
        have hlt : i < l.length := by
          refine Nat.lt_of_le_of_ne hi fun he => hne ?_
          exact cstring_of_ge (Nat.le_of_eq he.symm)
        have hlt' : i < l'.length := by
          refine Nat.lt_of_le_of_ne hi' fun he => hsame ?_
          rw [cstring_of_ge (l := l') (Nat.le_of_eq he.symm)]
          exact ⟨hne, fun hlow => hne (tolower_eq_zero.1 hlow)⟩
        exact istrncmp_loop_cstring h1 h2 n (i + 1) hlt hlt'

theorem istrncmp_cstring {m' : Mem} {p q : Nat} {l l' : List UInt8} (h : CString m p l)
    (h' : CString m' q l') (n : Nat) :
    istrncmp (fun i => m (p + i)) (fun i => m' (q + i)) n = istrncmp (cstring l) (cstring l') n :=
  istrncmp_loop_cstring (fun _ hi => string_apply h hi) (fun _ hi => string_apply h' hi) n 0
    (Nat.zero_le _) (Nat.zero_le _)

/-! ## The name of an entry and a name that is looked for -/

/-- The name is in memory at `out`, within 13 bytes, and of the entry at `item` only the two fields have
been read, by the first copy only the first. -/
structure NameWritten (m : Mem) (item out : Nat) (name : List UInt8) (s : Copying) : Prop where
  string : CString s.mem out name
  within : name.length + 1 ≤ 13
  others : ∀ x < 2 ^ 32, x < out ∨ out + 13 ≤ x → s.mem x = fill m out maxPath 0 x
  first : ∀ a ∈ (fat16ToProperStringAt item 8 { mem := fill m out maxPath 0, out }).reads,
    item ≤ a ∧ a < item + 8
  reads : ∀ a ∈ s.reads, item ≤ a ∧ a < item + 11

theorem fullRelativeFilenameAt_written (h : NameRoom item out maxPath) :
    NameWritten m item out (fat16GetFullRelativeFilename (fatDirectoryItem m item))
      (fat16GetFullRelativeFilenameAt m item out maxPath) := by
  obtain ⟨name, hname, hmem, hfirst, hreads⟩ := fullRelativeFilenameAt_spec (m := m) h
  rw [← hname]
  have hlen : name.length ≤ 12 := hname ▸ fullName_length (fatDirectoryItem_sized m item)
  have hzero : (0 : UInt8) ∉ name := hname ▸ zero_notMem_fullName _
  have hat : ∀ i < maxPath, (fat16GetFullRelativeFilenameAt m item out maxPath).mem (out + i) =
      cstring name i := fun i hi => by
    rw [hmem]
    exact terminated_name h.out_le hi
  have hroom := h.room
  refine ⟨CString.of_bytes hzero (fun i hi => ?_) ?_, by omega, fun x hx hout => ?_, hfirst, hreads⟩
  · rw [hat i (by omega), cstring_of_lt hi]
  · rw [hat _ (by omega), cstring_of_ge (Nat.le_refl _)]
  · rw [hmem, Function.update_of_ne (by omega), writeBytes_apply_of_outside (by omega)]

/-- **The name of an entry matches** the names of its length that are the same up to the case of
letters, whatever the bytes of its fields are. -/
theorem entry_name_matches (h : NameRoom item out maxPath) :
    ∃ base ext name, LongestProper (slice m item 8) base ∧
      LongestProper (slice m (item + 8) 3) ext ∧
      name = (if m (item + 8) = 0 ∨ m (item + 8) = 0x20 then base else base ++ 0x2E :: ext) ∧
      NameWritten m item out name (fat16GetFullRelativeFilenameAt m item out maxPath) ∧
      ∀ (m' : Mem) (p : Nat) (requested : List UInt8), CString m' p requested →
        (istrncmp (fun i => (fat16GetFullRelativeFilenameAt m item out maxPath).mem (out + i))
            (fun i => m' (p + i)) maxPath = 0 ↔
          name.length = requested.length ∧
            ∀ i (hi : i < name.length) (hi' : i < requested.length),
              SameLetter name[i] requested[i]) := by
  have hwritten := fullRelativeFilenameAt_written (m := m) h
  refine ⟨_, _, fat16GetFullRelativeFilename (fatDirectoryItem m item), toProperString_longest _,
    toProperString_longest _, ?_, hwritten, fun m' p requested hrequested => ?_⟩
  · have hhead : (fatDirectoryItem m item).ext.headD 0 = m (item + 8) := rfl
    unfold fat16GetFullRelativeFilename
    dsimp only
    rw [hhead]
    by_cases hc : m (item + 8) = 0 ∨ m (item + 8) = 0x20
    · rw [if_pos hc, if_neg (by tauto)]
      rfl
    · rw [if_neg hc, if_pos (by tauto)]
      rfl
  · have hzero : (0 : UInt8) ∉ requested := fun hm => hrequested.ne_zero 0 hm rfl
    have hlen := hwritten.within
    rw [istrncmp_cstring hwritten.string hrequested,
      istrncmp_eq_zero (zero_notMem_fullName _) hzero (by unfold maxPath; omega), sameString_iff]

end

/-- A full name, a full extension and the byte behind them. -/
def fullEntry : Mem := fun x => if x < 32 then 0x41 + UInt8.ofNat x else 0

theorem entry_name_matches_full : ∃ base ext name, LongestProper (slice fullEntry 0 8) base ∧
    LongestProper (slice fullEntry (0 + 8) 3) ext ∧
    name = (if fullEntry (0 + 8) = 0 ∨ fullEntry (0 + 8) = 0x20 then base else base ++ 0x2E :: ext) ∧
    NameWritten fullEntry 0 0x1000 name (fat16GetFullRelativeFilenameAt fullEntry 0 0x1000 maxPath) := by
  have hroom : NameRoom 0 0x1000 maxPath := ⟨by decide, by decide, by decide, by decide⟩
  have hmatches : ∃ base ext name, LongestProper (slice fullEntry 0 8) base ∧ _ :=
    entry_name_matches hroom
  obtain ⟨base, ext, name, hbase, hext, hname, hwritten, -⟩ := hmatches
  exact ⟨base, ext, name, hbase, hext, hname, hwritten⟩

end Pandora
