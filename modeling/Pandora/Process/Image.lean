import Pandora.Process.Bounds
import Pandora.Process.Load

/-!
# What a loaded program sees

An ELF image stays as it was read and its pages are mapped where they are, so a program sees the
file: byte `p_vaddr + k` of a segment shows byte `p_offset + k` (`SegmentShown`), for all of
`p_memsz`. Nothing clears the part behind `p_filesz`, which shows what comes next in the file, and
every program header is mapped, whatever its type, so that a header that is no segment can put
another page in the place of one (`Undisturbed`).
-/

namespace Pandora

open ByteMem

/-! ## ELF files -/

/-- The bytes of a file, as a memory of their own. -/
def fileMem (file : List UInt8) : Mem := fun x => file.getD x 0

/-- The program header `i` of a file. -/
def filePhdr (file : List UInt8) (i : Nat) : Elf32Phdr := programHeader (fileMem file) 0 i

/-- `i` is a `PT_LOAD` header of the file. -/
def IsSegment (file : List UInt8) (i : Nat) : Prop :=
  i < ePhnum (fileMem file) 0 ∧ (filePhdr file i).pType = ptLoad

/-- A file that is accepted and has its headers. -/
structure ElfImage (file : List UInt8) : Prop where
  header : 52 ≤ file.length
  phdrs : ePhoff (fileMem file) 0 + 32 * ePhnum (fileMem file) 0 ≤ file.length
  accepted : elfValidateLoaded (fileMem file) 0 = allOk

/-- The page holds a byte of the segment. -/
def Elf32Phdr.Occupies (phdr : Elf32Phdr) (page : Nat) : Prop :=
  ∃ k < phdr.pMemsz, Word.add phdr.pVaddr k / 4096 = page

/-- The segments lie inside the file, at the same place of a page as in memory, and occupy pages of
their own, none of the stack. -/
structure SegmentsApart (file : List UInt8) : Prop where
  inside : ∀ i, IsSegment file i →
    (filePhdr file i).pOffset + (filePhdr file i).pFilesz ≤ file.length
  congruent : ∀ i, IsSegment file i →
    (filePhdr file i).pVaddr % 4096 = (filePhdr file i).pOffset % 4096
  disjoint : ∀ i j, IsSegment file i → IsSegment file j → i ≠ j → ∀ page,
    ¬ ((filePhdr file i).Occupies page ∧ (filePhdr file j).Occupies page)
  offStack : ∀ i page, IsSegment file i → (filePhdr file i).Occupies page →
    page < programVirtualStackAddressEnd / 4096 ∨ programVirtualStackAddressStart / 4096 ≤ page

/-- The page is among those the header is mapped to. -/
def Elf32Phdr.Shows (phdr : Elf32Phdr) (page : Nat) : Prop :=
  pageIndex (phdr.pVaddr / 4096) page < ((phdr.pOffset % 4096 + phdr.pMemsz) % 2 ^ 32 + 4095) / 4096

/-- Which page of the image is mapped there. -/
def Elf32Phdr.part (phdr : Elf32Phdr) (page : Nat) : Nat :=
  (phdr.pOffset / 4096 + pageIndex (phdr.pVaddr / 4096) page) % 2 ^ 20

/-- No segment is longer in the file than in memory, and a header that occupies no pages as a segment
shows a page of one, if at all, as it is. -/
structure Undisturbed (file : List UInt8) : Prop where
  filesz_le : ∀ i, IsSegment file i → (filePhdr file i).pFilesz ≤ (filePhdr file i).pMemsz
  others : ∀ i j page, IsSegment file i → (filePhdr file i).Occupies page →
    j < ePhnum (fileMem file) 0 → ¬ (IsSegment file j ∧ 0 < (filePhdr file j).pMemsz) →
    (filePhdr file j).Shows page → (filePhdr file j).part page = (filePhdr file i).part page

/-- The segments with all of `p_memsz` lie inside the file. -/
def MemszInside (file : List UInt8) : Prop :=
  ∀ i, IsSegment file i → (filePhdr file i).pOffset + (filePhdr file i).pMemsz ≤ file.length

section

variable {σ : Type}

/-- The byte at the virtual address `v` of a process. -/
def Kernel.readVirtual (K : Kernel σ) (process v : Nat) : UInt8 := K.mem (K.translate process v)

end

/-! ## The headers of an image -/

section

variable {m : Mem} {header i : Nat} {file : List UInt8}

theorem BytesAt.at_byte (h : BytesAt m header file) {k : Nat} (hk : k < file.length) :
    m (header + k) = fileMem file k := h k hk

theorem BytesAt.read32_file (h : BytesAt m header file) (hend : header + file.length ≤ 2 ^ 32)
    {k : Nat} (hk : k + 4 ≤ file.length) :
    read32 m (Word.add header k) = read32 (fileMem file) (Word.add 0 k) := by
  rw [Word.add_of_lt (by omega), Word.add_of_lt (by omega), Nat.zero_add]
  have hb : ∀ j < 4, m (header + k + j) = fileMem file (k + j) := fun j hj => by
    rw [Nat.add_assoc, h.at_byte (by omega)]
  have h0 : m (header + k) = fileMem file k := hb 0 (by decide)
  unfold read32
  rw [h0, hb 1 (by decide), hb 2 (by decide), hb 3 (by decide)]

theorem BytesAt.read16_file (h : BytesAt m header file) (hend : header + file.length ≤ 2 ^ 32)
    {k : Nat} (hk : k + 2 ≤ file.length) :
    read16 m (Word.add header k) = read16 (fileMem file) (Word.add 0 k) := by
  rw [Word.add_of_lt (by omega), Word.add_of_lt (by omega), Nat.zero_add]
  have h1 : m (header + k + 1) = fileMem file (k + 1) := by
    rw [Nat.add_assoc, h.at_byte (by omega)]
  unfold read16
  rw [h.at_byte (by omega), h1]

/-- The image has the headers of its file. -/
structure SameHeaders (m : Mem) (header : Nat) (file : List UInt8) : Prop where
  validate : elfValidateLoaded m header = elfValidateLoaded (fileMem file) 0
  phnum : ePhnum m header = ePhnum (fileMem file) 0
  phdr : ∀ i < ePhnum (fileMem file) 0, programHeader m header i = filePhdr file i

/-- Where the program header `i` is in an image. -/
theorem elfProgramHeader_eq (hphoff : ePhoff m header ≠ 0) :
    elfProgramHeader m header i = Word.add header (ePhoff m header + 32 * i) := by
  unfold elfProgramHeader elfPheader
  rw [if_neg hphoff, Word.add_eq, Word.add_eq, Word.add_eq]
  omega

theorem ElfImage.phoff_ne (hi : ElfImage file) : ePhoff (fileMem file) 0 ≠ 0 := by
  obtain ⟨-, -, -, hphoff, -⟩ := elfValidateLoaded_eq_allOk.1 hi.accepted
  exact of_decide_eq_true hphoff

theorem BytesAt.sameHeaders (h : BytesAt m header file) (hend : header + file.length ≤ 2 ^ 32)
    (hi : ElfImage file) : SameHeaders m header file := by
  have hlen := hi.header
  have hphdrs := hi.phdrs
  have hphoff : ePhoff m header = ePhoff (fileMem file) 0 := h.read32_file hend (by omega)
  have hne := hi.phoff_ne
  have hident : ∀ k < 52, m (Word.add header k) = fileMem file (Word.add 0 k) := fun k hk => by
    rw [Word.add_of_lt (by omega), Word.add_of_lt (by omega), Nat.zero_add, h.at_byte (by omega)]
  have hfirst : m header = fileMem file 0 := h.at_byte (k := 0) (by omega)
  refine ⟨?_, h.read16_file hend (by omega), fun i hlt => ?_⟩
  · have htype : eType m header = eType (fileMem file) 0 := h.read16_file hend (by omega)
    have hentry : eEntry m header = eEntry (fileMem file) 0 := h.read32_file hend (by omega)
    unfold elfValidateLoaded elfValidSignature elfValidClass elfValidEncoding elfHasProgramHeader
      elfIsExecutable
    rw [hfirst, hident 1 (by decide), hident 2 (by decide), hident 3 (by decide),
      hident 4 (by decide), hident 5 (by decide), hphoff, htype, hentry]
  · -- every field is a word of the file
    have hword : ∀ k, k + 4 ≤ 32 → read32 m (Word.add (elfProgramHeader m header i) k) =
        read32 (fileMem file) (Word.add (elfProgramHeader (fileMem file) 0 i) k) := fun k hk => by
      have := h.read32_file hend (k := ePhoff (fileMem file) 0 + 32 * i + k) (by omega)
      have hadd : ∀ a, Word.add (Word.add a (ePhoff (fileMem file) 0 + 32 * i)) k =
          Word.add a (ePhoff (fileMem file) 0 + 32 * i + k) := fun a => by
        rw [Word.add_eq, Word.add_eq, Word.add_eq]
        omega
      rw [elfProgramHeader_eq (hphoff ▸ hne), elfProgramHeader_eq hne, hphoff, hadd, hadd, this]
    have hzero : ∀ {m : Mem} {h i : Nat}, Word.add (elfProgramHeader m h i) 0 =
        elfProgramHeader m h i := fun {m h i} => by
      have hlt : elfProgramHeader m h i < 2 ^ 32 := Word.add_lt _ _
      rw [Word.add_of_lt hlt, Nat.add_zero]
    have h0 := hword 0 (by decide)
    rw [hzero, hzero] at h0
    unfold filePhdr programHeader elf32Phdr
    rw [h0, hword 4 (by decide), hword 8 (by decide), hword 16 (by decide), hword 20 (by decide),
      hword 24 (by decide)]

end

/-! ## Mapping a header -/

section

variable {σ : Type} {K K' : Kernel σ} {m : Mem} {process dir f header page : Nat}
  {table M : Nat → Nat} {phdr : Elf32Phdr}

theorem programHeader_pVaddr_lt (m : Mem) (header i : Nat) :
    (programHeader m header i).pVaddr < 2 ^ 32 := read32_lt _ _

/-- The mapping of the stack leaves the other pages alone. -/
theorem mapStack_frames (hd : ProcessDir K process dir f table) (stack : Nat) :
    K.MemOnly (K.mapTo process programVirtualStackAddressEnd stack
      (pagingAlignAddress (Word.add stack userProgramStackSize)) pagingUserWriteable).2 ∧
    ∃ M, Mapped K.mem (K.mapTo process programVirtualStackAddressEnd stack
        (pagingAlignAddress (Word.add stack userProgramStackSize)) pagingUserWriteable).2.mem
        dir f table M ∧
      ∀ page < 2 ^ 20, (page < programVirtualStackAddressEnd / 4096 ∨
        programVirtualStackAddressStart / 4096 ≤ page) → M page = pageEntry K.mem table page := by
  have helt : pagingAlignAddress (Word.add stack userProgramStackSize) < 2 ^ 32 := by
    unfold pagingAlignAddress
    split
    · exact Word.sub_lt _ _
    · exact Word.add_lt _ _
  obtain ⟨res, K', M, hr, hk, hm, hcases⟩ := Kernel.mapTo_cases hd programVirtualStackAddressEnd stack
    (pagingAlignAddress (Word.add stack userProgramStackSize)) (by decide) (by decide) helt
    (show pagingUserWriteable < 4096 by decide)
  rw [hr]
  refine ⟨hk, M, hm, fun page hpage hout => ?_⟩
  rcases hcases with ⟨-, hp, -, hle, rfl⟩ | ⟨-, rfl⟩
  · -- the range has the four pages of the stack
    have hcount : (pagingAlignAddress (Word.add stack userProgramStackSize) - stack) / 4096 ≤ 4 := by
      unfold pagingAlignAddress userProgramStackSize at hle ⊢
      rw [Word.add_eq] at hle ⊢
      rw [if_neg (by omega)] at hle ⊢
      omega
    unfold mapped pageIndex
    unfold programVirtualStackAddressEnd programVirtualStackAddressStart at *
    rw [if_neg (by omega)]
  · rfl

theorem Kernel.follow_memOnly (K : Kernel σ) (p : Nat) :
    K.MemOnly (K.follow p) ∧ (K.follow p).mem = K.mem :=
  ⟨⟨rfl, follow_heap K.kmem p⟩, follow_mem K.kmem p⟩

end

/-! ## Reading the image -/

section

variable {σ : Type} {F : FileLayer σ} {owned : σ → Nat → Prop} {onFile : Int → σ → Prop}
  {rest : Nat → Prop} {K₀ K K' : Kernel σ} {obj : Role → Option (Nat × Nat)}
  {filename file : List UInt8} {fd : Int} {be ne : Nat}

/-- The file layer has the contents `file` under `filename`; `onFile fd s` says that the descriptor
`fd` is at the start of the file. -/
structure FileLayer.Serves (F : FileLayer σ) (onFile : Int → σ → Prop)
    (filename file : List UInt8) : Prop where
  length_lt : file.length < 2 ^ 32
  fopen : ∀ s k, 0 < (F.fopen filename s k).1 →
    onFile (F.fopen filename s k).1 (F.fopen filename s k).2.1
  fstat : ∀ fd s k, onFile fd s → (F.fstat fd s k).1 ≠ -einformat ∧
    (0 ≤ (F.fstat fd s k).1 → (F.fstat fd s k).2 = file.length)
  fread : ∀ ptr fd s k, onFile fd s → (F.fread ptr file.length 1 fd s k).1 ≠ -einformat ∧
    (0 ≤ (F.fread ptr file.length 1 fd s k).1 → (F.fread ptr file.length 1 fd s k).2.2.Sound →
      BytesAt (F.fread ptr file.length 1 fd s k).2.2.mem ptr file)

/-- Only the file layer, the `elf_file` structures and the memory have changed. -/
def Kernel.FileOnly (K K' : Kernel σ) : Prop :=
  K' = { K with kmem := K'.kmem, elfFileAt := K'.elfFileAt, files := K'.files }

theorem Kernel.FileOnly.trans {K'' : Kernel σ} (h : K.FileOnly K') (h' : K'.FileOnly K'') :
    K.FileOnly K'' := by
  unfold Kernel.FileOnly at *
  rw [h', h]

theorem elfProcessPheaders_elfMemory (m : Mem) :
    ∀ (n i : Nat) (file : ElfFile), (elfProcessPheaders m n i file).elfMemory = file.elfMemory
  | 0, _, _ => rfl
  | n + 1, i, file => by
    unfold elfProcessPheaders
    rw [elfProcessPheaders_elfMemory m n]
    unfold elfProcessPheader elfProcessPhdrPtLoad
    split
    · dsimp only
      split <;> split <;> rfl
    · rfl

theorem BytesAt.of_sameBlock {m m' : Mem} {bi ni : Nat} (h : BytesAt m (blockAddr bi) file)
    (hlen : file.length ≤ 4096 * ni) (hs : ∀ j, bi ≤ j → j < bi + ni → SameBlock m m' j) :
    BytesAt m' (blockAddr bi) file := fun k hk => by
  rw [hs (bi + k / 4096) (by omega) (by omega) _ (by unfold blockAddr; omega)
    (by unfold blockAddr; omega), h k hk]

/-- The headers of an image that lies in none of the tables. -/
theorem BytesAt.headersApart {m : Mem} {header : Nat} {table : Nat → Nat}
    (h : BytesAt m header file) (hi : ElfImage file) (hend : header + file.length ≤ 2 ^ 28)
    (hout : ∀ k < file.length, OutsideTables table (header + k)) : HeadersApart m header table := by
  have hlen := hi.header
  have hphdrs := hi.phdrs
  have hphoff : ePhoff m header = ePhoff (fileMem file) 0 := h.read32_file (by omega) (by omega)
  have hphnum := (h.sameHeaders (by omega) hi).phnum
  refine ⟨fun k hk => ?_, fun i hlt k hk => ?_⟩
  · rw [Word.add_of_lt (by omega)]
    exact hout k (by omega)
  · rw [hphnum] at hlt
    rw [elfProgramHeader_eq (hphoff ▸ hi.phoff_ne), hphoff, Word.add_of_lt (a := header) (by omega),
      Word.add_of_lt (by omega), Nat.add_assoc]
    exact hout _ (by omega)

/-- The image of `file` at `header`, and the pages outside the stack: an address is where the headers
that show its page agree to put it. -/
structure LoadedImage (K : Kernel σ) (process : Nat) (file : List UInt8) (header : Nat) : Prop where
  aligned : header % 4096 = 0
  inHeap : header + file.length ≤ 2 ^ 28
  bytes : BytesAt K.mem header file
  shows : ∀ v < 2 ^ 32, (v / 4096 < programVirtualStackAddressEnd / 4096 ∨
      programVirtualStackAddressStart / 4096 ≤ v / 4096) → ∀ A,
    (∀ j < ePhnum (fileMem file) 0, (filePhdr file j).Shows (v / 4096) →
      Word.add header (4096 * (filePhdr file j).part (v / 4096)) = A) →
    (∃ j < ePhnum (fileMem file) 0, (filePhdr file j).Shows (v / 4096) ∧
      header + (filePhdr file j).pOffset + (filePhdr file j).pMemsz ≤ 2 ^ 32 - 4096) →
    K.translate process v = A + v % 4096

end

/-! ## What the program sees -/

section

variable {σ : Type} {F : FileLayer σ} {owned : σ → Nat → Prop} {onFile : Int → σ → Prop}
  {K K' : Kernel σ} {filename file : List UInt8} {phdr : Elf32Phdr} {page k process header i : Nat}

/-- A page that a segment shows holds a byte of it. -/
theorem Elf32Phdr.Shows.occupies (h : phdr.Shows page) (hpage : page < 2 ^ 20)
    (hpos : 0 < phdr.pMemsz) (hcong : phdr.pVaddr % 4096 = phdr.pOffset % 4096)
    (hv : phdr.pVaddr < 2 ^ 32) : phdr.Occupies page := by
  unfold Elf32Phdr.Shows at h
  obtain ⟨idx, hidx⟩ : ∃ idx, pageIndex (phdr.pVaddr / 4096) page = idx := ⟨_, rfl⟩
  have hdef := hidx
  unfold pageIndex at hdef
  rw [hidx] at h
  rcases Nat.eq_zero_or_pos idx with rfl | hidxpos
  · refine ⟨0, hpos, ?_⟩
    rw [Word.add_eq]
    omega
  · refine ⟨4096 * idx - phdr.pVaddr % 4096, by omega, ?_⟩
    rw [Word.add_eq]
    omega

/-- Byte `k` of a segment is on a page that the segment shows, where it is in the image. -/
theorem Elf32Phdr.shows_byte (hcong : phdr.pVaddr % 4096 = phdr.pOffset % 4096)
    (hv : phdr.pVaddr < 2 ^ 32) (hsize : phdr.pOffset + phdr.pMemsz ≤ 2 ^ 28) (hk : k < phdr.pMemsz)
    (hal : header % 4096 = 0) (hheader : header ≤ 2 ^ 28) :
    phdr.Shows (Word.add phdr.pVaddr k / 4096) ∧
      Word.add header (4096 * phdr.part (Word.add phdr.pVaddr k / 4096)) +
        Word.add phdr.pVaddr k % 4096 = header + (phdr.pOffset + k) := by
  have hidx : pageIndex (phdr.pVaddr / 4096) (Word.add phdr.pVaddr k / 4096) =
      (phdr.pVaddr % 4096 + k) / 4096 := by
    unfold pageIndex
    rw [Word.add_eq]
    omega
  unfold Elf32Phdr.Shows Elf32Phdr.part
  rw [hidx]
  refine ⟨by omega, ?_⟩
  rw [Word.add_of_lt (a := header) (by omega), Word.add_eq]
  omega

/-- All of `p_memsz` shows the file, where the file reaches so far. -/
theorem LoadedImage.read (h : LoadedImage K process file header) (ha : SegmentsApart file)
    (hu : Undisturbed file) (hin : MemszInside file) (hi : IsSegment file i)
    (hk : k < (filePhdr file i).pMemsz) :
    K.readVirtual process (Word.add (filePhdr file i).pVaddr k) =
      fileMem file ((filePhdr file i).pOffset + k) := by
  have hvlt : ∀ j, (filePhdr file j).pVaddr < 2 ^ 32 := fun j => read32_lt _ _
  have hheap := h.inHeap
  have hini := hin i hi
  obtain ⟨hshows, hplace⟩ := Elf32Phdr.shows_byte (ha.congruent i hi) (hvlt i) (by omega) hk h.aligned
    (by omega)
  have hocc : (filePhdr file i).Occupies (Word.add (filePhdr file i).pVaddr k / 4096) := ⟨k, hk, rfl⟩
  obtain ⟨v, hv⟩ : ∃ v, Word.add (filePhdr file i).pVaddr k = v := ⟨_, rfl⟩
  have hvv : v < 2 ^ 32 := hv ▸ Word.add_lt _ _
  rw [hv] at hshows hplace hocc ⊢
  have htrans := h.shows v hvv (ha.offStack i _ hi hocc)
    (Word.add header (4096 * (filePhdr file i).part (v / 4096))) (fun j hj hjs => ?_)
    ⟨i, hi.1, hshows, by omega⟩
  · unfold Kernel.readVirtual
    rw [htrans, hplace, h.bytes.at_byte (by omega)]
  · by_cases hji : j = i
    · rw [hji]
    · by_cases hseg : IsSegment file j ∧ 0 < (filePhdr file j).pMemsz
      · -- the segments occupy pages of their own
        exact absurd ⟨hjs.occupies (by omega) hseg.2 (ha.congruent j hseg.1) (hvlt j), hocc⟩
          (ha.disjoint j i hseg.1 hi hji (v / 4096))
      · rw [hu.others i j _ hi hocc hj hseg hjs]

end

end Pandora
