import Pandora.Process.Segments

/-!
# What ELF parsing reads

The code reads the header and the program headers where it finds them, without a look at the length
of the file. `ElfReads` are the bytes it reads, in the order of its checks, `ElfParsesInside` is
that it reads bytes of the file only and rejects every file that is too short for its headers.
`ElfDecides` is the condition: a wrong byte of the identification is in the file, or the file is long
enough for what the checks read and they reject it, or all the headers are in it.
-/

namespace Pandora

open ByteMem

/-! ## Reads -/

def elfSignature : List UInt8 := [0x7F, 0x45, 0x4C, 0x46]

/-- The address of a byte that `elf_validate_loaded`, `elf_process_pheaders` or `process_map_elf` reads
of the image at `header`. -/
inductive ElfReads (m : Mem) (header : Nat) : Nat → Prop where
  /-- `memcmp` stops at the first difference. -/
  | signature (k : Nat) (hk : k < 4)
      (hbefore : ∀ j < k, m (Word.add header j) = elfSignature.getD j 0) :
      ElfReads m header (Word.add header k)
  | identClass (hsig : elfValidSignature m header) : ElfReads m header (Word.add header 4)
  | identData (hsig : elfValidSignature m header) (hclass : elfValidClass m header) :
      ElfReads m header (Word.add header 5)
  | phoff (k : Nat) (hk : k < 4) (hsig : elfValidSignature m header)
      (hclass : elfValidClass m header) (henc : elfValidEncoding m header) :
      ElfReads m header (Word.add header (28 + k))
  | type (k : Nat) (hk : k < 2) (hsig : elfValidSignature m header)
      (hclass : elfValidClass m header) (henc : elfValidEncoding m header)
      (hphoff : elfHasProgramHeader m header) : ElfReads m header (Word.add header (16 + k))
  | entry (k : Nat) (hk : k < 4) (hsig : elfValidSignature m header)
      (hclass : elfValidClass m header) (henc : elfValidEncoding m header)
      (hphoff : elfHasProgramHeader m header) (htype : eType m header = 2) :
      ElfReads m header (Word.add header (24 + k))
  /-- Both loops. -/
  | phnum (k : Nat) (hk : k < 2) (haccepted : elfValidateLoaded m header = allOk) :
      ElfReads m header (Word.add header (44 + k))
  /-- All fields but `p_paddr` and `p_align`. -/
  | phdr (i k : Nat) (hi : i < ePhnum m header) (hk : k < 12 ∨ 16 ≤ k ∧ k < 28)
      (haccepted : elfValidateLoaded m header = allOk) :
      ElfReads m header (Word.add (elfProgramHeader m header i) k)

/-- The address is that of one of the `filesize` bytes from `header` on. -/
def InFile (header filesize a : Nat) : Prop := Word.sub a header < filesize

/-- The byte `k` of the identification is one that `elf_validate_loaded` accepts. -/
def IdentOk (m : Mem) (header k : Nat) : Prop :=
  if k < 4 then m (Word.add header k) = elfSignature.getD k 0
  else m (Word.add header k) = 0 ∨ m (Word.add header k) = 1

/-- The file of that size says by itself whether it is accepted, and has the headers if it is. -/
def DecidedInside (m : Mem) (header filesize : Nat) : Prop :=
  (∃ k < filesize, k < 6 ∧ ¬ IdentOk m header k) ∨
  (32 ≤ filesize ∧ elfValidateLoaded m header < 0) ∨
  (52 ≤ filesize ∧ ePhoff m header + 32 * ePhnum m header ≤ filesize)

section

variable {σ : Type}

/-- `elf_load` of an open file, up to the image: the status, the size and the kernel. -/
def elfLoad.image (F : FileLayer σ) (K : Kernel σ) (elfFile : Nat) (fd : Int) :
    Int × Nat × Kernel σ :=
  let (res, filesize) := K.fstat F fd
  if res < 0 then (res, filesize, K)
  else
    let (elfMemory, K) := K.kzalloc filesize
    let K := K.follow elfFile
    let K := K.setElfFile elfFile { K.elfFileAt elfFile with elfMemory := elfMemory }
    let (res, K) := K.fread F elfMemory filesize 1 fd
    (res, filesize, K)

/-- Where the image is in the kernel after `elfLoad.image`. -/
def Kernel.imageOf (K : Kernel σ) (elfFile : Nat) : Nat := (K.elfFileAt elfFile).elfMemory

/-- **ELF parsing stays inside the file**: once the image is there, only its bytes are read, and a
file too short for its headers is rejected. -/
def ElfParsesInside (F : FileLayer σ) (K : Kernel σ) (elfFile : Nat) (fd : Int) : Prop :=
  let (res, filesize, K') := elfLoad.image F K elfFile fd
  let header := K'.imageOf elfFile
  0 ≤ res → (∀ a, ElfReads K'.mem header a → InFile header filesize a) ∧
    ((filesize < 52 ∨ filesize < ePhoff K'.mem header + 32 * ePhnum K'.mem header) →
      (elfLoad.opened F K elfFile fd).1 < 0)

/-- The condition (module doc). -/
def ElfDecides (F : FileLayer σ) (K : Kernel σ) (elfFile : Nat) (fd : Int) : Prop :=
  let (res, filesize, K') := elfLoad.image F K elfFile fd
  0 ≤ res → DecidedInside K'.mem (K'.imageOf elfFile) filesize

variable {m m' : Mem} {header filesize a k : Nat}

/-! ## The checks -/

theorem elfValidSignature_iff (hh : header < 2 ^ 32) :
    elfValidSignature m header = true ↔ ∀ k < 4, IdentOk m header k := by
  have hfirst : Word.add header 0 = header := Word.add_of_lt hh
  unfold elfValidSignature
  simp only [Bool.and_eq_true, decide_eq_true_eq]
  constructor
  · rintro ⟨⟨⟨h0, h1⟩, h2⟩, h3⟩ k hk
    unfold IdentOk
    rw [if_pos hk]
    match k, hk with
    | 0, _ => rw [hfirst, h0]; rfl
    | 1, _ => exact h1
    | 2, _ => exact h2
    | 3, _ => exact h3
  · intro h
    have h0 := h 0 (by decide)
    have h1 := h 1 (by decide)
    have h2 := h 2 (by decide)
    have h3 := h 3 (by decide)
    unfold IdentOk at h0 h1 h2 h3
    rw [if_pos (by decide), hfirst] at h0
    rw [if_pos (by decide)] at h1 h2 h3
    exact ⟨⟨⟨h0, h1⟩, h2⟩, h3⟩

theorem elfValidClass_iff : elfValidClass m header = true ↔ IdentOk m header 4 := by
  unfold elfValidClass IdentOk
  simp

theorem elfValidEncoding_iff : elfValidEncoding m header = true ↔ IdentOk m header 5 := by
  unfold elfValidEncoding IdentOk
  simp

theorem elfValidateLoaded_eq_allOk : elfValidateLoaded m header = allOk ↔
    elfValidSignature m header ∧ elfValidClass m header ∧ elfValidEncoding m header ∧
      elfHasProgramHeader m header ∧ elfIsExecutable m header := by
  unfold elfValidateLoaded
  split
  · rename_i h
    simpa [and_assoc] using h
  · rename_i h
    refine iff_of_false (by decide) fun hall => h ?_
    simpa [and_assoc] using hall

theorem elfValidateLoaded_neg : elfValidateLoaded m header < 0 ↔
    elfValidateLoaded m header ≠ allOk := by
  unfold elfValidateLoaded
  split <;> decide

/-- The first three checks look at the identification. -/
theorem identOk_of_checks (hh : header < 2 ^ 32) (hsig : elfValidSignature m header)
    (hclass : elfValidClass m header) (henc : elfValidEncoding m header) (hk : k < 6) :
    IdentOk m header k := by
  rcases Nat.lt_or_ge k 4 with h4 | h4
  · exact (elfValidSignature_iff hh).1 hsig k h4
  · obtain rfl | rfl : k = 4 ∨ k = 5 := by omega
    · exact elfValidClass_iff.1 hclass
    · exact elfValidEncoding_iff.1 henc

theorem identOk_of_accepted (hh : header < 2 ^ 32) (h : elfValidateLoaded m header = allOk)
    (hk : k < 6) : IdentOk m header k := by
  obtain ⟨hsig, hclass, henc, -⟩ := elfValidateLoaded_eq_allOk.1 h
  exact identOk_of_checks hh hsig hclass henc hk

/-! ## The bytes that are read -/

theorem inFile_add (hk : k < 2 ^ 32) : InFile header filesize (Word.add header k) ↔ k < filesize := by
  have hsub : Word.sub (Word.add header k) header = k := by
    rw [Word.sub_eq, Word.add_eq]
    omega
  unfold InFile
  rw [hsub]

theorem inFile_phdr (hphoff : ePhoff m header ≠ 0) {i : Nat}
    (h : ePhoff m header + 32 * i + k < filesize) :
    InFile header filesize (Word.add (elfProgramHeader m header i) k) := by
  have hle : Word.sub (Word.add (elfProgramHeader m header i) k) header ≤
      ePhoff m header + 32 * i + k := by
    unfold elfProgramHeader elfPheader
    rw [if_neg hphoff, Word.sub_eq, Word.add_eq, Word.add_eq, Word.add_eq]
    omega
  exact hle.trans_lt h

/-- The parser keeps inside the file exactly where the file decides. -/
theorem decidedInside_iff (hh : header < 2 ^ 32) :
    ((∀ a, ElfReads m header a → InFile header filesize a) ∧
      ((filesize < 52 ∨ filesize < ePhoff m header + 32 * ePhnum m header) →
        elfValidateLoaded m header < 0)) ↔ DecidedInside m header filesize := by
  constructor
  · rintro ⟨hin, hshort⟩
    by_contra hno
    unfold DecidedInside at hno
    rw [not_or, not_or] at hno
    obtain ⟨hident, hreject, hlong⟩ := hno
    have hok : ∀ k < filesize, k < 6 → IdentOk m header k := fun k hk hk6 => by
      by_contra hbad
      exact hident ⟨k, hk, hk6, hbad⟩
    -- the first byte past the end is read if all before it are right
    have hsix : 6 ≤ filesize := by
      by_contra hlt
      have hread : ElfReads m header (Word.add header filesize) := by
        rcases Nat.lt_or_ge filesize 4 with h4 | h4
        · refine .signature filesize h4 fun j hj => ?_
          have := hok j hj (by omega)
          unfold IdentOk at this
          rwa [if_pos (by omega)] at this
        · have hsig := (elfValidSignature_iff hh).2 fun k hk => hok k (by omega) (by omega)
          obtain h | h : filesize = 4 ∨ filesize = 5 := by omega
          · rw [h]
            exact .identClass hsig
          · rw [h]
            exact .identData hsig (elfValidClass_iff.2 (hok 4 (by omega) (by decide)))
      exact absurd ((inFile_add (by omega)).1 (hin _ hread)) (Nat.lt_irrefl _)
    have hsig := (elfValidSignature_iff hh).2 fun k hk => hok k (by omega) (by omega)
    have hclass := elfValidClass_iff.2 (hok 4 (by omega) (by decide))
    have henc := elfValidEncoding_iff.2 (hok 5 (by omega) (by decide))
    have hphoff : 28 + 3 < filesize :=
      (inFile_add (by decide)).1 (hin _ (.phoff 3 (by decide) hsig hclass henc))
    exact hreject ⟨hphoff, hshort (by omega)⟩
  · intro h
    have hcases : (∃ k < filesize, k < 6 ∧ ¬ IdentOk m header k) ∨ 32 ≤ filesize := by
      rcases h with h | h | h
      · exact .inl h
      · exact .inr h.1
      · exact .inr (by omega)
    have hlong : elfValidateLoaded m header = allOk →
        52 ≤ filesize ∧ ePhoff m header + 32 * ePhnum m header ≤ filesize := fun hacc => by
      rcases h with ⟨k, -, hk, hbad⟩ | ⟨-, hrej⟩ | h
      · exact absurd (identOk_of_accepted hh hacc hk) hbad
      · exact absurd hacc (elfValidateLoaded_neg.1 hrej)
      · exact h
    have hpast : elfValidSignature m header → elfValidClass m header →
        elfValidEncoding m header → 32 ≤ filesize := fun hsig hclass henc => by
      rcases hcases with ⟨j, -, hj, hbad⟩ | hlong
      · exact absurd (identOk_of_checks hh hsig hclass henc hj) hbad
      · exact hlong
    refine ⟨fun a ha => ?_, fun hshort => ?_⟩
    · cases ha with
      | signature k hk hbefore =>
        refine (inFile_add (by omega)).2 ?_
        rcases hcases with ⟨j, hj, -, hbad⟩ | hlong
        · by_contra hge
          refine hbad ?_
          unfold IdentOk
          rw [if_pos (by omega)]
          exact hbefore j (by omega)
        · omega
      | identClass hsig =>
        refine (inFile_add (by decide)).2 ?_
        rcases hcases with ⟨j, hj, -, hbad⟩ | hlong
        · by_contra hge
          exact hbad ((elfValidSignature_iff hh).1 hsig j (by omega))
        · omega
      | identData hsig hclass =>
        refine (inFile_add (by decide)).2 ?_
        rcases hcases with ⟨j, hj, -, hbad⟩ | hlong
        · by_contra hge
          rcases Nat.lt_or_ge j 4 with h4 | h4
          · exact hbad ((elfValidSignature_iff hh).1 hsig j h4)
          · obtain rfl : j = 4 := by omega
            exact hbad (elfValidClass_iff.1 hclass)
        · omega
      | phoff k hk hsig hclass henc =>
        have := hpast hsig hclass henc
        exact (inFile_add (by omega)).2 (by omega)
      | type k hk hsig hclass henc hphoff =>
        have := hpast hsig hclass henc
        exact (inFile_add (by omega)).2 (by omega)
      | entry k hk hsig hclass henc hphoff htype =>
        have := hpast hsig hclass henc
        exact (inFile_add (by omega)).2 (by omega)
      | phnum k hk hacc =>
        obtain ⟨h52, -⟩ := hlong hacc
        exact (inFile_add (by omega)).2 (by omega)
      | phdr i k hi hk hacc =>
        obtain ⟨-, hend⟩ := hlong hacc
        obtain ⟨-, -, -, hphoff, -⟩ := elfValidateLoaded_eq_allOk.1 hacc
        exact inFile_phdr (of_decide_eq_true hphoff) (by omega)
    · rw [elfValidateLoaded_neg]
      intro hacc
      obtain ⟨h52, hend⟩ := hlong hacc
      omega

/-! ## The loader -/

/-- The heap hands out words. -/
theorem kzalloc_lt (k : Kmem) (size : Nat) : (kzalloc k size).1 < 2 ^ 32 := by
  have hmalloc : (heapMalloc k.heap size).1 < 2 ^ 32 := by
    unfold heapMalloc heapMallocBlocks
    dsimp only
    split
    · exact Nat.two_pow_pos 32
    · exact Word.add_lt _ _
  unfold kzalloc kmalloc
  dsimp only
  split
  · exact Nat.two_pow_pos 32
  · exact hmalloc

variable {F : FileLayer σ} {K : Kernel σ} {elfFile : Nat} {fd : Int}

/-- The image is where the heap put it. -/
theorem elfLoad_image_lt (h : 0 ≤ (elfLoad.image F K elfFile fd).1) :
    (elfLoad.image F K elfFile fd).2.2.imageOf elfFile < 2 ^ 32 := by
  unfold elfLoad.image at h ⊢
  dsimp only at h ⊢
  by_cases hres : (K.fstat F fd).1 < 0
  · rw [if_pos hres] at h
    exact absurd h (by omega)
  · rw [if_neg hres]
    have himage : ∀ (K : Kernel σ) (v : ElfFile) (ptr size : Nat),
        (((K.setElfFile elfFile v).fread F ptr size 1 fd).2).imageOf elfFile = v.elfMemory :=
      fun K v ptr size => by
        unfold Kernel.imageOf Kernel.fread Kernel.setElfFile
        dsimp only
        rw [Function.update_self]
    dsimp only
    rw [himage]
    exact kzalloc_lt K.kmem _

theorem elfLoad_opened_eq : elfLoad.opened F K elfFile fd =
    let (res, _, K') := elfLoad.image F K elfFile fd
    if res < 0 then elfLoad.out F K' elfFile fd res
    else
      let (res, K') := elfProcessLoaded K' elfFile
      elfLoad.out F K' elfFile fd res := by
  unfold elfLoad.opened elfLoad.image
  dsimp only
  by_cases hres : (K.fstat F fd).1 < 0
  · rw [if_pos hres, if_pos hres]
    dsimp only
    rw [if_pos hres]
  · rw [if_neg hres, if_neg hres]

theorem elfProcessLoaded_status (K : Kernel σ) (elfFile : Nat) :
    (elfProcessLoaded K elfFile).1 = elfValidateLoaded K.mem (K.imageOf elfFile) := by
  have hmem : ∀ p q, ((K.follow p).follow q).mem = K.mem := fun p q => by
    unfold Kernel.follow Kernel.mem
    rw [follow_mem, follow_mem]
  have himage : ((K.follow elfFile).elfFileAt elfFile).elfMemory = K.imageOf elfFile := rfl
  unfold elfProcessLoaded
  dsimp only
  rw [himage, hmem]
  split
  · rfl
  · rename_i h
    rw [elfValidateLoaded_neg, not_not] at h
    exact h.symm

/-- What `elf_load` returns once the image is there. -/
theorem elfLoad_opened_status (h : 0 ≤ (elfLoad.image F K elfFile fd).1) :
    (elfLoad.opened F K elfFile fd).1 =
      elfValidateLoaded (elfLoad.image F K elfFile fd).2.2.mem
        ((elfLoad.image F K elfFile fd).2.2.imageOf elfFile) := by
  rw [elfLoad_opened_eq, ← elfProcessLoaded_status]
  dsimp only
  rw [if_neg (by omega)]
  rfl

/-- **ELF parsing stays inside the file** exactly where the file decides. -/
theorem elf_parses_inside_iff (F : FileLayer σ) (K : Kernel σ) (elfFile : Nat) (fd : Int) :
    ElfParsesInside F K elfFile fd ↔ ElfDecides F K elfFile fd := by
  unfold ElfParsesInside ElfDecides
  dsimp only
  refine forall_congr' fun hres => ?_
  rw [elfLoad_opened_status hres]
  exact decidedInside_iff (elfLoad_image_lt hres)

end

/-! ## Files too short for their headers -/

/-- A file layer with one file, which has the contents `l`. -/
def oneFile (l : List UInt8) : FileLayer Unit where
  fopen := fun _ σ k => (1, σ, k)
  fstat := fun _ _ _ => (0, l.length)
  fread := fun ptr size nmemb _ σ k =>
    if size = 0 ∨ nmemb = 0 then (-einvarg, σ, k)
    else (nmemb, σ, { k with mem := writeBytes k.mem ptr l })
  fclose := fun _ σ k => (0, σ, k)

/-- A kernel without processes, and a heap without allocations. -/
def bootKernel : Kernel Unit where
  kmem := bootKmem
  queue := { task := fun _ => {}, head := 0, tail := 0, current := 0 }
  processAt := fun _ => {}
  elfFileAt := fun _ => {}
  processes := fun _ => 0
  currentProcess := 0
  files := ()

theorem bytesAt_writeBytes (m : Mem) (a : Nat) (l : List UInt8) : BytesAt (writeBytes m a l) a l :=
  fun k hk => by rw [writeBytes_apply hk, List.getD_eq_getElem _ _ hk]

/-- The image of a file of up to a page. -/
theorem oneFile_image {l : List UInt8} (hpos : 1 ≤ l.length) (hle : l.length ≤ 4096) (elfFile : Nat)
    (fd : Int) :
    ∃ K b, elfLoad.image (oneFile l) bootKernel elfFile fd = (1, l.length, K) ∧ b < 25600 ∧
      K.imageOf elfFile = blockAddr b ∧ BytesAt K.mem (blockAddr b) l := by
  have hfree : Free (bootKmem.heap.table.entries 0) := free_entryFree
  rcases kzalloc_page bootKmem_kernel l.length hpos hle with ⟨b, hb, -, -, he⟩ | ⟨-, hno⟩
  · have hk : bootKernel.kzalloc l.length =
        (blockAddr b, { bootKernel with kmem := bootKmem.take b 1 l.length }) := by
      unfold Kernel.kzalloc
      rw [show bootKernel.kmem = bootKmem from rfl, he]
    have hread : ∀ K : Kernel Unit, K.fread (oneFile l) (blockAddr b) l.length 1 fd =
        (1, { K with kmem := { K.kmem with mem := writeBytes K.mem (blockAddr b) l } }) :=
      fun K => by
        unfold Kernel.fread oneFile
        dsimp only
        rw [if_neg (by omega)]
        rfl
    obtain ⟨K₀, hK₀⟩ : ∃ K₀ : Kernel Unit,
      { bootKernel with kmem := bootKmem.take b 1 l.length } = K₀ := ⟨_, rfl⟩
    obtain ⟨K₁, hK₁⟩ : ∃ K₁, (K₀.follow elfFile).setElfFile elfFile
      { (K₀.follow elfFile).elfFileAt elfFile with elfMemory := blockAddr b } = K₁ := ⟨_, rfl⟩
    refine ⟨{ K₁ with kmem := { K₁.kmem with mem := writeBytes K₁.mem (blockAddr b) l } }, b, ?_, hb,
      ?_, bytesAt_writeBytes _ _ _⟩
    · unfold elfLoad.image
      dsimp only
      rw [show bootKernel.fstat (oneFile l) fd = (0, l.length) from rfl, if_neg (Int.lt_irrefl 0), hk]
      dsimp only
      rw [hK₀, hK₁, hread]
    · subst hK₁
      unfold Kernel.imageOf Kernel.setElfFile
      dsimp only
      rw [Function.update_self]
  · exact absurd hfree (hno 0 (by decide))

/-- The first byte of a signature, which the validation takes to be in order before it reads on. -/
theorem elf_parses_outside_one :
    ¬ ElfParsesInside (oneFile [0x7F]) bootKernel 3 1 := by
  obtain ⟨K, b, he, hb, himage, hbytes⟩ := oneFile_image (l := [0x7F]) (by decide) (by decide) 3 1
  unfold ElfParsesInside
  rw [he]
  dsimp only
  rw [himage]
  intro h
  have hlt := blockAddr_lt hb
  have hread : ElfReads K.mem (blockAddr b) (Word.add (blockAddr b) 1) :=
    .signature 1 (by decide) fun j hj => by
      obtain rfl : j = 0 := by omega
      rw [Word.add_of_lt (by omega)]
      exact hbytes 0 (by decide)
  exact absurd ((inFile_add (by decide)).1 ((h (by decide)).1 _ hread)) (Nat.lt_irrefl 1)

/-- A header alone, which says that a program header follows. -/
theorem elf_parses_outside_header :
    ¬ ElfParsesInside (oneFile (elfHeaderBytes 52 1)) bootKernel 3 1 := by
  obtain ⟨K, b, he, hb, himage, hbytes⟩ := oneFile_image (l := elfHeaderBytes 52 1) (by decide)
    (by decide) 3 1
  have hlt := blockAddr_lt hb
  obtain ⟨hphoff, hphnum, hacc⟩ := elfHeader_of_bytes hbytes (by omega) (by decide) (by decide)
    (by decide)
  have hres : 0 ≤ (elfLoad.image (oneFile (elfHeaderBytes 52 1)) bootKernel 3 1).1 := by
    rw [he]
    exact Int.zero_le_ofNat 1
  have hstatus := elfLoad_opened_status hres
  rw [he] at hstatus
  dsimp only at hstatus
  rw [himage, hacc] at hstatus
  unfold ElfParsesInside
  rw [he]
  dsimp only
  rw [himage, hstatus, hphoff, hphnum]
  intro h
  exact absurd ((h (by decide)).2 (.inr (by decide))) (by decide)

theorem elf_parses_outside :
    ¬ ElfParsesInside (oneFile [0x7F]) bootKernel 3 1 ∧
      ¬ ElfParsesInside (oneFile (elfHeaderBytes 52 1)) bootKernel 3 1 :=
  ⟨elf_parses_outside_one, elf_parses_outside_header⟩

end Pandora
