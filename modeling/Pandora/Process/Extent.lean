import Pandora.Process.Image

/-!
# Where an ELF file is loaded (`loader/formats/elf_loader.c`)

`elf_process_pheaders` keeps the least address and the greatest end of the `PT_LOAD` headers it has
seen, with their places in the image, and a zero for none. An end is never below zero, so that the zero is
no matter there (`loadEnds`). An address of zero is the least there is, and it also means that there is
none yet: the next header replaces it (`loadBase_iff`).
-/

namespace Pandora

open ByteMem

/-- The headers that are loaded. -/
def ptLoads (phdrs : List Elf32Phdr) : List Elf32Phdr := phdrs.filter fun phdr => phdr.pType = ptLoad

/-- The first `n` program headers. -/
def elfProgramHeaders (m : Mem) (header n : Nat) : List Elf32Phdr :=
  (List.range n).map fun i => elf32Phdr m (elfProgramHeader m header i)

/-- The base addresses are those of a header with the least address. -/
def LoadBase (elfMemory : Nat) (loads : List Elf32Phdr) (file : ElfFile) : Prop :=
  ∃ phdr ∈ loads, (∀ other ∈ loads, phdr.pVaddr ≤ other.pVaddr) ∧
    file.virtualBaseAddress = phdr.pVaddr ∧
    file.physicalBaseAddress = Word.add elfMemory phdr.pOffset

/-- The end addresses are those of a header with the greatest end. -/
def LoadEnd (elfMemory : Nat) (loads : List Elf32Phdr) (file : ElfFile) : Prop :=
  ∃ phdr ∈ loads, (∀ other ∈ loads, other.pVaddr + other.pFilesz ≤ phdr.pVaddr + phdr.pFilesz) ∧
    file.virtualEndAddress = phdr.pVaddr + phdr.pFilesz ∧
    file.physicalEndAddress = Word.add (Word.add elfMemory phdr.pOffset) phdr.pFilesz

section

variable {m : Mem} {elfMemory : Nat} {file : ElfFile} {phdr : Elf32Phdr} {loads : List Elf32Phdr}

/-! ## One header -/

theorem elfProcessPhdrPtLoad_elfMemory : (elfProcessPhdrPtLoad file phdr).elfMemory = file.elfMemory := by
  unfold elfProcessPhdrPtLoad
  dsimp only
  split <;> split <;> rfl

/-- The base addresses are replaced, or they stay. -/
theorem elfProcessPhdrPtLoad_base (file : ElfFile) (phdr : Elf32Phdr) :
    let file' := elfProcessPhdrPtLoad file phdr
    (phdr.pVaddr ≤ file.virtualBaseAddress ∨ file.virtualBaseAddress = 0) ∧
        file'.virtualBaseAddress = phdr.pVaddr ∧
        file'.physicalBaseAddress = Word.add file.elfMemory phdr.pOffset ∨
      (file.virtualBaseAddress < phdr.pVaddr ∧ file.virtualBaseAddress ≠ 0) ∧
        file'.virtualBaseAddress = file.virtualBaseAddress ∧
        file'.physicalBaseAddress = file.physicalBaseAddress := by
  unfold elfProcessPhdrPtLoad
  dsimp only
  by_cases h : phdr.pVaddr ≤ file.virtualBaseAddress ∨ file.virtualBaseAddress = 0
  · left
    rw [if_pos h]
    split <;> exact ⟨h, rfl, rfl⟩
  · right
    rw [if_neg h]
    rw [not_or, Nat.not_le] at h
    split <;> exact ⟨h, rfl, rfl⟩

/-- The end addresses are replaced, or they stay. -/
theorem elfProcessPhdrPtLoad_end (file : ElfFile) (phdr : Elf32Phdr)
    (hend : phdr.pVaddr + phdr.pFilesz < 2 ^ 32) :
    let file' := elfProcessPhdrPtLoad file phdr
    file.virtualEndAddress ≤ phdr.pVaddr + phdr.pFilesz ∧
        file'.virtualEndAddress = phdr.pVaddr + phdr.pFilesz ∧
        file'.physicalEndAddress = Word.add (Word.add file.elfMemory phdr.pOffset) phdr.pFilesz ∨
      phdr.pVaddr + phdr.pFilesz < file.virtualEndAddress ∧
        file'.virtualEndAddress = file.virtualEndAddress ∧
        file'.physicalEndAddress = file.physicalEndAddress := by
  unfold elfProcessPhdrPtLoad
  rw [Word.add_of_lt hend]
  dsimp only
  -- the base addresses are set first, and leave the end
  obtain ⟨file₁, hfile₁⟩ : ∃ file₁, (if phdr.pVaddr ≤ file.virtualBaseAddress ∨
      file.virtualBaseAddress = 0 then { file with
        virtualBaseAddress := phdr.pVaddr
        physicalBaseAddress := Word.add file.elfMemory phdr.pOffset }
    else file) = file₁ := ⟨_, rfl⟩
  have hsame : file₁.virtualEndAddress = file.virtualEndAddress ∧
      file₁.physicalEndAddress = file.physicalEndAddress ∧ file₁.elfMemory = file.elfMemory := by
    rw [← hfile₁]
    split <;> exact ⟨rfl, rfl, rfl⟩
  obtain ⟨hvirtual, hphysical, hmemory⟩ := hsame
  rw [hfile₁, hvirtual]
  by_cases h : file.virtualEndAddress ≤ phdr.pVaddr + phdr.pFilesz
  · left
    rw [if_pos (.inl h), ← hmemory]
    exact ⟨h, rfl, rfl⟩
  · right
    rw [if_neg (by omega)]
    exact ⟨Nat.not_le.1 h, hvirtual, hphysical⟩

/-! ## All headers -/

theorem foldl_elfMemory (loads : List Elf32Phdr) (file : ElfFile) :
    (loads.foldl elfProcessPhdrPtLoad file).elfMemory = file.elfMemory := by
  induction loads generalizing file with
  | nil => rfl
  | cons phdr loads ih => exact (ih _).trans elfProcessPhdrPtLoad_elfMemory

/-- The file once the headers are processed, from a new one. -/
def loadExtent (elfMemory : Nat) (loads : List Elf32Phdr) : ElfFile :=
  loads.foldl elfProcessPhdrPtLoad { elfMemory := elfMemory }

theorem loadExtent_append (elfMemory : Nat) (loads : List Elf32Phdr) (phdr : Elf32Phdr) :
    loadExtent elfMemory (loads ++ [phdr]) = elfProcessPhdrPtLoad (loadExtent elfMemory loads) phdr := by
  unfold loadExtent
  rw [List.foldl_append]
  rfl

@[simp] theorem loadExtent_elfMemory (elfMemory : Nat) (loads : List Elf32Phdr) :
    (loadExtent elfMemory loads).elfMemory = elfMemory := foldl_elfMemory loads _

/-- Without an address of zero the least one stays. -/
theorem loadBase_of_ne_zero (h : ∀ phdr ∈ loads, phdr.pVaddr ≠ 0) (hne : loads ≠ []) :
    LoadBase elfMemory loads (loadExtent elfMemory loads) := by
  induction loads using List.reverseRecOn with
  | nil => exact absurd rfl hne
  | append_singleton loads phdr ih =>
    rw [loadExtent_append]
    have hmem : phdr ∈ loads ++ [phdr] := List.mem_append_right _ List.mem_cons_self
    rcases elfProcessPhdrPtLoad_base (loadExtent elfMemory loads) phdr with
      ⟨hle, hbase, hphysical⟩ | ⟨⟨hlt, hne0⟩, hbase, hphysical⟩
    · -- the header is the first, or its address is the least so far
      refine ⟨phdr, hmem, fun other hother => ?_, hbase, ?_⟩
      · rcases List.mem_append.1 hother with hother | hother
        · obtain ⟨least, hleast, hall, hv, -⟩ :=
            ih (fun phdr hphdr => h phdr (List.mem_append_left _ hphdr)) (List.ne_nil_of_mem hother)
          have hv0 := h least (List.mem_append_left _ hleast)
          have := hall other hother
          omega
        · rw [List.mem_singleton.1 hother]
      · rw [hphysical, loadExtent_elfMemory]
    · have hloads : loads ≠ [] := by
        rintro rfl
        exact hne0 rfl
      obtain ⟨least, hleast, hall, hv, hp⟩ :=
        ih (fun phdr hphdr => h phdr (List.mem_append_left _ hphdr)) hloads
      refine ⟨least, List.mem_append_left _ hleast, fun other hother => ?_, hbase.trans hv, hphysical.trans hp⟩
      rcases List.mem_append.1 hother with hother | hother
      · exact hall other hother
      · rw [List.mem_singleton.1 hother]
        omega

/-- An address of zero in the last header. -/
theorem loadBase_of_last (h : phdr.pVaddr = 0) :
    LoadBase elfMemory (loads ++ [phdr]) (loadExtent elfMemory (loads ++ [phdr])) := by
  rw [loadExtent_append]
  refine ⟨phdr, List.mem_append_right _ List.mem_cons_self, fun other _ => by omega, ?_⟩
  rcases elfProcessPhdrPtLoad_base (loadExtent elfMemory loads) phdr with
    ⟨-, hbase, hphysical⟩ | ⟨⟨hlt, -⟩, -, -⟩
  · rw [loadExtent_elfMemory] at hphysical
    exact ⟨hbase, hphysical⟩
  · omega

/-- Behind any other header the base address is not zero. -/
theorem loadExtent_ne_zero (elfMemory : Nat) (loads : List Elf32Phdr) (h : phdr.pVaddr ≠ 0) :
    (loadExtent elfMemory (loads ++ [phdr])).virtualBaseAddress ≠ 0 := by
  rw [loadExtent_append]
  rcases elfProcessPhdrPtLoad_base (loadExtent elfMemory loads) phdr with
    ⟨-, hbase, -⟩ | ⟨⟨-, hne0⟩, hbase, -⟩
  · rwa [hbase]
  · rwa [hbase]

/-- The base addresses are right if and only if no address of zero is followed by another header. -/
theorem loadBase_iff (hne : loads ≠ []) : LoadBase elfMemory loads (loadExtent elfMemory loads) ↔
    (∀ phdr ∈ loads, phdr.pVaddr ≠ 0) ∨ (loads.getLast hne).pVaddr = 0 := by
  obtain ⟨front, last, rfl⟩ : ∃ front last, loads = front ++ [last] :=
    ⟨_, _, (List.dropLast_append_getLast hne).symm⟩
  rw [List.getLast_append_singleton]
  constructor
  · rintro ⟨least, -, hall, hv, -⟩
    by_contra hcontra
    push Not at hcontra
    obtain ⟨⟨zero, hzero, h0⟩, hlast⟩ := hcontra
    have hle := hall zero hzero
    have hne0 := loadExtent_ne_zero elfMemory front hlast
    omega
  · rintro (h | h)
    · exact loadBase_of_ne_zero h hne
    · exact loadBase_of_last h

/-- The end addresses are right. -/
theorem loadEnds (h : ∀ phdr ∈ loads, phdr.pVaddr + phdr.pFilesz < 2 ^ 32) (hne : loads ≠ []) :
    LoadEnd elfMemory loads (loadExtent elfMemory loads) := by
  induction loads using List.reverseRecOn with
  | nil => exact absurd rfl hne
  | append_singleton loads phdr ih =>
    rw [loadExtent_append]
    have hmem : phdr ∈ loads ++ [phdr] := List.mem_append_right _ List.mem_cons_self
    have hfront : ∀ phdr ∈ loads, phdr.pVaddr + phdr.pFilesz < 2 ^ 32 :=
      fun phdr hphdr => h phdr (List.mem_append_left _ hphdr)
    rcases elfProcessPhdrPtLoad_end (loadExtent elfMemory loads) phdr (h phdr hmem) with
      ⟨hle, hend, hphysical⟩ | ⟨hlt, hend, hphysical⟩
    · refine ⟨phdr, hmem, fun other hother => ?_, hend, ?_⟩
      · rcases List.mem_append.1 hother with hother | hother
        · obtain ⟨greatest, -, hall, hv, -⟩ := ih hfront (List.ne_nil_of_mem hother)
          have := hall other hother
          omega
        · rw [List.mem_singleton.1 hother]
      · rw [hphysical, loadExtent_elfMemory]
    · have hloads : loads ≠ [] := by
        rintro rfl
        exact absurd hlt (Nat.not_lt_zero _)
      obtain ⟨greatest, hgreatest, hall, hv, hp⟩ := ih hfront hloads
      refine ⟨greatest, List.mem_append_left _ hgreatest, fun other hother => ?_, hend.trans hv,
        hphysical.trans hp⟩
      rcases List.mem_append.1 hother with hother | hother
      · exact hall other hother
      · rw [List.mem_singleton.1 hother]
        omega

/-! ## The loop -/

/-- The headers from `i` on. -/
theorem elfProcessPheaders_eq_foldl (m : Mem) (n : Nat) : ∀ (i : Nat) (file : ElfFile),
    elfProcessPheaders m n i file =
      (ptLoads ((List.range n).map fun k =>
        elf32Phdr m (elfProgramHeader m file.elfMemory (i + k)))).foldl elfProcessPhdrPtLoad file := by
  induction n with
  | zero => exact fun _ _ => rfl
  | succ n ih =>
    intro i file
    obtain ⟨phdr, hphdr⟩ : ∃ phdr, elf32Phdr m (elfProgramHeader m file.elfMemory i) = phdr := ⟨_, rfl⟩
    have hmemory : (elfProcessPheader file phdr).elfMemory = file.elfMemory := by
      unfold elfProcessPheader
      split
      · exact elfProcessPhdrPtLoad_elfMemory
      · rfl
    have hrest : (List.range n).map (fun k => elf32Phdr m (elfProgramHeader m file.elfMemory (i + 1 + k))) =
        ((List.range n).map Nat.succ).map fun k => elf32Phdr m (elfProgramHeader m file.elfMemory (i + k)) := by
      rw [List.map_map]
      refine List.map_congr_left fun k _ => ?_
      rw [Nat.add_assoc, Nat.add_comm 1 k]
      rfl
    unfold elfProcessPheaders
    rw [ih, hphdr, hmemory, hrest, List.range_succ_eq_map, List.map_cons, Nat.add_zero, hphdr]
    unfold ptLoads elfProcessPheader
    by_cases hload : phdr.pType = ptLoad
    · rw [if_pos hload, List.filter_cons_of_pos (by simpa using hload), List.foldl_cons]
    · rw [if_neg hload, List.filter_cons_of_neg (by simpa using hload)]

/-- The headers that are loaded decide. -/
theorem elfProcessPheaders_eq (m : Mem) (elfMemory n : Nat) :
    elfProcessPheaders m n 0 { elfMemory := elfMemory } =
      loadExtent elfMemory (ptLoads (elfProgramHeaders m elfMemory n)) := by
  rw [elfProcessPheaders_eq_foldl]
  simp only [Nat.zero_add]
  rfl

/-- **The bounds of an ELF file** are those of its `PT_LOAD` headers if and only if none of these has the
address zero, or the last one has. -/
theorem load_bounds_iff {n : Nat} (hne : ptLoads (elfProgramHeaders m elfMemory n) ≠ [])
    (hend : ∀ phdr ∈ ptLoads (elfProgramHeaders m elfMemory n), phdr.pVaddr + phdr.pFilesz < 2 ^ 32) :
    let loads := ptLoads (elfProgramHeaders m elfMemory n)
    let file := elfProcessPheaders m n 0 { elfMemory := elfMemory }
    LoadBase elfMemory loads file ∧ LoadEnd elfMemory loads file ↔
      (∀ phdr ∈ loads, phdr.pVaddr ≠ 0) ∨ (loads.getLast hne).pVaddr = 0 := by
  intro loads file
  have hfile : file = loadExtent elfMemory loads := elfProcessPheaders_eq m elfMemory n
  rw [hfile, ← loadBase_iff hne]
  exact and_iff_left (loadEnds hend hne)

end

/-- An executable at `0x1000` with two segments, at `v` and at `w`. -/
def twoSegments (v w : Nat) : Mem := [(0, 0x464C457F), (4, 0x0101), (16, 2), (24, 0x400000), (28, 64),
    (44, 2), (64, ptLoad), (68, 0x100), (72, v), (80, 0x10), (96, ptLoad), (100, 0x200), (104, w),
    (112, 0x20)].foldl (fun m word => write32 m (0x1000 + word.1) word.2) fun _ => 0

theorem load_bounds_iff_program :
    LoadBase 0x1000 (ptLoads (elfProgramHeaders (twoSegments 0x400000 0x401000) 0x1000 2))
        (elfProcessPheaders (twoSegments 0x400000 0x401000) 2 0 { elfMemory := 0x1000 }) ∧
      LoadEnd 0x1000 (ptLoads (elfProgramHeaders (twoSegments 0x400000 0x401000) 0x1000 2))
        (elfProcessPheaders (twoSegments 0x400000 0x401000) 2 0 { elfMemory := 0x1000 }) := by
  have hloads : ptLoads (elfProgramHeaders (twoSegments 0x400000 0x401000) 0x1000 2) =
      [⟨ptLoad, 0x100, 0x400000, 0x10, 0, 0⟩, ⟨ptLoad, 0x200, 0x401000, 0x20, 0, 0⟩] := by decide +kernel
  have h := load_bounds_iff (m := twoSegments 0x400000 0x401000) (n := 2) (by rw [hloads]; simp)
    (by rw [hloads]; simp)
  exact h.2 (.inl (by rw [hloads]; simp))

/-- The first segment is at address zero, and the base is that of the second. -/
theorem load_bounds_zero :
    elfValidateLoaded (twoSegments 0 0x400000) 0x1000 = allOk ∧ ePhnum (twoSegments 0 0x400000) 0x1000 = 2 ∧
      ¬ LoadBase 0x1000 (ptLoads (elfProgramHeaders (twoSegments 0 0x400000) 0x1000 2))
        (elfProcessPheaders (twoSegments 0 0x400000) 2 0 { elfMemory := 0x1000 }) := by
  have hloads : ptLoads (elfProgramHeaders (twoSegments 0 0x400000) 0x1000 2) =
      [⟨ptLoad, 0x100, 0, 0x10, 0, 0⟩] ++ [⟨ptLoad, 0x200, 0x400000, 0x20, 0, 0⟩] := by decide +kernel
  refine ⟨by decide +kernel, by decide +kernel, ?_⟩
  rw [elfProcessPheaders_eq, hloads]
  rintro ⟨least, -, hall, hv, -⟩
  have hzero := hall ⟨ptLoad, 0x100, 0, 0x10, 0, 0⟩ List.mem_cons_self
  exact loadExtent_ne_zero 0x1000 _ (by decide) (hv.trans (Nat.le_zero.1 hzero))

end Pandora
