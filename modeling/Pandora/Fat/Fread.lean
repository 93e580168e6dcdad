import Pandora.Fat.Chain

/-!
# Reading a file in pieces

`fread(s, n)` reads `n` pieces of `s` bytes, one after the other. Piece `i` starts at `i * s`, and
within a piece the code reads on past the end of a cluster (`readByte`), so what is delivered is
`pieceByte`. In one piece the file is delivered as it is (`pieceByte_one`). The two agree exactly
where each byte that is read past the end of a cluster is also the byte at that place of the next
cluster of the chain (`fread_cut_iff`); where no piece crosses a cluster's end, or the clusters lie
one after the other on the disk, they do.
-/

namespace Pandora

open ByteMem

/-- Byte `q` of what is delivered in pieces of `s` bytes. -/
def pieceByte (disk : Disk) (priv : FatPrivate) (c : Nat → Nat) (s : Nat) : Mem := fun q =>
  readByte disk priv c (q / s * s) (q % s)

/-- Both ways of reading deliver the same bytes and leave the same position. -/
def SameReads (disk : Disk) (files : Files) (fd : Int) (s n out : Nat) (mem : Mem) : Prop :=
  ∃ files₁ files₂ mem' desc₁ desc₂,
    fread disk files out s n fd mem = some ((n : Int), files₁, mem') ∧
    fread disk files out (s * n) 1 fd mem = some (1, files₂, mem') ∧
    fileGetDescriptor files₁ fd = some desc₁ ∧ fileGetDescriptor files₂ fd = some desc₂ ∧
    desc₁.pos = desc₂.pos

/-- A byte read past the end of a cluster is the byte at that place of the next one. -/
def CrossingsAgree (disk : Disk) (priv : FatPrivate) (c : Nat → Nat) (s n : Nat) : Prop :=
  ∀ i < n, ∀ k < s,
    let place := i * s % priv.clusterSize + k % priv.clusterSize
    let cluster := i * s / priv.clusterSize + k / priv.clusterSize
    priv.clusterSize ≤ place →
      disk.image (priv.clusterPos (c cluster) + place) =
        disk.image (priv.clusterPos (c (cluster + 1)) + (place - priv.clusterSize))

/-- An open file with the chain `c 0, …, c m`, at position 0. -/
structure OpenFile (disk : Disk) (files : Files) (fd : Int) (c : Nat → Nat) (m : Nat) : Prop where
  mounted : Mounted disk files.priv
  chain : Chain disk files.priv c m
  desc : ∃ item, fileGetDescriptor files fd = some ⟨item, 0⟩ ∧ fat16GetFirstCluster item = c 0
  first_lt : c 0 < 2 ^ 31

section

variable {disk : Disk} {priv : FatPrivate} {files : Files} {fd : Int} {c : Nat → Nat}
  {m s n : Nat}

/-- One piece. -/
theorem slice_pieceByte (hs : 0 < s) (i : Nat) :
    slice (pieceByte disk priv c s) (i * s) s = slice (readByte disk priv c (i * s)) 0 s := by
  refine slice_congr fun k hk => ?_
  unfold pieceByte
  rw [Nat.zero_add, Nat.add_comm (i * s), Nat.add_mul_div_right _ _ hs, Nat.div_eq_of_lt hk,
    Nat.zero_add, Nat.add_mul_mod_self_right, Nat.mod_eq_of_lt hk]

/-! ## The loop over the pieces -/

theorem fat16Read_loop {item : FatDirectoryItem} (hitem : fat16GetFirstCluster item = c 0)
    (hfirst : c 0 < 2 ^ 31) (hs : 1 ≤ s) (out : Nat) (mem : Mem) :
    ∀ (n i : Nat) (priv : FatPrivate) (res : Int), 0 ≤ res → Mounted disk priv →
      Chain disk priv c m → (∀ j, j < i + n → Fits priv c m (j * s) s) →
      (i + n) * s < 2 ^ 31 →
      ∃ s₁ s₂ res', 0 ≤ res' ∧
        fat16Read.loop disk item s n priv res (i * s : Nat) (out + i * s)
          (writeBytes mem out (slice (pieceByte disk priv c s) 0 (i * s))) =
        some (res', { priv with fatReadStream := s₁, clusterReadStream := s₂ },
          (((i + n) * s : Nat) : Int),
          writeBytes mem out (slice (pieceByte disk priv c s) 0 ((i + n) * s)))
  | 0, i, priv, res, hres, _, _, _, _ => ⟨priv.fatReadStream, priv.clusterReadStream, res, hres, rfl⟩
  | n + 1, i, priv, res, hres, h, hch, hfit, hlt => by
    have hmul : (i + 1) * s = i * s + s := Nat.succ_mul i s
    have hmulle : (i + 1) * s ≤ (i + (n + 1)) * s := Nat.mul_le_mul_right s (by omega)
    obtain ⟨s₁, s₂, hr⟩ := readInternal_spec h hch (hfit i (by omega)) (out + i * s)
      (writeBytes mem out (slice (pieceByte disk priv c s) 0 (i * s)))
    have hpiece : writeBytes (writeBytes mem out (slice (pieceByte disk priv c s) 0 (i * s)))
        (out + i * s) (slice (readByte disk priv c (i * s)) 0 s) =
        writeBytes mem out (slice (pieceByte disk priv c s) 0 ((i + 1) * s)) := by
      have := writeBytes_append mem out (slice (pieceByte disk priv c s) 0 (i * s))
        (slice (pieceByte disk priv c s) (i * s) s)
      rw [slice_length] at this
      rw [← slice_pieceByte hs, this, hmul, slice_add, Nat.zero_add]
    rw [hpiece] at hr
    obtain ⟨q, hq⟩ : ∃ q : FatPrivate,
      { priv with fatReadStream := some s₁, clusterReadStream := s₂ } = q := ⟨_, rfl⟩
    have hmq : Mounted disk q := hq ▸ ⟨h.sectorSize, h.sectors_pos, s₁, rfl⟩
    have hcq : Chain disk q c m :=
      hq ▸ ⟨hch.linked, hch.linkOk, hch.entryPos, hch.sector, hch.pos⟩
    have hfq : ∀ j, j < i + 1 + n → Fits q c m (j * s) s := fun j hj => by
      have := hfit j (by omega)
      exact hq ▸ ⟨this.pos, this.clusters, this.bytes, this.disk⟩
    have hbyte : pieceByte disk q c s = pieceByte disk priv c s := by
      subst hq
      rfl
    have hset : ∀ s₁ s₂, { q with fatReadStream := s₁, clusterReadStream := s₂ } =
        { priv with fatReadStream := s₁, clusterReadStream := s₂ } := by
      subst hq
      exact fun _ _ => rfl
    obtain ⟨t₁, t₂, res', hres', hrest⟩ := fat16Read_loop hitem hfirst hs out mem n (i + 1) q allOk
      (by decide) hmq hcq hfq (by rwa [show i + 1 + n = i + (n + 1) by omega])
    rw [hbyte, hset, show i + 1 + n = i + (n + 1) by omega] at hrest
    refine ⟨t₁, t₂, res', hres', ?_⟩
    unfold fat16Read.loop
    rw [hitem, Word.toInt_of_lt hfirst, Word.toInt_of_lt (by omega), hr]
    dsimp only
    rw [hq, if_neg (by decide), Word.int_of_mem (by omega) (by omega), ← Int.natCast_add, ← hmul,
      Nat.add_assoc, ← hmul, hrest]

/-- What `fread` delivers, and where it leaves the descriptor. -/
theorem fread_spec (h : OpenFile disk files fd c m) (out : Nat) (mem : Mem) (hs : 1 ≤ s)
    (hn : 1 ≤ n) (hlt : n * s < 2 ^ 31) (hfit : ∀ i < n, Fits files.priv c m (i * s) s) :
    ∃ files' desc, fread disk files out s n fd mem =
        some ((n : Int), files', writeBytes mem out (slice (pieceByte disk files.priv c s) 0 (n * s))) ∧
      fileGetDescriptor files' fd = some desc ∧ desc.pos = n * s := by
  obtain ⟨item, hdesc, hitem⟩ := h.desc
  have hfd : ¬ (fd ≤ 0 ∨ fd ≥ 512) := fun hc => by
    unfold fileGetDescriptor at hdesc
    rw [if_pos hc] at hdesc
    cases hdesc
  have hnlt : n < 2 ^ 31 := (Nat.le_mul_of_pos_right n hs).trans_lt hlt
  obtain ⟨s₁, s₂, res, hres, hr⟩ := fat16Read_loop hitem h.first_lt hs out mem n 0
    files.priv 0 (Int.le_refl 0) h.mounted h.chain (fun j hj => hfit j (by omega))
    (by rwa [Nat.zero_add])
  rw [Nat.zero_mul, slice_zero, writeBytes_nil, Nat.add_zero, Nat.zero_add] at hr
  have hread : fat16Read disk files.priv ⟨item, 0⟩ s n out mem = some ((n : Int),
      { files.priv with fatReadStream := s₁, clusterReadStream := s₂ }, ⟨item, n * s⟩,
      writeBytes mem out (slice (pieceByte disk files.priv c s) 0 (n * s))) := by
    unfold fat16Read
    rw [Word.toInt_of_lt (show 0 < 2 ^ 31 by decide), hr]
    dsimp only
    rw [if_neg (by omega), Word.toInt_of_lt hnlt, Word.ofInt_natCast (by omega)]
  refine ⟨⟨{ files.priv with fatReadStream := s₁, clusterReadStream := s₂ },
    Function.update files.descriptors (fd - 1).toNat (some ⟨item, n * s⟩)⟩, ⟨item, n * s⟩, ?_, ?_,
    rfl⟩
  · unfold fread
    rw [if_neg (by omega), hdesc]
    dsimp only
    rw [hread]
  · unfold fileGetDescriptor
    rw [if_neg hfd]
    exact Function.update_self _ _ _

/-! ## The two ways of reading -/

/-- Every piece inside the file stays on the chain. -/
theorem fits_of_pos (h : Mounted disk priv) (hpos : ∀ i ≤ m, priv.clusterPos (c i) +
    2 * priv.clusterSize ≤ 2 ^ 31) {offset total : Nat} (ht : 1 ≤ total)
    (hend : offset + total ≤ (m + 1) * priv.clusterSize) (hbytes : offset + total ≤ 2 ^ 31) :
    Fits priv c m offset total := by
  have hC := h.clusterSize_pos
  have hcl := clusters_le hC ht hend
  refine ⟨ht, hcl, hbytes, fun i hi => ?_⟩
  have hi' : i ≤ (total - 1) / priv.clusterSize := (Nat.le_div_iff_mul_le hC).2 (by omega)
  have hcluster := hpos (offset / priv.clusterSize + i) (by omega)
  have hplace := Nat.mod_lt offset hC
  have hmin := Nat.min_le_left priv.clusterSize (total - i * priv.clusterSize)
  omega

/-- In one piece, from the start of the file. -/
theorem pieceByte_one (hC : 0 < priv.clusterSize) {q : Nat} (hq : q < s) :
    pieceByte disk priv c s q = fileByte disk priv c q := by
  have hlt : 0 % priv.clusterSize + q % priv.clusterSize < priv.clusterSize := by
    rw [Nat.zero_mod, Nat.zero_add]
    exact Nat.mod_lt _ hC
  unfold pieceByte
  rw [Nat.div_eq_of_lt hq, Nat.mod_eq_of_lt hq, Nat.zero_mul, readByte_eq_fileByte hlt,
    Nat.zero_add]

/-- The positions always agree; the bytes are those of the pieces and those of the file. -/
theorem sameReads_iff_bytes (h : OpenFile disk files fd c m)
    (hpos : ∀ i ≤ m, files.priv.clusterPos (c i) + 2 * files.priv.clusterSize ≤ 2 ^ 31)
    (hs : 1 ≤ s) (hn : 1 ≤ n) (hend : n * s ≤ (m + 1) * files.priv.clusterSize)
    (hlt : n * s < 2 ^ 31) (out : Nat) (mem : Mem) :
    SameReads disk files fd s n out mem ↔
      ∀ q < n * s, pieceByte disk files.priv c s q = fileByte disk files.priv c q := by
  have hC := h.mounted.clusterSize_pos
  have hns : s * n = n * s := Nat.mul_comm s n
  have hone : 1 ≤ n * s := Nat.mul_pos hn hs
  obtain ⟨files₁, desc₁, hr₁, hd₁, hp₁⟩ := fread_spec h out mem hs hn hlt fun i hi => by
    have hi : (i + 1) * s ≤ n * s := Nat.mul_le_mul_right s hi
    rw [Nat.succ_mul] at hi
    exact fits_of_pos h.mounted hpos hs (by omega) (by omega)
  obtain ⟨files₂, desc₂, hr₂, hd₂, hp₂⟩ := fread_spec h out mem hone (Nat.le_refl 1)
    (by omega) fun i hi => by
      obtain rfl : i = 0 := by omega
      exact fits_of_pos h.mounted hpos hone (by omega) (by omega)
  have hfile : slice (pieceByte disk files.priv c (n * s)) 0 (1 * (n * s)) =
      slice (fileByte disk files.priv c) 0 (n * s) := by
    rw [Nat.one_mul]
    exact slice_congr fun q hq => pieceByte_one hC (by omega)
  rw [hfile] at hr₂
  have hbytes : slice (pieceByte disk files.priv c s) 0 (n * s) =
      slice (fileByte disk files.priv c) 0 (n * s) ↔
      ∀ q < n * s, pieceByte disk files.priv c s q = fileByte disk files.priv c q := by
    rw [slice_inj]
    simp only [Nat.zero_add]
  rw [← hbytes, ← writeBytes_inj (m := mem) (a := out) (by rw [slice_length, slice_length])]
  unfold SameReads
  rw [hns]
  constructor
  · rintro ⟨f₁, f₂, mem', d₁, d₂, hf₁, hf₂, -⟩
    rw [hr₁] at hf₁
    rw [hr₂] at hf₂
    obtain ⟨-, hm₁⟩ : _ ∧ _ = mem' := by simpa using hf₁
    obtain ⟨-, hm₂⟩ : _ ∧ _ = mem' := by simpa using hf₂
    rw [hm₁, hm₂]
  · intro he
    rw [← he] at hr₂
    exact ⟨files₁, files₂, _, desc₁, desc₂, hr₁, hr₂, hd₁, hd₂, by rw [hp₁, hp₂, Nat.one_mul]⟩

/-- Past the end of its cluster, the place of a byte is in the next one. -/
theorem fileByte_of_crossing {offset k : Nat} (hC : 0 < priv.clusterSize)
    (hge : priv.clusterSize ≤ offset % priv.clusterSize + k % priv.clusterSize) :
    fileByte disk priv c (offset + k) =
      disk.image (priv.clusterPos (c (offset / priv.clusterSize + k / priv.clusterSize + 1)) +
        (offset % priv.clusterSize + k % priv.clusterSize - priv.clusterSize)) := by
  have hdiv := Nat.add_div_eq_of_le_mod_add_mod hge hC
  have hlt₁ := Nat.mod_lt offset hC
  have hlt₂ := Nat.mod_lt k hC
  have hmod : (offset + k) % priv.clusterSize =
      offset % priv.clusterSize + k % priv.clusterSize - priv.clusterSize := by
    rw [Nat.add_mod, Nat.mod_eq_sub_mod hge, Nat.mod_eq_of_lt (by omega)]
  unfold fileByte
  rw [hdiv, hmod]

/-- The bytes of the pieces are those of the file exactly where the crossings agree. -/
theorem pieces_eq_file_iff (hC : 0 < priv.clusterSize) (hs : 1 ≤ s) :
    (∀ q < n * s, pieceByte disk priv c s q = fileByte disk priv c q) ↔
      CrossingsAgree disk priv c s n := by
  have hpiece : ∀ i k, k < s → pieceByte disk priv c s (i * s + k) =
      readByte disk priv c (i * s) k := fun i k hk => by
    unfold pieceByte
    rw [Nat.add_comm (i * s), Nat.add_mul_div_right _ _ hs, Nat.div_eq_of_lt hk, Nat.zero_add,
      Nat.add_mul_mod_self_right, Nat.mod_eq_of_lt hk]
  constructor
  · intro h i hi k hk place cluster hge
    have hlt : i * s + k < n * s := by
      have := Nat.mul_le_mul_right s (show i + 1 ≤ n from hi)
      rw [Nat.succ_mul] at this
      omega
    have hq := h (i * s + k) hlt
    rw [hpiece i k hk, fileByte_of_crossing hC hge] at hq
    exact hq
  · intro h q hq
    -- byte `q` is byte `q % s` of piece `q / s`
    obtain ⟨i, k, hi, hk, rfl⟩ : ∃ i k, i < n ∧ k < s ∧ i * s + k = q :=
      ⟨q / s, q % s, (Nat.div_lt_iff_lt_mul hs).2 hq, Nat.mod_lt _ hs, Nat.div_add_mod' q s⟩
    rw [hpiece i k hk]
    rcases Nat.lt_or_ge (i * s % priv.clusterSize + k % priv.clusterSize) priv.clusterSize with
      hin | hover
    · exact readByte_eq_fileByte hin
    · rw [fileByte_of_crossing hC hover]
      exact h i hi k hk hover

/-- **How a file is cut into reads**: it does not matter exactly where every byte that a piece reads
past the end of a cluster is the one at that place of the next cluster. -/
theorem fread_cut_iff (h : OpenFile disk files fd c m)
    (hpos : ∀ i ≤ m, files.priv.clusterPos (c i) + 2 * files.priv.clusterSize ≤ 2 ^ 31)
    (hs : 1 ≤ s) (hn : 1 ≤ n) (hend : n * s ≤ (m + 1) * files.priv.clusterSize)
    (hlt : n * s < 2 ^ 31) (out : Nat) (mem : Mem) :
    SameReads disk files fd s n out mem ↔ CrossingsAgree disk files.priv c s n :=
  (sameReads_iff_bytes h hpos hs hn hend hlt out mem).trans
    (pieces_eq_file_iff h.mounted.clusterSize_pos hs)

end

/-- Clusters of one sector from sector 10 on; `FAT[2] = 4`; sector `j` is filled with `j`. -/
def scatteredDisk : Disk where
  image := fun p => if p = 516 then 4 else if p = 517 then 0 else UInt8.ofNat (p / 512)

/-- Clusters 2 and 4. -/
def scatteredChain (i : Nat) : Nat := 2 * i + 2

def scatteredItem : FatDirectoryItem where
  high16BitsFirstCluster := 0
  low16BitsFirstCluser := 2
  filesize := 600

def scatteredFiles : Files where
  priv := smallVolume
  descriptors := fun i => if i = 0 then some ⟨scatteredItem, 0⟩ else none

theorem scatteredFiles_open : OpenFile scatteredDisk scatteredFiles 1 scatteredChain 1 where
  mounted := ⟨rfl, Nat.le_refl 1, _, rfl⟩
  chain := {
    linked := by decide
    linkOk := fun i hi => by
      obtain rfl : i = 0 := by omega
      exact ⟨by decide, by decide, by decide, by decide⟩
    entryPos := by decide
    sector := by decide
    pos := by decide }
  desc := ⟨scatteredItem, rfl, rfl⟩
  first_lt := by decide

theorem fread_cut_iff_scattered :
    SameReads scatteredDisk scatteredFiles 1 300 2 0 (fun _ => 0) ↔
      CrossingsAgree scatteredDisk smallVolume scatteredChain 300 2 :=
  fread_cut_iff scatteredFiles_open (by decide) (by decide) (by decide) (by decide) (by decide) 0 _

/-- In pieces of 300 bytes the second one reads sector 11, where the file goes on in sector 12. -/
theorem fread_cut_matters : ¬ SameReads scatteredDisk scatteredFiles 1 300 2 0 (fun _ => 0) := by
  intro h
  have hbytes := (sameReads_iff_bytes scatteredFiles_open (by decide) (by decide) (by decide)
    (by decide) (by decide) 0 _).1 h
  exact absurd (hbytes 512 (by decide)) (by decide)

end Pandora
