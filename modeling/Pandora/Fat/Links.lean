import Pandora.Fat.Chain

/-!
# Following the allocation table

The entries of the table are 16 bits: a data cluster (`DataCluster`: `0x0002` to `0xFFEF`), or a mark
(free, reserved, bad or the end of a chain). `successor i` is the `i`-th entry met from the starting
cluster on, whatever it is.

The code compares with six values, `0x0000`, `0xFFF8`, `0xFFFF`, and `0xFF7`, `0xFF0`, `0xFF6`, which
lack a digit: they are data clusters, and most marks are followed as if they were. What
it returns (`clusterForOffset_stops`) is what the table says exactly where these mistakes do not
show (`follows_table_iff`).
-/

namespace Pandora

/-- The entry is the number of a data cluster. -/
def DataCluster (entry : Nat) : Prop := 2 ≤ entry ∧ entry ≤ 0xFFEF

/-- The entries that end the loop of `fat16_get_cluster_for_offset`. -/
def StopEntry (entry : Nat) : Prop :=
  (entry = 0xFFF8 ∨ entry = 0xFFFF) ∨ entry = 0xFF7 ∨ (entry = 0xFF0 ∨ entry = 0xFF6) ∨ entry = 0

instance (entry : Nat) : Decidable (DataCluster entry) := by
  unfold DataCluster
  infer_instance

instance (entry : Nat) : Decidable (StopEntry entry) := by
  unfold StopEntry
  infer_instance

/-- The entry after `i` links (module doc). -/
def FatPrivate.successor (priv : FatPrivate) (disk : Disk) (start : Nat) : Nat → Nat
  | 0 => start
  | i + 1 => priv.link disk (priv.successor disk start i)

/-- The volume of a boot record, and a starting cluster whose entry a stream can reach. -/
structure Readable (disk : Disk) (priv : FatPrivate) (start : Nat) : Prop where
  mounted : Mounted disk priv
  reserved : priv.reservedSectors < 2 ^ 16
  start : priv.entryPos start + 2 ≤ 2 ^ 31

section

variable {disk : Disk} {priv : FatPrivate} {start : Nat}

theorem link_lt (disk : Disk) (priv : FatPrivate) (c : Nat) : priv.link disk c < 2 ^ 16 := by
  have h0 := (disk.image (priv.entryPos c)).toNat_lt
  have h1 := (disk.image (priv.entryPos c + 1)).toNat_lt
  unfold FatPrivate.link
  omega

/-- Every entry met can be read. -/
theorem Readable.entryPos (h : Readable disk priv start) (i : Nat) :
    priv.entryPos (priv.successor disk start i) + 2 ≤ 2 ^ 31 := by
  cases i with
  | zero => exact h.start
  | succ i =>
    have hres := h.reserved
    have hlt := link_lt disk priv (priv.successor disk start i)
    unfold FatPrivate.successor FatPrivate.entryPos
    omega

theorem entry_stop_cases (n : Nat) {α : Type} (error next : α) :
    (if (n : Int) = 0xFFF8 ∨ (n : Int) = 0xFFFF then error
      else if (n : Int) = 0xFF7 then error
      else if (n : Int) = 0xFF0 ∨ (n : Int) = 0xFF6 then error
      else if (n : Int) = 0x00 then error else next) = if StopEntry n then error else next := by
  by_cases hstop : StopEntry n
  · rw [if_pos hstop]
    unfold StopEntry at hstop
    rcases hstop with h | h | h | h
    · rw [if_pos (by omega)]
    · rw [if_neg (by omega), if_pos (by omega)]
    · rw [if_neg (by omega), if_neg (by omega), if_pos (by omega)]
    · rw [if_neg (by omega), if_neg (by omega), if_neg (by omega), if_pos (by omega)]
  · rw [if_neg hstop]
    unfold StopEntry at hstop
    rw [if_neg (by omega), if_neg (by omega), if_neg (by omega), if_neg (by omega)]

/-- The loop from the entry `i` on: the first entry among the next `n` that ends it is an error. -/
theorem clusterForOffset_loop_stops (h : Readable disk priv start) :
    ∀ (n i : Nat) (priv' : FatPrivate), (∃ s, priv' = { priv with fatReadStream := some s }) →
      (fat16GetClusterForOffset.loop disk n (priv.successor disk start i : Nat) priv').1 =
        if ∃ j < n, StopEntry (priv.successor disk start (i + j + 1)) then -eio
        else (priv.successor disk start (i + n) : Nat)
  | 0, i, priv', _ => by
    rw [if_neg (by simp)]
    rfl
  | n + 1, i, priv', ⟨s, hs⟩ => by
    have hlink : priv'.link disk (priv.successor disk start i) =
        priv.successor disk start (i + 1) := by
      rw [hs]
      rfl
    have hpos : priv'.entryPos (priv.successor disk start i) + 2 ≤ 2 ^ 31 := by
      rw [hs]
      exact h.entryPos i
    have hmounted : Mounted disk priv' := by
      rw [hs]
      exact h.mounted.setFat s
    obtain ⟨stream, he⟩ := getFatEntry_eq hmounted hpos
    have ih := clusterForOffset_loop_stops h n (i + 1) { priv' with fatReadStream := some stream }
      ⟨stream, by rw [hs]⟩
    unfold fat16GetClusterForOffset.loop
    rw [he, hlink]
    dsimp only
    rw [entry_stop_cases]
    by_cases hstop : StopEntry (priv.successor disk start (i + 1))
    · rw [if_pos hstop, if_pos ⟨0, by omega, hstop⟩]
    · rw [if_neg hstop, ih, show i + 1 + n = i + (n + 1) by omega]
      have hshift : (∃ j < n, StopEntry (priv.successor disk start (i + 1 + j + 1))) ↔
          ∃ j < n + 1, StopEntry (priv.successor disk start (i + j + 1)) := by
        constructor
        · rintro ⟨j, hj, hjs⟩
          exact ⟨j + 1, by omega, by rwa [show i + (j + 1) + 1 = i + 1 + j + 1 by omega]⟩
        · rintro ⟨j, hj, hjs⟩
          cases j with
          | zero => exact absurd hjs hstop
          | succ j => exact ⟨j, by omega, by rwa [show i + 1 + j + 1 = i + (j + 1) + 1 by omega]⟩
      simp only [hshift]

/-- What the code returns: an error where one of the links ends the loop, else the last of them. -/
theorem clusterForOffset_stops (h : Readable disk priv start) (offset : Nat) :
    (fat16GetClusterForOffset disk priv start offset).1 =
      if ∃ j < offset / priv.clusterSize, StopEntry (priv.successor disk start (j + 1)) then -eio
      else (priv.successor disk start (offset / priv.clusterSize) : Nat) := by
  have hl := clusterForOffset_loop_stops h (offset / priv.clusterSize) 0 priv h.mounted.eq_set
  simp only [Nat.zero_add] at hl
  unfold fat16GetClusterForOffset
  dsimp only
  rw [h.mounted.clusterBytes]
  exact hl

/-- What the table says about the cluster at an offset. -/
structure FollowsTable (disk : Disk) (priv : FatPrivate) (start offset : Nat) (res : Int) : Prop where
  data : (∀ j < offset / priv.clusterSize, DataCluster (priv.successor disk start (j + 1))) →
    res = (priv.successor disk start (offset / priv.clusterSize) : Nat)
  mark : (∃ j < offset / priv.clusterSize, ¬ DataCluster (priv.successor disk start (j + 1))) →
    res = -eio

/-- **The walk along the table is right** exactly where none of the links is a mark and none is one of
the clusters `0xFF0`, `0xFF6` and `0xFF7`, or where one is a mark and one of the entries met ends the
loop. -/
theorem follows_table_iff (h : Readable disk priv start) (offset : Nat) :
    FollowsTable disk priv start offset (fat16GetClusterForOffset disk priv start offset).1 ↔
      (∀ j < offset / priv.clusterSize, DataCluster (priv.successor disk start (j + 1)) ∧
        ¬ StopEntry (priv.successor disk start (j + 1))) ∨
      (∃ j < offset / priv.clusterSize, ¬ DataCluster (priv.successor disk start (j + 1))) ∧
        ∃ j < offset / priv.clusterSize, StopEntry (priv.successor disk start (j + 1)) := by
  have hres := clusterForOffset_stops h offset
  have hneg : ∀ n : Nat, (n : Int) ≠ -eio := fun n hn => by
    have : (0 : Int) ≤ -eio := hn ▸ Int.natCast_nonneg n
    exact absurd this (by decide)
  constructor
  · intro hf
    by_cases hall : ∀ j < offset / priv.clusterSize,
        DataCluster (priv.successor disk start (j + 1))
    · refine .inl fun j hj => ⟨hall j hj, fun hstop => ?_⟩
      rw [if_pos ⟨j, hj, hstop⟩] at hres
      exact hneg _ ((hf.data hall).symm.trans hres)
    · have hmark : ∃ j < offset / priv.clusterSize,
          ¬ DataCluster (priv.successor disk start (j + 1)) := by
        by_contra hno
        exact hall fun j hj => by_contra fun hn => hno ⟨j, hj, hn⟩
      refine .inr ⟨hmark, ?_⟩
      by_contra hno
      rw [if_neg hno] at hres
      exact hneg _ (hres.symm.trans (hf.mark hmark))
  · intro h
    rcases h with hgood | ⟨⟨i, hi, hmark⟩, hstop⟩
    · refine ⟨fun _ => ?_, fun ⟨j, hj, hn⟩ => absurd (hgood j hj).1 hn⟩
      rw [hres]
      exact if_neg fun ⟨j, hj, hstop⟩ => (hgood j hj).2 hstop
    · refine ⟨fun hall => absurd (hall i hi) hmark, fun _ => ?_⟩
      rw [hres]
      exact if_pos hstop

end

/-- A table whose entry for cluster 2 is `entry`, and a volume with clusters of one sector. -/
def linkDisk (entry : Nat) : Disk where
  image := fun p =>
    if p = 516 then UInt8.ofNat entry else if p = 517 then UInt8.ofNat (entry / 256) else 0

theorem linkDisk_readable (entry : Nat) : Readable (linkDisk entry) smallVolume 2 where
  mounted := ⟨rfl, Nat.le_refl 1, _, rfl⟩
  reserved := by decide
  start := by decide

theorem linkDisk_link {entry : Nat} (h : entry < 2 ^ 16) :
    smallVolume.successor (linkDisk entry) 2 1 = entry := by
  have hlow : (linkDisk entry).image 516 = UInt8.ofNat entry := by simp [linkDisk]
  have hhigh : (linkDisk entry).image 517 = UInt8.ofNat (entry / 256) := by simp [linkDisk]
  have hpos : smallVolume.entryPos 2 = 516 := rfl
  change smallVolume.link (linkDisk entry) 2 = entry
  unfold FatPrivate.link
  rw [hpos, hlow, hhigh, UInt8.toNat_ofNat', UInt8.toNat_ofNat']
  omega

theorem follows_table_iff_one :
    FollowsTable (linkDisk 3) smallVolume 2 512
        (fat16GetClusterForOffset (linkDisk 3) smallVolume (2 : Nat) (512 : Nat)).1 ↔
      (∀ j < 512 / smallVolume.clusterSize,
        DataCluster (smallVolume.successor (linkDisk 3) 2 (j + 1)) ∧
          ¬ StopEntry (smallVolume.successor (linkDisk 3) 2 (j + 1))) ∨
      (∃ j < 512 / smallVolume.clusterSize,
        ¬ DataCluster (smallVolume.successor (linkDisk 3) 2 (j + 1))) ∧
        ∃ j < 512 / smallVolume.clusterSize,
          StopEntry (smallVolume.successor (linkDisk 3) 2 (j + 1)) :=
  follows_table_iff (linkDisk_readable 3) 512

/-- A file that goes on in cluster `0xFF7` is an error, and the end of a chain `0xFFF9` is returned as
a cluster. -/
theorem follows_table_mistakes :
    ¬ FollowsTable (linkDisk 0xFF7) smallVolume 2 512
        (fat16GetClusterForOffset (linkDisk 0xFF7) smallVolume (2 : Nat) (512 : Nat)).1 ∧
      ¬ FollowsTable (linkDisk 0xFFF9) smallVolume 2 512
        (fat16GetClusterForOffset (linkDisk 0xFFF9) smallVolume (2 : Nat) (512 : Nat)).1 := by
  have hone : 512 / smallVolume.clusterSize = 1 := rfl
  have hstops : ∀ entry < 2 ^ 16,
      (fat16GetClusterForOffset (linkDisk entry) smallVolume (2 : Nat) (512 : Nat)).1 =
        if StopEntry entry then -eio else (entry : Nat) := fun entry hlt => by
    have h := clusterForOffset_stops (linkDisk_readable entry) 512
    rw [hone, linkDisk_link hlt] at h
    rw [h]
    refine if_congr ⟨fun ⟨j, hj, hs⟩ => ?_, fun hs => ⟨0, by decide, ?_⟩⟩ rfl rfl
    · obtain rfl : j = 0 := by omega
      rwa [linkDisk_link hlt] at hs
    · rwa [linkDisk_link hlt]
  refine ⟨fun h => ?_, fun h => ?_⟩
  · have hdata := h.data fun j hj => by
      obtain rfl : j = 0 := by omega
      rw [linkDisk_link (by decide)]
      decide
    rw [hstops _ (by decide), hone, linkDisk_link (by decide)] at hdata
    exact absurd hdata (by decide)
  · have hmark := h.mark ⟨0, by decide, by
      rw [linkDisk_link (by decide)]
      decide⟩
    rw [hstops _ (by decide)] at hmark
    exact absurd hmark (by decide)

end Pandora
