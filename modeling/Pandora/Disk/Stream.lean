import Pandora.Lib.ByteMem

/-!
# Disk streams (`disk/disk.c`, `disk/streamer.c`)

The disk is its image, a byte at every position; the driver returns the sector asked for. A stream
is a position. `diskstreamer_read` goes on to the next sector whenever it reaches the end of one,
also when nothing is left to read. `diskstreamerRead_eq` is its result for positions below
`2 ^ 31`: the bytes of the image from the position of the stream on, whatever the sectors.
-/

namespace Pandora

open ByteMem

/-- `struct disk`: the contents of the disk, and the field `sector_size`. -/
structure Disk where
  image : Mem
  sectorSize : Int := 512

/-- `struct disk_stream` -/
structure DiskStream where
  pos : Int
deriving DecidableEq, Repr

/-- One sector: the status and the buffer. -/
def diskReadBlock (disk : Disk) (lba : Nat) : Int × Mem :=
  (0, fun i => disk.image (512 * lba + i))

def diskstreamerSeek (_stream : DiskStream) (pos : Int) : Int × DiskStream := (0, ⟨pos⟩)

/-- The status, the stream and the memory after `total` bytes have been read to `out`. -/
def diskstreamerRead (disk : Disk) (stream : DiskStream) (out : Nat) (total : Int) (m : Mem) :
    Int × DiskStream × Mem :=
  let sector := stream.pos.tdiv 512
  let offset := stream.pos.tmod 512
  let totalToRead := if offset + total ≥ 512 then total - ((offset + total) - 512) else total
  let (res, buf) := diskReadBlock disk (Word.ofInt sector)
  if res < 0 then (res, stream, m)
  else
    let m := writeBytes m out ((List.range totalToRead.toNat).map fun i : Nat => buf (offset + i).toNat)
    let next : DiskStream := ⟨Word.int (stream.pos + totalToRead)⟩
    if offset + total ≥ 512 then
      diskstreamerRead disk next (out + totalToRead.toNat) (total - totalToRead) m
    else (res, next, m)
termination_by total.toNat
decreasing_by
  have hlt : offset < 512 := Int.tmod_lt_of_pos stream.pos (by decide)
  have hread : totalToRead = total - (offset + total - 512) := dif_pos ‹_›
  have := ‹offset + total ≥ 512›
  have hgoal : (total - totalToRead).toNat < total.toNat := by omega
  exact hgoal

section

variable {disk : Disk} {pos out total : Nat} {m : Mem}

/-- Nothing is left to read. -/
theorem diskstreamerRead_zero (stream : DiskStream) :
    diskstreamerRead disk stream out 0 m = (0, ⟨Word.int stream.pos⟩, m) := by
  have := Int.tmod_lt_of_pos stream.pos (show (0 : Int) < 512 by decide)
  have hno : ¬ stream.pos.tmod 512 ≥ 512 := by omega
  unfold diskstreamerRead
  simp only [diskReadBlock, Int.add_zero, if_neg hno, Int.toNat_zero, List.range_zero, List.map_nil,
    writeBytes_nil]
  rfl

/-- The round that ends in the sector it begins in. -/
theorem diskstreamerRead_last (hpos : pos < 2 ^ 31) (h : pos % 512 + total < 512) :
    diskstreamerRead disk ⟨pos⟩ out total m =
      (0, ⟨Word.int (pos + total : Nat)⟩, writeBytes m out (slice disk.image pos total)) := by
  have hdiv : (pos : Int).tdiv 512 = (pos / 512 : Nat) := rfl
  have hmod : (pos : Int).tmod 512 = (pos % 512 : Nat) := rfl
  have hno : ¬ ((pos % 512 : Nat) : Int) + total ≥ 512 := by omega
  have hslice : ((List.range total).map fun i =>
      disk.image (512 * (pos / 512) + (((pos % 512 : Nat) : Int) + (i : Nat)).toNat)) =
      slice disk.image pos total := by
    refine List.map_congr_left fun i _ => congrArg disk.image ?_
    omega
  unfold diskstreamerRead
  simp only [hdiv, hmod, diskReadBlock, if_neg hno, Word.ofInt_natCast (show pos / 512 < 2 ^ 32 by
    omega), Int.toNat_natCast, hslice]
  rfl

/-- The round that reads to the end of its sector. -/
theorem diskstreamerRead_more (hpos : pos < 2 ^ 31) (h : 512 ≤ pos % 512 + total) :
    diskstreamerRead disk ⟨pos⟩ out total m =
      diskstreamerRead disk ⟨Word.int (pos + (512 - pos % 512) : Nat)⟩ (out + (512 - pos % 512))
        (total - (512 - pos % 512) : Nat)
        (writeBytes m out (slice disk.image pos (512 - pos % 512))) := by
  have hdiv : (pos : Int).tdiv 512 = (pos / 512 : Nat) := rfl
  have hmod : (pos : Int).tmod 512 = (pos % 512 : Nat) := rfl
  have hyes : ((pos % 512 : Nat) : Int) + total ≥ 512 := by omega
  have hread : (total : Int) - (((pos % 512 : Nat) : Int) + total - 512) =
      (512 - pos % 512 : Nat) := by omega
  have hleft : (total : Int) - (512 - pos % 512 : Nat) = (total - (512 - pos % 512) : Nat) := by
    omega
  have hslice : ((List.range (512 - pos % 512)).map fun i =>
      disk.image (512 * (pos / 512) + (((pos % 512 : Nat) : Int) + (i : Nat)).toNat)) =
      slice disk.image pos (512 - pos % 512) := by
    refine List.map_congr_left fun i _ => congrArg disk.image ?_
    omega
  rw [diskstreamerRead]
  simp only [hdiv, hmod, diskReadBlock, if_pos hyes, Word.ofInt_natCast (show pos / 512 < 2 ^ 32 by
    omega), hread, Int.toNat_natCast, hslice, hleft]
  rfl

end

/-- The bytes of the image, in one piece, and the stream behind them. -/
theorem diskstreamerRead_eq (disk : Disk) (total pos out : Nat) (m : Mem)
    (h : pos + total ≤ 2 ^ 31) :
    diskstreamerRead disk ⟨pos⟩ out total m =
      (0, ⟨Word.int (pos + total : Nat)⟩, writeBytes m out (slice disk.image pos total)) := by
  induction total using Nat.strongRecOn generalizing pos out m with
  | ind total ih =>
    rcases Nat.eq_zero_or_pos total with rfl | htotal
    · rw [slice_zero, writeBytes_nil, Nat.add_zero]
      exact diskstreamerRead_zero _
    · rcases Nat.lt_or_ge (pos % 512 + total) 512 with hlast | hmore
      · exact diskstreamerRead_last (by omega) hlast
      · rw [diskstreamerRead_more (by omega) hmore]
        obtain ⟨a, ha⟩ : ∃ a, 512 - pos % 512 = a := ⟨_, rfl⟩
        rw [ha]
        have hsplit : writeBytes (writeBytes m out (slice disk.image pos a)) (out + a)
            (slice disk.image (pos + a) (total - a)) =
            writeBytes m out (slice disk.image pos total) := by
          have := writeBytes_append m out (slice disk.image pos a)
            (slice disk.image (pos + a) (total - a))
          rw [slice_length] at this
          rw [this, ← slice_add, Nat.add_sub_cancel' (by omega)]
        rcases Nat.eq_zero_or_pos (total - a) with hzero | hleft
        · -- the last sector has been read to its end
          rw [hzero, slice_zero, writeBytes_nil] at hsplit
          rw [hzero, ← hsplit, show total = a by omega]
          have hend : diskstreamerRead disk ⟨Word.int (pos + a : Nat)⟩ (out + a) 0
              (writeBytes m out (slice disk.image pos a)) =
              (0, ⟨Word.int (Word.int (pos + a : Nat))⟩, writeBytes m out (slice disk.image pos a)) :=
            diskstreamerRead_zero _
          rwa [Word.int_int] at hend
        · have hrest := ih (total - a) (by omega) (pos + a) (out + a)
            (writeBytes m out (slice disk.image pos a)) (by omega)
          rw [Word.int_of_mem (by omega) (by omega), hrest, hsplit,
            show pos + a + (total - a) = pos + total by omega]

theorem diskstreamerRead_spec (disk : Disk) (total pos out : Nat) (m : Mem)
    (h : pos + total ≤ 2 ^ 31) :
    ∃ stream, diskstreamerRead disk ⟨pos⟩ out total m =
      (0, stream, writeBytes m out (slice disk.image pos total)) :=
  ⟨_, diskstreamerRead_eq disk total pos out m h⟩

/-! ## The byte stream -/

/-- `total` bytes of the disk, from `pos` on, have been read to `out` and the stream is behind them. -/
structure StreamRead (disk : Disk) (pos total out : Nat) (m : Mem) (r : Int × DiskStream × Mem) :
    Prop where
  status : r.1 = 0
  advanced : r.2.1 = ⟨(pos + total : Nat)⟩
  bytes : ∀ i < total, r.2.2 (out + i) = disk.image (pos + i)
  others : ∀ x, x < out ∨ out + total ≤ x → r.2.2 x = m x

theorem diskstreamerRead_stream {disk : Disk} {pos total out : Nat} {m : Mem}
    (h : pos + total < 2 ^ 31) :
    StreamRead disk pos total out m (diskstreamerRead disk ⟨pos⟩ out total m) := by
  rw [diskstreamerRead_eq disk total pos out m (by omega), Word.int_of_mem (by omega) (by omega)]
  constructor
  · rfl
  · rfl
  · intro i hi
    have hlt : i < (slice disk.image pos total).length := by
      rw [slice_length]
      exact hi
    exact (writeBytes_apply hlt).trans (getElem_slice hlt)
  · intro x hx
    apply writeBytes_apply_of_outside
    rwa [slice_length]

/-- Where the first of two reads ends the second goes on. -/
theorem diskstreamerRead_add {disk : Disk} {pos a b out : Nat} {m : Mem}
    (h : pos + (a + b) < 2 ^ 31) :
    diskstreamerRead disk (diskstreamerRead disk ⟨pos⟩ out a m).2.1 (out + a) b
        (diskstreamerRead disk ⟨pos⟩ out a m).2.2 =
      diskstreamerRead disk ⟨pos⟩ out (a + b : Nat) m := by
  have hjoin := writeBytes_append m out (slice disk.image pos a) (slice disk.image (pos + a) b)
  rw [slice_length, ← slice_add] at hjoin
  rw [diskstreamerRead_eq disk a pos out m (by omega), Word.int_of_mem (by omega) (by omega)]
  dsimp only
  rw [diskstreamerRead_eq disk b (pos + a) (out + a) _ (by omega), hjoin,
    diskstreamerRead_eq disk (a + b) pos out m (by omega), Nat.add_assoc]

/-- **The disk stream is a byte stream**: a read gives the bytes of the disk from the position on,
writes nothing else and moves the position behind them, so it may be made in two. -/
theorem diskstreamer_read_stream {disk : Disk} {pos total out : Nat} {m : Mem}
    (h : pos + total < 2 ^ 31) :
    StreamRead disk pos total out m (diskstreamerRead disk ⟨pos⟩ out total m) ∧
      ∀ a b, a + b = total →
        diskstreamerRead disk (diskstreamerRead disk ⟨pos⟩ out a m).2.1 (out + a) b
            (diskstreamerRead disk ⟨pos⟩ out a m).2.2 =
          diskstreamerRead disk ⟨pos⟩ out total m :=
  ⟨diskstreamerRead_stream h, fun a b hab => by
    subst hab
    exact diskstreamerRead_add h⟩

/-- The last two bytes of a sector and nothing of the next. -/
theorem diskstreamer_read_stream_sector :
    StreamRead { image := fun i => UInt8.ofNat i } 510 2 0x8000 (fun _ => 0)
      (diskstreamerRead { image := fun i => UInt8.ofNat i } ⟨(510 : Nat)⟩ 0x8000 (2 : Nat)
        fun _ => 0) :=
  (diskstreamer_read_stream (by decide)).1

end Pandora
