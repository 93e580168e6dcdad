import Mathlib.Data.Nat.Bitwise
import Mathlib.Logic.Function.Basic

/-!
# Segment descriptors (`gdt/gdt.c`)

`encodeGDTEntry` scatters the base and the limit of a segment over the eight bytes of a descriptor. A
limit above `65536` is given in pages, which loses nothing where its low twelve bits are set; any
other limit of that size stops the kernel. `Descriptor` is what the processor makes of the bytes.
The bytes of the table are numbered from its start.
-/

namespace Pandora

/-! ## Encoding -/

/-- `struct gdt_structured` -/
structure GdtStructured where
  base : UInt32
  limit : UInt32
  type : UInt8
deriving DecidableEq, Repr

/-- `encodeGDTEntry` once the limit is scaled. -/
def encodeGDTEntry.fields (gdt : Nat → UInt8) (target : Nat) (source : GdtStructured) : Nat → UInt8 :=
  let gdt := Function.update gdt target (source.limit &&& 0xFF).toUInt8
  let gdt := Function.update gdt (target + 1) (source.limit >>> 8).toUInt8
  let gdt := Function.update gdt (target + 6)
    (gdt (target + 6) ||| ((source.limit >>> 16) &&& 0x0F).toUInt8)
  let gdt := Function.update gdt (target + 2) (source.base &&& 0xFF).toUInt8
  let gdt := Function.update gdt (target + 3) ((source.base >>> 8) &&& 0xFF).toUInt8
  let gdt := Function.update gdt (target + 4) ((source.base >>> 16) &&& 0xFF).toUInt8
  let gdt := Function.update gdt (target + 7) ((source.base >>> 24) &&& 0xFF).toUInt8
  Function.update gdt (target + 5) source.type

/-- `none` is a panic. -/
def encodeGDTEntry (gdt : Nat → UInt8) (target : Nat) (source : GdtStructured) :
    Option (Nat → UInt8) :=
  if source.limit > 65536 ∧ source.limit &&& 0xFFF ≠ 0xFFF then none
  else
    let gdt := Function.update gdt (target + 6) 0x40
    if source.limit > 65536 then
      some (encodeGDTEntry.fields (Function.update gdt (target + 6) 0xC0) target
        { source with limit := source.limit >>> 12 })
    else some (encodeGDTEntry.fields gdt target source)

/-- The loop of `gdt_structured_to_gdt`: `n = total_entries - i` entries are left. -/
def gdtStructuredToGdt.loop (structuredGdt : Nat → GdtStructured) :
    (n i : Nat) → (Nat → UInt8) → Option (Nat → UInt8)
  | 0, _, gdt => some gdt
  | n + 1, i, gdt =>
    match encodeGDTEntry gdt (8 * i) (structuredGdt i) with
    | none => none
    | some gdt => loop structuredGdt n (i + 1) gdt

def gdtStructuredToGdt (gdt : Nat → UInt8) (structuredGdt : Nat → GdtStructured)
    (totalEntries : Int) : Option (Nat → UInt8) :=
  gdtStructuredToGdt.loop structuredGdt totalEntries.toNat 0 gdt

/-! ## What the processor reads -/

/-- The limit in its twenty bits. -/
def rawLimit (gdt : Nat → UInt8) (a : Nat) : Nat :=
  (gdt a).toNat + 2 ^ 8 * (gdt (a + 1)).toNat + 2 ^ 16 * ((gdt (a + 6)).toNat % 2 ^ 4)

/-- The granularity bit is set. -/
def granular (gdt : Nat → UInt8) (a : Nat) : Bool := 2 ^ 7 ≤ (gdt (a + 6)).toNat

/-- The limit in bytes: one in pages is filled with ones. -/
def decodedLimit (gdt : Nat → UInt8) (a : Nat) : Nat :=
  if granular gdt a then 2 ^ 12 * rawLimit gdt a + (2 ^ 12 - 1) else rawLimit gdt a

def decodedBase (gdt : Nat → UInt8) (a : Nat) : Nat :=
  (gdt (a + 2)).toNat + 2 ^ 8 * (gdt (a + 3)).toNat + 2 ^ 16 * (gdt (a + 4)).toNat +
    2 ^ 24 * (gdt (a + 7)).toNat

/-- The descriptor at `a` is that of the segment. -/
structure Descriptor (gdt : Nat → UInt8) (a : Nat) (source : GdtStructured) : Prop where
  base : decodedBase gdt a = source.base.toNat
  limit : decodedLimit gdt a = source.limit.toNat
  access : gdt (a + 5) = source.type

/-- A limit that passes the check. -/
def Encodable (limit : UInt32) : Prop := limit ≤ 65536 ∨ limit &&& 0xFFF = 0xFFF

/-- Bytes outside the descriptor at `a` are as before. -/
def WritesOnly (gdt gdt' : Nat → UInt8) (a : Nat) : Prop :=
  ∀ j, j < a ∨ a + 8 ≤ j → gdt' j = gdt j

/-! ## Bytes of a word -/

theorem toNat_byte (x k : UInt32) (hk : k.toNat < 32) :
    ((x >>> k) &&& 0xFF).toUInt8.toNat = x.toNat / 2 ^ k.toNat % 2 ^ 8 := by
  have hand : x.toNat / 2 ^ k.toNat % 256 &&& 255 = x.toNat / 2 ^ k.toNat % 256 % 2 ^ 8 :=
    Nat.and_two_pow_sub_one_eq_mod _ 8
  simp [Nat.shiftRight_eq_div_pow, Nat.mod_eq_of_lt hk, hand]

theorem toNat_lowByte (x : UInt32) : (x &&& 0xFF).toUInt8.toNat = x.toNat % 2 ^ 8 := by
  have hand : x.toNat % 256 &&& 255 = x.toNat % 256 % 2 ^ 8 := Nat.and_two_pow_sub_one_eq_mod _ 8
  simp [hand]

/-- The byte behind the lowest, cut off by its type. -/
theorem toNat_secondByte (x : UInt32) : (x >>> 8).toUInt8.toNat = x.toNat / 2 ^ 8 % 2 ^ 8 := by
  simp [Nat.shiftRight_eq_div_pow]

/-- Four bits of the limit, behind the flags. -/
theorem toNat_flags (x : UInt32) {f : UInt8} (hf : f.toNat % 2 ^ 4 = 0) :
    (f ||| ((x >>> 16) &&& 0x0F).toUInt8).toNat = f.toNat + x.toNat / 2 ^ 16 % 2 ^ 4 := by
  have hand : x.toNat / 65536 % 256 &&& 15 = x.toNat / 65536 % 256 % 2 ^ 4 :=
    Nat.and_two_pow_sub_one_eq_mod _ 4
  have hor := Nat.two_pow_add_eq_or_of_lt (Nat.mod_lt (x.toNat / 2 ^ 16) (Nat.two_pow_pos 4))
    (f.toNat / 2 ^ 4)
  have hf' : 2 ^ 4 * (f.toNat / 2 ^ 4) = f.toNat := by omega
  have hmod : x.toNat / 65536 % 256 % 2 ^ 4 = x.toNat / 2 ^ 16 % 2 ^ 4 := by omega
  rw [hf'] at hor
  rw [hor, ← hmod, ← hand]
  simp [Nat.shiftRight_eq_div_pow]

/-! ## One descriptor -/

section

variable {gdt gdt' : Nat → UInt8} {a : Nat} {source : GdtStructured}

/-- The bytes of a descriptor, with the flags that were there before. -/
structure Encoded (gdt gdt' : Nat → UInt8) (a : Nat) (source : GdtStructured) : Prop where
  limitLow : gdt' a = (source.limit &&& 0xFF).toUInt8
  limitHigh : gdt' (a + 1) = (source.limit >>> 8).toUInt8
  baseLow : gdt' (a + 2) = (source.base &&& 0xFF).toUInt8
  baseSecond : gdt' (a + 3) = ((source.base >>> 8) &&& 0xFF).toUInt8
  baseThird : gdt' (a + 4) = ((source.base >>> 16) &&& 0xFF).toUInt8
  access : gdt' (a + 5) = source.type
  flags : gdt' (a + 6) = gdt (a + 6) ||| ((source.limit >>> 16) &&& 0x0F).toUInt8
  baseHigh : gdt' (a + 7) = ((source.base >>> 24) &&& 0xFF).toUInt8
  outside : WritesOnly gdt gdt' a

theorem fields_encoded (gdt : Nat → UInt8) (a : Nat) (source : GdtStructured) :
    Encoded gdt (encodeGDTEntry.fields gdt a source) a source := by
  unfold encodeGDTEntry.fields
  refine ⟨?_, ?_, ?_, ?_, ?_, ?_, ?_, ?_, fun j hj => ?_⟩
  case refine_9 =>
    have hne : ∀ k < 8, j ≠ a + k := fun k hk => by omega
    have h0 : j ≠ a := hne 0 (by decide)
    simp only [Function.update_apply, h0, hne _ (show 1 < 8 by decide), hne _ (show 2 < 8 by decide),
      hne _ (show 3 < 8 by decide), hne _ (show 4 < 8 by decide), hne _ (show 5 < 8 by decide),
      hne _ (show 6 < 8 by decide), hne _ (show 7 < 8 by decide), if_false]
  all_goals simp

/-- The base does not depend on the limit. -/
theorem Encoded.base (h : Encoded gdt gdt' a source) : decodedBase gdt' a = source.base.toNat := by
  have hlt := source.base.toNat_lt
  have h1 := toNat_byte source.base 8 (by decide)
  have h2 := toNat_byte source.base 16 (by decide)
  have h3 := toNat_byte source.base 24 (by decide)
  unfold decodedBase
  rw [h.baseLow, h.baseSecond, h.baseThird, h.baseHigh, toNat_lowByte, h1, h2, h3]
  simp only [UInt32.reduceToNat]
  omega

/-- A limit of at most twenty bits is there, and the flags are. -/
theorem Encoded.raw (h : Encoded gdt gdt' a source) (hf : (gdt (a + 6)).toNat % 2 ^ 4 = 0)
    (hlimit : source.limit.toNat < 2 ^ 20) :
    rawLimit gdt' a = source.limit.toNat ∧
      (granular gdt' a ↔ 2 ^ 7 ≤ (gdt (a + 6)).toNat) := by
  have hflags := toNat_flags source.limit hf
  have hlt := (gdt (a + 6)).toNat_lt
  constructor
  · unfold rawLimit
    rw [h.limitLow, h.limitHigh, h.flags, toNat_lowByte, toNat_secondByte, hflags]
    omega
  · unfold granular
    rw [h.flags, hflags, decide_eq_true_iff]
    omega

/-- **A descriptor is what was encoded.** -/
theorem encodeGDTEntry_descriptor (gdt : Nat → UInt8) (a : Nat) (h : Encodable source.limit) :
    ∃ gdt', encodeGDTEntry gdt a source = some gdt' ∧ Descriptor gdt' a source ∧
      WritesOnly gdt gdt' a := by
  have hcheck : ¬ (source.limit > 65536 ∧ source.limit &&& 0xFFF ≠ 0xFFF) := by
    rintro ⟨hgt, hne⟩
    rcases h with hle | hones
    · exact absurd hgt (UInt32.not_lt.2 hle)
    · exact hne hones
  have hset : ∀ {gdt' : Nat → UInt8} {v : UInt8}, (∀ j, j ≠ a + 6 → gdt' j = gdt j) →
      ∀ {gdt'' : Nat → UInt8}, WritesOnly (Function.update gdt' (a + 6) v) gdt'' a →
      WritesOnly gdt gdt'' a := by
    intro gdt' v hsame gdt'' hw j hj
    rw [hw j hj, Function.update_of_ne (by omega), hsame j (by omega)]
  unfold encodeGDTEntry
  rw [if_neg hcheck]
  dsimp only
  by_cases hgt : source.limit > 65536
  · -- the limit is given in pages, and its low twelve bits are ones
    have hones : source.limit.toNat % 2 ^ 12 = 4095 := by
      have hbits := congrArg UInt32.toNat (h.resolve_left (UInt32.not_le.2 hgt))
      rw [UInt32.toNat_and] at hbits
      exact (Nat.and_two_pow_sub_one_eq_mod source.limit.toNat 12).symm.trans hbits
    have hshift : (source.limit >>> 12).toNat = source.limit.toNat / 2 ^ 12 := by
      simp [Nat.shiftRight_eq_div_pow]
    have hlt := source.limit.toNat_lt
    rw [if_pos hgt]
    have he := fields_encoded (Function.update (Function.update gdt (a + 6) 0x40) (a + 6) 0xC0) a
      { source with limit := source.limit >>> 12 }
    obtain ⟨hraw, hgran⟩ := he.raw (by simp) (by rw [hshift]; omega)
    rw [hshift] at hraw
    refine ⟨_, rfl, ⟨he.base, ?_, he.access⟩, hset (fun j hj => Function.update_of_ne hj _ _) he.outside⟩
    unfold decodedLimit
    rw [if_pos (hgran.2 (by simp)), hraw]
    omega
  · have hle : source.limit.toNat ≤ 65536 := UInt32.le_iff_toNat_le.1 (UInt32.not_lt.1 hgt)
    rw [if_neg hgt]
    have he := fields_encoded (Function.update gdt (a + 6) 0x40) a source
    obtain ⟨hraw, hgran⟩ := he.raw (by simp) (by omega)
    refine ⟨_, rfl, ⟨he.base, ?_, he.access⟩, hset (fun _ _ => rfl) he.outside⟩
    unfold decodedLimit
    rw [if_neg (fun hg => absurd (hgran.1 hg) (by simp)), hraw]

end

/-! ## The table -/

section

variable {structuredGdt : Nat → GdtStructured} {n i : Nat}

theorem Descriptor.congr {gdt gdt' : Nat → UInt8} {a : Nat} {source : GdtStructured}
    (h : Descriptor gdt a source) (hsame : ∀ j, a ≤ j → j < a + 8 → gdt' j = gdt j) :
    Descriptor gdt' a source := by
  have hk : ∀ k < 8, gdt' (a + k) = gdt (a + k) := fun k hk => hsame _ (by omega) (by omega)
  have h0 : gdt' a = gdt a := hk 0 (by decide)
  refine ⟨?_, ?_, ?_⟩
  · rw [← h.base]
    unfold decodedBase
    rw [hk 2 (by decide), hk 3 (by decide), hk 4 (by decide), hk 7 (by decide)]
  · rw [← h.limit]
    unfold decodedLimit granular rawLimit
    rw [h0, hk 1 (by decide), hk 6 (by decide)]
  · rw [hk 5 (by decide), h.access]

/-- The entries from `i` on. -/
theorem gdtStructuredToGdt_loop_spec (n : Nat) : ∀ (i : Nat) (gdt : Nat → UInt8),
    (∀ k < n, Encodable (structuredGdt (i + k)).limit) →
    ∃ gdt', gdtStructuredToGdt.loop structuredGdt n i gdt = some gdt' ∧
      (∀ k < n, Descriptor gdt' (8 * (i + k)) (structuredGdt (i + k))) ∧
      ∀ j, j < 8 * i ∨ 8 * (i + n) ≤ j → gdt' j = gdt j := by
  induction n with
  | zero =>
    intro i gdt _
    exact ⟨gdt, rfl, fun k hk => absurd hk (Nat.not_lt_zero k), fun _ _ => rfl⟩
  | succ n ih =>
    intro i gdt h
    obtain ⟨gdt₁, he, hdescriptor, houtside⟩ := encodeGDTEntry_descriptor gdt (8 * i)
      (show Encodable (structuredGdt i).limit from h 0 (Nat.succ_pos n))
    obtain ⟨gdt₂, he₂, hrest, hframe⟩ := ih (i + 1) gdt₁ fun k hk => by
      have := h (k + 1) (by omega)
      rwa [show i + (k + 1) = i + 1 + k by omega] at this
    refine ⟨gdt₂, ?_, fun k hk => ?_, fun j hj => ?_⟩
    · unfold gdtStructuredToGdt.loop
      rw [he]
      exact he₂
    · cases k with
      | zero =>
        -- the later entries leave the bytes of this one
        exact hdescriptor.congr fun j _ hj => hframe j (.inl (by omega))
      | succ k =>
        rw [show i + (k + 1) = i + 1 + k by omega]
        exact hrest k (by omega)
    · rw [hframe j (by omega), houtside j (by omega)]

/-- **The encoding loses nothing**: each descriptor of the table decodes to its entry, each entry writes
its own eight bytes, and no other bytes change. -/
theorem gdt_encoding_lossless (gdt : Nat → UInt8) (totalEntries : Int)
    (h : ∀ i < totalEntries.toNat, Encodable (structuredGdt i).limit) :
    ∃ gdt', gdtStructuredToGdt gdt structuredGdt totalEntries = some gdt' ∧
      (∀ i < totalEntries.toNat, Descriptor gdt' (8 * i) (structuredGdt i)) ∧
      (∀ i < totalEntries.toNat, ∀ g, ∃ g', encodeGDTEntry g (8 * i) (structuredGdt i) = some g' ∧
        WritesOnly g g' (8 * i)) ∧
      ∀ j, 8 * totalEntries.toNat ≤ j → gdt' j = gdt j := by
  obtain ⟨gdt', he, hdescriptor, hframe⟩ := gdtStructuredToGdt_loop_spec totalEntries.toNat 0 gdt
    fun k hk => by
      rw [Nat.zero_add]
      exact h k hk
  refine ⟨gdt', he, fun i hi => ?_, fun i hi g => ?_, fun j hj => hframe j (.inr (by omega))⟩
  · have := hdescriptor i hi
    rwa [Nat.zero_add] at this
  · obtain ⟨g', hg, -, hwrites⟩ := encodeGDTEntry_descriptor g (8 * i) (h i hi)
    exact ⟨g', hg, hwrites⟩

end

/-- The segments of the kernel, with its task segment at `0x12345678`. -/
def gdtStructured (i : Nat) : GdtStructured :=
  match i with
  | 0 => ⟨0x00, 0x00, 0x00⟩
  | 1 => ⟨0x00, 0xFFFFFFFF, 0x9A⟩
  | 2 => ⟨0x00, 0xFFFFFFFF, 0x92⟩
  | 3 => ⟨0x00, 0xFFFFFFFF, 0xF8⟩
  | 4 => ⟨0x00, 0xFFFFFFFF, 0xF2⟩
  | _ => ⟨0x12345678, 104, 0xE9⟩

theorem gdt_encoding_lossless_kernel :
    ∃ gdt', gdtStructuredToGdt (fun _ => 0) gdtStructured 6 = some gdt' ∧
      (∀ i < (6 : Int).toNat, Descriptor gdt' (8 * i) (gdtStructured i)) ∧
      (∀ i < (6 : Int).toNat, ∀ g, ∃ g', encodeGDTEntry g (8 * i) (gdtStructured i) = some g' ∧
        WritesOnly g g' (8 * i)) ∧
      ∀ j, 8 * (6 : Int).toNat ≤ j → gdt' j = 0 := by
  refine gdt_encoding_lossless (fun _ => 0) 6 fun i hi => ?_
  have hall : ∀ i < 6, (gdtStructured i).limit ≤ 65536 ∨ (gdtStructured i).limit &&& 0xFFF = 0xFFF := by
    decide
  exact hall i hi

end Pandora
