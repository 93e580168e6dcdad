import Pandora.Paging.Table

/-!
# Mapping ranges

`mapped M v phys n flags` is the map `M` with the `n` pages from `v` on, counted modulo `2 ^ 20`,
sent to the consecutive frames from `phys` on. `Mapped` says that a memory differs from another in
the entries of one directory only, which have become a given map. `mapRange_loop` is the loop of
`paging_map_range` in these terms: one `paging_map` sets the first page, and the rest of the range
starts one page and one frame further (`mapped_succ`).
-/

namespace Pandora

open ByteMem

/-- How many pages after page `v`, modulo `2 ^ 20`, page `p` is. -/
def pageIndex (v p : Nat) : Nat := (p + 2 ^ 20 - v) % 2 ^ 20

def mapped (M : Nat → Nat) (v phys n flags : Nat) : Nat → Nat := fun p =>
  if pageIndex v p < n then Word.add phys (4096 * pageIndex v p) ||| flags else M p

/-- `m'` is `m` with the entries of the directory changed to `M`. -/
structure Mapped (m m' : Mem) (dir f : Nat) (table : Nat → Nat) (M : Nat → Nat) : Prop where
  pageDir : PageDir m' dir f table
  entries : ∀ p < 2 ^ 20, pageEntry m' table p = M p
  outside : ∀ x, (∀ i < 1024, x < table i ∨ table i + 4096 ≤ x) → m' x = m x

section

variable {m m' m'' : Mem} {dir f chunk virt phys flags : Nat} {table M M' : Nat → Nat}

theorem Mapped.refl (h : PageDir m dir f table) : Mapped m m dir f table (pageEntry m table) where
  pageDir := h
  entries := fun _ _ => rfl
  outside := fun _ _ => rfl

theorem Mapped.trans (h : Mapped m m' dir f table M) (h' : Mapped m' m'' dir f table M') :
    Mapped m m'' dir f table M' where
  pageDir := h'.pageDir
  entries := h'.entries
  outside := fun x hx => (h'.outside x hx).trans (h.outside x hx)

theorem Mapped.congr (h : Mapped m m' dir f table M) (hM : ∀ p < 2 ^ 20, M p = M' p) :
    Mapped m m' dir f table M' where
  pageDir := h.pageDir
  entries := fun p hp => (h.entries p hp).trans (hM p hp)
  outside := h.outside

/-- The word of the chunk lies outside the tables. -/
structure ChunkOf (m : Mem) (chunk dir : Nat) (table : Nat → Nat) : Prop where
  directory : read32 m chunk = dir
  apart : ∀ i < 1024, chunk + 4 ≤ table i ∨ table i + 4096 ≤ chunk

theorem ChunkOf.mapped (hc : ChunkOf m chunk dir table) (h : Mapped m m' dir f table M) :
    ChunkOf m' chunk dir table where
  directory := by
    rw [← hc.directory]
    refine read32_congr fun j hj => h.outside _ fun i hi => ?_
    have := hc.apart i hi
    omega
  apart := hc.apart

theorem or_lt {a b : Nat} (ha : a < 2 ^ 32) (hb : b < 4096) : a ||| b < 2 ^ 32 :=
  Nat.or_lt_two_pow ha (by omega)

/-! ## One page -/

theorem pagingSet_mapped (h : PageDir m dir f table) (hv : virt < 2 ^ 32)
    (hal : virt % 4096 = 0) {val : Nat} (hval : val < 2 ^ 32) :
    ∃ m', pagingSet m dir virt val = (allOk, m') ∧
      Mapped m m' dir f table fun p => if p = virt / 4096 then val else pageEntry m table p := by
  have hp : virt / 4096 < 2 ^ 20 := by omega
  refine ⟨_, h.set hv hal, h.write hp, fun q hq => h.pageEntry_write hp hq hval, fun x hx => ?_⟩
  have := hx (virt / 4096 / 1024) (by omega)
  have := entryAddr_mem table (virt / 4096)
  exact write32_apply (by omega)

theorem pagingSet_rejected {val : Nat} (h : virt % 4096 ≠ 0) :
    pagingSet m dir virt val = (-einvarg, m) := by
  unfold pagingSet pagingIsAligned
  rw [decide_eq_false h]
  rfl

theorem pagingMap_rejected (h : virt % 4096 ≠ 0 ∨ phys % 4096 ≠ 0) :
    pagingMap m chunk virt phys flags = (-einvarg, m) := if_pos h

theorem pagingMap_mapped (h : PageDir m dir f table) (hc : ChunkOf m chunk dir table)
    (hv : virt < 2 ^ 32) (hval : virt % 4096 = 0) (hp : phys < 2 ^ 32) (hpal : phys % 4096 = 0)
    (hf : flags < 4096) :
    ∃ m', pagingMap m chunk virt phys flags = (allOk, m') ∧
      Mapped m m' dir f table fun p =>
        if p = virt / 4096 then phys ||| flags else pageEntry m table p := by
  obtain ⟨m', he, hm⟩ := pagingSet_mapped h hv hval (or_lt hp hf)
  refine ⟨m', ?_, hm⟩
  unfold pagingMap
  rw [if_neg (by omega), hc.directory, he]

/-! ## A range -/

theorem mapped_zero (M : Nat → Nat) (v phys flags : Nat) : mapped M v phys 0 flags = M :=
  funext fun _ => if_neg (Nat.not_lt_zero _)

/-- The first page of a range, then the rest of it. -/
theorem mapped_succ {v n p : Nat} (M : Nat → Nat) (hv : v < 2 ^ 20) (hp : p < 2 ^ 20)
    (hphys : phys < 2 ^ 32) :
    mapped (fun p => if p = v then phys ||| flags else M p) ((v + 1) % 2 ^ 20)
      (Word.add phys 4096) n flags p = mapped M v phys (n + 1) flags p := by
  unfold mapped
  beta_reduce
  by_cases hpv : p = v
  · -- the whole range may wrap round to its first page, with the same frame
    have h0 : pageIndex v p = 0 := by unfold pageIndex; omega
    have h1 : pageIndex ((v + 1) % 2 ^ 20) p = 2 ^ 20 - 1 := by unfold pageIndex; omega
    have he : Word.add (Word.add phys 4096) (4096 * (2 ^ 20 - 1)) = phys := by
      rw [Word.add_eq, Word.add_eq]
      omega
    rw [if_pos hpv, h0, h1, he, if_pos (Nat.zero_lt_succ n), Word.add_of_lt (by omega)]
    split <;> rfl
  · have h1 : pageIndex v p = pageIndex ((v + 1) % 2 ^ 20) p + 1 := by unfold pageIndex; omega
    have he : Word.add (Word.add phys 4096) (4096 * pageIndex ((v + 1) % 2 ^ 20) p) =
        Word.add phys (4096 * pageIndex v p) := by
      rw [Word.add_eq, Word.add_eq, Word.add_eq, h1]
      omega
    rw [if_neg hpv, he, h1]
    simp only [Nat.add_lt_add_iff_right]

/-- A range of aligned pages is mapped whole. -/
theorem mapRange_loop (hf : flags < 4096) :
    ∀ (n virt phys : Nat) (res : Int) (m : Mem), PageDir m dir f table →
      ChunkOf m chunk dir table → virt < 2 ^ 32 → virt % 4096 = 0 → phys < 2 ^ 32 →
      phys % 4096 = 0 →
      ∃ m', pagingMapRange.loop chunk flags n virt phys res m =
          (if n = 0 then res else allOk, m') ∧
        Mapped m m' dir f table (mapped (pageEntry m table) (virt / 4096) phys n flags)
  | 0, virt, phys, res, m, h, _, _, _, _, _ => ⟨m, rfl, by rw [mapped_zero]; exact .refl h⟩
  | n + 1, virt, phys, res, m, h, hc, hv, hval, hp, hpal => by
    obtain ⟨m₁, he₁, hm₁⟩ := pagingMap_mapped h hc hv hval hp hpal hf
    have hva : Word.add virt 4096 = (virt + 4096) % 2 ^ 32 := Word.add_eq _ _
    have hpa : Word.add phys 4096 = (phys + 4096) % 2 ^ 32 := Word.add_eq _ _
    obtain ⟨m₂, he₂, hm₂⟩ := mapRange_loop hf n (Word.add virt 4096) (Word.add phys 4096) allOk m₁
      hm₁.pageDir (hc.mapped hm₁) (by omega) (by omega) (by omega) (by omega)
    refine ⟨m₂, ?_, (hm₁.trans hm₂).congr fun p hp' => ?_⟩
    · unfold pagingMapRange.loop
      rw [he₁]
      dsimp only
      rw [if_neg (by decide), he₂, ite_self, if_neg (by omega)]
    · rw [← mapped_succ _ (by omega) hp' hp, show Word.add virt 4096 / 4096 =
        (virt / 4096 + 1) % 2 ^ 20 by omega]
      unfold mapped
      rw [hm₁.entries p hp']

theorem pagingMapRange_mapped (h : PageDir m dir f table) (hc : ChunkOf m chunk dir table)
    (hv : virt < 2 ^ 32) (hval : virt % 4096 = 0) (hp : phys < 2 ^ 32) (hpal : phys % 4096 = 0)
    (hf : flags < 4096) (count : Int) :
    ∃ m', pagingMapRange m chunk virt phys count flags = (allOk, m') ∧
      Mapped m m' dir f table
        (mapped (pageEntry m table) (virt / 4096) phys count.toNat flags) := by
  obtain ⟨m', he, hm⟩ := mapRange_loop hf count.toNat virt phys 0 m h hc hv hval hp hpal
  refine ⟨m', he.trans ?_, hm⟩
  rw [show (0 : Int) = allOk from rfl, ite_self]

/-- Nothing is mapped where the count is not positive, or where an address is not aligned. -/
theorem pagingMapRange_none {count : Int}
    (h : count ≤ 0 ∨ virt % 4096 ≠ 0 ∨ phys % 4096 ≠ 0) :
    pagingMapRange m chunk virt phys count flags =
      (if count ≤ 0 then allOk else -einvarg, m) := by
  unfold pagingMapRange
  by_cases hc : count ≤ 0
  · rw [if_pos hc, show count.toNat = 0 by omega]
    rfl
  · obtain ⟨n, hn⟩ : ∃ n, count.toNat = n + 1 := ⟨count.toNat - 1, by omega⟩
    rw [if_neg hc, hn]
    unfold pagingMapRange.loop
    rw [pagingMap_rejected (h.resolve_left hc)]
    exact if_pos (by decide)

/-- `paging_map_to` is the range from `phys` to `physEnd`, where it is one. -/
theorem pagingMapTo_eq {physEnd : Nat} (hv : virt % 4096 = 0) (hp : phys % 4096 = 0)
    (he : physEnd % 4096 = 0) (hle : phys ≤ physEnd) (hlt : physEnd < 2 ^ 32) :
    pagingMapTo m chunk virt phys physEnd flags =
      pagingMapRange m chunk virt phys ((physEnd - phys) / 4096 : Nat) flags := by
  unfold pagingMapTo
  rw [if_neg (by omega), if_neg (by omega), if_neg (by omega), if_neg (by omega)]
  dsimp only
  rw [Word.sub_of_le hle hlt]

theorem pagingMapTo_rejected {physEnd : Nat} (h : ¬ (virt % 4096 = 0 ∧ phys % 4096 = 0 ∧
    physEnd % 4096 = 0 ∧ phys ≤ physEnd)) :
    pagingMapTo m chunk virt phys physEnd flags = (-einvarg, m) := by
  unfold pagingMapTo
  split_ifs <;> first | rfl | omega

end

end Pandora
