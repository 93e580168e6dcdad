import Pandora.Heap.Defs

/-!
# The free-run search

`heap_get_start_block` keeps the length `bc` of the free run it stands behind and returns when that
reaches the request. `startBlock_spec` says what comes out, for every table and request:

* `found s`: the lowest `s` with the requested blocks free from `s` on;
* `short s`: there is no such run (or nothing was requested), and the table ends in the free run
  from `s` on: it is returned all the same, too short for the request;
* `none`: there is no such run and the last block is taken (or there is no block).

The loop invariant is `Scan`: the `bc` blocks behind `i` are free, the one before them is not, and
no run of the requested length ends at or before `i`.
-/

namespace Pandora

/-- The entry is free as the search sees it: only the low four bits count. -/
abbrev Free (entry : UInt8) : Prop := heapGetEntryType entry = entryFree

theorem free_entryFree : Free entryFree := by decide

/-- The `n` entries from `s` on are free. -/
def FreeRun (entries : Nat → UInt8) (s n : Nat) : Prop := ∀ k < n, Free (entries (s + k))

/-- Some run of `n` free entries lies below `total`. -/
def HasRun (entries : Nat → UInt8) (total n : Nat) : Prop :=
  ∃ s, s + n ≤ total ∧ FreeRun entries s n

theorem FreeRun.mono {entries : Nat → UInt8} {s n s' n' : Nat} (h : FreeRun entries s n)
    (hs : s ≤ s') (hn : s' + n' ≤ s + n) : FreeRun entries s' n' := by
  intro k hk
  have := h (s' - s + k) (by omega)
  rwa [show s + (s' - s + k) = s' + k by omega] at this

/-- The results of `heap_get_start_block` for a request of `n` blocks (module doc). -/
inductive StartBlock (entries : Nat → UInt8) (total n : Nat) : Int → Prop
  | found (s : Nat) (hn : 1 ≤ n) (hs : s + n ≤ total) (hrun : FreeRun entries s n)
      (hfirst : ∀ s' < s, ¬ FreeRun entries s' n) : StartBlock entries total n s
  | short (s : Nat) (hs : s < total) (htail : FreeRun entries s (total - s))
      (hbefore : s = 0 ∨ ¬ Free (entries (s - 1))) (hno : 1 ≤ n → ¬ HasRun entries total n) :
      StartBlock entries total n s
  | none (hlast : total = 0 ∨ ¬ Free (entries (total - 1)))
      (hno : 1 ≤ n → ¬ HasRun entries total n) : StartBlock entries total n (-enomem)

/-! ## The loop -/

/-- The state of the search before block `i` (module doc). -/
structure Scan (entries : Nat → UInt8) (n i bc : Nat) : Prop where
  le : bc ≤ i
  run : FreeRun entries (i - bc) bc
  before : i - bc = 0 ∨ ¬ Free (entries (i - bc - 1))
  no : 1 ≤ n → ∀ s, s + n ≤ i → ¬ FreeRun entries s n

/-- `bs` as the loop keeps it, from the length of the run. -/
def runStart (i bc : Nat) : Int := if bc = 0 then -1 else (i - bc : Nat)

theorem Scan.taken {entries : Nat → UInt8} {n i bc : Nat} (h : Scan entries n i bc)
    (ht : ¬ Free (entries i)) : Scan entries n (i + 1) 0 where
  le := Nat.zero_le _
  run := fun k hk => absurd hk (Nat.not_lt_zero k)
  before := .inr (by simpa using ht)
  no := by
    intro hn s hs hrun
    rcases Nat.lt_or_ge i (s + n) with hi | hi
    · have := hrun (i - s) (by omega)
      rw [show s + (i - s) = i by omega] at this
      exact ht this
    · exact h.no hn s hi hrun

theorem Scan.free {entries : Nat → UInt8} {n i bc : Nat} (h : Scan entries n i bc)
    (hf : Free (entries i)) (hne : bc + 1 ≠ n) : Scan entries n (i + 1) (bc + 1) where
  le := by have := h.le; omega
  run := by
    have := h.le
    intro k hk
    rw [show i + 1 - (bc + 1) + k = i - bc + k by omega]
    rcases Nat.lt_or_ge k bc with hkb | hkb
    · exact h.run k hkb
    · rwa [show i - bc + k = i by omega]
  before := by
    have := h.before
    rwa [show i + 1 - (bc + 1) = i - bc by omega]
  no := by
    intro hn s hs hrun
    have hle := h.le
    rcases Nat.lt_or_ge i (s + n) with hi | hi
    · -- the run would end exactly here, so it is longer than the scanned one
      have hbc : bc < n := by
        rcases Nat.lt_or_ge bc n with hb | hb
        · exact hb
        · have hend : FreeRun entries (i - n) n := h.run.mono (by omega) (by omega)
          exact absurd hend (h.no hn (i - n) (by omega))
      rcases h.before with h0 | ht
      · omega
      · have hk := hrun (i - bc - 1 - s) (by omega)
        rw [show s + (i - bc - 1 - s) = i - bc - 1 by omega] at hk
        exact ht hk
    · exact h.no hn s hi hrun

theorem getStartBlock_loop_spec {entries : Nat → UInt8} {n total : Nat} :
    ∀ (m i bc : Nat), i + m = total → Scan entries n i bc →
      let bs := heapGetStartBlock.loop entries n m i bc (runStart i bc)
      StartBlock entries total n (if bs = -1 then -enomem else bs)
  | 0, i, bc, hi, h => by
    have hno : 1 ≤ n → ¬ HasRun entries total n :=
      fun hn ⟨s, hs, hrun⟩ => h.no hn s (by omega) hrun
    have hle := h.le
    rcases Nat.eq_zero_or_pos bc with h0 | h0
    · subst h0
      simp only [heapGetStartBlock.loop, runStart, if_true]
      refine .none ?_ hno
      have hb := h.before
      rw [show i - 0 = total by omega] at hb
      exact hb
    · have hne : ¬ ((i - bc : Nat) : Int) = -1 := by omega
      simp only [heapGetStartBlock.loop, runStart, if_neg (show ¬ bc = 0 by omega), if_neg hne]
      refine .short (i - bc) (by omega) ?_ h.before hno
      rw [show total - (i - bc) = bc by omega]
      exact h.run
  | m + 1, i, bc, hi, h => by
    have hle := h.le
    simp only [heapGetStartBlock.loop]
    by_cases hf : Free (entries i)
    · rw [if_neg (not_not.2 hf)]
      have hbs : (if runStart i bc = -1 then (i : Int) else runStart i bc) = (i - bc : Nat) := by
        unfold runStart
        split <;> rename_i h0
        · simp [h0]
        · rw [if_neg (by omega)]
      rw [hbs]
      by_cases hn : bc + 1 = n
      · -- the run is long enough: no earlier start has one
        rw [if_pos hn, if_neg (by omega)]
        refine .found (i - bc) (by omega) (by omega) ?_ fun s hs hrun => ?_
        · intro k hk
          rcases Nat.lt_or_ge k bc with hkb | hkb
          · exact h.run k hkb
          · rwa [show i - bc + k = i by omega]
        · exact h.no (by omega) s (by omega) hrun
      · rw [if_neg hn]
        have hstart : ((i - bc : Nat) : Int) = runStart (i + 1) (bc + 1) := by
          unfold runStart
          rw [if_neg (by omega)]
          omega
        rw [hstart]
        exact getStartBlock_loop_spec m (i + 1) (bc + 1) (by omega) (h.free hf hn)
    · rw [if_pos hf, show (-1 : Int) = runStart (i + 1) 0 from rfl]
      exact getStartBlock_loop_spec m (i + 1) 0 (by omega) (h.taken hf)

/-- **The search**, for every table and request. -/
theorem startBlock_spec (heap : Heap) (n : Nat) :
    StartBlock heap.table.entries heap.table.total n (heapGetStartBlock heap n) := by
  have h0 : Scan heap.table.entries n 0 0 :=
    { le := Nat.le_refl _
      run := fun k hk => absurd hk (Nat.not_lt_zero k)
      before := .inl rfl
      no := fun hn s hs => absurd hs (by omega) }
  exact getStartBlock_loop_spec heap.table.total 0 0 (by omega) h0

end Pandora
