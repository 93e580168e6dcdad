import Pandora.Process.Outcome

/-!
# All processes at once

`World owned rest K₀ K obj dir table`: the process in slot `s` holds the allocations `obj s`, no two of
which overlap, whatever process they are of; besides them and the blocks of the file layer only the
`rest` is taken, which is as it was in the kernel `K₀`. Work on one process is work in the scope of
its allocations, in which those of the others are part of the rest (`Scope.part`); what it leaves is put
back among them (`Scope.whole`).
-/

namespace Pandora

open ByteMem

/-! ## Parts of a family -/

section

variable {σ ι κ : Type} {owned : σ → Nat → Prop} {rest : Nat → Prop} {K₀ K K' : Kernel σ}
  {obj : κ → ι → Option (Nat × Nat)} {obj' : ι → Option (Nat × Nat)} {s : κ}

/-- The taken blocks that are neither the file layer's nor in scope. -/
def Others (owned : σ → Nat → Prop) (K : Kernel σ) (obj : ι → Option (Nat × Nat)) (b : Nat) : Prop :=
  b < 25600 ∧ ¬ Free (K.entries b) ∧ ¬ owned K.files b ∧ ∀ i, ¬ InChunk (obj i) b

/-- Work on one part of a family. -/
theorem Scope.part (h : Scope owned rest K₀ K fun i : κ × ι => obj i.1 i.2) (s : κ) :
    Scope owned (Others owned K (obj s)) K K (obj s) :=
  .init h.tidy (fun i b n hi => h.chain (s, i) b n hi)
    (fun i i' b n n' hi hi' => congrArg Prod.snd (h.inj (s, i) (s, i') b n n' hi hi'))
    fun i j hj => (h.apart (s, i) j hj).2

/-- A block of another part is one of the others. -/
theorem Scope.others (h : Scope owned rest K₀ K fun i : κ × ι => obj i.1 i.2) {s' : κ} (hs : s' ≠ s)
    {i : ι} {j : Nat} (hj : InChunk (obj s' i) j) : Others owned K (obj s) j := by
  have howned := (h.apart (s', i) j hj).2
  obtain ⟨b, n, hi, h1, h2⟩ := hj
  have hle := (h.chain (s', i) b n hi).1
  refine ⟨by omega, h.not_free (i := (s', i)) hi h1 h2, howned, ?_⟩
  rintro i' ⟨b', n', hi', h1', h2'⟩
  have := h.disjoint (i := (s', i)) (k := (s, i')) hi hi' fun he => hs (congrArg Prod.fst he)
  omega

theorem Scope.rest_others (h : Scope owned rest K₀ K fun i : κ × ι => obj i.1 i.2) {j : Nat}
    (hj : rest j) : Others owned K (obj s) j := by
  obtain ⟨hlt, hf, ho⟩ := h.taken j hj
  exact ⟨hlt, hf, ho, fun i hi => (h.apart (s, i) j hi).1 hj⟩

/-- The part that was worked on is put back. -/
theorem Scope.whole [DecidableEq κ] (h : Scope owned rest K₀ K fun i : κ × ι => obj i.1 i.2)
    (h' : Scope owned (Others owned K (obj s)) K K' obj') :
    Scope owned rest K₀ K' fun i : κ × ι => Function.update obj s obj' i.1 i.2 := by
  have hself : Function.update obj s obj' s = obj' := Function.update_self _ _ _
  have hother : ∀ {s'}, s' ≠ s → Function.update obj s obj' s' = obj s' := fun hs =>
    Function.update_of_ne hs _ _
  -- a chunk is one of the part, or of another part
  have hchunk : ∀ {i : κ × ι} {j}, InChunk (Function.update obj s obj' i.1 i.2) j →
      (i.1 = s ∧ InChunk (obj' i.2) j) ∨ (i.1 ≠ s ∧ InChunk (obj i.1 i.2) j) := fun {i j} hj => by
    by_cases hs : i.1 = s
    · rw [hs, hself] at hj
      exact .inl ⟨hs, hj⟩
    · rw [hother hs] at hj
      exact .inr ⟨hs, hj⟩
  refine ⟨h'.tidy, fun i b n hi => ?_, fun i i' b n n' hi hi' => ?_, fun i j hj => ?_, fun b hb => ?_,
    fun b hb => ?_, fun b hb hf => ?_⟩
  · by_cases hs : i.1 = s
    · rw [hs, hself] at hi
      exact h'.chain i.2 b n hi
    · rw [hother hs] at hi
      obtain ⟨hle, hc⟩ := h.chain i b n hi
      exact ⟨hle, hc.congr fun j hj hj' _ => (h'.same j (h.others hs ⟨b, n, hi, hj, hj'⟩)).1⟩
  · have hpos : ∀ {i : κ × ι} {b n}, Function.update obj s obj' i.1 i.2 = some (b, n) → 1 ≤ n :=
      fun {i b n} hi => by
        by_cases hs : i.1 = s
        · rw [hs, hself] at hi
          exact (h'.pos hi).1
        · rw [hother hs] at hi
          exact (h.pos (i := i) hi).1
    have hmem := hpos hi
    have hmem' := hpos hi'
    have hj : InChunk (Function.update obj s obj' i.1 i.2) b := ⟨b, n, hi, Nat.le_refl b, by omega⟩
    have hj' : InChunk (Function.update obj s obj' i'.1 i'.2) b :=
      ⟨b, n', hi', Nat.le_refl b, by omega⟩
    rcases hchunk hj with ⟨hs, hin⟩ | ⟨hs, hin⟩ <;> rcases hchunk hj' with ⟨hs', hin'⟩ | ⟨hs', hin'⟩
    · rw [hs, hself] at hi
      rw [hs', hself] at hi'
      exact Prod.ext (hs.trans hs'.symm) (h'.inj _ _ _ _ _ hi hi')
    · exact absurd (h.others hs' hin') (h'.apart _ _ hin).1
    · exact absurd (h.others hs hin) (h'.apart _ _ hin').1
    · rw [hother hs] at hi
      rw [hother hs'] at hi'
      exact h.inj i i' b n n' hi hi'
  · rcases hchunk hj with ⟨-, hin⟩ | ⟨hs, hin⟩
    · obtain ⟨hno, hown⟩ := h'.apart _ _ hin
      exact ⟨fun hr => hno (h.rest_others hr), hown⟩
    · exact ⟨(h.apart i j hin).1, (h'.taken j (h.others hs hin)).2.2⟩
  · exact h'.taken b (h.rest_others hb)
  · obtain ⟨he, hm, hst⟩ := h.same b hb
    obtain ⟨he', hm', hst'⟩ := h'.same b (h.rest_others hb)
    exact ⟨he'.trans he, hm.trans hm', hst.trans hst'⟩
  · rcases h'.cover b hb hf with hr | ho | ⟨i, hi⟩
    · rcases h.cover b hb hr.2.1 with hrest | howned | ⟨i, hi⟩
      · exact .inl hrest
      · exact absurd howned hr.2.2.1
      · refine .inr (.inr ⟨i, ?_⟩)
        have hs : i.1 ≠ s := fun hs => hr.2.2.2 i.2 (hs ▸ hi)
        rw [hother hs]
        exact hi
    · exact .inr (.inl ho)
    · refine .inr (.inr ⟨(s, i), ?_⟩)
      rw [hself]
      exact hi

end

/-! ## The world -/

section

variable {σ : Type} {F : FileLayer σ} {owned : σ → Nat → Prop} {rest : Nat → Prop}
  {K₀ K K' : Kernel σ} {obj : Nat → Role → Option (Nat × Nat)} {obj' : Role → Option (Nat × Nat)}
  {dir : Nat → Nat} {table : Nat → Nat → Nat} {s : Nat}

/-- The table of processes and what each of them holds (module doc). -/
structure World (owned : σ → Nat → Prop) (rest : Nat → Prop) (K₀ K : Kernel σ)
    (obj : Nat → Role → Option (Nat × Nat)) (dir : Nat → Nat) (table : Nat → Nat → Nat) : Prop where
  scope : Scope owned rest K₀ K fun i : Nat × Role => obj i.1 i.2
  holdings : ∀ s < maxProcesses, K.processes s ≠ 0 →
    Holdings K (K.processes s) (obj s) (dir s) pagingUserWriteable (table s)
  id : ∀ s < maxProcesses, K.processes s ≠ 0 → (K.processAt (K.processes s)).id = s
  empty : ∀ s, (s < maxProcesses → K.processes s = 0) → ∀ r, obj s r = none

/-- Work on one slot leaves what the processes in the others hold. -/
theorem World.other (h : World owned rest K₀ K obj dir table)
    (h' : Scope owned (Others owned K (obj s)) K K' obj') {s' : Nat} (hs : s' ≠ s)
    (hlt : s' < maxProcesses) (hne : K.processes s' ≠ 0) :
    Holdings K' (K.processes s') (obj s') (dir s') pagingUserWriteable (table s') ∧
      K'.processAt (K.processes s') = K.processAt (K.processes s') := by
  have hpart := h.scope.part s'
  have hsame : SameOwn K K' (obj s') := .of_blocks fun r j hj =>
    (h'.same j (h.scope.others hs hj)).2
  have ho := h.holdings s' hlt hne
  exact ⟨ho.congr hpart hsame, ho.processAt hpart hsame⟩

/-- Work on the process of one slot. -/
theorem World.work (h : World owned rest K₀ K obj dir table)
    (h' : Scope owned (Others owned K (obj s)) K K' obj') (hs : s < maxProcesses)
    (hne : K.processes s ≠ 0) (hprocesses : K'.processes = K.processes)
    (ho : Holdings K' (K.processes s) obj' (dir s) pagingUserWriteable (table s))
    (hid : (K'.processAt (K.processes s)).id = s) :
    World owned rest K₀ K' (Function.update obj s obj') dir table where
  scope := h.scope.whole h'
  holdings := fun s' hs' hne' => by
    rw [hprocesses] at hne' ⊢
    by_cases he : s' = s
    · subst he
      rw [Function.update_self]
      exact ho
    · rw [Function.update_of_ne he]
      exact (h.other h' he hs' hne').1
  id := fun s' hs' hne' => by
    rw [hprocesses] at hne' ⊢
    by_cases he : s' = s
    · subst he
      exact hid
    · rw [(h.other h' he hs' hne').2]
      exact h.id s' hs' hne'
  empty := fun s' hs' => by
    rw [hprocesses] at hs'
    have he : s' ≠ s := fun he => hne (he ▸ hs' (he ▸ hs))
    rw [Function.update_of_ne he]
    exact h.empty s' hs'

/-- The slot is given to a process, or to none. -/
theorem World.assign (h : World owned rest K₀ K obj dir table) {process d : Nat} {t : Nat → Nat}
    (h' : Scope owned (Others owned K (obj s)) K K' obj') (hs : s < maxProcesses)
    (hprocesses : K'.processes = Function.update K.processes s process)
    (ho : process ≠ 0 → Holdings K' process obj' d pagingUserWriteable t ∧
      (K'.processAt process).id = s)
    (hnone : process = 0 → ∀ r, obj' r = none) :
    World owned rest K₀ K' (Function.update obj s obj') (Function.update dir s d)
      (Function.update table s t) where
  scope := h.scope.whole h'
  holdings := fun s' hs' hne' => by
    rw [hprocesses] at hne' ⊢
    by_cases he : s' = s
    · subst he
      rw [Function.update_self] at hne' ⊢
      rw [Function.update_self, Function.update_self, Function.update_self]
      exact (ho hne').1
    · rw [Function.update_of_ne he] at hne' ⊢
      rw [Function.update_of_ne he, Function.update_of_ne he, Function.update_of_ne he]
      exact (h.other h' he hs' hne').1
  id := fun s' hs' hne' => by
    rw [hprocesses] at hne' ⊢
    by_cases he : s' = s
    · subst he
      rw [Function.update_self] at hne' ⊢
      exact (ho hne').2
    · rw [Function.update_of_ne he] at hne' ⊢
      rw [(h.other h' he hs' hne').2]
      exact h.id s' hs' hne'
  empty := fun s' hs' => by
    rw [hprocesses] at hs'
    by_cases he : s' = s
    · subst he
      rw [Function.update_self] at hs' ⊢
      exact hnone (hs' hs)
    · rw [Function.update_of_ne he] at hs' ⊢
      exact h.empty s' hs'

/-- The processes in the table are different. -/
theorem World.distinct (h : World owned rest K₀ K obj dir table) {s' : Nat} (hs : s < maxProcesses)
    (hs' : s' < maxProcesses) (hne : K.processes s ≠ 0) (he : K.processes s' = K.processes s) :
    s' = s := by
  have hid := h.id s' hs' (he ▸ hne)
  rw [he, h.id s hs hne] at hid
  exact hid.symm

/-! ## The calls -/

/-- The blocks that are taken and the structures in them are the same. -/
theorem World.contents (h : World owned rest K₀ K obj dir table) (hkernel : K'.kmem.heap.Kernel)
    (hentries : K'.entries = K.entries) (hfiles : K'.files = K.files)
    (hprocesses : K'.processes = K.processes)
    (hsame : ∀ b < 25600, ¬ Free (K.entries b) → SameBlock K.mem K'.mem b ∧ SameStructs K K' b) :
    World owned rest K₀ K' obj dir table := by
  have hown : ∀ {s r j}, InChunk (obj s r) j → SameBlock K.mem K'.mem j ∧ SameStructs K K' j :=
    fun {s r j} ⟨b, n, hr, hlo, hhi⟩ => by
      have hle := (h.scope.chain (s, r) b n hr).1
      exact hsame j (by omega) (h.scope.not_free (i := (s, r)) hr hlo hhi)
  refine ⟨h.scope.sameEntries hkernel hentries hfiles fun b hb => ?_, fun s hs hne => ?_,
    fun s hs hne => ?_, fun s hs => ?_⟩
  · obtain ⟨hlt, hf, -⟩ := h.scope.taken b hb
    exact hsame b hlt hf
  · rw [hprocesses] at hne ⊢
    exact (h.holdings s hs hne).congr (h.scope.part s) (.of_blocks fun r j hj => hown hj)
  · rw [hprocesses] at hne ⊢
    obtain ⟨b, n, hb, hp⟩ := (h.holdings s hs hne).block
    rw [hp, (hown ((h.scope.part s).first hb)).2.process, ← hp]
    exact h.id s hs hne
  · rw [hprocesses] at hs
    exact h.empty s hs

/-- Contents that no structure and no block depends on have changed. -/
theorem World.same (h : World owned rest K₀ K obj dir table) (hstate : K' = { K with kmem := K'.kmem })
    (hheap : K'.kmem.heap = K.kmem.heap) (hmem : K'.mem = K.mem) :
    World owned rest K₀ K' obj dir table :=
  h.contents (hheap ▸ h.scope.tidy.kernel) (congrArg (fun heap : Heap => heap.table.entries) hheap)
    (by rw [hstate]) (by rw [hstate]) fun b _ _ =>
    ⟨hmem ▸ .refl _ b, by rw [hstate]; exact ⟨rfl, rfl, rfl⟩⟩

/-- `process_malloc` where the heap does not run short. -/
theorem World.processMalloc (h : World owned rest K₀ K obj dir table) (hs : s < maxProcesses)
    (hne : K.processes s ≠ 0) {size : Nat} (h1 : 1 ≤ size) (h2 : size ≤ 2 ^ 32 - 4096)
    (hshort : ¬ K.kmem.heap.RunsShort (blocksFor size)) :
    ∃ p K', processMalloc K (K.processes s) size = (p, K') ∧ K'.processes = K.processes ∧
      K'.currentProcess = K.currentProcess ∧ K'.queue = K.queue ∧
      ((p = 0 ∧ World owned rest K₀ K' obj dir table) ∨
        ∃ b i, p = blockAddr b ∧
          Malloced K K' (K.processes s) size (dir s) pagingUserWriteable (table s) b i ∧
          World owned rest K₀ K' (Function.update obj s
            (Function.update (obj s) (.allocation i) (some (b, blocksFor size)))) dir table) := by
  have hid := h.id s hs hne
  obtain ⟨p, K', he, hcases⟩ := (h.scope.part s).processMalloc (h.holdings s hs hne) h1 h2 hshort
  rcases hcases with ⟨hp, hstate, h', ho, -⟩ | ⟨b, i, hp, hm, h', ho⟩
  · have hprocesses : K'.processes = K.processes := by rw [hstate]
    have hw := h.work h' hs hne hprocesses ho (by rw [hstate]; exact hid)
    rw [Function.update_eq_self] at hw
    exact ⟨p, K', he, hprocesses, by rw [hstate], by rw [hstate], .inl ⟨hp, hw⟩⟩
  · have hprocesses : K'.processes = K.processes := by rw [hm.state]
    refine ⟨p, K', he, hprocesses, by rw [hm.state], by rw [hm.state],
      .inr ⟨b, i, hp, hm, h.work h' hs hne hprocesses ho ?_⟩⟩
    rw [hm.state]
    dsimp only
    rw [Function.update_self]
    exact hid

/-- `process_free`: a record goes with its blocks, or nothing has changed. -/
theorem World.processFree (h : World owned rest K₀ K obj dir table) (hs : s < maxProcesses)
    (hne : K.processes s ≠ 0) (ptr : Nat) :
    ∃ K', processFree K (K.processes s) ptr = K' ∧ K'.processes = K.processes ∧
      K'.currentProcess = K.currentProcess ∧ K'.queue = K.queue ∧
      ((K.Unchanged K' ∧ World owned rest K₀ K' obj dir table) ∨
        ∃ b i n, ptr = blockAddr b ∧ obj s (.allocation i) = some (b, n) ∧
          Released K K' (K.processes s) (dir s) pagingUserWriteable (table s) i b n ∧
          World owned rest K₀ K' (Function.update obj s
            (Function.update (obj s) (.allocation i) none)) dir table) := by
  have hpart := h.scope.part s
  have ho := h.holdings s hs hne
  have hr := ho.toRecords hpart
  refine ⟨_, rfl, ?_⟩
  have hexact := process_free_exact ho.toProcessDir hpart.tidy.kernel hr ptr
  by_cases hptr : ptr = 0 ∨ ∀ i < maxProgramAllocations,
      ((K.processAt (K.processes s)).allocations i).ptr ≠ ptr
  · have hu := hexact.1 hptr
    refine ⟨?_, ?_, ?_, .inl ⟨hu, h.same hu.state hu.heap hu.mem⟩⟩
    · rw [hu.state]
    · rw [hu.state]
    · rw [hu.state]
  · obtain ⟨hp0, hrec⟩ := not_or.1 hptr
    obtain ⟨i, hrec⟩ := not_forall.1 hrec
    obtain ⟨hi, hrec⟩ := Classical.not_imp.1 hrec
    have hat : ((K.processAt (K.processes s)).allocations i).ptr = ptr := not_not.1 hrec
    obtain ⟨b, hb⟩ := ho.blocks hi (by rw [hat]; exact hp0)
    have hpb : ptr = blockAddr b := hat.symm.trans (ho.record hb).2.2.1
    subst hpb
    obtain ⟨h', ho', hreleased, -⟩ := hpart.processFree ho hb
    have hprocesses : (Pandora.processFree K (K.processes s) (blockAddr b)).processes =
        K.processes := by rw [hreleased.state]
    refine ⟨hprocesses, ?_, ?_, .inr ⟨b, i, _, rfl, hb, hreleased,
      h.work h' hs hne hprocesses ho' ?_⟩⟩
    · rw [hreleased.state]
    · rw [hreleased.state]
    · rw [hreleased.state]
      dsimp only
      rw [Function.update_self]
      exact h.id s hs hne

/-- A load that leaves nothing. -/
theorem World.givenUp (h : World owned rest K₀ K obj dir table) (hs : ∀ r, obj s r = none)
    (hfree : s < maxProcesses → K.processes s = 0)
    (hg : GivenUp owned (Others owned K (obj s)) K K K') : World owned rest K₀ K' obj dir table := by
  have hobj : Function.update obj s (fun _ => none) = obj :=
    Function.update_eq_self_iff.2 (funext fun r => (hs r).symm)
  have hscope := h.scope.whole hg.scope
  rw [hobj] at hscope
  have hdiffer : ∀ {s'}, s' < maxProcesses → K.processes s' ≠ 0 → s' ≠ s := by
    rintro _ hs' hne' rfl
    exact hne' (hfree hs')
  refine ⟨hscope, fun s' hs' hne' => ?_, fun s' hs' hne' => ?_, fun s' hs' => ?_⟩
  · rw [hg.processes] at hne' ⊢
    exact (h.other hg.scope (hdiffer hs' hne') hs' hne').1
  · rw [hg.processes] at hne' ⊢
    rw [(h.other hg.scope (hdiffer hs' hne') hs' hne').2]
    exact h.id s' hs' hne'
  · rw [hg.processes] at hs'
    exact h.empty s' hs'

/-- `process_load` that ends without a fault. -/
theorem World.processLoad (hF : F.Sound owned) (hR : F.Regular)
    (h : World owned rest K₀ K obj dir table) {filename : List UInt8} {out stale : Nat}
    (hs : (processLoad F K filename out stale).2.2.kmem.Sound) :
    ∃ res p K', Pandora.processLoad F K filename out stale = (res, p, K') ∧
      ((0 ≤ res ∧ p ≠ 0 ∧ ∃ slot < maxProcesses, processGetFreeSlot K = slot ∧ K.processes slot = 0 ∧
          Entered K K' p slot ∧ ∃ obj' d, ∃ t : Nat → Nat,
            Live K' p obj' d pagingUserWriteable t ∧
            World owned rest K₀ K' (Function.update obj slot obj') (Function.update dir slot d)
              (Function.update table slot t)) ∨
        (res < 0 ∧ K'.processes = K.processes ∧ K'.currentProcess = K.currentProcess ∧
          World owned rest K₀ K' obj dir table)) := by
  rcases processLoad_cases F K filename out stale with
    ⟨-, he⟩ | ⟨slot, hslot, hzero, hget, -, -⟩
  · exact ⟨_, _, _, he, .inr ⟨by decide, rfl, rfl, h⟩⟩
  have hnone : obj slot = fun _ => none := funext (h.empty slot fun _ => hzero)
  have hpart := h.scope.part slot
  rw [hnone] at hpart
  obtain ⟨res, p, K', he, hcases⟩ := hpart.processLoad_outcome hF hR hs
  rw [← hnone] at hcases
  refine ⟨res, p, K', he, ?_⟩
  rcases hcases with ⟨hres, slot', hget', -, -, obj', d, t, hsucceeded⟩ | ⟨hneg, hgiven⟩
  · obtain rfl : slot' = slot := by
      have hcast := hget'.symm.trans hget
      exact Int.ofNat.inj hcast
    have hne : p ≠ 0 := by
      obtain ⟨b, n, -, hp⟩ := hsucceeded.live.block
      rw [hp]
      exact blockAddr_ne_zero b
    have hentered := hsucceeded.entered
    refine .inl ⟨hres, hne, slot', hslot, hget, hzero, hentered, obj', d, t, hsucceeded.live,
      h.assign hsucceeded.scope hslot hentered.processes (fun _ => ⟨?_, hentered.id⟩)
        fun h0 => absurd h0 hne⟩
    exact hsucceeded.live.holdings hentered.fresh
  · exact .inr ⟨hneg, hgiven.processes, hgiven.current,
      h.givenUp (h.empty slot fun _ => hzero) (fun _ => hzero) hgiven⟩

/-- The table without the process, and a process to go on with. -/
theorem processUnlink_eq {process : Nat} (hid : (K.processAt process).id = s)
    (hother : K.currentProcess = process →
      ∃ s' < maxProcesses, Function.update K.processes s 0 s' ≠ 0) :
    ∃ c, processUnlink K process = some { K with
        processes := Function.update K.processes s 0
        currentProcess := c } ∧
      ((K.currentProcess ≠ process ∧ c = K.currentProcess) ∨ (K.currentProcess = process ∧
        ∃ s' < maxProcesses, Function.update K.processes s 0 s' = c ∧ c ≠ 0)) := by
  unfold processUnlink
  dsimp only
  rw [hid]
  by_cases hcur : K.currentProcess = process
  · rw [if_pos hcur]
    unfold processSwitchToAny
    dsimp only
    cases hfind : (List.range maxProcesses).find? fun i => Function.update K.processes s 0 i ≠ 0 with
    | some i =>
      obtain ⟨hi, hlt, -⟩ := List.find?_range_eq_some.1 hfind
      exact ⟨_, rfl, .inr ⟨hcur, i, List.mem_range.1 hlt, rfl, of_decide_eq_true hi⟩⟩
    | none =>
      obtain ⟨s', hs', hne⟩ := hother hcur
      have := List.find?_eq_none.1 hfind s' (List.mem_range.2 hs')
      exact absurd (decide_eq_true hne) this
  · rw [if_neg hcur]
    exact ⟨_, rfl, .inl ⟨hcur, rfl⟩⟩

/-- `process_terminate`, seen from the process: all that it held is free. -/
theorem World.terminatePart (h : World owned rest K₀ K obj dir table) (hs : s < maxProcesses)
    (hne : K.processes s ≠ 0)
    (hother : K.currentProcess = K.processes s →
      ∃ s' < maxProcesses, s' ≠ s ∧ K.processes s' ≠ 0) :
    ∃ K', processTerminate K (K.processes s) = some K' ∧
      K'.processes = Function.update K.processes s 0 ∧ K'.files = K.files ∧
      K.kmem.Quiet K'.kmem ∧
      ((K.currentProcess ≠ K.processes s ∧ K'.currentProcess = K.currentProcess) ∨
        (K.currentProcess = K.processes s ∧
          ∃ s' < maxProcesses, K'.processes s' = K'.currentProcess ∧ K'.currentProcess ≠ 0)) ∧
      Scope owned (Others owned K (obj s)) K K' fun _ : Role => none := by
  obtain ⟨c, hunlink, hc⟩ := processUnlink_eq (h.id s hs hne) fun hcur => by
    obtain ⟨s', hs', hne', hlive⟩ := hother hcur
    exact ⟨s', hs', by rwa [Function.update_of_ne hne']⟩
  obtain ⟨K₁, hK₁⟩ : ∃ K₁, { K with
      processes := Function.update K.processes s 0
      currentProcess := c } = K₁ := ⟨_, rfl⟩
  rw [hK₁] at hunlink
  have hpart := h.scope.part s
  have hsame : ∀ b, SameBlock K.mem K₁.mem b ∧ SameStructs K K₁ b := fun b => by
    rw [← hK₁]
    exact ⟨.refl _ b, ⟨rfl, rfl, rfl⟩⟩
  have h₁ : Scope owned (Others owned K (obj s)) K K₁ (obj s) :=
    hpart.update (by rw [← hK₁]) (by rw [← hK₁]) fun b _ => hsame b
  have ho₁ : Holdings K₁ (K.processes s) (obj s) (dir s) pagingUserWriteable (table s) :=
    (h.holdings s hs hne).congr hpart (.of_blocks fun _ j _ => hsame j)
  obtain ⟨h₂, hfrees⟩ := h₁.freeProcess ho₁
  have hprocesses : (processFreeProcess K₁ (K.processes s)).processes =
      Function.update K.processes s 0 := by
    rw [hfrees.processes, ← hK₁]
  have hcurrent : (processFreeProcess K₁ (K.processes s)).currentProcess = c := by
    rw [hfrees.current, ← hK₁]
  refine ⟨_, ?_, hprocesses, ?_, ?_, ?_, h₂⟩
  · unfold Pandora.processTerminate
    rw [hunlink]
    rfl
  · rw [hfrees.files, ← hK₁]
  · have hquiet := hfrees.quiet
    rw [← hK₁] at hquiet ⊢
    exact hquiet
  · rw [hcurrent, hprocesses]
    rcases hc with ⟨hcur, he⟩ | hc
    · exact .inl ⟨hcur, he⟩
    · exact .inr hc

/-- `process_terminate`: the process is gone, with all it held. -/
theorem World.processTerminate (h : World owned rest K₀ K obj dir table) (hs : s < maxProcesses)
    (hne : K.processes s ≠ 0)
    (hother : K.currentProcess = K.processes s →
      ∃ s' < maxProcesses, s' ≠ s ∧ K.processes s' ≠ 0) :
    ∃ K', processTerminate K (K.processes s) = some K' ∧
      K'.processes = Function.update K.processes s 0 ∧ K'.files = K.files ∧
      K.kmem.Quiet K'.kmem ∧
      ((K.currentProcess ≠ K.processes s ∧ K'.currentProcess = K.currentProcess) ∨
        (K.currentProcess = K.processes s ∧
          ∃ s' < maxProcesses, K'.processes s' = K'.currentProcess ∧ K'.currentProcess ≠ 0)) ∧
      World owned rest K₀ K' (Function.update obj s fun _ => none) dir table := by
  obtain ⟨K', he, hprocesses, hfiles, hquiet, hcurrent, h'⟩ := h.terminatePart hs hne hother
  have hw := h.assign (d := dir s) (t := table s) h' hs hprocesses (fun h0 => absurd rfl h0)
    fun _ _ => rfl
  rw [Function.update_eq_self, Function.update_eq_self] at hw
  exact ⟨K', he, hprocesses, hfiles, hquiet, hcurrent, hw⟩

end

end Pandora
