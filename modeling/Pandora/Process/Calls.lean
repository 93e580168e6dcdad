import Pandora.Process.Cycle
import Pandora.Process.World

/-!
# The calls of processes (`task/process.c`)

A `ProcessCall` loads a process or works on the process in one slot of the table: it allocates, frees,
injects arguments or terminates. The call keeps the world in order where no allocation runs short
(`World.call`), and what changes is what the process in that slot holds.
-/

namespace Pandora

open ByteMem

/-! ## Arguments -/

section

variable {σ : Type} {owned : σ → Nat → Prop} {rest : Nat → Prop} {K₀ K K' : Kernel σ}
  {obj : Role → Option (Nat × Nat)} {process dir f size : Nat} {table : Nat → Nat}

/-- The entries of the tables are as they were. -/
theorem Holdings.entries (h : Holdings K process obj dir f table) (hs : Scope owned rest K₀ K obj)
    (hsame : SameOwn K K' obj) {v : Nat} (hv : v < 2 ^ 20) :
    pageEntry K'.mem table v = pageEntry K.mem table v :=
  pageEntry_congr hv fun i hi =>
    hsame.window hs (h.pageDir.window i hi) (.inr (.inr ⟨i, rfl⟩)) (h.tables i hi)

/-- Bytes change that are in allocations in scope, but in no part of the page directory. -/
theorem Scope.writeOwn (h : Scope owned rest K₀ K obj) (ho : Holdings K process obj dir f table)
    {m : Mem} (hm : ∀ x < 2 ^ 32, (∀ r j, ¬ r.Paging → InChunk (obj r) j →
      x < blockAddr j ∨ blockAddr j + 4096 ≤ x) → m x = K.mem x) :
    Scope owned rest K₀ (K.withMem m) obj ∧ Holdings (K.withMem m) process obj dir f table ∧
      ∀ v < 2 ^ 20, pageEntry m table v = pageEntry K.mem table v := by
  have hstructs : ∀ j, SameStructs K (K.withMem m) j := fun _ => ⟨rfl, rfl, rfl⟩
  have hblock : ∀ {j}, j < 25600 → (∀ r, ¬ r.Paging → ¬ InChunk (obj r) j) → SameBlock K.mem m j :=
    fun {j} hlt hj x hx hx' => hm x (by unfold blockAddr at hx'; omega) fun r j' hr hj' => by
      have hne : j' ≠ j := fun he => hj r hr (he ▸ hj')
      unfold blockAddr at *
      omega
  have hsame : SameOwn K (K.withMem m) obj := by
    refine ⟨fun _ j _ => hstructs j, fun r' j hp' hj => ?_⟩
    obtain ⟨b', n', hr', hlo, hhi⟩ := hj
    have hle := (h.chain _ _ _ hr').1
    refine hblock (by omega) fun r hp hin => ?_
    obtain ⟨b, n, hr, hlo', hhi'⟩ := hin
    have := h.disjoint hr hr' fun he => hp (he ▸ hp')
    omega
  -- a block of the rest is none of an allocation in scope
  exact ⟨h.update rfl rfl fun j hj =>
      ⟨hblock (h.taken j hj).1 fun r _ hin => (h.apart r j hin).1 hj, hstructs j⟩,
    ho.congr h hsame, fun v hv => ho.entries h hsame hv⟩

/-- Bytes in the blocks of an allocation that is no part of the page directory change. -/
theorem Scope.writeData (h : Scope owned rest K₀ K obj) (ho : Holdings K process obj dir f table)
    {r : Role} {b n : Nat} (hr : obj r = some (b, n)) (hp : ¬ r.Paging) {m : Mem}
    (hm : ∀ x, (x < blockAddr b ∨ blockAddr b + 4096 * n ≤ x) → m x = K.mem x) :
    Scope owned rest K₀ (K.withMem m) obj ∧ Holdings (K.withMem m) process obj dir f table ∧
      ∀ v < 2 ^ 20, pageEntry m table v = pageEntry K.mem table v := by
  refine h.writeOwn ho fun x _ hx => hm x ?_
  by_contra hin
  -- the byte is in one of the blocks
  have hblock := hx r (b + (x - blockAddr b) / 4096) hp ⟨b, n, hr, by omega, by omega⟩
  unfold blockAddr at hin hblock
  omega

/-- The bytes of the first block of a record change. -/
theorem Scope.writeRecord (h : Scope owned rest K₀ K obj) (ho : Holdings K process obj dir f table)
    {i b n : Nat} (hi : obj (.allocation i) = some (b, n)) {m : Mem}
    (hm : ∀ x, (x < blockAddr b ∨ blockAddr b + 4096 ≤ x) → m x = K.mem x) :
    Scope owned rest K₀ (K.withMem m) obj ∧ Holdings (K.withMem m) process obj dir f table ∧
      ∀ v < 2 ^ 20, pageEntry m table v = pageEntry K.mem table v := by
  have hpos := (h.pos hi).1
  refine h.writeData ho hi ?_ fun x hx => hm x (by omega)
  rintro (hp | hp | ⟨_, hp⟩) <;> cases hp

/-! ## What the records add -/

/-- The family `obj'` has what `obj` has, and more records. Their pages are for writing, each at the
address of its frame; the others are as they were. -/
structure Grown (m m' : Mem) (table : Nat → Nat) (obj obj' : Role → Option (Nat × Nat)) : Prop where
  kept : ∀ r c, obj r = some c → obj' r = some c
  pages : ∀ v < 2 ^ 20, pageEntry m' table v = pageEntry m table v ∨
    ∃ i b, InChunk (obj' (.allocation i)) b ∧ v = 4096 + b ∧
      pageEntry m' table v = 4096 * v ||| pagingUserWriteable

theorem Grown.of_entries {m m' : Mem}
    (h : ∀ v < 2 ^ 20, pageEntry m' table v = pageEntry m table v) : Grown m m' table obj obj where
  kept := fun _ _ hr => hr
  pages := fun v hv => .inl (h v hv)

theorem Grown.refl (m : Mem) (table : Nat → Nat) (obj : Role → Option (Nat × Nat)) :
    Grown m m table obj obj := .of_entries fun _ _ => rfl

theorem Grown.trans {m m' m'' : Mem} {obj' obj'' : Role → Option (Nat × Nat)}
    (h : Grown m m' table obj obj') (h' : Grown m' m'' table obj' obj'') :
    Grown m m'' table obj obj'' where
  kept := fun r c hr => h'.kept r c (h.kept r c hr)
  pages := fun v hv => by
    rcases h'.pages v hv with he' | hnew
    · rcases h.pages v hv with he | ⟨i, b, ⟨c, n, hc, hin⟩, hvb, he⟩
      · exact .inl (he'.trans he)
      · exact .inr ⟨i, b, ⟨c, n, h'.kept _ _ hc, hin⟩, hvb, he'.trans he⟩
    · exact .inr hnew

theorem Malloced.grown {b i : Nat} (hm : Malloced K K' process size dir f table b i)
    (hi : obj (.allocation i) = none) :
    Grown K.mem K'.mem table obj
      (Function.update obj (.allocation i) (some (b, blocksFor size))) where
  kept := fun r c hr => by
    rw [Function.update_of_ne, hr]
    rintro rfl
    rw [hi] at hr
    cases hr
  pages := fun v hv => by
    rw [hm.pages v hv]
    split
    · rename_i hin
      obtain ⟨j, rfl⟩ : ∃ j, v = 4096 + j := ⟨v - 4096, by omega⟩
      exact .inr ⟨i, j, ⟨b, blocksFor size, Function.update_self _ _ _, by omega, by omega⟩, rfl, rfl⟩
    · exact .inl rfl

/-- The slot that an allocation takes is empty. -/
theorem Holdings.none_of_malloced {b i : Nat} (h : Holdings K process obj dir f table)
    (hm : Malloced K K' process size dir f table b i) : obj (.allocation i) = none := by
  obtain ⟨c, hc⟩ : ∃ c, obj (.allocation i) = c := ⟨_, rfl⟩
  cases c with
  | none => exact hc
  | some c => exact absurd ((h.record hc).2.2.1.symm.trans hm.empty) (blockAddr_ne_zero _)

/-- Pages that are read the same are the same. -/
theorem Holdings.grown_of_pages (h : Holdings K process obj dir f table)
    (h' : Holdings K' process obj dir f table)
    (hp : ∀ v < 2 ^ 32, K'.pageOf process v = K.pageOf process v) : Grown K.mem K'.mem table obj obj :=
  .of_entries fun v hv => by
    have he := hp (4096 * v) (by omega)
    rwa [h'.toProcessDir.reads.1 _ (by omega), h.toProcessDir.reads.1 _ (by omega),
      Nat.mul_div_cancel_left v (by decide)] at he

/-- A request of at most one block does not run short. -/
theorem not_runsShort_page (heap : Heap) (h1 : 1 ≤ size) (h2 : size ≤ 4096) :
    ¬ heap.RunsShort (blocksFor size) := by
  rw [blocksFor_small h1 h2]
  rintro ⟨hno, hpos, hlast⟩
  refine hno ⟨heap.table.total - 1, by omega, fun i hi => ?_⟩
  obtain rfl : i = 0 := by omega
  exact hlast

/-- The rounds of `process_inject_arguments`, whatever list they follow. Each takes a record, so the
vector has room for the pointers in its first block. -/
theorem Scope.injectRounds {a n ia : Nat} (fuel : Nat) : ∀ {K : Kernel σ}
    {obj : Role → Option (Nat × Nat)} {current i : Nat} {res : Int} {K' : Kernel σ},
    Scope owned rest K₀ K obj → Holdings K process obj dir f table →
    obj (.allocation ia) = some (a, n) → i + (K.processAt process).freeSlots.card < 1024 →
    processInjectArguments.loop process (blockAddr a) fuel current i K = some (res, K') →
    ∃ obj', Scope owned rest K₀ K' obj' ∧ Holdings K' process obj' dir f table ∧
      K' = { K with kmem := K'.kmem, processAt := K'.processAt } ∧
      (K'.processAt process).id = (K.processAt process).id ∧ Grown K.mem K'.mem table obj obj' := by
  induction fuel with
  | zero =>
    intro K obj current i res K' h ho ha hslots he
    cases he
  | succ fuel ih =>
    intro K obj current i res K' h ho ha hslots he
    unfold processInjectArguments.loop at he
    split at he
    · cases he
      exact ⟨obj, h, ho, rfl, rfl, .refl _ _ _⟩
    obtain ⟨p, K₁, hp, hcases⟩ := h.processMalloc ho (show 1 ≤ 512 by decide) (by decide)
      (not_runsShort_page _ (by decide) (by decide))
    have hround : injectRound K process (blockAddr a) current i = K₁.withMem (write32
        (strncpy K₁.mem p current 512) (Word.add (blockAddr a) (4 * i)) p) := by
      unfold injectRound
      rw [hp]
    rw [hp] at he
    dsimp only at he
    rcases hcases with ⟨rfl, hstate, h₁, ho₁, hpages⟩ | ⟨b, j, rfl, hm, h₁, ho₁⟩
    · rw [if_pos rfl] at he
      cases he
      refine ⟨obj, h₁, ho₁, ?_, ?_, ho.grown_of_pages ho₁ hpages⟩
      · rw [hstate]
      · rw [hstate]
    · rw [if_neg (blockAddr_ne_zero b)] at he
      have hja : Role.allocation ia ≠ .allocation j := fun hja => by
        have hptr := (ho.record ha).2.2.1
        injection hja with hja
        rw [hja, hm.empty] at hptr
        exact blockAddr_ne_zero a hptr.symm
      have hb := Function.update_self (Role.allocation j) (some (b, blocksFor 512)) obj
      have ha₁ : Function.update obj (.allocation j) (some (b, blocksFor 512)) (.allocation ia) =
          some (a, n) := (Function.update_of_ne hja _ _).trans ha
      obtain ⟨m₁, m₂, -, -, hround', hf₁, hf₂⟩ := injectRound_writes current hp (h₁.pos hb).2
        (h.pos ha).2 (show i < 1024 by omega)
      -- the copy, and the pointer to it
      obtain ⟨h₂, ho₂, hentries₂⟩ := h₁.writeRecord ho₁ hb hf₁
      obtain ⟨h₃, ho₃, hentries₃⟩ := h₂.writeRecord ho₂ ha₁ hf₂
      have hgrown : Grown K.mem ((K₁.withMem m₁).withMem m₂).mem table obj
          (Function.update obj (.allocation j) (some (b, blocksFor 512))) :=
        (hm.grown (ho.none_of_malloced hm)).trans (.of_entries fun v hv =>
          (hentries₃ v hv).trans (hentries₂ v hv))
      have hfree := injectRound_freeSlots (blockAddr a) current i
        (show (Pandora.processMalloc K process 512).1 ≠ 0 by
          rw [hp]; exact blockAddr_ne_zero b)
      have hsame : (K₁.withMem m₁).withMem m₂ = injectRound K process (blockAddr a) current i :=
        hround'.symm
      rw [hsame] at h₃ ho₃ hgrown
      have he' : processInjectArguments.loop process (blockAddr a) fuel
          (argumentNext (injectRound K process (blockAddr a) current i).mem current) (i + 1)
          (injectRound K process (blockAddr a) current i) = some (res, K') := by
        rw [hround]
        exact he
      obtain ⟨obj', h', ho', hstate, hid, hgrown'⟩ := ih h₃ ho₃ ha₁ (by omega) he'
      have hstate₁ : injectRound K process (blockAddr a) current i =
          { K with kmem := (injectRound K process (blockAddr a) current i).kmem
                   processAt := K₁.processAt } := by
        rw [hround', hm.state]
        rfl
      refine ⟨obj', h', ho', ?_, hid.trans ?_, hgrown.trans hgrown'⟩
      · rw [hstate, hstate₁]
      · rw [hstate₁, hm.state]
        dsimp only
        rw [Function.update_self]
        rfl

/-- The fields that say what a process holds. -/
structure SameParts (v v' : Process) : Prop where
  task : v'.task = v.task
  filetype : v'.filetype = v.filetype
  ptr : v'.ptr = v.ptr
  stack : v'.stack = v.stack
  size : v'.size = v.size
  allocations : v'.allocations = v.allocations

/-- What a process holds does not depend on its other fields. -/
theorem Holdings.setProcess (h : Holdings K process obj dir f table) {v : Process}
    (hv : SameParts (K.processAt process) v) :
    Holdings (K.setProcess process v) process obj dir f table := by
  obtain ⟨K', hK'⟩ : ∃ K', K.setProcess process v = K' := ⟨_, rfl⟩
  have hat : K'.processAt process = v := by
    rw [← hK']
    exact Function.update_self _ _ _
  have hqueue : K'.queue = K.queue := by rw [← hK']; rfl
  have hmem : K'.mem = K.mem := by rw [← hK']; rfl
  have himage : ∀ a, K'.imageOf a = K.imageOf a := fun a => by rw [← hK']; rfl
  rw [hK']
  refine ⟨⟨⟨hmem ▸ h.pageDir, ?_⟩, ?_, ?_, ?_, h.directory, h.tables⟩, h.block,
    h.program.congr ?_ ?_ ?_ (himage _) fun _ _ => rfl, ?_, fun i hi => ?_, h.noOther⟩
  · rw [hmem, hqueue, hat, hv.task]
    exact h.chunk
  · rw [hat, hv.task]
    exact h.task
  · rw [hqueue, hat, hv.task]
    exact h.window
  · rw [hqueue, hat, hv.task]
    exact h.chunkAt
  · rw [hat, hv.filetype]
  · rw [hat, hv.ptr]
  · rw [hat, hv.size]
  · rw [hat, hv.stack]
    exact h.stack
  · rw [hat, hv.allocations]
    exact h.records i hi

/-- `process_inject_arguments`, where the vector does not run short. -/
theorem Scope.processInjectArguments (h : Scope owned rest K₀ K obj)
    (ho : Holdings K process obj dir f table) {root argc : Nat} {res : Int}
    (hcount : processCountCommandArguments K.mem argumentFuel root 0 = some argc)
    (hargc : 4 * argc ≤ 2 ^ 32 - 4096) (hshort : ¬ K.kmem.heap.RunsShort (blocksFor (4 * argc)))
    (he : Pandora.processInjectArguments K process root = some (res, K')) :
    ∃ obj', Scope owned rest K₀ K' obj' ∧ Holdings K' process obj' dir f table ∧
      K' = { K with kmem := K'.kmem, processAt := K'.processAt } ∧
      (K'.processAt process).id = (K.processAt process).id ∧ Grown K.mem K'.mem table obj obj' := by
  unfold Pandora.processInjectArguments at he
  rw [hcount] at he
  dsimp only at he
  split at he
  · cases he
    exact ⟨obj, h, ho, rfl, rfl, .refl _ _ _⟩
  rename_i hpos
  rw [Word.mul_of_lt (show 4 * argc < 2 ^ 32 by omega)] at he
  obtain ⟨p, K₁, hp, hcases⟩ := h.processMalloc ho (show 1 ≤ 4 * argc by omega) hargc hshort
  rw [hp] at he
  dsimp only at he
  rcases hcases with ⟨rfl, hstate, h₁, ho₁, hpages⟩ | ⟨a, j, rfl, hm, h₁, ho₁⟩
  · rw [if_pos rfl] at he
    cases he
    refine ⟨obj, h₁, ho₁, ?_, ?_, ho.grown_of_pages ho₁ hpages⟩
    · rw [hstate]
    · rw [hstate]
  rw [if_neg (blockAddr_ne_zero a)] at he
  have hslots := processMalloc_freeSlots hp (blockAddr_ne_zero a)
  have hle := (K.processAt process).freeSlots_le
  unfold maxProgramAllocations at hle
  have hid₁ : (K₁.processAt process).id = (K.processAt process).id := by
    rw [hm.state]
    dsimp only
    rw [Function.update_self]
    rfl
  cases hloop : processInjectArguments.loop process (blockAddr a) argumentFuel root 0 K₁ with
  | none =>
    rw [hloop] at he
    cases he
  | some r =>
    obtain ⟨res₂, K₂⟩ := r
    rw [hloop] at he
    dsimp only at he
    obtain ⟨obj', h₂, ho₂, hstate, hid, hgrown⟩ := h₁.injectRounds argumentFuel ho₁
      (Function.update_self _ _ _) (by omega) hloop
    have hstate₂ : K₂ = { K with kmem := K₂.kmem, processAt := K₂.processAt } := by
      rw [hstate, hm.state]
    have hgrown₂ := (hm.grown (ho.none_of_malloced hm)).trans hgrown
    split at he
    · cases he
      exact ⟨obj', h₂, ho₂, hstate₂, hid.trans hid₁, hgrown₂⟩
    · -- the arguments are noted in the process
      cases he
      obtain ⟨bp, np, hbp, hprocess⟩ := ho₂.block
      refine ⟨obj', ?_, ho₂.setProcess ⟨rfl, rfl, rfl, rfl, rfl, rfl⟩, ?_, ?_, hgrown₂⟩
      · rw [hprocess]
        exact h₂.setProcess hbp _
      · rw [hstate₂]
        rfl
      · unfold Kernel.setProcess
        dsimp only
        rw [Function.update_self]
        exact hid.trans hid₁

end

/-! ## Calls -/

/-- A load, or a call on behalf of the process in slot `s`. -/
inductive ProcessCall where
  | load (filename : List UInt8) (out stale : Nat)
  | loadSwitch (filename : List UInt8) (out stale : Nat)
  | malloc (s size : Nat)
  | free (s ptr : Nat)
  | inject (s root : Nat)
  | terminate (s : Nat)

section

variable {σ : Type} {F : FileLayer σ} {owned : σ → Nat → Prop} {rest : Nat → Prop}
  {K₀ K K' : Kernel σ} {obj : Nat → Role → Option (Nat × Nat)} {dir : Nat → Nat}
  {table : Nat → Nat → Nat} {s : Nat}

/-- The state after the call; `none` where it does not return. -/
def ProcessCall.step (F : FileLayer σ) (K : Kernel σ) : ProcessCall → Option (Kernel σ)
  | load filename out stale => some (processLoad F K filename out stale).2.2
  | loadSwitch filename out stale => some (processLoadSwitch F K filename out stale).2.2
  | malloc s size => some (processMalloc K (K.processes s) size).2
  | free s ptr => some (processFree K (K.processes s) ptr)
  | inject s root => (processInjectArguments K (K.processes s) root).map Prod.snd
  | terminate s => processTerminate K (K.processes s)

/-- The slot of the process that the call works on; a load works on the first free one. -/
def ProcessCall.slot (K : Kernel σ) : ProcessCall → Nat
  | load _ _ _ => (processGetFreeSlot K).toNat
  | loadSwitch _ _ _ => (processGetFreeSlot K).toNat
  | malloc s _ => s
  | free s _ => s
  | inject s _ => s
  | terminate s => s

/-- Process `s` is in the table. -/
def Kernel.LiveSlot (K : Kernel σ) (s : Nat) : Prop := s < maxProcesses ∧ K.processes s ≠ 0

/-- What the caller promises: the process is in the table, and a size does not wrap when it is rounded. -/
def ProcessCall.Valid (K : Kernel σ) : ProcessCall → Prop
  | load _ _ _ => True
  | loadSwitch _ _ _ => True
  | malloc s size => K.LiveSlot s ∧ 1 ≤ size ∧ size ≤ 2 ^ 32 - 4096
  | free s _ => K.LiveSlot s
  | inject s root => K.LiveSlot s ∧ ∀ argc,
      processCountCommandArguments K.mem argumentFuel root 0 = some argc → 4 * argc ≤ 2 ^ 32 - 4096
  | terminate s => K.LiveSlot s

/-- Every allocation finds a long enough run, or is refused, and a load follows no null pointer. -/
def ProcessCall.Served (F : FileLayer σ) (K : Kernel σ) : ProcessCall → Prop
  | load filename out stale => (processLoad F K filename out stale).2.2.kmem.Sound
  | loadSwitch filename out stale => (processLoad F K filename out stale).2.2.kmem.Sound
  | malloc _ size => ¬ K.kmem.heap.RunsShort (blocksFor size)
  | free _ _ => True
  | inject _ root => ∀ argc, processCountCommandArguments K.mem argumentFuel root 0 = some argc →
      ¬ K.kmem.heap.RunsShort (blocksFor (4 * argc))
  | terminate _ => True

/-! ## The world after a call -/

/-- The current process does not matter. -/
theorem World.switch (h : World owned rest K₀ K obj dir table) (process : Nat) :
    World owned rest K₀ (processSwitch K process) obj dir table where
  scope := h.scope.update rfl rfl fun b _ => ⟨.refl _ b, ⟨rfl, rfl, rfl⟩⟩
  holdings := fun s hs hne => (h.holdings s hs hne).congr (h.scope.part s)
    (.of_blocks fun _ j _ => ⟨.refl _ j, ⟨rfl, rfl, rfl⟩⟩)
  id := h.id
  empty := h.empty

theorem World.processInjectArguments (h : World owned rest K₀ K obj dir table) (hs : K.LiveSlot s)
    {root argc : Nat} {res : Int}
    (hcount : processCountCommandArguments K.mem argumentFuel root 0 = some argc)
    (hargc : 4 * argc ≤ 2 ^ 32 - 4096) (hshort : ¬ K.kmem.heap.RunsShort (blocksFor (4 * argc)))
    (he : Pandora.processInjectArguments K (K.processes s) root = some (res, K')) :
    K'.processes = K.processes ∧ K'.currentProcess = K.currentProcess ∧
      ∃ obj', World owned rest K₀ K' (Function.update obj s obj') dir table := by
  obtain ⟨obj', h', ho', hstate, hid, -⟩ := (h.scope.part s).processInjectArguments
    (h.holdings s hs.1 hs.2) hcount hargc hshort he
  have hprocesses : K'.processes = K.processes := by rw [hstate]
  exact ⟨hprocesses, by rw [hstate], obj',
    h.work h' hs.1 hs.2 hprocesses ho' (hid.trans (h.id s hs.1 hs.2))⟩

/-- A process that is terminated without a panic is not the current one, or another is in the table. -/
theorem World.other_of_terminate (h : World owned rest K₀ K obj dir table) (hs : K.LiveSlot s)
    (he : Pandora.processTerminate K (K.processes s) = some K') (hcur : K.currentProcess = K.processes s) :
    ∃ s' < maxProcesses, s' ≠ s ∧ K.processes s' ≠ 0 := by
  unfold Pandora.processTerminate processUnlink at he
  dsimp only at he
  rw [h.id s hs.1 hs.2, if_pos hcur] at he
  unfold processSwitchToAny at he
  dsimp only at he
  cases hfind : (List.range maxProcesses).find? fun i => Function.update K.processes s 0 i ≠ 0 with
  | some i =>
    obtain ⟨hi, hlt, -⟩ := List.find?_range_eq_some.1 hfind
    have hne := of_decide_eq_true hi
    have his : i ≠ s := by
      rintro rfl
      exact hne (Function.update_self _ _ _)
    rw [Function.update_of_ne his] at hne
    exact ⟨i, List.mem_range.1 hlt, his, hne⟩
  | none =>
    rw [hfind] at he
    cases he

/-- A load, seen from the table. -/
theorem World.load (hF : F.Sound owned) (hR : F.Regular) (h : World owned rest K₀ K obj dir table)
    {filename : List UInt8} {out stale : Nat}
    (hs : (Pandora.processLoad F K filename out stale).2.2.kmem.Sound) :
    ∃ obj' dir' table', World owned rest K₀ (Pandora.processLoad F K filename out stale).2.2
      (Function.update obj (processGetFreeSlot K).toNat obj') dir' table' := by
  obtain ⟨res, p, K', he, hcases⟩ := h.processLoad hF hR hs
  rw [he]
  rcases hcases with ⟨-, -, slot, -, hget, -, -, obj', d, t, -, h'⟩ | ⟨-, -, -, h'⟩
  · rw [hget, Int.toNat_natCast]
    exact ⟨_, _, _, h'⟩
  · refine ⟨obj (processGetFreeSlot K).toNat, dir, table, ?_⟩
    rw [Function.update_eq_self]
    exact h'

/-- **A call works on what one process holds.** -/
theorem World.call (hF : F.Sound owned) (hR : F.Regular) (h : World owned rest K₀ K obj dir table)
    {c : ProcessCall} (hv : c.Valid K) (hserved : c.Served F K) (he : c.step F K = some K') :
    ∃ obj' dir' table', World owned rest K₀ K' (Function.update obj (c.slot K) obj') dir' table' := by
  have hsame : ∀ s', World owned rest K₀ K' obj dir table → ∃ obj' dir' table',
      World owned rest K₀ K' (Function.update obj s' obj') dir' table' := fun s' h' =>
    ⟨obj s', dir, table, by rwa [Function.update_eq_self]⟩
  cases c with
  | load filename out stale =>
    cases he
    exact h.load hF hR hserved
  | loadSwitch filename out stale =>
    cases he
    have hload : (Pandora.processLoad F K filename out stale).2.2.kmem.Sound := hserved
    obtain ⟨obj', dir', table', h'⟩ := h.load hF hR hload
    refine ⟨obj', dir', table', ?_⟩
    unfold processLoadSwitch
    dsimp only
    split
    · exact h'.switch _
    · exact h'
  | malloc s size =>
    cases he
    obtain ⟨⟨hs, hne⟩, h1, h2⟩ := hv
    obtain ⟨p, K', he, -, -, -, hcases⟩ := h.processMalloc hs hne h1 h2 hserved
    rw [he] at hsame ⊢
    rcases hcases with ⟨-, h'⟩ | ⟨b, i, -, -, h'⟩
    · exact hsame s h'
    · exact ⟨_, _, _, h'⟩
  | free s ptr =>
    have he' : some (Pandora.processFree K (K.processes s) ptr) = some K' := he
    obtain ⟨K₁, he₁, -, -, -, hcases⟩ := h.processFree hv.1 hv.2 ptr
    obtain rfl : K₁ = K' := he₁.symm.trans (Option.some.inj he')
    rcases hcases with ⟨-, h'⟩ | ⟨b, i, n, -, -, -, h'⟩
    · exact hsame s h'
    · exact ⟨_, _, _, h'⟩
  | inject s root =>
    have he' : (Pandora.processInjectArguments K (K.processes s) root).map Prod.snd = some K' := he
    obtain ⟨⟨res, K₁⟩, hr, rfl⟩ := Option.map_eq_some_iff.1 he'
    obtain ⟨argc, hcount⟩ : ∃ argc,
        processCountCommandArguments K.mem argumentFuel root 0 = some argc := by
      unfold Pandora.processInjectArguments at hr
      cases hcount : processCountCommandArguments K.mem argumentFuel root 0 with
      | none =>
        rw [hcount] at hr
        cases hr
      | some argc => exact ⟨argc, rfl⟩
    obtain ⟨-, -, obj', h'⟩ := h.processInjectArguments hv.1 hcount (hv.2 argc hcount)
      (hserved argc hcount) hr
    exact ⟨_, _, _, h'⟩
  | terminate s =>
    obtain ⟨K₁, he₁, -, -, -, -, h'⟩ := h.processTerminate hv.1 hv.2 (h.other_of_terminate hv he)
    have he' : Pandora.processTerminate K (K.processes s) = some K' := he
    obtain rfl : K₁ = K' := Option.some.inj (he₁.symm.trans he')
    exact ⟨_, _, _, h'⟩

/-- The world where no process has been loaded yet: what is taken is the rest. -/
theorem World.boot (ht : Tidy (owned K.files) K.kmem) (hnone : ∀ s < maxProcesses, K.processes s = 0) :
    ∃ rest, World owned rest K K (fun _ _ => none) (fun _ => 0) (fun _ _ => 0) :=
  ⟨_, .init ht (fun _ _ _ h => by cases h) (fun _ _ _ _ _ h => by cases h)
    (fun _ _ h => absurd h (inChunk_none _)), fun s hs hne => absurd (hnone s hs) hne,
    fun s hs hne => absurd (hnone s hs) hne, fun _ _ _ => rfl⟩

end

end Pandora
