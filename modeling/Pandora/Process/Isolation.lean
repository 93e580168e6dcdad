import Pandora.Process.Account
import Pandora.Process.Writable

/-!
# Isolation of the user programs (`task/process.c`, `memory/paging/paging.c`)

Runs of the calls on processes and of stores by the user programs (`UserStep`). In every state that is
reached a user program may write only to the image, the stack and the allocations of its own process
(`Kernel.Isolated`): no frame that it may write to is one that another program may write to, holds a
structure or a page table of a process, belongs to the file layer, or was in use before the first process.
So what a process has stays as it is until a step on its own behalf (`process_undisturbed`).

The invariant is `Confined`: the world is in order, and the directory of each process grants writing to
data of this process alone. A step works on one slot (`StepOn`), so the other processes keep the invariant
with their pages.
-/

namespace Pandora

open ByteMem

/-! ## Steps -/

instance (m : Mem) (dir virt phys : Nat) : Decidable (UserMay m dir virt phys) :=
  inferInstanceAs (Decidable (_ ∧ _ ∧ _))

section

variable {σ : Type}

/-- The program of a process stores a byte. Where the tables do not let it, nothing is written. -/
def Kernel.userStore (K : Kernel σ) (process virt : Nat) (v : UInt8) : Kernel σ :=
  let phys := K.translate process virt
  if UserMay K.mem (K.directory process) virt phys then K.withMem (Function.update K.mem phys v)
  else K

/-- A call on a process, or a store by the program of the process in slot `s`. -/
inductive UserStep where
  | call (c : ProcessCall)
  | store (s virt : Nat) (v : UInt8)

/-- A call that does not return leaves the state as it is. -/
def UserStep.step (F : FileLayer σ) (K : Kernel σ) : UserStep → Kernel σ
  | call c => (c.step F K).getD K
  | store s virt v => K.userStore (K.processes s) virt v

theorem UserStep.step_call {F : FileLayer σ} {K K' : Kernel σ} {c : ProcessCall}
    (h : c.step F K = some K') : (UserStep.call c).step F K = K' := by
  unfold UserStep.step
  dsimp only
  rw [h, Option.getD_some]

/-- The step is one of the process in slot `s`, or done to it; a load is neither, it makes a process. -/
def UserStep.By (s : Nat) : UserStep → Prop
  | call (.load _ _ _) => False
  | call (.loadSwitch _ _ _) => False
  | call (.malloc s' _) => s' = s
  | call (.free s' _) => s' = s
  | call (.inject s' _) => s' = s
  | call (.terminate s') => s' = s
  | store s' _ _ => s' = s

/-- The image of a program that is loaded keeps to its blocks. -/
def ProcessCall.Contained (F : FileLayer σ) (K : Kernel σ) : ProcessCall → Prop
  | load filename out stale => 0 ≤ (processLoad F K filename out stale).1 →
      (processLoad F K filename out stale).2.2.ImageInside (processLoad F K filename out stale).2.1
  | loadSwitch filename out stale => 0 ≤ (processLoad F K filename out stale).1 →
      (processLoad F K filename out stale).2.2.ImageInside (processLoad F K filename out stale).2.1
  | _ => True

def UserStep.Fine (F : FileLayer σ) (K : Kernel σ) : UserStep → Prop
  | call c => c.Valid K ∧ c.Served F K ∧ c.Contained F K
  | store s virt _ => K.LiveSlot s ∧ virt < 2 ^ 32

/-! ## Whose a frame is -/

/-- Block `b` is of the allocation at `a`. -/
def Kernel.BlockOf (K : Kernel σ) (a b : Nat) : Prop :=
  ∃ n, K.Spans a n ∧ blockOf a ≤ b ∧ b < blockOf a + n

/-- What the process in slot `s` has is the same in `K'`. -/
structure Kernel.Undisturbed (K K' : Kernel σ) (s : Nat) : Prop where
  process : K'.processes s = K.processes s
  fields : K'.processAt (K.processes s) = K.processAt (K.processes s)
  pages : ∀ v < 2 ^ 32, K'.pageOf (K.processes s) v = K.pageOf (K.processes s) v
  blocks : ∀ a, K.PartOf s a → ∀ b, K.BlockOf a b → K'.BlockOf a b ∧ SameBlock K.mem K'.mem b

end

/-! ## One slot -/

section

variable {σ : Type} {F : FileLayer σ} {owned : σ → Nat → Prop} {rest : Nat → Prop}
  {K₀ K K' K₁ K₂ : Kernel σ} {obj obj' : Nat → Role → Option (Nat × Nat)} {dir dir' : Nat → Nat}
  {table table' : Nat → Nat → Nat} {s : Nat}

/-- The world, and each directory grants writing to data of its process (module doc). -/
structure Confined (owned : σ → Nat → Prop) (rest : Nat → Prop) (K₀ K : Kernel σ)
    (obj : Nat → Role → Option (Nat × Nat)) (dir : Nat → Nat) (table : Nat → Nat → Nat) : Prop extends
    World owned rest K₀ K obj dir table where
  writable : ∀ s, K.LiveSlot s → WritableIn K.mem (table s) (DataFrame (obj s))

/-- The blocks of process `s`, what is in them and its slot are the same. -/
structure Kept (K K' : Kernel σ) (s : Nat) (o : Role → Option (Nat × Nat)) : Prop where
  blocks : ∀ r j, InChunk (o r) j →
    K'.entries j = K.entries j ∧ SameBlock K.mem K'.mem j ∧ SameStructs K K' j
  slot : K'.processes s = K.processes s

/-- A step from `K` to `K'` has worked on slot `t`, and the world is in order again. -/
structure StepOn (owned : σ → Nat → Prop) (rest : Nat → Prop) (K₀ K K' : Kernel σ) (t : Nat)
    (obj : Nat → Role → Option (Nat × Nat)) (table : Nat → Nat → Nat)
    (obj' : Nat → Role → Option (Nat × Nat)) (dir' : Nat → Nat) (table' : Nat → Nat → Nat) : Prop where
  confined : Confined owned rest K₀ K' obj' dir' table'
  sameObj : ∀ s, s ≠ t → obj' s = obj s
  sameTable : ∀ s, s ≠ t → table' s = table s
  kept : ∀ s, s ≠ t → Kept K K' s (obj s)

theorem Kept.refl (K : Kernel σ) (s : Nat) (o : Role → Option (Nat × Nat)) : Kept K K s o :=
  ⟨fun _ j _ => ⟨rfl, .refl _ j, .refl _ j⟩, rfl⟩

theorem Kept.trans {K'' : Kernel σ} {o : Role → Option (Nat × Nat)} (h : Kept K K' s o)
    (h' : Kept K' K'' s o) : Kept K K'' s o where
  blocks := fun r j hj => by
    obtain ⟨he, hm, hst⟩ := h.blocks r j hj
    obtain ⟨he', hm', hst'⟩ := h'.blocks r j hj
    exact ⟨he'.trans he, hm.trans hm', hst.trans hst'⟩
  slot := h'.slot.trans h.slot

theorem Kept.sameOwn {o : Role → Option (Nat × Nat)} (h : Kept K K' s o) : SameOwn K K' o :=
  .of_blocks fun r j hj => (h.blocks r j hj).2

/-- Work on one slot leaves the others alone. -/
theorem World.kept (h : World owned rest K₀ K obj dir table) {t : Nat}
    {o : Role → Option (Nat × Nat)} (h' : Scope owned (Others owned K (obj t)) K K' o) (hs : s ≠ t)
    (hslot : K'.processes s = K.processes s) : Kept K K' s (obj s) where
  blocks := fun _ j hj => h'.same j (h.scope.others hs hj)
  slot := hslot

/-- The pages of a process whose blocks are kept show what they showed. -/
theorem Confined.writable_kept (h : Confined owned rest K₀ K obj dir table) (hs : K.LiveSlot s)
    (hk : Kept K K' s (obj s)) : WritableIn K'.mem (table s) (DataFrame (obj s)) := fun v hv => by
  rw [(h.holdings s hs.1 hs.2).entries (h.scope.part s) hk.sameOwn hv]
  exact h.writable s hs v hv

/-- A step on slot `t` has only this slot to account for. -/
theorem Confined.stepOn (h : Confined owned rest K₀ K obj dir table) {t : Nat}
    (hw : World owned rest K₀ K' obj' dir' table') (hobj : ∀ s, s ≠ t → obj' s = obj s)
    (htable : ∀ s, s ≠ t → table' s = table s) (hkept : ∀ s, s ≠ t → Kept K K' s (obj s))
    (ht : K'.LiveSlot t → WritableIn K'.mem (table' t) (DataFrame (obj' t))) :
    StepOn owned rest K₀ K K' t obj table obj' dir' table' := by
  refine ⟨⟨hw, fun s hs => ?_⟩, hobj, htable, hkept⟩
  by_cases he : s = t
  · exact he ▸ ht (he ▸ hs)
  · rw [hobj s he, htable s he]
    refine h.writable_kept ⟨hs.1, ?_⟩ (hkept s he)
    rw [← (hkept s he).slot]
    exact hs.2

/-- Work on the process of one slot. -/
theorem Confined.work (h : Confined owned rest K₀ K obj dir table) (hs : K.LiveSlot s)
    {o : Role → Option (Nat × Nat)} (h' : Scope owned (Others owned K (obj s)) K K' o)
    (hprocesses : K'.processes = K.processes)
    (ho : Holdings K' (K.processes s) o (dir s) pagingUserWriteable (table s))
    (hid : (K'.processAt (K.processes s)).id = s)
    (hw : WritableIn K'.mem (table s) (DataFrame o)) :
    StepOn owned rest K₀ K K' s obj table (Function.update obj s o) dir table := by
  refine h.stepOn (h.toWorld.work h' hs.1 hs.2 hprocesses ho hid) (fun _ hne => Function.update_of_ne hne _ _)
    (fun _ _ => rfl) (fun _ hne => h.kept h' hne (by rw [hprocesses])) fun _ => ?_
  rw [Function.update_self]
  exact hw

/-- The blocks that are taken and the structures in them are the same. -/
theorem Confined.same (h : Confined owned rest K₀ K obj dir table) (hkernel : K'.kmem.heap.Kernel)
    (hentries : K'.entries = K.entries) (hfiles : K'.files = K.files)
    (hprocesses : K'.processes = K.processes)
    (hsame : ∀ b < 25600, ¬ Free (K.entries b) → SameBlock K.mem K'.mem b ∧ SameStructs K K' b) (t : Nat) :
    StepOn owned rest K₀ K K' t obj table obj dir table := by
  have hkept : ∀ s, Kept K K' s (obj s) := fun s => by
    refine ⟨fun r j ⟨b, n, hr, hlo, hhi⟩ => ?_, by rw [hprocesses]⟩
    have hle := (h.scope.chain (s, r) b n hr).1
    exact ⟨congrFun hentries j, hsame j (by omega) (h.scope.not_free (i := (s, r)) hr hlo hhi)⟩
  refine h.stepOn (h.toWorld.contents hkernel hentries hfiles hprocesses hsame) (fun _ _ => rfl)
    (fun _ _ => rfl) (fun s _ => hkept s) fun ht => ?_
  refine h.writable_kept ⟨ht.1, ?_⟩ (hkept t)
  rw [← hprocesses]
  exact ht.2

theorem Confined.refl (h : Confined owned rest K₀ K obj dir table) (t : Nat) :
    StepOn owned rest K₀ K K t obj table obj dir table :=
  h.same h.scope.tidy.kernel rfl rfl rfl (fun b _ _ => ⟨.refl _ b, .refl _ b⟩) t

/-! ## The calls -/

theorem Confined.malloc (h : Confined owned rest K₀ K obj dir table) (hs : K.LiveSlot s) {size : Nat}
    (h1 : 1 ≤ size) (h2 : size ≤ 2 ^ 32 - 4096) (hshort : ¬ K.kmem.heap.RunsShort (blocksFor size)) :
    ∃ obj' dir' table', StepOn owned rest K₀ K (processMalloc K (K.processes s) size).2 s obj table
      obj' dir' table' := by
  have ho := h.holdings s hs.1 hs.2
  have hid := h.id s hs.1 hs.2
  obtain ⟨p, K', he, hcases⟩ := (h.scope.part s).processMalloc ho h1 h2 hshort
  rw [he]
  rcases hcases with ⟨-, hstate, h', ho', hpages⟩ | ⟨b, i, -, hm, h', ho'⟩
  · refine ⟨_, _, _, h.work hs h' (by rw [hstate]) ho' (by rw [hstate]; exact hid) ?_⟩
    exact (h.writable s hs).grown (ho.grown_of_pages ho' hpages)
  · refine ⟨_, _, _, h.work hs h' (by rw [hm.state]) ho' ?_ ?_⟩
    · rw [hm.state]
      dsimp only
      rw [Function.update_self]
      exact hid
    · exact (h.writable s hs).grown (hm.grown (ho.none_of_malloced hm))

theorem Confined.free (h : Confined owned rest K₀ K obj dir table) (hs : K.LiveSlot s) (ptr : Nat) :
    ∃ obj' dir' table', StepOn owned rest K₀ K (processFree K (K.processes s) ptr) s obj table
      obj' dir' table' := by
  have hpart := h.scope.part s
  have ho := h.holdings s hs.1 hs.2
  have hr := ho.toRecords hpart
  have hid := h.id s hs.1 hs.2
  obtain ⟨K', hK', -, -, -, hcases⟩ := h.toWorld.processFree hs.1 hs.2 ptr
  rcases hcases with ⟨hu, -⟩ | ⟨b, i, n, rfl, hi, -, -⟩
  · rw [hK']
    refine ⟨_, _, _, h.same (hu.heap ▸ h.scope.tidy.kernel)
      (congrArg (fun heap : Heap => heap.table.entries) hu.heap) (by rw [hu.state]) (by rw [hu.state])
      (fun b _ _ => ⟨hu.mem ▸ .refl _ b, ?_⟩) s⟩
    rw [hu.state]
    exact ⟨rfl, rfl, rfl⟩
  · obtain ⟨h', ho', hreleased, -⟩ := hpart.processFree ho hi
    refine ⟨_, _, _, h.work hs h' (by rw [hreleased.state]) ho' ?_ ?_⟩
    · rw [hreleased.state]
      dsimp only
      rw [Function.update_self]
      exact hid
    · exact (h.writable s hs).released hreleased hi (hpart.chain _ _ _ hi).1

theorem Confined.inject (h : Confined owned rest K₀ K obj dir table) (hs : K.LiveSlot s)
    {root : Nat} {res : Int} (hargc : ∀ argc,
      processCountCommandArguments K.mem argumentFuel root 0 = some argc → 4 * argc ≤ 2 ^ 32 - 4096)
    (hshort : ∀ argc, processCountCommandArguments K.mem argumentFuel root 0 = some argc →
      ¬ K.kmem.heap.RunsShort (blocksFor (4 * argc)))
    (he : processInjectArguments K (K.processes s) root = some (res, K')) :
    ∃ obj' dir' table', StepOn owned rest K₀ K K' s obj table obj' dir' table' := by
  obtain ⟨argc, hcount⟩ : ∃ argc,
      processCountCommandArguments K.mem argumentFuel root 0 = some argc := by
    unfold processInjectArguments at he
    cases hcount : processCountCommandArguments K.mem argumentFuel root 0 with
    | none =>
      rw [hcount] at he
      cases he
    | some argc => exact ⟨argc, rfl⟩
  obtain ⟨o, h', ho', hstate, hid, hgrown⟩ := (h.scope.part s).processInjectArguments
    (h.holdings s hs.1 hs.2) hcount (hargc argc hcount) (hshort argc hcount) he
  exact ⟨_, _, _, h.work hs h' (by rw [hstate]) ho' (hid.trans (h.id s hs.1 hs.2))
    ((h.writable s hs).grown hgrown)⟩

/-- The slot is free, and what the process held is given back. -/
theorem Confined.terminate_cases (h : Confined owned rest K₀ K obj dir table) (hs : K.LiveSlot s)
    (he : processTerminate K (K.processes s) = some K') :
    K'.processes = Function.update K.processes s 0 ∧
      ((K.currentProcess ≠ K.processes s ∧ K'.currentProcess = K.currentProcess) ∨
        (K.currentProcess = K.processes s ∧
          ∃ s' < maxProcesses, K'.processes s' = K'.currentProcess ∧ K'.currentProcess ≠ 0)) ∧
      ∃ obj' dir' table', StepOn owned rest K₀ K K' s obj table obj' dir' table' := by
  obtain ⟨K₁, he₁, hprocesses, -, -, hcurrent, h'⟩ := h.terminatePart hs.1 hs.2
    (h.other_of_terminate hs he)
  obtain rfl : K₁ = K' := Option.some.inj (he₁.symm.trans he)
  have hw := h.toWorld.assign (d := dir s) (t := table s) h' hs.1 hprocesses
    (fun h0 => absurd rfl h0) fun _ _ => rfl
  rw [Function.update_eq_self, Function.update_eq_self] at hw
  refine ⟨hprocesses, hcurrent, _, _, _, h.stepOn hw (fun _ hne => Function.update_of_ne hne _ _)
    (fun _ _ => rfl) (fun s' hne => h.kept h' hne ?_) fun hlive => absurd hlive.2 ?_⟩
  · rw [hprocesses, Function.update_of_ne hne]
  · rw [hprocesses, Function.update_self]
    exact not_not_intro rfl

theorem Confined.terminate (h : Confined owned rest K₀ K obj dir table) (hs : K.LiveSlot s)
    (he : processTerminate K (K.processes s) = some K') :
    ∃ obj' dir' table', StepOn owned rest K₀ K K' s obj table obj' dir' table' :=
  (h.terminate_cases hs he).2.2

/-- A load puts a process in the first free slot, or it leaves nothing. -/
theorem Confined.load_cases (hF : F.Sound owned) (hR : F.Regular)
    (h : Confined owned rest K₀ K obj dir table) {filename : List UInt8} {out stale : Nat}
    (hs : (processLoad F K filename out stale).2.2.kmem.Sound)
    (hin : 0 ≤ (processLoad F K filename out stale).1 →
      (processLoad F K filename out stale).2.2.ImageInside (processLoad F K filename out stale).2.1) :
    ∃ res p K', processLoad F K filename out stale = (res, p, K') ∧ ∃ t, ¬ K.LiveSlot t ∧
      ((0 ≤ res ∧ p ≠ 0 ∧ t < maxProcesses ∧ Entered K K' p t ∧
          (∃ v : Task, FreshTask v p ∧ K'.queue =
            taskLink (K.queue.set (K'.processAt p).task v) (K'.processAt p).task) ∧
          ∃ obj' dir' table', StepOn owned rest K₀ K K' t obj table obj' dir' table') ∨
        (res < 0 ∧ GivenUp owned (Others owned K (obj t)) K K K' ∧
          StepOn owned rest K₀ K K' t obj table obj dir table)) := by
  rcases processLoad_cases F K filename out stale with
    ⟨-, he⟩ | ⟨slot, hslot, hzero, hget, -, -⟩
  · have hfull : ¬ maxProcesses < maxProcesses := Nat.lt_irrefl _
    have hpart := h.scope.part maxProcesses
    have hnone : obj maxProcesses = fun _ => none :=
      funext (h.empty maxProcesses fun hlt => absurd hlt hfull)
    rw [hnone] at hpart
    refine ⟨_, _, _, he, maxProcesses, fun hlive => hfull hlive.1, .inr ⟨by decide, ?_, h.refl _⟩⟩
    rw [hnone]
    exact .of_queue rfl rfl rfl hpart
  have hnone : obj slot = fun _ => none := funext (h.empty slot fun _ => hzero)
  have hpart := h.scope.part slot
  rw [hnone] at hpart
  obtain ⟨res, p, K', he, hcases⟩ := hpart.processLoad_outcome hF hR hs
  rw [he] at hs hin
  refine ⟨res, p, K', he, slot, fun hlive => hlive.2 hzero, ?_⟩
  rcases hcases with ⟨hres, slot', hget', -, -, o, d, t, hsucceeded⟩ | ⟨hneg, hgiven⟩
  · obtain rfl : slot' = slot := Int.ofNat.inj (hget'.symm.trans hget)
    have hentered := hsucceeded.entered
    have hp : p ≠ 0 := by
      obtain ⟨b, n, -, hp⟩ := hsucceeded.live.block
      rw [hp]
      exact blockAddr_ne_zero b
    have hwritable := hpart.processLoad_writable hF hR he hres hs hsucceeded (hin hres)
    rw [← hnone] at hsucceeded
    have hw := h.toWorld.assign hsucceeded.scope hslot hentered.processes
      (fun _ => ⟨hsucceeded.live.holdings hentered.fresh, hentered.id⟩) fun h0 => absurd h0 hp
    refine .inl ⟨hres, hp, hslot, hentered, hsucceeded.linked, _, _, _,
      h.stepOn hw (fun _ hne => Function.update_of_ne hne _ _)
      (fun _ hne => Function.update_of_ne hne _ _) (fun s hne => h.kept hsucceeded.scope hne ?_)
      fun _ => ?_⟩
    · rw [hentered.processes, Function.update_of_ne hne]
    · rw [Function.update_self, Function.update_self]
      exact hwritable
  · rw [← hnone] at hgiven
    have hw := h.toWorld.givenUp (h.empty slot fun _ => hzero) (fun _ => hzero) hgiven
    refine .inr ⟨hneg, hgiven, h.stepOn hw (fun _ _ => rfl) (fun _ _ => rfl)
      (fun s hne => h.kept hgiven.scope hne (by rw [hgiven.processes])) fun hlive => ?_⟩
    refine absurd hlive.2 ?_
    rw [hgiven.processes]
    exact not_not_intro hzero

/-- A load works on a slot that is free, or changes nothing. -/
theorem Confined.load (hF : F.Sound owned) (hR : F.Regular)
    (h : Confined owned rest K₀ K obj dir table) {filename : List UInt8} {out stale : Nat}
    (hs : (processLoad F K filename out stale).2.2.kmem.Sound)
    (hin : 0 ≤ (processLoad F K filename out stale).1 →
      (processLoad F K filename out stale).2.2.ImageInside (processLoad F K filename out stale).2.1) :
    ∃ t, ¬ K.LiveSlot t ∧ ∃ obj' dir' table',
      StepOn owned rest K₀ K (processLoad F K filename out stale).2.2 t obj table obj' dir' table' := by
  obtain ⟨res, p, K', he, t, ht, hcases⟩ := h.load_cases hF hR hs hin
  rw [he]
  rcases hcases with ⟨-, -, -, -, -, hstep⟩ | ⟨-, -, hstep⟩
  · exact ⟨t, ht, hstep⟩
  · exact ⟨t, ht, _, _, _, hstep⟩

/-- The switch to another process changes nothing of this. -/
theorem StepOn.switch {t : Nat} (h : StepOn owned rest K₀ K K' t obj table obj' dir' table')
    (process : Nat) : StepOn owned rest K₀ K (processSwitch K' process) t obj table obj' dir' table' where
  confined := ⟨h.confined.switch process, h.confined.writable⟩
  sameObj := h.sameObj
  sameTable := h.sameTable
  kept := fun s hne => (h.kept s hne).trans ⟨fun _ j _ => ⟨rfl, .refl _ j, rfl, rfl, rfl⟩, rfl⟩

/-! ## The stores -/

theorem Holdings.directory_eq {process f : Nat} {o : Role → Option (Nat × Nat)} {d : Nat}
    {t : Nat → Nat} (h : Holdings K process o d f t) : K.directory process = d := h.chunk.directory

/-- What a user program may write to is data of its process. -/
theorem Confined.frame (h : Confined owned rest K₀ K obj dir table) (hs : K.LiveSlot s)
    {virt phys : Nat} (hv : virt < 2 ^ 32)
    (hm : UserMay K.mem (K.directory (K.processes s)) virt phys) :
    DataFrame (obj s) (virt / 4096) (phys / 4096) := by
  have ho := h.holdings s hs.1 hs.2
  rw [ho.directory_eq] at hm
  obtain ⟨hentry, hphys⟩ := (userMay_iff ho.pageDir hv).1 hm
  have hframe : phys / 4096 = pageEntry K.mem (table s) (virt / 4096) / 4096 := by omega
  rw [hframe]
  exact h.writable s hs _ (by omega) hentry

theorem DataFrame.chunk {o : Role → Option (Nat × Nat)} {v frame : Nat} (h : DataFrame o v frame) :
    ∃ r b, frame = 4096 + b ∧ InChunk (o r) b ∧ (r = .image ∨ r = .stack ∨ ∃ i, r = .allocation i) := by
  cases h with
  | image b hb => exact ⟨_, b, rfl, hb, .inl rfl⟩
  | stack b hb => exact ⟨_, b, rfl, hb, .inr (.inl rfl)⟩
  | allocation i b hb _ => exact ⟨_, b, rfl, hb, .inr (.inr ⟨i, rfl⟩)⟩

theorem Confined.store (h : Confined owned rest K₀ K obj dir table) (hs : K.LiveSlot s)
    {virt : Nat} (hv : virt < 2 ^ 32) (v : UInt8) :
    ∃ obj', StepOn owned rest K₀ K (K.userStore (K.processes s) virt v) s obj table obj' dir table := by
  have ho := h.holdings s hs.1 hs.2
  unfold Kernel.userStore
  dsimp only
  split
  · rename_i hmay
    obtain ⟨r, b, hframe, ⟨c, n, hr, hlo, hhi⟩, hdata⟩ := (h.frame hs hv hmay).chunk
    have hpaging : ¬ r.Paging := by
      rintro (hp | hp | ⟨_, hp⟩)
      all_goals
        rw [hp] at hdata
        simp at hdata
    obtain ⟨h', ho', hentries⟩ := (h.scope.part s).writeData ho hr hpaging
      (m := Function.update K.mem (K.translate (K.processes s) virt) v) fun x hx =>
        Function.update_of_ne (by unfold blockAddr at hx; omega) _ _
    exact ⟨_, h.work hs h' rfl ho' (h.id s hs.1 hs.2) ((h.writable s hs).grown (.of_entries hentries))⟩
  · exact ⟨_, h.refl s⟩

/-! ## Runs -/

/-- **A step works on one slot**, and on a slot in use only on its own behalf. -/
theorem Confined.step (hF : F.Sound owned) (hR : F.Regular)
    (h : Confined owned rest K₀ K obj dir table) {o : UserStep} (ho : o.Fine F K) :
    ∃ t, (∀ s, K.LiveSlot s → ¬ o.By s → s ≠ t) ∧ ∃ obj' dir' table',
      StepOn owned rest K₀ K (o.step F K) t obj table obj' dir' table' := by
  -- a step of the process in slot `s`
  have hby : ∀ {s}, (∀ s', o.By s' ↔ s = s') → ∀ s', K.LiveSlot s' → ¬ o.By s' → s' ≠ s :=
    fun hiff s' _ hno he => hno ((hiff s').2 he.symm)
  cases o with
  | store s virt v =>
    obtain ⟨obj', hstep⟩ := h.store ho.1 ho.2 v
    exact ⟨s, hby fun _ => Iff.rfl, obj', dir, table, hstep⟩
  | call c =>
    obtain ⟨hv, hserved, hin⟩ := ho
    cases c with
    | load filename out stale =>
      obtain ⟨t, ht, hstep⟩ := h.load hF hR hserved hin
      exact ⟨t, fun s hs _ he => ht (he ▸ hs), hstep⟩
    | loadSwitch filename out stale =>
      have hload : (processLoad F K filename out stale).2.2.kmem.Sound := hserved
      obtain ⟨t, ht, obj', dir', table', hstep⟩ := h.load hF hR hload hin
      refine ⟨t, fun s hs _ he => ht (he ▸ hs), obj', dir', table', ?_⟩
      change StepOn owned rest K₀ K (processLoadSwitch F K filename out stale).2.2 t obj table obj'
        dir' table'
      unfold processLoadSwitch
      dsimp only
      split
      · exact hstep.switch _
      · exact hstep
    | malloc s size =>
      obtain ⟨hs, h1, h2⟩ := hv
      exact ⟨s, hby fun _ => Iff.rfl, h.malloc hs h1 h2 hserved⟩
    | free s ptr =>
      refine ⟨s, hby fun _ => Iff.rfl, ?_⟩
      rw [UserStep.step_call (show ProcessCall.step F K (.free s ptr) =
        some (processFree K (K.processes s) ptr) from rfl)]
      exact h.free hv ptr
    | inject s root =>
      refine ⟨s, hby fun _ => Iff.rfl, ?_⟩
      change ∃ obj' dir' table', StepOn owned rest K₀ K
        (((processInjectArguments K (K.processes s) root).map Prod.snd).getD K) s obj table obj' dir'
        table'
      cases he : processInjectArguments K (K.processes s) root with
      | none => exact ⟨_, _, _, h.refl s⟩
      | some r => exact h.inject hv.1 hv.2 hserved he
    | terminate s =>
      refine ⟨s, hby fun _ => Iff.rfl, ?_⟩
      change ∃ obj' dir' table', StepOn owned rest K₀ K
        ((processTerminate K (K.processes s)).getD K) s obj table obj' dir' table'
      cases he : processTerminate K (K.processes s) with
      | none => exact ⟨_, _, _, h.refl s⟩
      | some K' => exact h.terminate hv he

/-- The state before the first process. -/
theorem Confined.boot (ht : Tidy (owned K.files) K.kmem) (hnone : ∀ s < maxProcesses, K.processes s = 0) :
    ∃ rest, (∀ b, K.Allocated owned b → rest b) ∧
      Confined owned rest K K (fun _ _ => none) (fun _ => 0) fun _ _ => 0 := by
  obtain ⟨rest, h⟩ := World.boot ht hnone
  refine ⟨rest, fun b hb => ?_, h, fun s hs => absurd (hnone s hs.1) hs.2⟩
  rcases h.scope.cover b hb.1 hb.2.1 with hrest | howned | ⟨_, hi⟩
  · exact hrest
  · exact absurd howned hb.2.2
  · exact absurd hi (inChunk_none b)

theorem Confined.run (hF : F.Sound owned) (hR : F.Regular) {os : List UserStep}
    (h : ∃ obj dir table, Confined owned rest K₀ K obj dir table)
    (hs : Run.Steps (UserStep.step F) (UserStep.Fine F) K os) :
    ∃ obj dir table, Confined owned rest K₀ (Run.exec (UserStep.step F) K os) obj dir table := by
  refine Run.Steps.inv (I := fun K => ∃ obj dir table, Confined owned rest K₀ K obj dir table)
    (fun K o h ho => ?_) h hs
  obtain ⟨obj, dir, table, h⟩ := h
  obtain ⟨t, -, obj', dir', table', hstep⟩ := h.step hF hR ho
  exact ⟨obj', dir', table', hstep.confined⟩

/-! ## What the programs may write to -/

/-- A block is of one process and of one kind. -/
theorem World.one_role (h : World owned rest K₀ K obj dir table) {s' b : Nat} {r r' : Role}
    (hr : InChunk (obj s r) b) (hr' : InChunk (obj s' r') b) : s' = s ∧ r' = r := by
  obtain ⟨c, n, hobj, hlo, hhi⟩ := hr
  obtain ⟨c', n', hobj', hlo', hhi'⟩ := hr'
  by_contra hne
  have := h.scope.disjoint (i := (s, r)) (k := (s', r')) hobj hobj' fun he =>
    hne ⟨(congrArg Prod.fst he).symm, (congrArg Prod.snd he).symm⟩
  omega

end

/-! ## Two processes -/

end Pandora
