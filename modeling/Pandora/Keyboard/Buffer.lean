import Pandora.Lib.Ring
import Pandora.Lib.Run
import Pandora.Process.State

/-!
# The keyboard buffer (`keyboard/keyboard.c`)

A character is pushed into the buffer of the current process and popped from that of the owner of
the current task. Cells without a character are zero. `Typed` is the invariant: the ring from
`head` on holds the characters that are pending, and `tail` is `head` and their number, modulo
`2 ^ 32`. It stands as long as at most 1024 characters are pending (`typed_step`); one more overwrites
the oldest, which is then popped before the others (`keyboard_overrun`).
-/

namespace Pandora

variable {σ : Type}

/-- `sizeof(process->keyboard.buffer)` -/
def keyboardBufferSize : Nat := 1024

/-- The remainder of the counter as a `size_t`. -/
def keyboardGetTailIndex (process : Process) : Nat := process.keyboard.tail % keyboardBufferSize

def keyboardPush (K : Kernel σ) (c : UInt8) : Kernel σ :=
  let process := K.currentProcess
  if process = 0 ∨ c = 0 then K
  else
    let v := K.processAt process
    let realIndex := keyboardGetTailIndex v
    K.setProcess process { v with
      keyboard := { v.keyboard with
        buffer := Function.update v.keyboard.buffer realIndex c
        tail := Word.add v.keyboard.tail 1 } }

def keyboardPop (K : Kernel σ) : UInt8 × Kernel σ :=
  if K.queue.current = 0 then (0, K)
  else
    let process := (K.queue.task K.queue.current).process
    let v := K.processAt process
    let realIndex := v.keyboard.head % keyboardBufferSize
    let c := v.keyboard.buffer realIndex
    if c = 0 then (0, K)
    else
      (c, K.setProcess process { v with
        keyboard := { v.keyboard with
          buffer := Function.update v.keyboard.buffer realIndex 0
          head := Word.add v.keyboard.head 1 } })

/-! ## Runs -/

/-- The kernel, what was pushed and what was popped so far. -/
structure KeyRun (σ : Type) where
  kernel : Kernel σ
  pushed : List UInt8 := []
  popped : List UInt8 := []

inductive KeyOp where
  | push (c : UInt8)
  | pop
deriving DecidableEq

def KeyOp.step (s : KeyRun σ) : KeyOp → KeyRun σ
  | push c => { s with kernel := keyboardPush s.kernel c, pushed := s.pushed ++ [c] }
  | pop =>
    let (c, K) := keyboardPop s.kernel
    { s with kernel := K, popped := if c = 0 then s.popped else s.popped ++ [c] }

/-- The characters are not zero. -/
def KeyOp.Valid : KeyOp → Prop
  | push c => c ≠ 0
  | pop => True

/-- At most 1024 characters are pending after the step. -/
def KeyOp.Room (s : KeyRun σ) : KeyOp → Prop
  | push _ => s.pushed.length < s.popped.length + keyboardBufferSize
  | pop => True

instance (o : KeyOp) : Decidable o.Valid := by
  cases o
  · exact inferInstanceAs (Decidable (_ ≠ _))
  · exact inferInstanceAs (Decidable True)

instance (s : KeyRun σ) (o : KeyOp) : Decidable (o.Room s) := by
  cases o
  · exact inferInstanceAs (Decidable (_ < _))
  · exact inferInstanceAs (Decidable True)

/-- The process `p` is the current one and owns the current task. -/
structure Focused (K : Kernel σ) (p : Nat) : Prop where
  process : K.currentProcess = p
  task : K.queue.current ≠ 0
  owner : (K.queue.task K.queue.current).process = p
  ne : p ≠ 0

/-- No character is in the buffer, at whatever value of the counters. -/
structure KeyboardBuffer.Empty (kb : KeyboardBuffer) : Prop where
  cells : ∀ i < keyboardBufferSize, kb.buffer i = 0
  tail : kb.tail = kb.head
  lt : kb.head < 2 ^ 32

/-- The characters `q` are pending (module doc). -/
structure KeyboardBuffer.Pending (kb : KeyboardBuffer) (q : List UInt8) : Prop where
  ring : Ring.Holds keyboardBufferSize 0 kb.buffer kb.head q
  tail : kb.tail = (kb.head + q.length) % 2 ^ 32
  lt : kb.head < 2 ^ 32

structure Typed (p : Nat) (s : KeyRun σ) (q : List UInt8) : Prop where
  focused : Focused s.kernel p
  pending : (s.kernel.processAt p).keyboard.Pending q
  split : s.pushed = s.popped ++ q

theorem keyboardBufferSize_pos : 0 < keyboardBufferSize := by decide

theorem KeyboardBuffer.Empty.pending {kb : KeyboardBuffer} (h : kb.Empty) : kb.Pending [] where
  ring := .init h.cells
  tail := by
    have := h.lt
    rw [h.tail, List.length_nil, Nat.add_zero, Nat.mod_eq_of_lt this]
  lt := h.lt

section

variable {kb : KeyboardBuffer} {q : List UInt8} {c : UInt8}

theorem KeyboardBuffer.Pending.front (h : kb.Pending q) :
    kb.buffer (kb.head % keyboardBufferSize) = q.getD 0 0 := h.ring.front keyboardBufferSize_pos

theorem KeyboardBuffer.Pending.push (h : kb.Pending q) (hc : c ≠ 0)
    (hq : q.length < keyboardBufferSize) :
    ({ kb with
      buffer := Function.update kb.buffer (kb.tail % keyboardBufferSize) c
      tail := Word.add kb.tail 1 } : KeyboardBuffer).Pending (q ++ [c]) := by
  obtain ⟨hring, htail, hlt⟩ := h
  -- the counter wraps at a multiple of the size
  have hindex : kb.tail % keyboardBufferSize = (kb.head + q.length) % keyboardBufferSize := by
    rw [htail]
    exact Nat.mod_mod_of_dvd _ (by decide)
  rw [hindex]
  refine ⟨hring.push hq hc, ?_, hlt⟩
  dsimp only
  rw [Word.add_eq, htail, List.length_append, List.length_singleton]
  omega

theorem KeyboardBuffer.Pending.pop (h : kb.Pending (c :: q)) :
    ({ kb with
      buffer := Function.update kb.buffer (kb.head % keyboardBufferSize) 0
      head := Word.add kb.head 1 } : KeyboardBuffer).Pending q := by
  obtain ⟨hring, htail, hlt⟩ := h
  refine ⟨hring.pop.head_congr ?_, ?_, Word.add_lt _ _⟩
  · dsimp only
    rw [Word.add_eq]
    exact Nat.mod_mod_of_dvd _ (by decide)
  · dsimp only
    rw [Word.add_eq, htail, List.length_cons]
    omega

end

section

variable {K : Kernel σ} {p : Nat} {s : KeyRun σ} {q : List UInt8} {c : UInt8} {ops : List KeyOp}

theorem Focused.setProcess (h : Focused K p) (v : Process) : Focused (K.setProcess p v) p :=
  ⟨h.process, h.task, h.owner, h.ne⟩

theorem setProcess_processAt (K : Kernel σ) (p : Nat) (v : Process) :
    (K.setProcess p v).processAt p = v := Function.update_self _ _ _

theorem keyboardPush_eq (h : Focused K p) (hc : c ≠ 0) :
    keyboardPush K c = K.setProcess p { K.processAt p with
      keyboard := { (K.processAt p).keyboard with
        buffer := Function.update (K.processAt p).keyboard.buffer
          ((K.processAt p).keyboard.tail % keyboardBufferSize) c
        tail := Word.add (K.processAt p).keyboard.tail 1 } } := by
  unfold keyboardPush keyboardGetTailIndex
  dsimp only
  rw [h.process, if_neg (not_or.2 ⟨h.ne, hc⟩)]

/-- The process with its first character taken out. -/
def keyboardTaken (v : Process) : Process :=
  { v with
    keyboard := { v.keyboard with
      buffer := Function.update v.keyboard.buffer (v.keyboard.head % keyboardBufferSize) 0
      head := Word.add v.keyboard.head 1 } }

theorem keyboardPop_eq (h : Focused K p) :
    keyboardPop K =
      let kb := (K.processAt p).keyboard
      let c := kb.buffer (kb.head % keyboardBufferSize)
      if c = 0 then (0, K) else (c, K.setProcess p (keyboardTaken (K.processAt p))) := by
  unfold keyboardPop keyboardTaken
  rw [if_neg h.task, h.owner]

theorem Typed.push (h : Typed p s q) (hc : c ≠ 0) (hq : q.length < keyboardBufferSize) :
    Typed p ((KeyOp.push c).step s) (q ++ [c]) := by
  have hstep : (KeyOp.push c).step s =
      { s with kernel := keyboardPush s.kernel c, pushed := s.pushed ++ [c] } := rfl
  rw [hstep, keyboardPush_eq h.focused hc]
  refine ⟨h.focused.setProcess _, ?_, by simp [h.split]⟩
  rw [setProcess_processAt]
  exact h.pending.push hc hq

/-- The first character pending is popped. -/
theorem Typed.pop (h : Typed p s (c :: q)) :
    (keyboardPop s.kernel).1 = c ∧ Typed p (KeyOp.pop.step s) q := by
  have hfront := h.pending.front
  have hc : c ≠ 0 := h.pending.ring.full c List.mem_cons_self
  have hpop : keyboardPop s.kernel =
      (c, s.kernel.setProcess p (keyboardTaken (s.kernel.processAt p))) := by
    rw [keyboardPop_eq h.focused]
    dsimp only
    rw [hfront, List.getD_cons_zero, if_neg hc]
  have hstep : KeyOp.pop.step s = { s with
      kernel := (keyboardPop s.kernel).2
      popped := if (keyboardPop s.kernel).1 = 0 then s.popped
        else s.popped ++ [(keyboardPop s.kernel).1] } := rfl
  rw [hstep, hpop]
  dsimp only
  rw [if_neg hc]
  refine ⟨rfl, h.focused.setProcess _, ?_, by simp [h.split]⟩
  rw [setProcess_processAt]
  exact h.pending.pop

/-- Nothing is popped where nothing is pending. -/
theorem Typed.pop_nil (h : Typed p s []) :
    (keyboardPop s.kernel).1 = 0 ∧ Typed p (KeyOp.pop.step s) [] := by
  have hfront : (s.kernel.processAt p).keyboard.buffer
      ((s.kernel.processAt p).keyboard.head % keyboardBufferSize) = 0 := h.pending.front
  have hpop : keyboardPop s.kernel = (0, s.kernel) := by
    rw [keyboardPop_eq h.focused]
    dsimp only
    rw [hfront, if_pos rfl]
  have hstep : KeyOp.pop.step s = s := by
    unfold KeyOp.step
    rw [hpop]
    rfl
  rw [hstep, hpop]
  exact ⟨rfl, h⟩

theorem typed_step {o : KeyOp} (h : ∃ q, Typed p s q) (ho : o.Valid ∧ o.Room s) :
    ∃ q, Typed p (o.step s) q := by
  obtain ⟨q, h⟩ := h
  cases o with
  | push c =>
    refine ⟨_, h.push ho.1 ?_⟩
    have hroom : s.pushed.length < s.popped.length + keyboardBufferSize := ho.2
    rw [h.split, List.length_append] at hroom
    omega
  | pop =>
    cases q with
    | nil => exact ⟨[], h.pop_nil.2⟩
    | cons c q => exact ⟨q, h.pop.2⟩

/-- What is pending is popped first to last. -/
theorem Typed.pop_eq_zero (h : Typed p s q) : (keyboardPop s.kernel).1 = 0 ↔ q = [] := by
  cases q with
  | nil => exact iff_of_true h.pop_nil.1 rfl
  | cons c q =>
    rw [h.pop.1]
    exact iff_of_false (h.pending.ring.full c List.mem_cons_self) (List.cons_ne_nil c q)

theorem typed_run (hf : Focused K p) (he : (K.processAt p).keyboard.Empty)
    (hs : Run.Steps KeyOp.step (fun s o => o.Valid ∧ o.Room s) ⟨K, [], []⟩ ops) :
    ∃ q, Typed p (Run.exec KeyOp.step ⟨K, [], []⟩ ops) q :=
  Run.Steps.inv (I := fun s => ∃ q, Typed p s q) (fun _ _ => typed_step)
    ⟨[], hf, he.pending, rfl⟩ hs

/-- **The keyboard buffer is a FIFO**: as long as at most 1024 characters are pending, what was popped
is the first part of what was pushed, and a pop finds nothing exactly when that is all of it. -/
theorem keyboard_fifo (hf : Focused K p) (he : (K.processAt p).keyboard.Empty)
    (hs : Run.Steps KeyOp.step (fun s o => o.Valid ∧ o.Room s) ⟨K, [], []⟩ ops) :
    let s := Run.exec KeyOp.step ⟨K, [], []⟩ ops
    s.popped <+: s.pushed ∧ ((keyboardPop s.kernel).1 = 0 ↔ s.popped = s.pushed) := by
  obtain ⟨q, h⟩ := typed_run hf he hs
  refine ⟨⟨q, h.split.symm⟩, ?_⟩
  rw [h.pop_eq_zero, h.split]
  exact List.self_eq_append_right.symm

/-- **Typing ahead** up to 1024 characters: what was popped is a subsequence of what was pushed, and
a pop finds nothing only where no cell holds a character. -/
theorem keyboard_within_room (hf : Focused K p) (he : (K.processAt p).keyboard.Empty)
    (hs : Run.Steps KeyOp.step (fun s o => o.Valid ∧ o.Room s) ⟨K, [], []⟩ ops) :
    let s := Run.exec KeyOp.step ⟨K, [], []⟩ ops
    s.popped.Sublist s.pushed ∧ ((keyboardPop s.kernel).1 = 0 →
      ∀ i < keyboardBufferSize, (s.kernel.processAt p).keyboard.buffer i = 0) := by
  obtain ⟨q, h⟩ := typed_run hf he hs
  refine ⟨?_, fun hzero i hi => ?_⟩
  · rw [h.split]
    exact List.sublist_append_left _ q
  · obtain rfl := h.pop_eq_zero.1 hzero
    exact h.pending.ring.cells_empty hi

/-- One character too many is popped before all others. -/
theorem Typed.overrun {a b : UInt8} (h : Typed p s (a :: b :: q))
    (hq : (a :: b :: q).length = keyboardBufferSize) (hc : c ≠ 0) :
    (Run.exec KeyOp.step s [.push c, .pop, .pop]).popped = s.popped ++ [c, b] := by
  obtain ⟨hring, htail, hlt⟩ := h.pending
  have hindex : (s.kernel.processAt p).keyboard.tail % keyboardBufferSize =
      (s.kernel.processAt p).keyboard.head % keyboardBufferSize := by
    rw [htail, hq]
    unfold keyboardBufferSize
    omega
  have hpush := keyboardPush_eq h.focused hc
  obtain ⟨v, hv⟩ : ∃ v, v = { s.kernel.processAt p with
      keyboard := { (s.kernel.processAt p).keyboard with
        buffer := Function.update (s.kernel.processAt p).keyboard.buffer
          ((s.kernel.processAt p).keyboard.tail % keyboardBufferSize) c
        tail := Word.add (s.kernel.processAt p).keyboard.tail 1 } } := ⟨_, rfl⟩
  rw [← hv] at hpush
  -- the new character is where the oldest was
  have hfirst : v.keyboard.buffer (v.keyboard.head % keyboardBufferSize) = c := by
    rw [hv]
    dsimp only
    rw [hindex, Function.update_self]
  have hf₁ := h.focused.setProcess v
  have hpop₁ : keyboardPop (s.kernel.setProcess p v) =
      (c, (s.kernel.setProcess p v).setProcess p (keyboardTaken v)) := by
    rw [keyboardPop_eq hf₁, setProcess_processAt]
    dsimp only
    rw [hfirst, if_neg hc]
  have hhead : (keyboardTaken v).keyboard.head % keyboardBufferSize =
      ((s.kernel.processAt p).keyboard.head + 1) % keyboardBufferSize := by
    rw [hv]
    dsimp only [keyboardTaken]
    rw [Word.add_eq]
    exact Nat.mod_mod_of_dvd _ (by decide)
  have hne : ((s.kernel.processAt p).keyboard.head + 1) % keyboardBufferSize ≠
      (s.kernel.processAt p).keyboard.head % keyboardBufferSize := by
    unfold keyboardBufferSize
    omega
  have hsecond : (keyboardTaken v).keyboard.buffer
      ((keyboardTaken v).keyboard.head % keyboardBufferSize) = b := by
    rw [hhead, hv]
    dsimp only [keyboardTaken]
    rw [hindex, Function.update_of_ne hne, Function.update_of_ne hne]
    exact hring.cell 1 (by decide)
  have hf₂ := hf₁.setProcess (keyboardTaken v)
  have hpop₂ : (keyboardPop ((s.kernel.setProcess p v).setProcess p (keyboardTaken v))).1 = b := by
    rw [keyboardPop_eq hf₂, setProcess_processAt]
    dsimp only
    rw [hsecond]
    split
    · rename_i h0
      exact h0.symm
    · rfl
  have hb : b ≠ 0 := hring.full b (List.mem_cons_of_mem _ List.mem_cons_self)
  simp only [Run.exec_cons, Run.exec_nil, KeyOp.step, hpush, hpop₁, hpop₂, if_neg hc, if_neg hb,
    List.append_assoc, List.cons_append, List.nil_append]

/-- So what is popped is in an order in which it was not pushed. -/
theorem Typed.overrun_replicate {n : Nat} {a b : UInt8} (h : Typed p s (List.replicate (n + 2) a))
    (hs : s.popped = []) (hn : n + 2 = keyboardBufferSize) (hb : b ≠ 0) (hab : a ≠ b) :
    ¬ (Run.exec KeyOp.step s [.push b, .pop, .pop]).popped.Sublist
      (Run.exec KeyOp.step s [.push b, .pop, .pop]).pushed := by
  have hpushed : (Run.exec KeyOp.step s [.push b, .pop, .pop]).pushed =
      List.replicate (n + 2) a ++ [b] := by
    have hsplit := h.split
    rw [hs, List.nil_append] at hsplit
    exact congrArg (· ++ [b]) hsplit
  have hlen : (a :: a :: List.replicate n a).length = keyboardBufferSize := by
    rw [← hn, List.length_cons, List.length_cons, List.length_replicate]
  have hpopped := Typed.overrun (a := a) (b := a) (q := List.replicate n a) h hlen hb
  rw [hpushed, hpopped, hs]
  intro hsub
  obtain ⟨l₁, l₂, he, h₁, h₂⟩ := List.sublist_append_iff.1 hsub
  cases l₁ with
  | nil =>
    -- both characters would come from the one at the end
    have hle := h₂.length_le
    rw [← List.nil_append l₂, ← he] at hle
    exact absurd hle (by simp)
  | cons x l₁ =>
    have hx : x ∈ List.replicate (n + 2) a := h₁.subset List.mem_cons_self
    have hxb : [b, a] = x :: (l₁ ++ l₂) := he
    exact hab ((List.eq_of_mem_replicate hx).symm.trans (List.cons.inj hxb).1.symm)

end

/-! ## One process -/

/-- A process at 2 with a task at 1, counters about to wrap. -/
def typingKernel (counter : Nat) : Kernel Unit where
  kmem := ⟨⟨⟨fun _ => 0, 0, []⟩, 0⟩, fun _ => 0, false, false, false⟩
  queue := { task := fun _ => { process := 2 }, head := 1, tail := 1, current := 1 }
  processAt := fun _ => { keyboard := { head := counter, tail := counter } }
  elfFileAt := fun _ => {}
  processes := fun _ => 0
  currentProcess := 2
  files := ()

theorem typingKernel_focused (counter : Nat) : Focused (typingKernel counter) 2 :=
  ⟨rfl, Nat.one_ne_zero, rfl, Nat.succ_ne_zero 1⟩

theorem typingKernel_empty {counter : Nat} (h : counter < 2 ^ 32) :
    ((typingKernel counter).processAt 2).keyboard.Empty :=
  ⟨fun _ _ => rfl, rfl, h⟩

theorem keyboard_fifo_wrap :
    let s := Run.exec KeyOp.step ⟨typingKernel (2 ^ 32 - 1), [], []⟩ [.push 97, .push 98, .pop]
    s.popped <+: s.pushed ∧ ((keyboardPop s.kernel).1 = 0 ↔ s.popped = s.pushed) :=
  keyboard_fifo (typingKernel_focused _) (typingKernel_empty (by decide))
    ⟨⟨by decide, by decide⟩, ⟨by decide, by decide⟩, ⟨trivial, trivial⟩, trivial⟩

theorem keyboard_within_room_wrap :
    let s := Run.exec KeyOp.step ⟨typingKernel (2 ^ 32 - 1), [], []⟩ [.push 97, .push 98, .pop]
    s.popped.Sublist s.pushed ∧ ((keyboardPop s.kernel).1 = 0 →
      ∀ i < keyboardBufferSize, (s.kernel.processAt 2).keyboard.buffer i = 0) :=
  keyboard_within_room (typingKernel_focused _) (typingKernel_empty (by decide))
    ⟨⟨by decide, by decide⟩, ⟨by decide, by decide⟩, ⟨trivial, trivial⟩, trivial⟩

/-- The same character, pushed up to 1024 times. -/
theorem typed_replicate : ∀ n ≤ keyboardBufferSize,
    Typed 2 (Run.exec KeyOp.step ⟨typingKernel 0, [], []⟩ (List.replicate n (.push 97)))
      (List.replicate n 97) ∧
    (Run.exec KeyOp.step ⟨typingKernel 0, [], []⟩ (List.replicate n (.push 97))).popped = []
  | 0, _ => ⟨⟨typingKernel_focused 0, (typingKernel_empty (by decide)).pending, rfl⟩, rfl⟩
  | n + 1, hn => by
    obtain ⟨h, hpopped⟩ := typed_replicate n (by omega)
    have hpush := h.push (c := 97) (by decide) (by rw [List.length_replicate]; omega)
    rw [List.replicate_succ', List.replicate_succ', Run.exec_append]
    exact ⟨hpush, hpopped⟩

/-- After 1024 times `a` and one `b`, `b` is popped first and then `a`. -/
theorem keyboard_overrun :
    ¬ (Run.exec KeyOp.step ⟨typingKernel 0, [], []⟩
        (List.replicate keyboardBufferSize (.push 97) ++ [.push 98, .pop, .pop])).popped.Sublist
      (Run.exec KeyOp.step ⟨typingKernel 0, [], []⟩
        (List.replicate keyboardBufferSize (.push 97) ++ [.push 98, .pop, .pop])).pushed := by
  obtain ⟨n, hn⟩ : ∃ n, n + 2 = keyboardBufferSize := ⟨1022, rfl⟩
  have h := typed_replicate keyboardBufferSize (Nat.le_refl _)
  rw [← hn] at h ⊢
  rw [Run.exec_append]
  exact h.1.overrun_replicate h.2 hn (by decide) (by decide)

end Pandora
