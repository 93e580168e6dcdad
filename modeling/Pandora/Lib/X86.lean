import Mathlib.Logic.Function.Basic
import Mathlib.Logic.Relation
import Pandora.Lib.ByteMem
import Pandora.Lib.Word

/-!
# A 32-bit machine

The part of an x86 processor in protected mode that straight kernel assembly uses: the general and the
data segment registers, a flat byte memory, and moves, pushes, `call` and `ret`. An instruction's address
is its index in the code. The processor stops at `iretd`, which leaves the words on the stack for the
interrupted program. No instruction here reads the arithmetic flags, so they are not kept.

* `pushAll`: the words that are pushed one after another, and `read32_pushAll`, what is then on the stack.
* `Executes`: the steps of the code, and `reaches_execBlock` for a block without jumps.
-/

namespace X86

open ByteMem

/-! ## The stack -/

/-- The memory after the words have been pushed, the first one first. -/
def pushAll : Mem → Nat → List Nat → Mem
  | m, _, [] => m
  | m, sp, v :: vs => pushAll (write32 m (sp - 4) v) (sp - 4) vs

@[simp] theorem pushAll_nil (m : Mem) (sp : Nat) : pushAll m sp [] = m := rfl

theorem pushAll_cons (m : Mem) (sp v : Nat) (vs : List Nat) :
    pushAll m sp (v :: vs) = pushAll (write32 m (sp - 4) v) (sp - 4) vs := rfl

/-- The bytes above the stack pointer stay, and those below the last word. -/
theorem pushAll_apply {vs : List Nat} : ∀ {m : Mem} {sp x : Nat}, 4 * vs.length ≤ sp →
    x < sp - 4 * vs.length ∨ sp ≤ x → pushAll m sp vs x = m x := by
  induction vs with
  | nil => intros; rfl
  | cons v vs ih =>
    intro m sp x hsp hx
    rw [List.length_cons] at hsp hx
    rw [pushAll_cons, ih (by omega) (by omega), write32_apply (by omega)]

theorem read32_pushAll_of_outside {vs : List Nat} {m : Mem} {sp a : Nat} (hsp : 4 * vs.length ≤ sp)
    (ha : a + 4 ≤ sp - 4 * vs.length ∨ sp ≤ a) : read32 (pushAll m sp vs) a = read32 m a :=
  read32_congr fun i hi => pushAll_apply hsp (by omega)

theorem pushAll_append (m : Mem) (sp : Nat) (vs ws : List Nat) :
    pushAll (pushAll m sp vs) (sp - 4 * vs.length) ws = pushAll m sp (vs ++ ws) := by
  induction vs generalizing m sp with
  | nil => rfl
  | cons v vs ih =>
    rw [List.length_cons, List.cons_append, pushAll_cons, pushAll_cons, ← ih]
    congr 1
    omega

/-- The words are on the stack, the first one at the top of it. -/
theorem read32_pushAll {vs : List Nat} {v : Nat} : ∀ (m : Mem) (sp : Nat) {i : Nat}, 4 * vs.length ≤ sp →
    vs[i]? = some v → v < 2 ^ 32 → read32 (pushAll m sp vs) (sp - 4 * (i + 1)) = v := by
  induction vs with
  | nil =>
    intro m sp i _ hi _
    cases hi
  | cons w vs ih =>
    intro m sp i hsp hi hv
    rw [List.length_cons] at hsp
    rw [pushAll_cons]
    cases i with
    | zero =>
      obtain rfl : w = v := Option.some.inj hi
      rw [read32_pushAll_of_outside (by omega) (by omega)]
      exact read32_write32 m _ hv
    | succ i =>
      have := ih (write32 m (sp - 4) w) (sp - 4) (by omega) hi hv
      rw [show sp - 4 - 4 * (i + 1) = sp - 4 * (i + 1 + 1) by omega] at this
      exact this

/-! ## The processor -/

/-- The general registers. -/
inductive Reg where
  | eax
  | ecx
  | edx
  | ebx
  | esp
  | ebp
  | esi
  | edi
deriving DecidableEq, Repr

/-- The data segment registers. -/
inductive Seg where
  | ds
  | es
  | fs
  | gs
deriving DecidableEq, Repr

structure Cpu where
  reg : Reg → Nat
  seg : Seg → Nat
  pc : Nat
  mem : Mem

/-- `mov`, `or` and `add` with the operands that occur: `load` moves the word at `[base + off]`,
`load16` the half word there to the low half of the register. -/
inductive Instr where
  | mov (dst src : Reg)
  | load (dst base : Reg) (off : Nat)
  | load16 (dst base : Reg) (off : Nat)
  | movSeg (dst : Seg) (src : Reg)
  | or (dst : Reg) (imm : Nat)
  | add (dst : Reg) (imm : Nat)
  | push (src : Reg)
  | pushMem (base : Reg) (off : Nat)
  | call (target : Nat)
  | ret
  | iretd
deriving DecidableEq, Repr

namespace Cpu

def setReg (s : Cpu) (r : Reg) (v : Nat) : Cpu := { s with reg := Function.update s.reg r v }

def setSeg (s : Cpu) (r : Seg) (v : Nat) : Cpu := { s with seg := Function.update s.seg r v }

def push (s : Cpu) (v : Nat) : Cpu :=
  { s.setReg .esp (Word.sub (s.reg .esp) 4) with mem := write32 s.mem (Word.sub (s.reg .esp) 4) v }

/-- The word at `[base + off]`. -/
def word (s : Cpu) (base : Reg) (off : Nat) : Nat := read32 s.mem (Word.add (s.reg base) off)

def next (s : Cpu) : Cpu := { s with pc := s.pc + 1 }

end Cpu

/-- One instruction. -/
def exec (s : Cpu) : Instr → Cpu
  | .mov dst src => (s.setReg dst (s.reg src)).next
  | .load dst base off => (s.setReg dst (s.word base off)).next
  | .load16 dst base off =>
    (s.setReg dst (s.reg dst / 2 ^ 16 * 2 ^ 16 + s.word base off % 2 ^ 16)).next
  | .movSeg dst src => (s.setSeg dst (s.reg src % 2 ^ 16)).next
  | .or dst imm => (s.setReg dst (s.reg dst ||| imm)).next
  | .add dst imm => (s.setReg dst (Word.add (s.reg dst) imm)).next
  | .push src => (s.push (s.reg src)).next
  | .pushMem base off => (s.push (s.word base off)).next
  | .call target => { s.push (s.pc + 1) with pc := target }
  | .ret => { s.setReg .esp (Word.add (s.reg .esp) 4) with pc := read32 s.mem (s.reg .esp) }
  | .iretd => s

/-- The step of the processor; there is none from `iretd`. -/
inductive Step (code : List Instr) : Cpu → Cpu → Prop
  | exec {s : Cpu} {i : Instr} (h : code[s.pc]? = some i) (hi : i ≠ .iretd) : Step code s (exec s i)

/-- Any number of steps. -/
def Executes (code : List Instr) : Cpu → Cpu → Prop := Relation.ReflTransGen (Step code)

section

variable {code block : List Instr} {s s' s'' : Cpu}

theorem Executes.refl : Executes code s s := Relation.ReflTransGen.refl

theorem Executes.trans (h : Executes code s s') (h' : Executes code s' s'') : Executes code s s'' :=
  Relation.ReflTransGen.trans h h'

theorem Executes.step {i : Instr} (h : code[s.pc]? = some i) (hi : i ≠ .iretd) :
    Executes code s (exec s i) :=
  .single (.exec h hi)

theorem exec_call_esp {t : Nat} (h : 4 ≤ s.reg .esp) (h' : s.reg .esp < 2 ^ 32) :
    (exec s (.call t)).reg .esp = s.reg .esp - 4 :=
  (Function.update_self Reg.esp _ s.reg).trans (Word.sub_of_le h h')

theorem exec_call_mem {t : Nat} (h : 4 ≤ s.reg .esp) (h' : s.reg .esp < 2 ^ 32) :
    (exec s (.call t)).mem = pushAll s.mem (s.reg .esp) [s.pc + 1] :=
  congrArg (write32 s.mem · (s.pc + 1)) (Word.sub_of_le h h')

theorem exec_ret_esp (h : s.reg .esp + 4 < 2 ^ 32) : (exec s .ret).reg .esp = s.reg .esp + 4 :=
  (Function.update_self Reg.esp _ s.reg).trans (Word.add_of_lt h)

theorem exec_ret_reg {r : Reg} (h : r ≠ .esp) : (exec s .ret).reg r = s.reg r :=
  Function.update_of_ne h _ s.reg

theorem exec_add_self {r : Reg} {n : Nat} (h : s.reg r + n < 2 ^ 32) :
    (exec s (.add r n)).reg r = s.reg r + n :=
  (Function.update_self r _ s.reg).trans (Word.add_of_lt h)

theorem exec_add_reg {r r' : Reg} {n : Nat} (h : r' ≠ r) : (exec s (.add r n)).reg r' = s.reg r' :=
  Function.update_of_ne h _ s.reg

/-! ## Blocks -/

/-- The instructions after which the next one is executed. -/
def Instr.linear : Instr → Bool
  | .call _ | .ret | .iretd => false
  | _ => true

/-- `block` is at the address `pc`. -/
def CodeAt (code : List Instr) (pc : Nat) (block : List Instr) : Prop :=
  (code.drop pc).take block.length = block

instance {code : List Instr} {pc : Nat} {block : List Instr} : Decidable (CodeAt code pc block) :=
  inferInstanceAs (Decidable (_ = _))

def execBlock (s : Cpu) (block : List Instr) : Cpu := block.foldl exec s

theorem exec_pc {i : Instr} (h : i.linear) : (exec s i).pc = s.pc + 1 := by
  cases i <;> first | rfl | cases h

theorem reaches_execBlock (hcode : CodeAt code s.pc block) (h : block.all Instr.linear) :
    Executes code s (execBlock s block) := by
  induction block generalizing s with
  | nil => exact .refl
  | cons i block ih =>
    rw [List.all_cons, Bool.and_eq_true] at h
    unfold CodeAt at hcode
    cases hd : code.drop s.pc with
    | nil =>
      rw [hd] at hcode
      cases hcode
    | cons j rest =>
      rw [hd, List.length_cons, List.take_succ_cons] at hcode
      obtain ⟨rfl, hrest⟩ := List.cons.inj hcode
      have hj : code[s.pc]? = some j := by
        rw [← List.head?_drop, hd]
        rfl
      have htail : CodeAt code (exec s j).pc block := by
        unfold CodeAt
        rw [exec_pc h.1, ← List.tail_drop, hd]
        exact hrest
      exact (Executes.step hj (by rintro rfl; cases h.1)).trans (ih htail h.2)

theorem execBlock_pc (h : block.all Instr.linear) : (execBlock s block).pc = s.pc + block.length := by
  induction block generalizing s with
  | nil => rfl
  | cons i block ih =>
    rw [List.all_cons, Bool.and_eq_true] at h
    have := ih (s := exec s i) h.2
    rw [exec_pc h.1] at this
    rw [List.length_cons, ← Nat.add_assoc, Nat.add_right_comm, ← this]
    rfl

end

end X86
