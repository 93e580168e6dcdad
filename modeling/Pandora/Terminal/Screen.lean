import Mathlib.Algebra.Group.Nat.Defs
import Mathlib.Logic.Function.Basic
import Pandora.Lib.Run

/-!
# The terminal (`kernel.c`)

The screen is `video_mem`, a cell of 16 bits for each place; a write past its end is a write.
`Terminal.written` is a ghost: the indexes written so far, the latest first. `terminal_row` and
`terminal_col` are `uint16_t`: natural numbers, counted modulo `2 ^ 16`.

Nothing scrolls: a newline in the last line leaves the screen, and so does a character in its last
cell. A backspace at the start of a line takes the cursor to the last cell of the line before, where
the blank it writes wraps back; the column is decremented from 0. `inside_step_iff`: these are the
steps that leave the screen, and the only ones.
-/

namespace Pandora

/-- `VGA_WIDTH` and `VGA_HEIGHT` of `kernel.h` -/
def vgaWidth : Nat := 80
def vgaHeight : Nat := 20

structure Terminal where
  row : Nat
  col : Nat
  videoMem : Nat → UInt16
  written : List Nat := []

/-! ## Writing -/

/-- A `char` is signed. -/
def charToUInt16 (c : UInt8) : UInt16 := c.toInt8.toInt16.toUInt16

def terminalMakeChar (c color : UInt8) : UInt16 := charToUInt16 color <<< 8 ||| charToUInt16 c

def terminalPutchar (t : Terminal) (x y : Nat) (c color : UInt8) : Terminal :=
  let i := y * vgaWidth + x
  { t with
    videoMem := Function.update t.videoMem i (terminalMakeChar c color)
    written := i :: t.written }

/-- The end of `terminal_writechar`: the character is neither a newline nor a backspace. -/
def terminalWritechar.put (t : Terminal) (c color : UInt8) : Terminal :=
  let t := terminalPutchar t t.col t.row c color
  let t := { t with col := (t.col + 1) % 2 ^ 16 }
  if t.col ≥ vgaWidth then { t with col := 0, row := (t.row + 1) % 2 ^ 16 } else t

/-- `terminal_writechar(' ', 15)` goes to its end. -/
def terminalBackspace (t : Terminal) : Terminal :=
  if t.row = 0 ∧ t.col = 0 then t
  else
    let t := if t.col = 0 then { t with row := (t.row + (2 ^ 16 - 1)) % 2 ^ 16, col := vgaWidth } else t
    let t := { t with col := (t.col + (2 ^ 16 - 1)) % 2 ^ 16 }
    let t := terminalWritechar.put t 0x20 15
    { t with col := (t.col + (2 ^ 16 - 1)) % 2 ^ 16 }

def terminalWritechar (t : Terminal) (c color : UInt8) : Terminal :=
  if c = 0x0A then { t with row := (t.row + 1) % 2 ^ 16, col := 0 }
  else if c = 0x08 then terminalBackspace t
  else terminalWritechar.put t c color

/-- The inner loop of `terminal_initialize`: `n = VGA_WIDTH - x` cells of the line are left. -/
def terminalInitialize.line (y : Nat) : (n x : Nat) → Terminal → Terminal
  | 0, _, t => t
  | n + 1, x, t => line y n (x + 1) (terminalPutchar t x y 0x20 0)

/-- The outer loop: `n = VGA_HEIGHT - y` lines are left. -/
def terminalInitialize.lines : (n y : Nat) → Terminal → Terminal
  | 0, _, t => t
  | n + 1, y, t => lines n (y + 1) (terminalInitialize.line y vgaWidth 0 t)

/-- `videoMem` is what the screen shows before. -/
def terminalInitialize (videoMem : Nat → UInt16) : Terminal :=
  terminalInitialize.lines vgaHeight 0 { row := 0, col := 0, videoMem := videoMem }

/-- The string without its end; also what `isr80h_command1_print` does with its copy. -/
def print (t : Terminal) (str : List UInt8) : Terminal :=
  str.foldl (fun t c => terminalWritechar t c 15) t

/-- `item` is the argument on the stack of the task. -/
def isr80hCommand3Putchar (t : Terminal) (item : Nat) : Terminal :=
  terminalWritechar t (UInt8.ofNat item) 15

/-! ## One character -/

/-- The cursor is on the screen, and so is everything written. -/
structure Terminal.Inside (t : Terminal) : Prop where
  col : t.col < vgaWidth
  row : t.row < vgaHeight
  written : ∀ i ∈ t.written, i < vgaWidth * vgaHeight

/-- A character with its color is written. -/
def Terminal.step (t : Terminal) (o : UInt8 × UInt8) : Terminal := terminalWritechar t o.1 o.2

/-- The character stays on the screen (module doc). -/
def Terminal.Fits (t : Terminal) (o : UInt8 × UInt8) : Prop :=
  if o.1 = 0x0A then t.row + 1 < vgaHeight
  else if o.1 = 0x08 then t.col = 0 → t.row = 0
  else t.row + 1 < vgaHeight ∨ t.col + 1 < vgaWidth

instance (t : Terminal) (o : UInt8 × UInt8) : Decidable (t.Fits o) := by
  unfold Terminal.Fits
  infer_instance

section

variable {t : Terminal} {c color : UInt8}

/-- A character on the screen is written on the screen, and the cursor leaves the last cell only. -/
theorem Terminal.Inside.put (h : t.Inside) : (terminalWritechar.put t c color).Inside ↔
    t.row + 1 < vgaHeight ∨ t.col + 1 < vgaWidth := by
  obtain ⟨hcol, hrow, hwritten⟩ := h
  unfold vgaWidth at hcol
  unfold vgaHeight at hrow
  have hmod : (t.col + 1) % 2 ^ 16 = t.col + 1 := by omega
  have hmod' : (t.row + 1) % 2 ^ 16 = t.row + 1 := by omega
  have hall : ∀ i ∈ (t.row * vgaWidth + t.col) :: t.written, i < vgaWidth * vgaHeight := by
    intro i hi
    rcases List.mem_cons.1 hi with rfl | hi
    · unfold vgaWidth vgaHeight
      omega
    · exact hwritten i hi
  unfold terminalWritechar.put terminalPutchar
  dsimp only
  rw [hmod, hmod']
  by_cases hend : t.col + 1 ≥ vgaWidth
  · rw [if_pos hend]
    constructor
    · intro h
      exact .inl h.row
    · rintro (h | h)
      · exact ⟨Nat.zero_lt_succ 79, h, hall⟩
      · omega
  · rw [if_neg hend]
    exact iff_of_true ⟨Nat.not_le.1 hend, by unfold vgaHeight; exact hrow, hall⟩ (.inr (Nat.not_le.1 hend))

/-- A backspace behind the start of a line writes its blank in the line. -/
theorem Terminal.Inside.backspace (h : t.Inside) :
    (terminalBackspace t).Inside ↔ (t.col = 0 → t.row = 0) := by
  have hcol := h.col
  have hrow := h.row
  unfold vgaWidth at hcol
  unfold vgaHeight at hrow
  unfold terminalBackspace
  by_cases horigin : t.row = 0 ∧ t.col = 0
  · rw [if_pos horigin]
    exact iff_of_true h fun _ => horigin.1
  · rw [if_neg horigin]
    by_cases hstart : t.col = 0
    · -- the blank wraps back to column 0, which is decremented
      refine iff_of_false (fun hin => ?_) fun hc => horigin ⟨hc hstart, hstart⟩
      have hlt := hin.col
      dsimp only at hlt
      rw [if_pos hstart] at hlt
      have hback : (vgaWidth + (2 ^ 16 - 1)) % 2 ^ 16 = 79 := by decide
      unfold terminalWritechar.put terminalPutchar at hlt
      dsimp only at hlt
      rw [hback, if_pos (by decide)] at hlt
      exact absurd hlt (show ¬ (0 + (2 ^ 16 - 1)) % 2 ^ 16 < vgaWidth by decide)
    · refine iff_of_true ?_ fun hc => absurd hc hstart
      dsimp only
      rw [if_neg hstart]
      have hback : (t.col + (2 ^ 16 - 1)) % 2 ^ 16 = t.col - 1 := by omega
      rw [hback]
      obtain ⟨t', ht'⟩ : ∃ t' : Terminal, { t with col := t.col - 1 } = t' := ⟨_, rfl⟩
      have hcol' : t'.col = t.col - 1 := by rw [← ht']
      have hin' : t'.Inside := by
        rw [← ht']
        exact ⟨by unfold vgaWidth; dsimp only; omega, h.row, h.written⟩
      rw [ht']
      have hput : (terminalWritechar.put t' 0x20 15).Inside := hin'.put.2
        (.inr (by rw [hcol']; unfold vgaWidth; omega))
      have hcolput : (terminalWritechar.put t' 0x20 15).col = t.col := by
        unfold terminalWritechar.put terminalPutchar
        dsimp only
        rw [hcol', show (t.col - 1 + 1) % 2 ^ 16 = t.col by omega, if_neg (Nat.not_le.2 h.col)]
      refine ⟨?_, hput.row, hput.written⟩
      dsimp only
      rw [hcolput, hback]
      unfold vgaWidth
      omega

/-- **The characters that leave the screen** (module doc). -/
theorem inside_step_iff (h : t.Inside) (o : UInt8 × UInt8) : (t.step o).Inside ↔ t.Fits o := by
  unfold Terminal.step terminalWritechar Terminal.Fits
  by_cases hnl : o.1 = 0x0A
  · rw [if_pos hnl, if_pos hnl]
    have hrow := h.row
    unfold vgaHeight at hrow
    have hmod : (t.row + 1) % 2 ^ 16 = t.row + 1 := by omega
    rw [hmod]
    exact ⟨fun hin => hin.row, fun hlt => ⟨Nat.zero_lt_succ 79, hlt, h.written⟩⟩
  · rw [if_neg hnl, if_neg hnl]
    by_cases hbs : o.1 = 0x08
    · rw [if_pos hbs, if_pos hbs]
      exact h.backspace
    · rw [if_neg hbs, if_neg hbs]
      exact h.put

end

/-! ## Runs -/

theorem initialize_line_spec {y : Nat} (hy : y < vgaHeight) :
    ∀ (n x : Nat) (t : Terminal), x + n ≤ vgaWidth → t.Inside →
      (terminalInitialize.line y n x t).Inside
  | 0, _, _, _, h => h
  | n + 1, x, t, hx, h => by
    refine initialize_line_spec hy n (x + 1) _ (by omega) ⟨h.col, h.row, fun i hi => ?_⟩
    rcases List.mem_cons.1 hi with rfl | hi
    · unfold vgaHeight at hy
      unfold vgaWidth at hx ⊢
      unfold vgaHeight
      omega
    · exact h.written i hi

theorem initialize_lines_spec : ∀ (n y : Nat) (t : Terminal), y + n ≤ vgaHeight → t.Inside →
    (terminalInitialize.lines n y t).Inside
  | 0, _, _, _, h => h
  | n + 1, y, t, hy, h => initialize_lines_spec n (y + 1) _ (by omega)
      (initialize_line_spec (by omega) vgaWidth 0 t (by omega) h)

/-- The terminal starts on the screen. -/
theorem inside_initialize (videoMem : Nat → UInt16) : (terminalInitialize videoMem).Inside :=
  initialize_lines_spec vgaHeight 0 _ (by omega) ⟨Nat.zero_lt_succ 79, Nat.zero_lt_succ 19, by simp⟩

/-- **The terminal stays on the screen** exactly as long as no newline and no full line comes in the
last line, and no backspace at the start of a line but the first. -/
theorem terminal_inside_iff (videoMem : Nat → UInt16) (os : List (UInt8 × UInt8)) :
    Run.Steps Terminal.step (fun t o => (t.step o).Inside) (terminalInitialize videoMem) os ↔
      Run.Steps Terminal.step Terminal.Fits (terminalInitialize videoMem) os := by
  have hinit := inside_initialize videoMem
  generalize terminalInitialize videoMem = t at hinit ⊢
  have hall : Run.Steps Terminal.step (fun _ _ => True) t os :=
    Run.steps_of_forall (P := fun _ => True) fun _ _ => trivial
  exact Run.inv_iff (I := Terminal.Inside) (fun _ o h _ => inside_step_iff h o) hinit hall

/-- Printing is a run of characters in one color. -/
theorem print_eq_exec (t : Terminal) (str : List UInt8) :
    print t str = Run.exec Terminal.step t (str.map fun c => (c, 15)) := by
  unfold print
  induction str generalizing t with
  | nil => rfl
  | cons c str ih => exact ih _

theorem putchar_eq_step (t : Terminal) (item : Nat) :
    isr80hCommand3Putchar t item = t.step (UInt8.ofNat item, 15) := rfl

/-- A backspace at the start of the second line, and 20 newlines. -/
theorem terminal_leaves_screen :
    ¬ (print (terminalInitialize fun _ => 0) [0x0A, 0x08]).Inside ∧
      ¬ (print (terminalInitialize fun _ => 0) (List.replicate 20 0x0A)).Inside := by
  have hcol : (print (terminalInitialize fun _ => 0) [0x0A, 0x08]).col = 65535 := by
    decide +kernel
  have hrow : (print (terminalInitialize fun _ => 0) (List.replicate 20 0x0A)).row = 20 := by
    decide +kernel
  refine ⟨fun h => ?_, fun h => ?_⟩
  · have := h.col
    rw [hcol] at this
    exact absurd this (by decide)
  · have := h.row
    rw [hrow] at this
    exact absurd this (by decide)

end Pandora
