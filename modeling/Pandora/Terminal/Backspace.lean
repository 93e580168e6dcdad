import Pandora.Terminal.Screen

/-!
# Backspace (`kernel.c`)

`terminal_backspace` steps back, writes a blank, which steps forward, and steps back again. Inside a
line that takes the character before the cursor away (`Terminal.backspace_inner`). At the start of a line
the blank is the last cell of the line before, so that writing it wraps: the last step back is one
from column 0, and the cursor leaves the screen (`Terminal.backspace_start`).
-/

namespace Pandora

section

variable {t t' : Terminal} {c color color' : UInt8}

/-- What backspace leaves. -/
def blank : UInt16 := terminalMakeChar 0x20 15

/-- The cell at the cursor. -/
def Terminal.cell (t : Terminal) : Nat := t.row * vgaWidth + t.col

/-- The cursor is where it was in `t`, there is a blank in that cell, and the others are as before. -/
structure Undone (t t' : Terminal) : Prop where
  row : t'.row = t.row
  col : t'.col = t.col
  blank : t'.videoMem t.cell = blank
  others : ∀ i, i ≠ t.cell → t'.videoMem i = t.videoMem i

/-- The cursor is on the cell before, in reading order. -/
structure SteppedBack (t t' : Terminal) : Prop where
  col : t'.col < vgaWidth
  cell : t'.cell + 1 = t.cell

/-! ## One call -/

/-- A character before the last column. -/
theorem Terminal.put_inner (h : t.col + 1 < vgaWidth) :
    terminalWritechar.put t c color = { t with
      col := t.col + 1
      videoMem := Function.update t.videoMem t.cell (terminalMakeChar c color)
      written := t.cell :: t.written } := by
  have hmod : (t.col + 1) % 2 ^ 16 = t.col + 1 := by
    unfold vgaWidth at h
    omega
  unfold terminalWritechar.put terminalPutchar Terminal.cell
  simp only [hmod, ge_iff_le, Nat.not_le.2 h, if_false]

/-- A character in the last column. -/
theorem Terminal.put_last (h : t.col + 1 = vgaWidth) (hrow : t.row < vgaHeight) :
    terminalWritechar.put t c color = { t with
      row := t.row + 1
      col := 0
      videoMem := Function.update t.videoMem t.cell (terminalMakeChar c color)
      written := t.cell :: t.written } := by
  have hmod : (t.col + 1) % 2 ^ 16 = vgaWidth := by
    rw [h]
    rfl
  have hmod' : (t.row + 1) % 2 ^ 16 = t.row + 1 := by
    unfold vgaHeight at hrow
    omega
  unfold terminalWritechar.put terminalPutchar Terminal.cell
  simp only [hmod, hmod', ge_iff_le, Nat.le_refl, if_true]

/-- Inside a line. -/
theorem Terminal.backspace_inner (hcol : t.col < vgaWidth) (hne : t.col ≠ 0) :
    terminalBackspace t = { t with
      col := t.col - 1
      videoMem := Function.update t.videoMem (t.cell - 1) blank
      written := (t.cell - 1) :: t.written } := by
  have hlt := hcol
  unfold vgaWidth at hlt
  have hback : (t.col + (2 ^ 16 - 1)) % 2 ^ 16 = t.col - 1 := by omega
  obtain ⟨t₁, ht₁⟩ : ∃ t₁ : Terminal, { t with col := t.col - 1 } = t₁ := ⟨_, rfl⟩
  have hcol₁ : t₁.col = t.col - 1 := by rw [← ht₁]
  have hcell : t₁.cell = t.cell - 1 := by
    rw [← ht₁]
    unfold Terminal.cell
    dsimp only
    omega
  have hput : terminalWritechar.put t₁ 0x20 15 = _ := Terminal.put_inner (by omega)
  unfold terminalBackspace
  rw [if_neg fun h => hne h.2]
  dsimp only
  rw [if_neg hne, hback, ht₁, hput, hcol₁, hcell, show t.col - 1 + 1 = t.col by omega, hback, ← ht₁]
  rfl

/-- At the start of a line the column wraps. -/
theorem Terminal.backspace_start (hcol : t.col = 0) (hne : t.row ≠ 0) (hrow : t.row ≤ vgaHeight) :
    (terminalBackspace t).col = 2 ^ 16 - 1 := by
  obtain ⟨t₁, ht₁⟩ : ∃ t₁ : Terminal,
      { t with row := (t.row + (2 ^ 16 - 1)) % 2 ^ 16, col := 79 } = t₁ := ⟨_, rfl⟩
  have hrow₁ : t₁.row < vgaHeight := by
    rw [← ht₁]
    unfold vgaHeight at hrow ⊢
    dsimp only
    omega
  have hput : terminalWritechar.put t₁ 0x20 15 = _ := Terminal.put_last (by rw [← ht₁]; rfl) hrow₁
  have hback : (vgaWidth + (2 ^ 16 - 1)) % 2 ^ 16 = 79 := by decide
  unfold terminalBackspace
  rw [if_neg fun h => hne h.1]
  dsimp only
  rw [if_pos hcol]
  dsimp only
  rw [hback, ht₁, hput]
  dsimp only
  rw [Nat.zero_add, Nat.mod_eq_of_lt (by omega)]

theorem terminalWritechar_backspace : terminalWritechar t 0x08 color = terminalBackspace t := by
  unfold terminalWritechar
  rw [if_neg (by decide), if_pos rfl]

theorem terminalWritechar_put (hnl : c ≠ 0x0A) (hbs : c ≠ 0x08) :
    terminalWritechar t c color = terminalWritechar.put t c color := by
  unfold terminalWritechar
  rw [if_neg hnl, if_neg hbs]

/-! ## What backspace does -/

/-- A character and a backspace. -/
theorem undone_iff (hcol : t.col < vgaWidth) (hrow : t.row < vgaHeight) :
    Undone t (terminalBackspace (terminalWritechar.put t c color)) ↔ t.col + 1 < vgaWidth := by
  constructor
  · intro h
    by_contra hge
    -- the character goes to the last column, and the cursor to the start of a line
    have hput : terminalWritechar.put t c color = _ := Terminal.put_last (by omega) hrow
    obtain ⟨t₁, ht₁⟩ : ∃ t₁, terminalWritechar.put t c color = t₁ := ⟨_, rfl⟩
    have hlast := h.col
    rw [ht₁] at hput hlast
    rw [Terminal.backspace_start (by rw [hput]) (by rw [hput]; simp) (by rw [hput]; exact hrow)] at hlast
    unfold vgaWidth at hcol
    omega
  · intro h
    rw [Terminal.put_inner h]
    obtain ⟨t₁, ht₁⟩ : ∃ t₁ : Terminal, { t with
      col := t.col + 1
      videoMem := Function.update t.videoMem t.cell (terminalMakeChar c color)
      written := t.cell :: t.written } = t₁ := ⟨_, rfl⟩
    have hcell : t₁.cell - 1 = t.cell := by
      rw [← ht₁]
      rfl
    rw [ht₁, Terminal.backspace_inner (by rw [← ht₁]; exact h) (by rw [← ht₁]; simp), hcell]
    refine ⟨?_, ?_, ?_, ?_⟩
    · rw [← ht₁]
    · rw [← ht₁]
      rfl
    · simp
    · intro i hi
      rw [← ht₁]
      simp [hi]

/-- A backspace alone. -/
theorem steppedBack_iff (hcol : t.col < vgaWidth) (hrow : t.row < vgaHeight)
    (hne : t.row ≠ 0 ∨ t.col ≠ 0) : SteppedBack t (terminalBackspace t) ↔ t.col ≠ 0 := by
  constructor
  · intro h hstart
    have hlt := h.col
    rw [Terminal.backspace_start hstart (hne.resolve_right (not_not_intro hstart))
      (Nat.le_of_lt hrow)] at hlt
    exact absurd hlt (by decide)
  · intro h
    rw [Terminal.backspace_inner hcol h]
    refine ⟨?_, ?_⟩
    · dsimp only
      omega
    · unfold Terminal.cell
      dsimp only
      omega

/-- **Backspace undoes one character** exactly where the character does not end a line, and a backspace
alone steps back exactly where it does not begin one. -/
theorem backspace_undoes_iff (hcol : t.col < vgaWidth) (hrow : t.row < vgaHeight) (hnl : c ≠ 0x0A)
    (hbs : c ≠ 0x08) :
    ((t.row + 1 < vgaHeight ∨ t.col + 1 < vgaWidth) →
      (Undone t (terminalWritechar (terminalWritechar t c color) 0x08 color') ↔
        t.col + 1 < vgaWidth)) ∧
    ((t.row ≠ 0 ∨ t.col ≠ 0) →
      (SteppedBack t (terminalWritechar t 0x08 color') ↔ t.col ≠ 0)) := by
  rw [terminalWritechar_put hnl hbs, terminalWritechar_backspace, terminalWritechar_backspace]
  exact ⟨fun _ => undone_iff hcol hrow, fun hne => steppedBack_iff hcol hrow hne⟩

end

/-- The screen with the cursor in a place. -/
def cursorAt (row col : Nat) : Terminal := { row := row, col := col, videoMem := fun _ => blank }

theorem backspace_undoes_iff_middle :
    Undone (cursorAt 3 10) (terminalWritechar (terminalWritechar (cursorAt 3 10) 0x61 15) 0x08 15) ∧
      SteppedBack (cursorAt 3 10) (terminalWritechar (cursorAt 3 10) 0x08 15) := by
  have h := @backspace_undoes_iff (cursorAt 3 10) 0x61 15 15 (by decide) (by decide) (by decide) (by decide)
  exact ⟨(h.1 (.inl (by decide))).2 (by decide), (h.2 (.inl (by decide))).2 (by decide)⟩

/-- A character in the last column of the first line, and a backspace at the start of the second. -/
theorem backspace_line_ends :
    ¬ Undone (cursorAt 0 79) (terminalWritechar (terminalWritechar (cursorAt 0 79) 0x61 15) 0x08 15) ∧
      ¬ SteppedBack (cursorAt 1 0) (terminalWritechar (cursorAt 1 0) 0x08 15) := by
  constructor
  · intro h
    have hcol : (terminalWritechar (terminalWritechar (cursorAt 0 79) 0x61 15) 0x08 15).col = 65535 := by
      decide +kernel
    exact absurd (hcol.symm.trans h.col) (by decide)
  · intro h
    have hcol : (terminalWritechar (cursorAt 1 0) 0x08 15).col = 65535 := by
      decide +kernel
    have hlt := h.col
    rw [hcol] at hlt
    exact absurd hlt (by decide)

end Pandora
