import Mathlib.Data.List.GetD
import Mathlib.Data.Nat.ModEq
import Mathlib.Logic.Function.Basic

/-!
# Ring buffers whose empty cells are marked

A ring of `size` cells holds a queue from the cell `head` on; every other cell is `empty`, and no
element of the queue is. So the cell at `head` tells whether the queue is empty (`Holds.front`), and
neither the length nor the tail need be known to take an element out (`Holds.pop`). The counter
`head` runs on; only its remainder matters.
-/

namespace Ring

variable {α : Type*} {size head : Nat} {empty x : α} {cells : Nat → α} {q : List α}

structure Holds (size : Nat) (empty : α) (cells : Nat → α) (head : Nat) (q : List α) : Prop where
  le : q.length ≤ size
  cell : ∀ i < size, cells ((head + i) % size) = q.getD i empty
  full : ∀ x ∈ q, x ≠ empty

/-- The cells from `head` on are different. -/
theorem index_inj {i j : Nat} (hi : i < size) (hj : j < size)
    (h : (head + i) % size = (head + j) % size) : i = j := by
  have hmod : i % size = j % size := Nat.ModEq.add_left_cancel' head h
  rwa [Nat.mod_eq_of_lt hi, Nat.mod_eq_of_lt hj] at hmod

/-- Every cell is one of them. -/
theorem exists_index {j : Nat} (hj : j < size) : ∃ i < size, (head + i) % size = j := by
  have hpos : 0 < size := by omega
  have hlt := Nat.mod_lt head hpos
  refine ⟨(j + (size - head % size)) % size, Nat.mod_lt _ hpos, ?_⟩
  rw [Nat.add_mod, Nat.mod_mod, ← Nat.add_mod]
  have hsplit : head + (j + (size - head % size)) = j + size * (head / size + 1) := by
    have := Nat.div_add_mod head size
    have : size * (head / size + 1) = size * (head / size) + size := Nat.mul_succ _ _
    omega
  rw [hsplit, Nat.add_mul_mod_self_left, Nat.mod_eq_of_lt hj]

/-- A ring with nothing in it. -/
theorem Holds.init (h : ∀ j < size, cells j = empty) : Holds size empty cells head [] where
  le := Nat.zero_le _
  cell := fun i hi => by
    rw [h _ (Nat.mod_lt _ (by omega))]
    rfl
  full := fun _ hx => absurd hx List.not_mem_nil

theorem Holds.cells_empty (h : Holds size empty cells head []) {j : Nat} (hj : j < size) :
    cells j = empty := by
  obtain ⟨i, hi, rfl⟩ : ∃ i < size, (head + i) % size = j := exists_index hj
  exact h.cell i hi

/-- The cell at `head` is the first element, or `empty` where there is none. -/
theorem Holds.front (h : Holds size empty cells head q) (hsize : 0 < size) :
    cells (head % size) = q.getD 0 empty := h.cell 0 hsize

theorem Holds.push (h : Holds size empty cells head q) (hlt : q.length < size) (hx : x ≠ empty) :
    Holds size empty (Function.update cells ((head + q.length) % size) x) head (q ++ [x]) where
  le := by
    rw [List.length_append]
    exact hlt
  cell := fun i hi => by
    by_cases hiq : i = q.length
    · subst hiq
      rw [Function.update_self, List.getD_append_right _ _ _ _ (Nat.le_refl _), Nat.sub_self]
      rfl
    · rw [Function.update_of_ne fun he => hiq (index_inj hi hlt he), h.cell i hi]
      rcases Nat.lt_or_ge i q.length with hlo | hhi
      · rw [List.getD_append _ _ _ _ hlo]
      · rw [List.getD_append_right _ _ _ _ hhi, List.getD_eq_default _ _ hhi,
          List.getD_eq_default _ _ (by simp; omega)]
  full := fun y hy => by
    rcases List.mem_append.1 hy with hy | hy
    · exact h.full y hy
    · obtain rfl := List.mem_singleton.1 hy
      exact hx

theorem Holds.pop (h : Holds size empty cells head (x :: q)) :
    Holds size empty (Function.update cells (head % size) empty) (head + 1) q where
  le := by
    have := h.le
    rw [List.length_cons] at this
    omega
  cell := fun i hi => by
    have hpos : 0 < size := by omega
    by_cases hlast : i + 1 < size
    · rw [Function.update_of_ne, show head + 1 + i = head + (i + 1) by omega, h.cell (i + 1) hlast]
      · rfl
      · intro he
        have hsame : (head + (i + 1)) % size = (head + 0) % size := by
          rw [show head + (i + 1) = head + 1 + i by omega, he]
          rfl
        have := index_inj hlast hpos hsame
        omega
    · -- the cell that has just been emptied comes last
      have hsize : i + 1 = size := by omega
      have hlen := h.le
      rw [List.length_cons] at hlen
      rw [show head + 1 + i = head + size by omega, Nat.add_mod_right, Function.update_self,
        List.getD_eq_default _ _ (by omega)]
  full := fun y hy => h.full y (List.mem_cons_of_mem _ hy)

/-- Only the remainder of the counter matters. -/
theorem Holds.head_congr {head' : Nat} (h : Holds size empty cells head q)
    (he : head' % size = head % size) : Holds size empty cells head' q where
  le := h.le
  cell := fun i hi => by
    rw [← h.cell i hi, Nat.add_mod, he, ← Nat.add_mod]
  full := h.full

end Ring
