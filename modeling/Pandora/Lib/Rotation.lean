import Mathlib.Data.List.Cycle
import Pandora.Lib.Linked

/-!
# Chains as rings

`Linked.following next null head`: the node behind a node of the chain that starts at `head`, where the
first comes after the last. On a chain it is `List.next` (`Walk.following_eq_next`); followed again
and again it visits the nodes in order, each once in every round (`Walk.visits`, `Walk.reaches`).

A chain stays one where a node is unlinked from its predecessor (`Walk.unlink`).
-/

namespace Linked

variable {α : Type*} {next next' : α → α} {null : α}

/-- Unlinking the node `a` behind `b`. -/
theorem Walk.unlink {p a b : α} {l m : List α} (h : Walk next null p (l ++ b :: a :: m))
    (hb : next' b = next a) (hl : ∀ c ∈ l, next' c = next c) (hm : ∀ c ∈ m, next' c = next c) :
    Walk next' null p (l ++ b :: m) := by
  induction l generalizing p with
  | nil =>
    obtain ⟨hp, hne, -, -, htail⟩ := h
    refine ⟨hp, hne, ?_⟩
    rw [hb]
    exact htail.congr hm
  | cons c l ih =>
    refine ⟨h.1, h.2.1, ?_⟩
    rw [hl c List.mem_cons_self]
    exact ih h.2.2 fun d hd => hl d (.tail _ hd)

variable {head : α} {l : List α} {i : Nat}

/-- The link of a node leads to the next one, or is null. -/
theorem Walk.next_getElem {p : α} (h : Walk next null p l) (hi : i < l.length) :
    next l[i] = if h : i + 1 < l.length then l[i + 1] else null := by
  induction l generalizing p i with
  | nil => simp at hi
  | cons a l ih =>
    cases i with
    | zero =>
      have htail := h.2.2
      cases l with
      | nil => exact htail
      | cons b l => exact htail.head
    | succ i =>
      rw [List.length_cons] at hi
      have := ih h.2.2 (Nat.lt_of_succ_lt_succ hi)
      simpa using this

variable [DecidableEq α]

/-- The node behind `a`, or the first one. -/
def following (next : α → α) (null head a : α) : α := if next a = null then head else next a

theorem Walk.following_getElem (h : Walk next null head l) (hi : i < l.length)
    (hj : (i + 1) % l.length < l.length) :
    following next null head l[i] = l[(i + 1) % l.length] := by
  have hnext := h.next_getElem hi
  unfold following
  by_cases hlast : i + 1 < l.length
  · rw [dif_pos hlast] at hnext
    rw [hnext, if_neg (h.ne_null (List.getElem_mem _))]
    simp only [Nat.mod_eq_of_lt hlast]
  · rw [dif_neg hlast] at hnext
    have hzero : (i + 1) % l.length = 0 := by
      rw [show i + 1 = l.length by omega, Nat.mod_self]
    rw [if_pos hnext]
    simp only [hzero]
    cases l with
    | nil => simp at hi
    | cons a l => exact h.head

theorem Walk.following_eq_next (h : Walk next null head l) {a : α} (ha : a ∈ l) :
    following next null head a = l.next a ha := by
  obtain ⟨i, hi, rfl⟩ := List.getElem_of_mem ha
  rw [h.following_getElem hi (Nat.mod_lt _ (by omega)), List.next_getElem l h.nodup i hi]

/-- The node `k` places on. -/
theorem Walk.iterate_following (h : Walk next null head l) (hi : i < l.length) (k : Nat)
    (hj : (i + k) % l.length < l.length) :
    (following next null head)^[k] l[i] = l[(i + k) % l.length] := by
  induction k with
  | zero => simp [Nat.mod_eq_of_lt hi]
  | succ k ih =>
    have hlt : (i + k) % l.length < l.length := Nat.mod_lt _ (by omega)
    rw [Function.iterate_succ_apply', ih hlt, h.following_getElem hlt (Nat.mod_lt _ (by omega))]
    simp only [Nat.mod_add_mod, Nat.add_assoc]

/-- One round from any node on. -/
theorem Walk.visits (h : Walk next null head l) (hi : i < l.length) (k : Nat) :
    (List.range l.length).map (fun j => (following next null head)^[k + j + 1] l[i]) =
      l.rotate (i + k + 1) := by
  refine List.ext_getElem (by simp) fun j hj _ => ?_
  rw [List.getElem_map, List.getElem_range, h.iterate_following hi _ (Nat.mod_lt _ (by omega)),
    List.getElem_rotate]
  have hsum : i + (k + j + 1) = j + (i + k + 1) := by omega
  simp only [hsum]

end Linked
