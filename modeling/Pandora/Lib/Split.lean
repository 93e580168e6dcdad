import Mathlib.Data.List.TakeWhile

/-!
# The pieces of a list between separators

`components x l` are the pieces of `l` up to the first empty one; `pieces x l` are all that are not
empty, and `squeeze x l` is `l` with the separators at its ends and the repeated ones taken out. A
reader that stops at an empty piece has read all of `l` exactly where no piece stands behind an empty
one (`components_eq_pieces`), and two lists squeeze to the same where their pieces are the same
(`squeeze_inj`).
-/

namespace Split

variable {α : Type*} [DecidableEq α] {x : α} {l c r : List α} {cs : List (List α)}

/-- The pieces before the first empty one. -/
def components (x : α) (l : List α) : List (List α) := (l.splitOn x).takeWhile fun c => c ≠ []

/-- The pieces that are not empty. -/
def pieces (x : α) (l : List α) : List (List α) := (l.splitOn x).filter fun c => c ≠ []

/-- The list without separators at its ends and without repeated ones. -/
def squeeze (x : α) (l : List α) : List α := [x].intercalate (pieces x l)

/-! ## One piece after the other -/

@[simp] theorem components_nil (x : α) : components x [] = [] := by simp [components]

/-- The last piece, with no separator behind it. -/
theorem components_last (hc : x ∉ c) (hne : c ≠ []) : components x c = [c] := by
  unfold components
  rw [List.splitOn_eq_singleton hc, List.takeWhile_cons_of_pos (by simpa using hne),
    List.takeWhile_nil]

/-- A piece and a separator. -/
theorem components_append (hc : x ∉ c) (hne : c ≠ []) :
    components x (c ++ x :: r) = c :: components x r := by
  unfold components
  rw [List.splitOn_append_cons_self_of_not_mem hc, List.takeWhile_cons_of_pos (by simpa using hne)]

/-- An empty piece in front ends them. -/
theorem components_sep : components x (x :: r) = [] := by
  have := List.splitOn_append_cons_self_of_not_mem (List.not_mem_nil (a := x)) r
  rw [List.nil_append] at this
  unfold components
  rw [this]
  exact List.takeWhile_cons_of_neg (by simp)

/-- The list ends behind a piece, or a separator follows. -/
theorem split_head (x : α) (l : List α) :
    l.dropWhile (fun a => a ≠ x) = [] ∨
      ∃ r, l.dropWhile (fun a => a ≠ x) = x :: r := by
  cases h : l.dropWhile fun a => a ≠ x with
  | nil => exact .inl rfl
  | cons a r =>
    have hhead := List.head_dropWhile_not (fun a => decide (a ≠ x)) (l := l)
      (by rw [h]; exact List.cons_ne_nil a r)
    simp only [h, List.head_cons, decide_eq_false_iff_not, not_not] at hhead
    exact .inr ⟨r, by rw [hhead]⟩

theorem not_mem_takeWhile (x : α) (l : List α) : x ∉ l.takeWhile fun a => a ≠ x := fun hx => by
  have := List.mem_takeWhile_imp hx
  simp at this

/-- What a reader does that takes a piece and skips one separator. -/
theorem components_step (x : α) (l : List α) :
    components x l =
      if l.takeWhile (fun a => a ≠ x) = [] then []
      else l.takeWhile (fun a => a ≠ x) :: components x (l.dropWhile fun a => a ≠ x).tail := by
  have hsplit : l.takeWhile (fun a => a ≠ x) ++ l.dropWhile (fun a => a ≠ x) = l :=
    List.takeWhile_append_dropWhile
  obtain ⟨c, hc⟩ : ∃ c, l.takeWhile (fun a => a ≠ x) = c := ⟨_, rfl⟩
  have hmem : x ∉ c := hc ▸ not_mem_takeWhile x l
  rw [hc] at hsplit ⊢
  rcases split_head x l with h | ⟨r, h⟩
  · rw [h, List.append_nil] at hsplit
    rw [h, List.tail_nil, components_nil, ← hsplit]
    by_cases hne : c = []
    · rw [if_pos hne, hne, components_nil]
    · rw [if_neg hne, components_last hmem hne]
  · rw [h] at hsplit
    rw [h, List.tail_cons, ← hsplit]
    by_cases hne : c = []
    · rw [if_pos hne, hne, List.nil_append, components_sep]
    · rw [if_neg hne, components_append hmem hne]

/-! ## All pieces -/

omit [DecidableEq α] in
/-- The pieces up to the first empty one are all, where none stands behind an empty one. -/
theorem takeWhile_eq_filter (cs : List (List α)) :
    (cs.takeWhile fun c => c ≠ []) = (cs.filter fun c => c ≠ []) ↔
      cs.Pairwise fun a b => a = [] → b = [] := by
  induction cs with
  | nil => simp
  | cons c cs ih =>
    by_cases hc : c = []
    · rw [List.takeWhile_cons_of_neg (by simpa using hc), List.filter_cons_of_neg (by simpa using hc),
        List.pairwise_cons, eq_comm, List.filter_eq_nil_iff]
      constructor
      · intro h
        have hall : ∀ b ∈ cs, b = [] := fun b hb => by simpa using h b hb
        refine ⟨fun b hb _ => hall b hb, ?_⟩
        exact List.pairwise_of_forall_mem_list fun a _ b hb _ => hall b hb
      · rintro ⟨h, -⟩ b hb
        simpa using h b hb hc
    · rw [List.takeWhile_cons_of_pos (by simpa using hc), List.filter_cons_of_pos (by simpa using hc),
        List.pairwise_cons, List.cons.injEq, ih]
      constructor
      · rintro ⟨-, h⟩
        exact ⟨fun b _ h0 => absurd h0 hc, h⟩
      · rintro ⟨-, h⟩
        exact ⟨rfl, h⟩

theorem components_eq_pieces (x : α) (l : List α) :
    components x l = pieces x l ↔ (l.splitOn x).Pairwise fun a b => a = [] → b = [] :=
  takeWhile_eq_filter _

/-- The pieces come in the order of the list. -/
theorem components_sublist (x : α) (l : List α) : (components x l).Sublist (pieces x l) := by
  have h := (List.takeWhile_sublist (l := l.splitOn x) fun c => decide (c ≠ [])).filter
    fun c => decide (c ≠ [])
  rwa [List.filter_eq_self.2 fun c hc => by simpa using List.mem_takeWhile_imp hc] at h

theorem not_mem_piece (hc : c ∈ l.splitOn x) : x ∉ c := by
  induction h : l.length using Nat.strong_induction_on generalizing l with
  | _ n ih =>
    have hsplit : l.takeWhile (fun a => a ≠ x) ++ l.dropWhile (fun a => a ≠ x) = l :=
      List.takeWhile_append_dropWhile
    have hmem := not_mem_takeWhile x l
    rcases split_head x l with he | ⟨r, he⟩
    · rw [he, List.append_nil] at hsplit
      rw [hsplit] at hmem
      rw [List.splitOn_eq_singleton hmem, List.mem_singleton] at hc
      rwa [hc]
    · rw [he] at hsplit
      rw [← hsplit, List.splitOn_append_cons_self_of_not_mem hmem, List.mem_cons] at hc
      rcases hc with rfl | hc
      · exact hmem
      · have hlen := congrArg List.length hsplit
        rw [List.length_append, List.length_cons] at hlen
        exact ih _ (by omega) hc rfl

theorem mem_components (h : c ∈ components x l) : c ≠ [] ∧ x ∉ c :=
  ⟨by simpa using List.mem_takeWhile_imp h, not_mem_piece ((List.takeWhile_sublist _).subset h)⟩

/-- Some of the components are all pieces, where they are all components and these are all pieces. -/
theorem take_components_eq (n : Nat) :
    (components x l).take n = pieces x l ↔
      (l.splitOn x).Pairwise (fun a b => a = [] → b = []) ∧ (components x l).length ≤ n := by
  rw [← components_eq_pieces]
  constructor
  · intro h
    have hle := (components_sublist x l).length_le
    have hlen := congrArg List.length h
    rw [List.length_take] at hlen
    rw [List.take_of_length_le (by omega)] at h
    exact ⟨h, by omega⟩
  · rintro ⟨h, hn⟩
    rw [List.take_of_length_le hn, h]

/-- What is joined from pieces has them. -/
theorem pieces_intercalate (hcs : ∀ c ∈ cs, c ≠ [] ∧ x ∉ c) (hne : cs ≠ []) :
    pieces x ([x].intercalate cs) = cs := by
  unfold pieces
  rw [List.splitOn_intercalate x (fun c hc => (hcs c hc).2) hne, List.filter_eq_self]
  exact fun c hc => by simpa using (hcs c hc).1

theorem components_intercalate (hcs : ∀ c ∈ cs, c ≠ [] ∧ x ∉ c) (hne : cs ≠ []) :
    components x ([x].intercalate cs) = cs := by
  unfold components
  rw [List.splitOn_intercalate x (fun c hc => (hcs c hc).2) hne, List.takeWhile_eq_self_iff]
  exact fun c hc => by simpa using (hcs c hc).1

omit [DecidableEq α] in
/-- A separator at the end adds an empty piece. -/
theorem intercalate_snoc (hne : cs ≠ []) :
    [x].intercalate (cs ++ [[]]) = [x].intercalate cs ++ [x] := by
  induction cs with
  | nil => exact absurd rfl hne
  | cons c cs ih =>
    by_cases hcs : cs = []
    · rw [hcs]
      simp
    · rw [List.cons_append, List.intercalate_cons_of_ne_nil (by simp),
        List.intercalate_cons_of_ne_nil hcs, ih hcs, List.append_assoc, List.append_assoc,
        List.append_assoc]

omit [DecidableEq α] in
theorem mem_intercalate {a : α} (h : a ∈ [x].intercalate cs) : a = x ∨ ∃ c ∈ cs, a ∈ c := by
  induction cs with
  | nil => simp at h
  | cons c cs ih =>
    by_cases hcs : cs = []
    · rw [hcs, List.intercalate_singleton] at h
      exact .inr ⟨c, List.mem_cons_self, h⟩
    · rw [List.intercalate_cons_of_ne_nil hcs, List.mem_append, List.mem_append,
        List.mem_singleton] at h
      rcases h with (h | h) | h
      · exact .inr ⟨c, List.mem_cons_self, h⟩
      · exact .inl h
      · exact (ih h).imp_right fun ⟨d, hd, had⟩ => ⟨d, .tail _ hd, had⟩

theorem components_intercalate_sep (hcs : ∀ c ∈ cs, c ≠ [] ∧ x ∉ c) (hne : cs ≠ []) :
    components x ([x].intercalate cs ++ [x]) = cs := by
  have hsplit : ∀ c ∈ cs ++ [[]], x ∉ c := fun c hc => by
    rcases List.mem_append.1 hc with hc | hc
    · exact (hcs c hc).2
    · rw [List.mem_singleton.1 hc]
      exact List.not_mem_nil
  unfold components
  rw [← intercalate_snoc hne, List.splitOn_intercalate x hsplit (by simp),
    List.takeWhile_append_of_pos fun c hc => by simpa using (hcs c hc).1]
  simp

/-- Lists with a first piece in front squeeze to the same where the pieces behind it are the same. -/
theorem squeeze_inj {l l' : List α} (hc : x ∉ c) (hne : c ≠ []) :
    squeeze x (c ++ x :: l) = squeeze x (c ++ x :: l') ↔ pieces x l = pieces x l' := by
  have hpieces : ∀ l, pieces x (c ++ x :: l) = c :: pieces x l := fun l => by
    unfold pieces
    rw [List.splitOn_append_cons_self_of_not_mem hc, List.filter_cons_of_pos (by simpa using hne)]
  have hall : ∀ l, ∀ d ∈ c :: pieces x l, x ∉ d := fun l d hd => by
    rcases List.mem_cons.1 hd with rfl | hd
    · exact hc
    · exact not_mem_piece (List.mem_filter.1 hd).1
  unfold squeeze
  rw [hpieces, hpieces]
  constructor
  · intro h
    have := congrArg (List.splitOn x) h
    rw [List.splitOn_intercalate x (hall l) (by simp), List.splitOn_intercalate x (hall l') (by simp)]
      at this
    exact (List.cons.inj this).2
  · intro h
    rw [h]

end Split
