import Pandora.Fat.Owned
import Pandora.Fs.File
import Pandora.Lib.Linked

/-!
# The blocks of a parsed path (`fs/pparser.c`)

The ledger of what `pathparser_parse` takes: the root, and a string and a structure for every part.
`pathparser_free` gives back exactly these; a parse that fails has given them back itself.
-/

namespace Pandora

open ByteMem

/-- `part->next` -/
def Fs.nextPart (K : Fs) (p : Nat) : Nat := (K.pathPartAt p).next

/-- What `pathparser_free` gives back for the parts, in its order. -/
def partBlocks (K : Fs) (parts : List Nat) : List Nat :=
  parts.flatMap fun p => [(K.pathPartAt p).part, p]

/-- The parts of the path at `root`. -/
structure Parsed (K : Fs) (root : Nat) (parts : List Nat) : Prop where
  walk : Linked.Walk K.nextPart 0 (K.pathRootAt root).first parts
  length : parts.length ≤ maxPath

section

variable {e₀ : Nat → UInt8} {L parts : List Nat} {K K' : Fs} {root part : Nat}

@[simp] theorem partBlocks_nil (K : Fs) : partBlocks K [] = [] := rfl

@[simp] theorem partBlocks_cons (K : Fs) (p : Nat) (parts : List Nat) :
    partBlocks K (p :: parts) = (K.pathPartAt p).part :: p :: partBlocks K parts := rfl

theorem partBlocks_snoc (K : Fs) (parts : List Nat) (p : Nat) :
    partBlocks K (parts ++ [p]) = partBlocks K parts ++ [(K.pathPartAt p).part, p] := by
  unfold partBlocks
  rw [List.flatMap_append]
  rfl

theorem mem_partBlocks {p : Nat} (h : p ∈ parts) : p ∈ partBlocks K parts :=
  List.mem_flatMap.2 ⟨p, h, .tail _ List.mem_cons_self⟩

/-- The strings of the parts decide. -/
theorem partBlocks_congr (h : ∀ p ∈ parts, (K'.pathPartAt p).part = (K.pathPartAt p).part) :
    partBlocks K' parts = partBlocks K parts := by
  induction parts with
  | nil => rfl
  | cons p parts ih =>
    rw [partBlocks_cons, partBlocks_cons, h p List.mem_cons_self, ih fun q hq => h q (.tail _ hq)]

/-! ## Parsing -/

/-- The string of a part takes its block, or there is none. -/
theorem Ledger.getPathPart (h : Ledger e₀ L K.kmem) (path : List UInt8) :
    ∃ str rest k', pathparserGetPathPart K path = (str, rest, { K with kmem := k' }) ∧
      (str = 0 ∧ Ledger e₀ L k' ∨
        str ≠ 0 ∧ Ledger e₀ (str :: L) k' ∧ rest.length < path.length) := by
  obtain ⟨p, k₁, hz, -, hout⟩ := h.grant maxPath (by decide) (by decide)
  obtain ⟨chars, hchars⟩ : ∃ chars, path.takeWhile (fun c => c ≠ slash ∧ c ≠ 0) = chars := ⟨_, rfl⟩
  unfold pathparserGetPathPart
  rw [hz, hchars]
  dsimp only
  rcases hout with ⟨rfl, h₁⟩ | ⟨hp, -, h₁⟩
  · rw [if_pos rfl]
    exact ⟨0, path, k₁, rfl, .inl ⟨rfl, h₁⟩⟩
  · rw [if_neg hp]
    by_cases hlen : chars.length = 0
    · rw [if_pos hlen]
      have h₂ : Ledger e₀ (p :: L) { k₁ with mem := writeBytes k₁.mem p chars } := h₁.congr rfl
      exact ⟨0, _, _, rfl, .inl ⟨rfl, h₂.kfree⟩⟩
    · rw [if_neg hlen]
      refine ⟨p, _, _, rfl, .inr ⟨hp, h₁.congr rfl, ?_⟩⟩
      have hle : chars.length ≤ path.length := hchars ▸ (List.takeWhile_sublist _).length_le
      split
      · rw [List.length_tail, List.length_drop]
        omega
      · rw [List.length_drop]
        omega

/-- A part takes two blocks, and is linked behind the last one; or there is none. -/
theorem Ledger.parsePathPart (h : Ledger e₀ L K.kmem) (lastPart : Nat) (path : List UInt8) :
    (∃ rest k', pathparserParsePathPart K lastPart path = (0, rest, { K with kmem := k' }) ∧
      Ledger e₀ L k') ∨
    ∃ part str rest k' K', pathparserParsePathPart K lastPart path = (part, rest, K') ∧
      part ≠ 0 ∧ Ledger e₀ (part :: str :: L) k' ∧ rest.length < path.length ∧
      K' = (let K := Fs.setPathPart { K with kmem := k' } part ⟨str, 0⟩
        if lastPart ≠ 0 then K.setPathPart lastPart { K.pathPartAt lastPart with next := part }
        else K) := by
  obtain ⟨str, rest, k₁, hget, hout⟩ := h.getPathPart path
  unfold pathparserParsePathPart
  rw [hget]
  dsimp only
  rcases hout with ⟨rfl, h₁⟩ | ⟨hstr, h₁, hlen⟩
  · rw [if_pos rfl]
    exact .inl ⟨rest, k₁, rfl, h₁⟩
  · obtain ⟨part, k₂, hz, -, hout⟩ := Ledger.grant (K := { K with kmem := k₁ }) h₁
      sizeofPathPart (by decide) (by decide)
    rw [if_neg hstr, hz]
    dsimp only
    rcases hout with ⟨rfl, h₂⟩ | ⟨hpart, -, h₂⟩
    · rw [if_pos rfl]
      exact .inl ⟨rest, _, rfl, h₂.kfree⟩
    · rw [if_neg hpart]
      by_cases hlast : lastPart ≠ 0
      · rw [if_pos hlast]
        exact .inr ⟨part, str, rest, k₂.follow lastPart, _, rfl, hpart, h₂.follow lastPart, hlen,
          by rw [if_pos hlast]; rfl⟩
      · rw [if_neg hlast]
        exact .inr ⟨part, str, rest, k₂, _, rfl, hpart, h₂, hlen, by rw [if_neg hlast]⟩

/-- A new part is linked behind the last one. -/
theorem append_part {first t str : Nat} {k' : Kmem}
    (h : Ledger e₀ (t :: str :: (partBlocks K (parts ++ [part]) ++ L)) k')
    (hw : Linked.Walk K.nextPart 0 first (parts ++ [part])) (ht : t ≠ 0)
    (hK' : K' = (let K := Fs.setPathPart { K with kmem := k' } t ⟨str, 0⟩
      K.setPathPart part { K.pathPartAt part with next := t })) :
    Ledger e₀ (partBlocks K' ((parts ++ [part]) ++ [t]) ++ L) K'.kmem ∧
      Linked.Walk K'.nextPart 0 first ((parts ++ [part]) ++ [t]) ∧
      (∀ p ∈ parts ++ [part], (K'.pathPartAt p).part = (K.pathPartAt p).part) ∧
      (K'.pathPartAt t).part = str := by
  -- the new part is none of the others
  have hnew : ∀ p ∈ parts ++ [part], p ≠ t := fun p hp hpt => by
    have hno := (List.nodup_cons.1 h.nodup).1
    exact hno (.tail _ (List.mem_append_left _ (mem_partBlocks (hpt ▸ hp))))
  have hlast : part ≠ t := hnew part (List.mem_append_right _ List.mem_cons_self)
  have hat : ∀ p, K'.pathPartAt p =
      if p = part then { K.pathPartAt part with next := t }
      else if p = t then ⟨str, 0⟩ else K.pathPartAt p := fun p => by
    rw [hK']
    unfold Fs.setPathPart
    dsimp only
    rw [Function.update_apply, Function.update_of_ne hlast, Function.update_apply]
  have hstr : (K'.pathPartAt t).part = str := by rw [hat, if_neg hlast.symm, if_pos rfl]
  have hstrings : ∀ p ∈ parts ++ [part], (K'.pathPartAt p).part = (K.pathPartAt p).part :=
    fun p hp => by
      rw [hat]
      split
      · rename_i hpp
        rw [hpp]
      · rw [if_neg (hnew p hp)]
  have hkmem : K'.kmem = k' := by
    rw [hK']
    rfl
  refine ⟨?_, ?_, hstrings, hstr⟩
  · rw [partBlocks_snoc, partBlocks_congr hstrings, hstr, hkmem]
    refine h.perm ?_
    rw [List.append_assoc]
    refine List.Perm.trans (.swap _ _ _) ?_
    exact (List.perm_append_comm_assoc [str, t] _ L)
  · rw [List.append_assoc]
    refine hw.snoc ht ?_ (fun b hb => ?_) ?_
    · unfold Fs.nextPart
      rw [hat, if_pos rfl]
    · have hne : b ≠ part := fun he => by
        have hnodup := hw.nodup
        rw [List.nodup_append] at hnodup
        exact hnodup.2.2 b hb part List.mem_cons_self he
      unfold Fs.nextPart
      rw [hat, if_neg hne, if_neg (hnew b (List.mem_append_left _ hb))]
    · unfold Fs.nextPart
      rw [hat, if_neg hlast.symm, if_pos rfl]

/-- The list of parts grows at its end. -/
theorem parse_loop_blocks {first : Nat} {N : Nat} :
    ∀ (n : Nat) (K : Fs) (part : Nat) (path : List UInt8) (parts : List Nat),
      Ledger e₀ (partBlocks K (parts ++ [part]) ++ L) K.kmem →
      Linked.Walk K.nextPart 0 first (parts ++ [part]) → parts.length + path.length < N →
      ∃ parts', Ledger e₀ (partBlocks (pathparserParse.loop n K part path) parts' ++ L)
          (pathparserParse.loop n K part path).kmem ∧
        Linked.Walk (pathparserParse.loop n K part path).nextPart 0 first parts' ∧
        parts'.length ≤ N ∧ Quiet K (pathparserParse.loop n K part path) ∧
        (pathparserParse.loop n K part path).pathRootAt = K.pathRootAt
  | 0, K, part, path, parts, h, hw, hlen => by
    refine ⟨parts ++ [part], h, hw, ?_, ⟨rfl, rfl⟩, rfl⟩
    rw [List.length_append]
    exact hlen.trans_le' (by simp)
  | n + 1, K, part, path, parts, h, hw, hlen => by
    have hpart : part ≠ 0 := hw.ne_null (List.mem_append_right _ List.mem_cons_self)
    unfold pathparserParse.loop
    dsimp only
    rcases h.parsePathPart part path with ⟨rest, k', he, h₁⟩ |
      ⟨t, str, rest, k', K₁, he, ht, h₁, hrest, hK₁⟩
    · rw [he]
      refine ⟨parts ++ [part], h₁, hw, ?_, ⟨rfl, rfl⟩, rfl⟩
      rw [List.length_append]
      exact hlen.trans_le' (by simp)
    · rw [he]
      dsimp only
      rw [if_neg ht]
      rw [if_pos hpart] at hK₁
      obtain ⟨h₂, hw', -, -⟩ := append_part h₁ hw ht hK₁
      have hlen' : (parts ++ [part]).length + rest.length < N := by
        rw [List.length_append, List.length_singleton]
        omega
      obtain ⟨parts', h₃, hw₃, hlen₃, hquiet, hroots⟩ :=
        parse_loop_blocks n K₁ t rest (parts ++ [part]) h₂ hw' hlen'
      refine ⟨parts', h₃, hw₃, hlen₃, ?_, ?_⟩
      · refine Quiet.trans ?_ hquiet
        rw [hK₁]
        exact ⟨rfl, rfl⟩
      · rw [hroots, hK₁]
        rfl

theorem Ledger.createRoot (h : Ledger e₀ L K.kmem) (driveNumber : Int) :
    (∃ k', pathparserCreateRoot K driveNumber = (0, { K with kmem := k' }) ∧ Ledger e₀ L k') ∨
    ∃ root K', pathparserCreateRoot K driveNumber = (root, K') ∧ root ≠ 0 ∧
      Ledger e₀ (root :: L) K'.kmem ∧ Quiet K K' := by
  obtain ⟨root, k', hz, -, hout⟩ := h.grant sizeofPathRoot (by decide) (by decide)
  unfold pathparserCreateRoot
  rw [hz]
  dsimp only
  rcases hout with ⟨rfl, h₁⟩ | ⟨hroot, -, h₁⟩
  · rw [if_pos rfl]
    exact .inl ⟨k', rfl, h₁⟩
  · rw [if_neg hroot]
    exact .inr ⟨root, _, rfl, hroot, h₁, ⟨rfl, rfl⟩⟩

/-- What a parse takes is the root and its parts; where it fails, nothing. -/
theorem Ledger.parse (h : Ledger e₀ L K.kmem) (path : List UInt8) :
    Quiet K (pathparserParse K path).2 ∧
    ((pathparserParse K path).1 = 0 ∧ Ledger e₀ L (pathparserParse K path).2.kmem ∨
      (pathparserParse K path).1 ≠ 0 ∧ ∃ parts,
        Ledger e₀ (partBlocks (pathparserParse K path).2 parts ++ (pathparserParse K path).1 :: L)
          (pathparserParse K path).2.kmem ∧
        Parsed (pathparserParse K path).2 (pathparserParse K path).1 parts) := by
  unfold pathparserParse
  dsimp only
  by_cases hlong : path.length > maxPath
  · rw [if_pos hlong]
    exact ⟨⟨rfl, rfl⟩, .inl ⟨rfl, h⟩⟩
  · rw [if_neg hlong]
    by_cases hres : (pathparserGetDriveByPath path).1 < 0
    · rw [if_pos hres]
      exact ⟨⟨rfl, rfl⟩, .inl ⟨rfl, h⟩⟩
    · rw [if_neg hres]
      have hrest : (pathparserGetDriveByPath path).2.length + 3 ≤ path.length := by
        unfold pathparserGetDriveByPath at hres ⊢
        split
        · rename_i hbad
          rw [if_pos hbad] at hres
          exact absurd (show -ebadpath < 0 by decide) hres
        · rename_i hgood
          unfold pathparserPathValidFormat at hgood
          simp only [Bool.not_eq_true, Bool.not_eq_false', Bool.and_eq_true,
            decide_eq_true_eq] at hgood
          dsimp only
          rw [List.length_drop]
          omega
      rcases h.createRoot (pathparserGetDriveByPath path).1 with ⟨k₁, he, h₁⟩ |
        ⟨root, K₁, he, hroot, hl₁, hq₁⟩
      · rw [he]
        exact ⟨⟨rfl, rfl⟩, .inl ⟨rfl, h₁⟩⟩
      · rw [he]
        dsimp only
        rw [if_neg hroot]
        rcases hl₁.parsePathPart 0 (pathparserGetDriveByPath path).2 with ⟨rest, k₂, he, h₂⟩ |
          ⟨first, str, rest, k₂, K₂, he, hfirst, h₂, hlen, hK₂⟩
        · -- a path without parts
          rw [he]
          dsimp only
          rw [if_pos rfl]
          exact ⟨⟨hq₁.table, hq₁.closed⟩, .inl ⟨rfl, h₂.kfree⟩⟩
        · rw [he]
          dsimp only
          rw [if_neg hfirst]
          rw [if_neg (not_not_intro rfl)] at hK₂
          dsimp only
          obtain ⟨K₃, hK₃⟩ : ∃ K₃, K₂.setPathRoot root { K₂.pathRootAt root with first := first } =
            K₃ := ⟨_, rfl⟩
          have hat : K₃.pathPartAt first = ⟨str, 0⟩ := by
            rw [← hK₃, hK₂]
            exact Function.update_self _ _ _
          have hq₃ : Quiet K₁ K₃ := by
            rw [← hK₃, hK₂]
            exact ⟨rfl, rfl⟩
          have hfirst₃ : (K₃.pathRootAt root).first = first := by
            rw [← hK₃]
            unfold Fs.setPathRoot
            dsimp only
            rw [Function.update_self]
          have hl₃ : Ledger e₀ (partBlocks K₃ ([] ++ [first]) ++ root :: L) K₃.kmem := by
            rw [List.nil_append, partBlocks_cons, hat, ← hK₃, hK₂]
            exact h₂.perm (.swap _ _ _)
          have hw₃ : Linked.Walk K₃.nextPart 0 first ([] ++ [first]) := by
            refine ⟨rfl, hfirst, ?_⟩
            unfold Fs.nextPart
            rw [hat]
            rfl
          rw [hK₃]
          obtain ⟨parts, h₄, hw, hparts, hquiet, hroots⟩ := parse_loop_blocks (N := maxPath)
            (rest.length + 1) K₃ first rest [] hl₃ hw₃ (by simp only [List.length_nil]; omega)
          refine ⟨(hq₁.trans hq₃).trans hquiet, .inr ⟨hroot, parts, h₄, ?_, hparts⟩⟩
          rw [hroots, hfirst₃]
          exact hw

/-! ## Release -/

theorem free_loop_blocks : ∀ (n : Nat) (K : Fs) (part : Nat) (parts : List Nat),
    Ledger e₀ (partBlocks K parts ++ L) K.kmem → Linked.Walk K.nextPart 0 part parts →
    parts.length ≤ n →
    ∃ k', pathparserFree.loop n K part = some { K with kmem := k' } ∧ Ledger e₀ L k' ∧
      K.kmem.Freer k'
  | 0, K, part, parts, h, hw, hlen => by
    obtain rfl := List.length_eq_zero_iff.1 (Nat.le_zero.1 hlen)
    unfold pathparserFree.loop
    rw [if_pos (Linked.walk_nil.1 hw)]
    exact ⟨K.kmem, rfl, h, fun _ hj => hj⟩
  | n + 1, K, part, parts, h, hw, hlen => by
    unfold pathparserFree.loop
    cases parts with
    | nil =>
      rw [if_pos (Linked.walk_nil.1 hw)]
      exact ⟨K.kmem, rfl, h, fun _ hj => hj⟩
    | cons p parts =>
      obtain ⟨rfl, hne, hw⟩ := hw
      rw [if_neg hne]
      dsimp only
      have h₁ := h.follow part
      have hfreer : K.kmem.Freer (kfree (kfree (K.kmem.follow part) (K.pathPartAt part).part) part) :=
        ((Kmem.Freer.follow K.kmem part).trans (.kfree h₁.kernel _)).trans (.kfree h₁.kfree.kernel _)
      obtain ⟨k', he, h₂, hfreer'⟩ := free_loop_blocks n
        { K with kmem := kfree (kfree (K.kmem.follow part) (K.pathPartAt part).part) part }
        (K.pathPartAt part).next parts h₁.kfree.kfree hw (Nat.le_of_succ_le_succ hlen)
      exact ⟨k', he, h₂, hfreer.trans hfreer'⟩

/-- Freeing the path gives back what parsing it took. -/
theorem Ledger.pathFree (h : Ledger e₀ (partBlocks K parts ++ root :: L) K.kmem)
    (hp : Parsed K root parts) :
    ∃ k', pathparserFree K root = some { K with kmem := k' } ∧ Ledger e₀ L k' ∧
      K.kmem.Freer k' := by
  obtain ⟨k', he, h₁, hfreer⟩ := free_loop_blocks maxPath (K.follow root) (K.pathRootAt root).first
    parts (h.follow root) hp.walk hp.length
  unfold pathparserFree
  dsimp only
  have hfirst : ((K.follow root).pathRootAt root).first = (K.pathRootAt root).first := rfl
  rw [hfirst, he]
  exact ⟨_, rfl, h₁.kfree, ((Kmem.Freer.follow K.kmem root).trans hfreer).trans (.kfree h₁.kernel _)⟩

end

end Pandora
