import Pandora.Fat.Filename
import Pandora.Fs.Rendered

/-!
# Where a path leads (`fs/fat/fat16.c`)

A `Node` is a directory tree, and `Node.resolve` is where a list of names leads in it. The walk of
`fat16_get_directory_entry` is taken here with any search of one directory that answers with the right
fresh item, or null (`SearchesTree`). `Resolves` is what a walk along a path is asked for: the item of the node
it leads to, or null; no null pointer is followed, and no other item is held. A walk does so exactly
where the first name is not found, or every name but the last is that of a subdirectory
(`directory_entry_iff`).
-/

namespace Pandora

open ByteMem Leak Split

/-! ## Directory trees -/

/-- A directory tree, with the entry of every node. -/
inductive Node where
  | file (entry : FatDirectoryItem)
  | directory (entry : FatDirectoryItem) (nodes : List Node)

namespace Node

def entry : Node → FatDirectoryItem
  | file e => e
  | directory e _ => e

def type : Node → FatItemType
  | file _ => .file
  | directory _ _ => .directory

/-- What is in a directory. -/
def nodes : Node → List Node
  | file _ => []
  | directory _ nodes => nodes

/-- The full name of the entry is this name, up to the case of letters. -/
def Named (t : Node) (name : List UInt8) : Prop :=
  istrncmp (cstring (fat16GetFullRelativeFilename t.entry)) (cstring name) maxPath = 0

instance (t : Node) (name : List UInt8) : Decidable (t.Named name) := by
  unfold Named
  infer_instance

/-- What a directory has under a name. -/
def find (t : Node) (name : List UInt8) : Option Node := t.nodes.find? fun t' => t'.Named name

/-- Where the names lead. -/
def resolve : Node → List (List UInt8) → Option Node
  | t, [] => some t
  | t, name :: names =>
    match t.find name with
    | none => none
    | some t' => t'.resolve names

/-- All names but the last are those of directories. -/
def Passes (t : Node) (names : List (List UInt8)) : Prop :=
  ∃ t', t.resolve names.dropLast = some t' ∧ t'.type = .directory

end Node

/-! ## The walk -/

/-- `fat16_find_item_in_directory`, as a parameter. -/
abbrev Search := Fs → FatDirectory → (Nat → UInt8) → Nat × Fs

/-- The loop of `fat16_get_directory_entry` with this search: at most `n` parts are left. -/
def fat16GetDirectoryEntryWith.loop (find : Search) :
    (n : Nat) → Fs → (currentItem nextPart : Nat) → Option (Nat × Fs)
  | 0, K, currentItem, nextPart => if nextPart = 0 then some (currentItem, K) else none
  | n + 1, K, currentItem, nextPart =>
    if nextPart = 0 then some (currentItem, K)
    else
      let K := K.follow currentItem
      match (K.fatItemAt currentItem).type with
      | .file => some (0, K)
      | .directory =>
        let K := (K.follow nextPart).follow (K.fatItemAt currentItem).item
        let directory := K.fatDirectoryAt (K.fatItemAt currentItem).item
        let (tmpItem, K) := find K directory (K.stringAt (K.pathPartAt nextPart).part)
        loop find n (fat16FatItemFree K currentItem) tmpItem (K.pathPartAt nextPart).next

/-- `fat16_get_directory_entry` with this search, on a path of at most `n + 1` parts. -/
def fat16GetDirectoryEntryWith (find : Search) (n : Nat) (K : Fs) (path : Nat) : Option (Nat × Fs) :=
  let K := K.follow path
  let (rootItem, K) := find K K.priv.rootDirectory (K.stringAt (K.pathPartAt path).part)
  if rootItem = 0 then some (0, K)
  else fat16GetDirectoryEntryWith.loop find n K rootItem (K.pathPartAt path).next

/-! ## Items and searches -/

/-- The directory is that of the node: its array has the entries of what is in it. -/
structure Lists (K : Fs) (directory : FatDirectory) (t : Node) : Prop where
  total : directory.total = t.nodes.length
  entries : ∀ i (hi : i < t.nodes.length), K.directoryItemsAt directory.item i = t.nodes[i].entry
  array : t.nodes ≠ [] → K.Allocated directory.item

/-- The item at `f` is that of the node. -/
structure Shows (K : Fs) (f : Nat) (t : Node) : Prop where
  type : (K.fatItemAt f).type = t.type
  file : t.type = .file → K.directoryItemsAt (K.fatItemAt f).item 0 = t.entry
  directory : t.type = .directory → Lists K (K.fatDirectoryAt (K.fatItemAt f).item) t

/-- The right fresh item, or null. What is held stays as it was. -/
inductive Answers (e₀ : Nat → UInt8) (L : List Nat) (K : Fs) : Option Node → Nat × Fs → Prop
  | missing : Answers e₀ L K none (0, K)
  | found (t : Node) (f : Nat) (K' : Fs) (B : List Nat) (hf : f ≠ 0) (hl : Ledger e₀ (B ++ L) K'.kmem)
      (hb : ItemBlocks K' f B) (hs : Shows K' f t) (hframe : Frame L K K')
      (hk : KeepsPages L K.kmem K'.kmem) (hparts : K'.pathPartAt = K.pathPartAt)
      (hfault : K'.kmem.fault = K.kmem.fault) : Answers e₀ L K (some t) (f, K')

/-- In the directories of the tree the search finds the right item, unless it is denied its blocks. -/
structure SearchesTree (e₀ : Nat → UInt8) (root : Node) (find : Search) : Prop where
  answers : ∀ {K L directory t names p name}, root.resolve names = some t → Ledger e₀ L K.kmem →
    Lists K directory t → CString K.mem p name →
    (find K directory (K.stringAt p)).2.kmem.denied = true ∨
      Answers e₀ L K (t.find name) (find K directory (K.stringAt p))
  parts : ∀ K directory name, (find K directory name).2.pathPartAt = K.pathPartAt
  marks : ∀ K directory name, Marks K.kmem (find K directory name).2.kmem

/-- The parts at `p` have these names, all in blocks that are held. -/
def PartsAt (K : Fs) (L : List Nat) : Nat → List (List UInt8) → Prop
  | p, [] => p = 0
  | p, name :: names => p ∈ L ∧ (K.pathPartAt p).part ∈ L ∧ HoldsString K p name ∧
    PartsAt K L (K.pathPartAt p).next names

/-- The walk has come to the item of the node that the names lead to, or to null. No null pointer was
followed, and nothing is held for another item. -/
def Resolves (e₀ : Nat → UInt8) (L : List Nat) (t : Node) (names : List (List UInt8)) :
    Option (Nat × Fs) → Prop
  | none => False
  | some (f, K) => K.kmem.fault = false ∧
    match t.resolve names with
    | none => f = 0 ∧ Ledger e₀ L K.kmem
    | some t' => f ≠ 0 ∧ Shows K f t' ∧ ∃ B, ItemBlocks K f B ∧ Ledger e₀ (B ++ L) K.kmem

section

variable {e₀ : Nat → UInt8} {L B : List Nat} {K K' : Fs} {find : Search} {root t t' : Node}
  {name : List UInt8} {names : List (List UInt8)} {f p n next : Nat}

/-! ## Names that pass -/

namespace Node

theorem directory_of_find (h : t.find name = some t') : t.type = .directory := by
  cases t with
  | file e => exact absurd h (by simp [find, nodes])
  | directory e ts => rfl

theorem resolve_cons_none (h : t.find name = none) : t.resolve (name :: names) = none := by
  rw [resolve, h]

theorem resolve_cons (h : t.find name = some t') :
    t.resolve (name :: names) = t'.resolve names := by
  rw [resolve, h]

/-- One name further. -/
theorem resolve_snoc (h : root.resolve names = some t) (hfind : t.find name = some t') :
    root.resolve (names ++ [name]) = some t' := by
  induction names generalizing root with
  | nil =>
    obtain rfl : root = t := Option.some.inj h
    exact resolve_cons hfind
  | cons c names ih =>
    cases hc : root.find c with
    | none => exact absurd (h.symm.trans (resolve_cons_none hc)) (by simp)
    | some t'' =>
      rw [resolve_cons hc] at h
      rw [List.cons_append, resolve_cons hc]
      exact ih h

theorem passes_one : t.Passes [name] ↔ t.type = .directory :=
  ⟨fun ⟨_, h, hty⟩ => Option.some.inj h ▸ hty, fun h => ⟨t, rfl, h⟩⟩

theorem passes_cons (hne : names ≠ []) :
    t.Passes (name :: names) ↔ ∃ t', t.find name = some t' ∧ t'.Passes names := by
  unfold Passes
  rw [List.dropLast_cons_of_ne_nil hne]
  cases h : t.find name with
  | none =>
    rw [resolve_cons_none h]
    exact iff_of_false (fun ⟨_, hn, _⟩ => absurd hn (by simp)) fun ⟨_, hn, _⟩ => absurd hn (by simp)
  | some t' =>
    rw [resolve_cons h]
    exact ⟨fun hp => ⟨t', rfl, hp⟩, fun ⟨_, he, hp⟩ => Option.some.inj he ▸ hp⟩

/-- No name passes a file. -/
theorem not_passes_file (hty : t.type = .file) : ¬ t.Passes (name :: names) := fun h => by
  rcases eq_or_ne names [] with rfl | hne
  · exact absurd (hty.symm.trans (passes_one.1 h)) (by decide)
  · obtain ⟨t', hfind, -⟩ := (passes_cons hne).1 h
    exact absurd (hty.symm.trans (directory_of_find hfind)) (by decide)

theorem resolve_file (hty : t.type = .file) : t.resolve (name :: names) = none := by
  cases h : t.find name with
  | none => exact resolve_cons_none h
  | some t' => exact absurd (hty.symm.trans (directory_of_find h)) (by decide)

end Node

/-! ## Ghosts -/

theorem freeDirectory_mem (K : Fs) (d : Nat) : (fat16FreeDirectory K d).kmem.mem = K.kmem.mem := by
  unfold fat16FreeDirectory Fs.kfree Fs.follow
  split
  · rfl
  · dsimp only
    split
    · rw [kfree_mem, kfree_mem, follow_mem]
    · rw [kfree_mem, follow_mem]

theorem fatItemFree_mem (K : Fs) (p : Nat) : (fat16FatItemFree K p).kmem.mem = K.kmem.mem := by
  unfold fat16FatItemFree
  dsimp only
  refine (kfree_mem _ p).trans ?_
  split
  · exact (freeDirectory_mem _ _).trans (follow_mem K.kmem p)
  · exact (kfree_mem _ _).trans (follow_mem K.kmem p)

theorem marks_loop (hm : ∀ K directory name, Marks K.kmem (find K directory name).2.kmem)
    {r : Nat × Fs} :
    ∀ (n : Nat) (K : Fs) (f next : Nat),
      fat16GetDirectoryEntryWith.loop find n K f next = some r → Marks K.kmem r.2.kmem
  | 0, K, f, next, he => by
    unfold fat16GetDirectoryEntryWith.loop at he
    split at he
    · cases he
      exact .refl K.kmem
    · cases he
  | n + 1, K, f, next, he => by
    unfold fat16GetDirectoryEntryWith.loop at he
    dsimp only at he
    split at he
    · cases he
      exact .refl K.kmem
    · have h₁ := marks_follow K f
      split at he
      · cases he
        exact h₁
      · generalize hq : find _ _ _ = q at he
        have h₂ := (h₁.trans (marks_follow _ next)).trans (marks_follow _ (K.fatItemAt f).item)
        have h₃ := h₂.trans (hq ▸ hm _ _ _)
        exact (h₃.trans (marks_fatItemFree q.2 f)).trans (marks_loop hm n _ _ _ he)

/-- The walk ends with the parts. -/
theorem walk_returns
    (hp : ∀ K directory name, (find K directory name).2.pathPartAt = K.pathPartAt) {parts : List Nat}
    (hw : Linked.Walk K.nextPart 0 next parts) (hn : parts.length ≤ n) :
    ∃ r, fat16GetDirectoryEntryWith.loop find n K f next = some r := by
  induction parts generalizing n K f next with
  | nil =>
    obtain rfl : next = 0 := hw
    cases n <;> exact ⟨_, rfl⟩
  | cons p parts ih =>
    obtain ⟨rfl, hne, hw⟩ := hw
    obtain ⟨n, rfl⟩ : ∃ m, n = m + 1 := ⟨n - 1, by rw [List.length_cons] at hn; omega⟩
    unfold fat16GetDirectoryEntryWith.loop
    rw [if_neg hne]
    dsimp only
    split
    · exact ⟨_, rfl⟩
    · generalize hr : find _ _ _ = r
      have hsame : r.2.pathPartAt = K.pathPartAt := by
        rw [← hr]
        exact hp _ _ _
      have hfree : (fat16FatItemFree r.2 f).pathPartAt = r.2.pathPartAt :=
        (Leaves.of_core (core_fatItemFree r.2 f)).parts
      refine ih ?_ (Nat.le_of_succ_le_succ hn)
      unfold Fs.nextPart at hw ⊢
      rw [hfree, hsame]
      exact hw

/-- Behind a null item a null pointer is followed. -/
theorem walk_null (hm : ∀ K directory name, Marks K.kmem (find K directory name).2.kmem)
    (hnext : next ≠ 0) :
    ¬ Resolves e₀ L t names (fat16GetDirectoryEntryWith.loop find n K 0 next) := by
  cases hloop : fat16GetDirectoryEntryWith.loop find n K 0 next with
  | none => exact id
  | some r =>
    rintro ⟨hfault, -⟩
    have hset : r.2.kmem.fault = true := by
      cases n with
      | zero =>
        unfold fat16GetDirectoryEntryWith.loop at hloop
        rw [if_neg hnext] at hloop
        cases hloop
      | succ n =>
        have hzero : (K.follow 0).kmem.fault = true := congrArg Kmem.fault (follow_zero K.kmem)
        unfold fat16GetDirectoryEntryWith.loop at hloop
        rw [if_neg hnext] at hloop
        dsimp only at hloop
        split at hloop
        · cases hloop
          exact hzero
        · generalize hq : find _ _ _ = q at hloop
          have h₁ := (marks_follow (K.follow 0) next).trans (marks_follow _ (K.fatItemAt 0).item)
          have h₂ := (h₁.trans (hq ▸ hm _ _ _)).trans (marks_fatItemFree q.2 0)
          exact (h₂.trans (marks_loop hm n _ _ _ hloop)).fault hzero
    exact absurd (hset.symm.trans hfault) (by decide)

/-! ## What is held -/

/-- No null pointer is followed to what is held. -/
theorem Ledger.follow_held (h : Ledger e₀ L K.kmem) (hp : p ∈ L) : K.follow p = K := by
  obtain ⟨b, hb, rfl⟩ := h.blockAddr hp
  unfold Fs.follow
  rw [follow_blockAddr hb]

theorem Ledger.kfree_fault {k : Kmem} (h : Ledger e₀ L k) (hp : p ∈ L) :
    (Pandora.kfree k p).fault = k.fault := by
  obtain ⟨b, hb, rfl⟩ := h.blockAddr hp
  unfold Pandora.kfree
  dsimp only
  rw [follow_blockAddr hb]

theorem Ledger.allocated (h : Ledger e₀ L K.kmem) (hp : p ∈ L) : K.Allocated p := by
  obtain ⟨b, n, rfl, hc, -⟩ := h.chain p hp
  unfold Fs.Allocated
  rw [blockOf_blockAddr h.kernel hc.lt]
  exact hc.not_free (Nat.le_refl b) (by have := hc.pos; omega) hc.lt

/-- What is held is not held for nothing. -/
theorem Ledger.not_released {k : Kmem} (h : Ledger e₀ (B ++ L) k) (hp : p ∈ B) : ¬ Ledger e₀ L k := by
  intro h'
  obtain ⟨b, n, rfl, hc, hfree⟩ := h.chain p (List.mem_append_left _ hp)
  have hpos := hc.pos
  have hlt := hc.lt
  obtain ⟨q, hq, b', n', rfl, hc', hb, hbn⟩ := h'.rest b hlt (hfree b (Nat.le_refl b) (by omega) hlt)
    (hc.not_free (Nat.le_refl b) (by omega) hlt)
  have hne : b ≠ b' := by
    rintro rfl
    exact List.disjoint_of_nodup_append h.nodup hp hq
  have := hc.disjoint hc' hne
  omega

/-! ## Items -/

theorem ItemBlocks.mem (h : ItemBlocks K f B) : f ∈ B := by
  cases h with
  | file => exact .tail _ (.head _)
  | directory => exact .tail _ (.tail _ (.head _))
  | empty => exact .tail _ (.head _)

theorem ItemBlocks.directory_mem (h : ItemBlocks K f B) (hty : (K.fatItemAt f).type = .directory) :
    (K.fatItemAt f).item ∈ B := by
  cases h with
  | file hty' => exact absurd (hty.symm.trans hty') (by decide)
  | directory => exact .tail _ (.head _)
  | empty => exact .head _

/-- The pointers that are freed with an item are no null pointers. -/
theorem Ledger.fatItemFree_fault (h : Ledger e₀ (B ++ L) K.kmem) (hb : ItemBlocks K f B) :
    (fat16FatItemFree K f).kmem.fault = K.kmem.fault := by
  have hf := h.follow_held (List.mem_append_left L hb.mem)
  unfold fat16FatItemFree
  rw [hf]
  dsimp only
  cases hb with
  | file hty =>
    rw [hty]
    exact (h.kfree.kfree_fault (.head _)).trans (h.kfree_fault (.head _))
  | directory hty =>
    have hd := h.follow_held (.tail _ (.head _))
    rw [hty]
    unfold fat16FreeDirectory
    dsimp only
    rw [if_neg (h.ne_zero (.tail _ (.head _))), hd, if_pos (h.ne_zero (.head _))]
    exact ((h.kfree.kfree.kfree_fault (.head _)).trans (h.kfree.kfree_fault (.head _))).trans
      (h.kfree_fault (.head _))
  | empty hty hfree =>
    obtain ⟨b, hlt, ha, hfree⟩ := hfree
    have hd := h.follow_held (.head _)
    have hne : (K.fatDirectoryAt (K.fatItemAt f).item).item ≠ 0 := ha ▸ blockAddr_ne_zero b
    have h₁ := h.kfree_free (p := (K.fatDirectoryAt (K.fatItemAt f).item).item) fun _ => by
      rw [ha, freedBlock_blockAddr hlt]
      exact hfree
    have hfault : (Pandora.kfree K.kmem (K.fatDirectoryAt (K.fatItemAt f).item).item).fault =
        K.kmem.fault := by
      rw [ha]
      unfold Pandora.kfree
      dsimp only
      rw [follow_blockAddr hlt]
    rw [hty]
    unfold fat16FreeDirectory
    dsimp only
    rw [if_neg (h.ne_zero (.head _)), hd, if_pos hne]
    exact ((h₁.kfree.kfree_fault (.head _)).trans (h₁.kfree_fault (.head _))).trans hfault

/-- Freeing an item gives back its blocks, and leaves the memory and the ghosts. -/
theorem Ledger.frees (h : Ledger e₀ (B ++ L) K.kmem) (hb : ItemBlocks K f B) :
    ∃ k', fat16FatItemFree K f = { K with kmem := k' } ∧ Ledger e₀ L k' ∧ K.kmem.Freer k' ∧
      k'.mem = K.kmem.mem ∧ k'.fault = K.kmem.fault := by
  obtain ⟨k', he, hl, hfreer⟩ := h.fatItemFree hb
  have hmem := fatItemFree_mem K f
  have hfault := h.fatItemFree_fault hb
  rw [he] at hmem hfault
  exact ⟨k', he, hl, hfreer, hmem, hfault⟩

/-- The blocks of a directory that is not empty are the array, the structure and the item. -/
theorem Shows.blocks (hs : Shows K f t) (hb : ItemBlocks K f B) (hk : K.kmem.heap.Kernel)
    (hne : t.nodes ≠ []) :
    B = [(K.fatDirectoryAt (K.fatItemAt f).item).item, (K.fatItemAt f).item, f] := by
  have hty : t.type = .directory := by
    cases t with
    | file e => exact absurd rfl hne
    | directory e ts => rfl
  exact hb.of_allocated hk (hs.type.trans hty) ((hs.directory hty).array hne)

/-- An item that is held is shown still when others are freed. -/
theorem Shows.freed {k' : Kmem} (hs : Shows K f t) (hb : ItemBlocks K f B) (hk : K.kmem.heap.Kernel)
    (hl : Ledger e₀ (B ++ L) k') : Shows { K with kmem := k' } f t where
  type := hs.type
  file := hs.file
  directory := fun hty =>
    { total := (hs.directory hty).total
      entries := (hs.directory hty).entries
      array := fun hne => by
        rw [hs.blocks hb hk hne] at hl
        exact Ledger.allocated (K := { K with kmem := k' }) hl (.head _) }

/-- The parts are what they were where the blocks that are held are. -/
theorem PartsAt.congr (h : PartsAt K L p names) (hk : KeepsPages L K.kmem K'.kmem)
    (hparts : K'.pathPartAt = K.pathPartAt) : PartsAt K' L p names := by
  induction names generalizing p with
  | nil => exact h
  | cons name names ih =>
    obtain ⟨hp, hpart, hs, hrest⟩ := h
    unfold PartsAt
    rw [hparts]
    exact ⟨hp, hpart, hs.keep (by rw [hparts]) hk hpart, ih hrest⟩

theorem PartsAt.mono {L' : List Nat} (h : PartsAt K L p names) (hL : ∀ q ∈ L, q ∈ L') :
    PartsAt K L' p names := by
  induction names generalizing p with
  | nil => exact h
  | cons name names ih => exact ⟨hL _ h.1, hL _ h.2.1, h.2.2.1, ih h.2.2.2⟩

/-! ## The walk along the tree -/

/-- Only where the names lead matters. -/
theorem resolves_congr {names' : List (List UInt8)} {r : Option (Nat × Fs)}
    (h : t.resolve names = t'.resolve names') : Resolves e₀ L t names r ↔ Resolves e₀ L t' names' r := by
  unfold Resolves
  rw [h]

theorem walk_end (n : Nat) (K : Fs) (f : Nat) :
    fat16GetDirectoryEntryWith.loop find n K f 0 = some (f, K) := by
  cases n <;> rfl

theorem walk_file (h : Ledger e₀ L K.kmem) (hf : f ∈ L) (hty : (K.fatItemAt f).type = .file)
    (hnext : next ≠ 0) : fat16GetDirectoryEntryWith.loop find (n + 1) K f next = some (0, K) := by
  unfold fat16GetDirectoryEntryWith.loop
  rw [if_neg hnext]
  dsimp only
  rw [h.follow_held hf, hty]

theorem walk_directory (h : Ledger e₀ L K.kmem) (hf : f ∈ L) (hnext : next ∈ L)
    (hty : (K.fatItemAt f).type = .directory) (hd : (K.fatItemAt f).item ∈ L) {r : Nat × Fs}
    (hfind : find K (K.fatDirectoryAt (K.fatItemAt f).item)
      (K.stringAt (K.pathPartAt next).part) = r) :
    fat16GetDirectoryEntryWith.loop find (n + 1) K f next =
      fat16GetDirectoryEntryWith.loop find n (fat16FatItemFree r.2 f) r.1 (r.2.pathPartAt next).next := by
  rw [fat16GetDirectoryEntryWith.loop, if_neg (h.ne_zero hnext)]
  dsimp only
  rw [h.follow_held hf, hty]
  dsimp only
  rw [h.follow_held hnext, h.follow_held hd, hfind]

/-- The parts as nodes of a list. -/
theorem PartsAt.walk (h : PartsAt K L p names) (h0 : ∀ q ∈ L, q ≠ 0) :
    ∃ parts, Linked.Walk K.nextPart 0 p parts ∧ parts.length = names.length := by
  induction names generalizing p with
  | nil => exact ⟨[], h, rfl⟩
  | cons name names ih =>
    obtain ⟨hp, -, -, hrest⟩ := h
    obtain ⟨parts, hw, hlen⟩ := ih hrest
    exact ⟨p :: parts, ⟨rfl, h0 p hp, hw⟩, congrArg Nat.succ hlen⟩

/-- **The walk behind an item** follows the tree exactly where no name is left, or all but the last
are those of directories. -/
theorem walk_resolves_iff (hf : SearchesTree e₀ root find) {past : List (List UInt8)}
    (hroot : root.resolve past = some t) (hl : Ledger e₀ (B ++ L) K.kmem) (hb : ItemBlocks K f B)
    (hs : Shows K f t) (hparts : PartsAt K L next names) (hn : names.length ≤ n)
    (hfault : K.kmem.fault = false)
    (hserved : ∀ r, fat16GetDirectoryEntryWith.loop find n K f next = some r →
      r.2.kmem.denied = false) :
    Resolves e₀ L t names (fat16GetDirectoryEntryWith.loop find n K f next) ↔
      names = [] ∨ t.Passes names := by
  induction names generalizing n K f next t B past with
  | nil =>
    obtain rfl : next = 0 := hparts
    rw [walk_end]
    exact iff_of_true ⟨hfault, hl.ne_zero (List.mem_append_left L hb.mem), hs, B, hb, hl⟩ (.inl rfl)
  | cons name names ih =>
    obtain ⟨hnext, hpart, hstring, hrest⟩ := hparts
    obtain ⟨n, rfl⟩ : ∃ m, n = m + 1 := ⟨n - 1, by rw [List.length_cons] at hn; omega⟩
    have hn' : names.length ≤ n := Nat.le_of_succ_le_succ hn
    have hheld : ∀ q ∈ L, q ∈ B ++ L := fun q hq => List.mem_append_right B hq
    have hfB : f ∈ B ++ L := List.mem_append_left L hb.mem
    rw [or_iff_right (List.cons_ne_nil _ _)]
    cases hty : (K.fatItemAt f).type with
    | file =>
      -- the item of a file is lost
      have htype : t.type = .file := hs.type.symm.trans hty
      rw [walk_file hl hfB hty (hl.ne_zero (hheld next hnext))]
      refine iff_of_false (fun ⟨_, h⟩ => ?_) (Node.not_passes_file htype)
      rw [Node.resolve_file htype] at h
      exact hl.not_released hb.mem h.2
    | directory =>
      have htype : t.type = .directory := hs.type.symm.trans hty
      have hd : (K.fatItemAt f).item ∈ B ++ L := List.mem_append_left L (hb.directory_mem hty)
      have hans := hf.answers hroot hl (hs.directory htype) hstring.string
      obtain ⟨r, hr⟩ : ∃ r, find K (K.fatDirectoryAt (K.fatItemAt f).item)
        (K.stringAt (K.pathPartAt next).part) = r := ⟨_, rfl⟩
      rw [walk_directory hl hfB (hheld next hnext) hty hd hr] at hserved ⊢
      rw [hr] at hans
      have hsame : r.2.pathPartAt = K.pathPartAt := hr ▸ hf.parts _ _ _
      rcases hans with hdenied | hans
      · -- a search that is denied its blocks is in no run that is served
        obtain ⟨parts, hw, hlen⟩ := hrest.walk fun q hq => hl.ne_zero (hheld q hq)
        have hw' : Linked.Walk (fat16FatItemFree r.2 f).nextPart 0 (r.2.pathPartAt next).next parts := by
          have hfree : (fat16FatItemFree r.2 f).pathPartAt = r.2.pathPartAt :=
            (Leaves.of_core (core_fatItemFree r.2 f)).parts
          unfold Fs.nextPart at hw ⊢
          rw [hfree, hsame]
          exact hw
        obtain ⟨r', hloop⟩ := walk_returns (f := r.1) hf.parts hw' (hlen.trans_le hn')
        have hm := (marks_fatItemFree r.2 f).trans (marks_loop hf.marks n _ _ _ hloop)
        exact absurd ((hm.denied hdenied).symm.trans (hserved r' hloop)) (by decide)
      · generalize hfind : t.find name = found at hans
        cases hans with
        | missing =>
          obtain ⟨k', hfree, hl', -, -, hfault'⟩ := hl.frees hb
          dsimp only
          rw [hfree]
          cases names with
          | nil =>
            have hend : (K.pathPartAt next).next = 0 := hrest
            rw [hend, walk_end]
            refine iff_of_true ⟨hfault'.trans hfault, ?_⟩ (Node.passes_one.2 htype)
            rw [Node.resolve_cons_none hfind]
            exact ⟨rfl, hl'⟩
          | cons c names =>
            -- what is left of the path is looked up in null
            have hne : (K.pathPartAt next).next ≠ 0 := hl.ne_zero (hheld _ hrest.1)
            refine iff_of_false (walk_null hf.marks hne) fun hp => ?_
            obtain ⟨t', hfind', -⟩ := (Node.passes_cons (List.cons_ne_nil _ _)).1 hp
            exact absurd (hfind.symm.trans hfind') (by simp)
        | found t' f' K' B' hf' hl' hb' hs' hframe hk _ hfault' =>
          have hnodes : t.nodes ≠ [] := fun hnil => by
            unfold Node.find at hfind
            rw [hnil] at hfind
            exact absurd hfind (by simp)
          obtain rfl := hs.blocks hb hl.kernel hnodes
          have hb₁ := hb.framed ⟨fun q hq => hframe.items q (List.mem_append_left _ hq),
            fun q hq => hframe.directories q (List.mem_append_left _ hq)⟩
          have hswap := hl'.perm (List.perm_append_comm_assoc B' _ L)
          obtain ⟨k', hfree, hl₂, hfreer, hmem, hfault₂⟩ := hswap.frees hb₁
          dsimp only at hserved hsame ⊢
          rw [hsame, hfree] at hserved ⊢
          have hk₂ : KeepsPages L K.kmem k' := fun q hq x hx hx' => by
            rw [hmem]
            exact hk q (hheld q hq) x hx hx'
          have hrest₂ : PartsAt { K' with kmem := k' } L (K.pathPartAt next).next names :=
            hrest.congr hk₂ hsame
          have hwalk := ih (K := { K' with kmem := k' }) (Node.resolve_snoc hroot hfind) hl₂
            (hb'.congr rfl rfl hfreer)
            (hs'.freed hb' hl'.kernel hl₂) hrest₂ hn' ((hfault₂.trans hfault').trans hfault) hserved
          rw [resolves_congr (Node.resolve_cons hfind), hwalk]
          rcases eq_or_ne names [] with rfl | hne
          · exact iff_of_true (.inl rfl) (Node.passes_one.2 htype)
          · rw [or_iff_right hne, Node.passes_cons hne, hfind]
            exact ⟨fun hp => ⟨t', rfl, hp⟩, fun ⟨_, he, hp⟩ => Option.some.inj he ▸ hp⟩

/-- The first search of a run that is served. -/
theorem walk_first (hf : SearchesTree e₀ root find) (hl : Ledger e₀ L K.kmem)
    (hlists : Lists K K.priv.rootDirectory root) (hparts : PartsAt K L p (name :: names))
    (hn : names.length ≤ n)
    (hserved : ∀ r, fat16GetDirectoryEntryWith find n K p = some r → r.2.kmem.denied = false) :
    ∃ r, Answers e₀ L K (root.find name) r ∧ fat16GetDirectoryEntryWith find n K p =
      if r.1 = 0 then some (0, r.2)
      else fat16GetDirectoryEntryWith.loop find n r.2 r.1 (K.pathPartAt p).next := by
  obtain ⟨hp, hpart, hstring, hrest⟩ := hparts
  have hempty : root.resolve [] = some root := rfl
  have hans := hf.answers hempty hl hlists hstring.string
  have hsame := hf.parts K K.priv.rootDirectory (K.stringAt (K.pathPartAt p).part)
  unfold fat16GetDirectoryEntryWith at hserved ⊢
  dsimp only at hserved ⊢
  rw [hl.follow_held hp] at hserved ⊢
  generalize find K K.priv.rootDirectory (K.stringAt (K.pathPartAt p).part) = r at *
  rw [hsame] at hserved ⊢
  refine ⟨r, hans.resolve_left fun hdenied => ?_, rfl⟩
  -- a search that is denied its blocks is in no run that is served
  by_cases hzero : r.1 = 0
  · exact absurd (hdenied.symm.trans (hserved (0, r.2) (if_pos hzero))) (by decide)
  · obtain ⟨parts, hw, hlen⟩ := hrest.walk fun q hq => hl.ne_zero hq
    have hw' : Linked.Walk r.2.nextPart 0 (K.pathPartAt p).next parts := by
      unfold Fs.nextPart at hw ⊢
      rw [hsame]
      exact hw
    obtain ⟨r', hloop⟩ := walk_returns (f := r.1) hf.parts hw' (hlen.trans_le hn)
    rw [if_neg hzero] at hserved
    have hm := marks_loop hf.marks n _ _ _ hloop
    exact absurd ((hm.denied hdenied).symm.trans (hserved r' hloop)) (by decide)

/-- **Path resolution follows the tree** exactly where the first name is not found, or all names but the
last are those of directories. -/
theorem directory_entry_iff (hf : SearchesTree e₀ root find) (hroot : root.type = .directory)
    (hl : Ledger e₀ L K.kmem) (hlists : Lists K K.priv.rootDirectory root)
    (hparts : PartsAt K L p (name :: names)) (hn : names.length ≤ n) (hfault : K.kmem.fault = false)
    (hserved : ∀ r, fat16GetDirectoryEntryWith find n K p = some r → r.2.kmem.denied = false) :
    Resolves e₀ L root (name :: names) (fat16GetDirectoryEntryWith find n K p) ↔
      root.find name = none ∨ root.Passes (name :: names) := by
  obtain ⟨r, hans, hrun⟩ := walk_first hf hl hlists hparts hn hserved
  rw [hrun] at hserved ⊢
  generalize hfind : root.find name = found at hans
  cases hans with
  | missing =>
    rw [if_pos rfl]
    refine iff_of_true ⟨hfault, ?_⟩ (.inl rfl)
    rw [Node.resolve_cons_none hfind]
    exact ⟨rfl, hl⟩
  | found t f K' B hf' hl' hb hs hframe hk hsame hfault' =>
    rw [if_neg hf'] at hserved ⊢
    have hpast : root.resolve [name] = some t := Node.resolve_cons hfind
    rw [resolves_congr (Node.resolve_cons hfind), walk_resolves_iff hf hpast hl' hb hs
      (hparts.2.2.2.congr hk hsame) hn (hfault'.trans hfault) hserved]
    have hfound : (some t = none ∨ root.Passes (name :: names)) ↔ root.Passes (name :: names) :=
      or_iff_right (by simp)
    rw [hfound]
    rcases eq_or_ne names [] with rfl | hne
    · exact iff_of_true (.inl rfl) (Node.passes_one.2 hroot)
    · rw [or_iff_right hne, Node.passes_cons hne, hfind]
      exact ⟨fun hp => ⟨t, rfl, hp⟩, fun ⟨_, he, hp⟩ => Option.some.inj he ▸ hp⟩

/-! ## Paths that were parsed -/

/-- The parts of a parsed path have its names. -/
theorem partsAt_of_walk {parts : List Nat} (hw : Linked.Walk K.nextPart 0 p parts)
    (hs : List.Forall₂ (HoldsString K) parts names) (hL : ∀ q ∈ partBlocks K parts, q ∈ L) :
    PartsAt K L p names := by
  induction hs generalizing p with
  | nil => exact hw
  | cons hstring hrest ih =>
    obtain ⟨rfl, -, hw⟩ := hw
    rw [partBlocks_cons] at hL
    exact ⟨hL _ (.tail _ (.head _)), hL _ (.head _), hstring,
      ih hw fun q hq => hL q (.tail _ (.tail _ hq))⟩

/-! ## The search of the code -/

/-- `fat16_find_item_in_directory`, where it returns. -/
def returnedSearch : Search := fun K directory name =>
  (fat16FindItemInDirectory K directory name).getD (0, K)

/-- A walk of the code that returns is the walk with its search. -/
theorem directoryEntry_loop_with {r : Nat × Fs} : ∀ (n : Nat) (K : Fs) (f next : Nat),
    fat16GetDirectoryEntry.loop n K f next = some r →
      fat16GetDirectoryEntryWith.loop returnedSearch n K f next = some r
  | 0, _, _, _, he => he
  | n + 1, K, f, next, he => by
    unfold fat16GetDirectoryEntry.loop at he
    unfold fat16GetDirectoryEntryWith.loop
    dsimp only at he ⊢
    by_cases hnext : next = 0
    · rw [if_pos hnext] at he ⊢
      exact he
    · obtain ⟨ty, hty⟩ : ∃ ty, ((K.follow f).fatItemAt f).type = ty := ⟨_, rfl⟩
      rw [if_neg hnext, hty] at he ⊢
      cases ty with
      | file => exact he
      | directory =>
        dsimp only at he ⊢
        split at he
        · cases he
        · rename_i tmpItem K₂ hfind
          unfold returnedSearch
          rw [hfind]
          exact directoryEntry_loop_with n _ _ _ he

theorem directoryEntry_with {r : Nat × Fs} (he : fat16GetDirectoryEntry K p = some r) :
    fat16GetDirectoryEntryWith returnedSearch maxPath K p = some r := by
  unfold fat16GetDirectoryEntry at he
  unfold fat16GetDirectoryEntryWith
  dsimp only at he ⊢
  split at he
  · cases he
  · rename_i rootItem K₁ hfind
    unfold returnedSearch
    rw [hfind]
    dsimp only [Option.getD]
    split at he
    · rename_i hzero
      rw [if_pos hzero]
      exact he
    · rename_i hzero
      rw [if_neg hzero]
      exact directoryEntry_loop_with maxPath _ _ _ he

/-- The item of a file takes two blocks. -/
theorem Ledger.newFile (h : Ledger e₀ L K.kmem) {array i : Nat}
    (hentry : K.directoryItemsAt array i = t.entry) (hty : t.type = .file)
    (hattr : t.entry.itemAttribute &&& fatFileSubdirectory = 0) :
    ∃ r, fat16NewFatItemForDirectoryItem K array i = some r ∧ Arrays K r.2 ∧
      (r.2.kmem.denied = true ∨ Answers e₀ L K (some t) r) := by
  unfold fat16NewFatItemForDirectoryItem fat16CloneDirectoryItem
  rw [hentry]
  unfold Fs.kzalloc
  rcases h.page sizeofFatItem (by decide) (by decide) with ⟨-, he⟩ | ⟨f, k₁, he, hp⟩
  · rw [he]
    dsimp only
    rw [if_pos rfl]
    exact ⟨_, rfl, .of_eq rfl rfl, .inl rfl⟩
  · rw [he]
    dsimp only
    rw [if_neg hp.ne_zero, if_neg (not_not_intro hattr)]
    obtain ⟨b, -, ht⟩ := hp.taken
    have harr : Arrays K { K with kmem := k₁ } := (ht.arrays h.kernel).1
    rcases hp.ledger.page sizeofFatDirectoryItem (by decide) (by decide) with
      ⟨-, he₂⟩ | ⟨c, k₂, he₂, hp₂⟩
    · rw [he₂]
      dsimp only
      rw [if_pos rfl]
      exact ⟨_, rfl, harr.trans (.of_eq rfl rfl), .inl rfl⟩
    · rw [he₂]
      dsimp only
      rw [if_neg hp₂.ne_zero]
      obtain ⟨b₂, hc, ht₂⟩ := hp₂.taken
      obtain ⟨harr₂, hne⟩ := Taken.arrays (K := { K with kmem := k₁ }) ht₂ hp.ledger.kernel
      have hkeep := hp.keeps h.lt (by decide)
      have hkeep₂ := hp₂.keeps hp.ledger.lt (by decide)
      have hfresh : ∀ q ∈ L, q ≠ f := fun q hq he => by
        have := hp.apart q hq
        omega
      obtain ⟨K₂, hK₂⟩ : ∃ K₂, (Fs.setDirectoryItems { K with kmem := k₂ } c fun _ => t.entry).setFatItem f
          ⟨c, .file, (array, i)⟩ = K₂ := ⟨_, rfl⟩
      have hitem : K₂.fatItemAt f = ⟨c, .file, (array, i)⟩ := hK₂ ▸ Function.update_self _ _ _
      have hentry₂ : K₂.directoryItemsAt c = fun _ => t.entry := hK₂ ▸ Function.update_self _ _ _
      have hkmem : K₂.kmem = k₂ := hK₂ ▸ rfl
      refine ⟨(f, K₂), congrArg (fun K => some (f, K)) hK₂, ?_, .inr (.found t f K₂ [c, f] hp.ne_zero
        (hkmem ▸ hp₂.ledger) ?_ ⟨?_, fun _ => ?_, fun hdir => ?_⟩ ⟨fun q hq => ?_, fun _ _ => hK₂ ▸ rfl⟩
          (fun q hq x hx hx' => ?_) (hK₂ ▸ rfl) ?_)⟩
      · have hset := Arrays.setDirectoryItems (harr.trans harr₂) (p := c)
          (fun a ha => hc ▸ hne a (harr a ha).1) fun _ => t.entry
        exact hset.trans (.of_eq (congrArg Kmem.heap hkmem) (by rw [← hK₂]; rfl))
      · have hfile : ItemBlocks K₂ f [(K₂.fatItemAt f).item, f] := .file (by rw [hitem])
        rwa [hitem] at hfile
      · rw [hitem, hty]
      · rw [hitem, hentry₂]
      · exact absurd (hty.symm.trans hdir) (by decide)
      · rw [← hK₂]
        exact Function.update_of_ne (hfresh q hq) _ _
      · rw [hkmem, hkeep₂ q (.tail _ hq) x hx hx']
        exact hkeep q hq x hx hx'
      · rw [hkmem]
        exact ht₂.fault.trans ht.fault

/-- The entry that a directory has at an index has the name exactly where the node has it. -/
theorem Lists.hit {directory : FatDirectory} (h : Lists K directory t) (hname : CString K.mem p name)
    {i : Nat} (hi : i < t.nodes.length) :
    K.Hit directory.item (K.stringAt p) i ↔ t.nodes[i].Named name := by
  unfold Fs.Hit Node.Named istrncmp Fs.stringAt
  rw [h.entries i hi, istrncmp_loop_cstring (fun _ _ => rfl) (fun _ hi => string_apply hname hi) maxPath 0
    (Nat.zero_le _) (Nat.zero_le _)]

/-- The files of a directory without subdirectories, no two of one name. -/
structure Flat (ts : List Node) : Prop where
  files : ∀ t ∈ ts, t.type = .file ∧ t.entry.itemAttribute &&& fatFileSubdirectory = 0
  names : ∀ i (hi : i < ts.length), ∀ j (hj : j < ts.length), ∀ name,
    ts[i].Named name → ts[j].Named name → i = j

/-- Among files the search of the code finds the right item. -/
theorem Flat.answers (hflat : Flat t.nodes) (h : Ledger e₀ L K.kmem) {directory : FatDirectory}
    (hl : Lists K directory t) (hname : CString K.mem p name) :
    (returnedSearch K directory (K.stringAt p)).2.kmem.denied = true ∨
      Answers e₀ L K (t.find name) (returnedSearch K directory (K.stringAt p)) := by
  have htotal : directory.total.toNat = t.nodes.length := by rw [hl.total, Int.toNat_natCast]
  unfold returnedSearch fat16FindItemInDirectory
  rw [htotal]
  cases hfind : t.find name with
  | none =>
    have hno : ∀ j, 0 ≤ j → j < 0 + t.nodes.length → ¬ K.Hit directory.item (K.stringAt p) j :=
      fun j _ hj => by
        have hj' : j < t.nodes.length := by omega
        rw [hl.hit hname hj']
        have hnone := List.find?_eq_none.1 hfind _ (List.getElem_mem hj')
        simpa using hnone
    rw [findItem_loop_none _ 0 0 hno]
    exact .inr .missing
  | some t' =>
    obtain ⟨hnamed, i, hi, he, -⟩ := List.find?_eq_some_iff_getElem.1 hfind
    have hnamed' : t.nodes[i].Named name := by
      rw [he]
      simpa using hnamed
    have hnodes : t.nodes ≠ [] := fun hnil => by simp [hnil] at hi
    obtain ⟨hty, hattr⟩ := hflat.files t' (he ▸ List.getElem_mem hi)
    have hentry : K.directoryItemsAt directory.item i = t'.entry :=
      (hl.entries i hi).trans (congrArg Node.entry he)
    obtain ⟨r, hnew, harr, hr⟩ := h.newFile hentry hty hattr
    have hframe : ∀ q K', fat16NewFatItemForDirectoryItem K directory.item i = some (q, K') →
        Arrays K K' := fun q K' hq => by
      obtain rfl : r = (q, K') := Option.some.inj (hnew.symm.trans hq)
      exact harr
    have hone : ∀ j, 0 ≤ j → j < 0 + t.nodes.length →
        (K.Hit directory.item (K.stringAt p) j ↔ j = i) := fun j _ hj => by
      have hj' : j < t.nodes.length := by omega
      rw [hl.hit hname hj']
      refine ⟨fun hn => hflat.names j hj' i hi name hn hnamed', fun hji => ?_⟩
      subst hji
      exact hnamed'
    rw [findItem_loop_once (hl.array hnodes) hframe _ 0 0 (Nat.zero_le i) (by omega) hone, hnew]
    exact hr

/-- The search of the code searches a root directory without subdirectories. -/
theorem Flat.searches {ts : List Node} (hflat : Flat ts) (entry : FatDirectoryItem) :
    SearchesTree e₀ (.directory entry ts) returnedSearch where
  answers := fun {K L directory t names p name} hroot h hl hname => by
    refine Flat.answers ?_ h hl hname
    cases names with
    | nil =>
      obtain rfl : Node.directory entry ts = t := Option.some.inj hroot
      exact hflat
    | cons c names =>
      -- what is found in the root is a file
      cases hc : Node.find (.directory entry ts) c with
      | none => exact absurd (hroot.symm.trans (Node.resolve_cons_none hc)) (by simp)
      | some t' =>
        have hty := (hflat.files t' (List.mem_of_find?_eq_some hc)).1
        rw [Node.resolve_cons hc] at hroot
        have htt : t' = t := by
          cases names with
          | nil => exact Option.some.inj hroot
          | cons c' names => exact absurd (hroot.symm.trans (Node.resolve_file hty)) (by simp)
        have hnil : t.nodes = [] := by
          rw [← htt]
          cases t' with
          | file e => rfl
          | directory e ts => exact absurd (show FatItemType.directory = .file from hty) (by decide)
        rw [hnil]
        exact ⟨fun _ hm => absurd hm List.not_mem_nil, fun i hi => absurd hi (Nat.not_lt_zero i)⟩
  parts := fun K directory name => by
    unfold returnedSearch
    cases he : fat16FindItemInDirectory K directory name with
    | none => rfl
    | some r => exact (Leaves.of_core (core_findItem_loop _ _ _ _ he)).parts
  marks := fun K directory name => by
    unfold returnedSearch
    cases he : fat16FindItemInDirectory K directory name with
    | none => exact .refl K.kmem
    | some r => exact marks_findItem_loop _ _ _ _ he

/-- The parts of a path that was parsed with all its blocks. -/
theorem Ledger.parsedParts (h : Ledger e₀ L K.kmem) {path : List UInt8} (h0 : (0 : UInt8) ∉ path)
    (hp : pathparserParse K path = (p, K')) (hne : p ≠ 0) (hserved : K'.kmem.denied = false) :
    ∃ L', Ledger e₀ L' K'.kmem ∧
      PartsAt K' L' (K'.pathRootAt p).first (components slash (path.drop 3)) := by
  have hledger := (h.parse path).2
  have hparses := h.parses h0
  rw [hp] at hledger hparses
  obtain ⟨-, parts, hl, hparsed⟩ := hledger.resolve_left fun hz => hne hz.1
  cases hparses with
  | refused => exact absurd rfl hne
  | parsed _ _ _ _ hpath hroom =>
    obtain ⟨parts', hparsed', -, hs⟩ := hpath
    obtain rfl := hparsed.walk.unique hparsed'.walk
    have := hroom hserved
    rw [List.take_of_length_le (by omega)] at hs
    exact ⟨_, hl, partsAt_of_walk hparsed.walk hs fun q hq => List.mem_append_left _ hq⟩

end

/-! ## Behind a file -/

/-- `0:/A/B` -/
def pathAB : List UInt8 := [0x30, 0x3A, 0x2F, 0x41, 0x2F, 0x42]

/-- The root directory with the file "A". -/
def treeA : Node := .directory fileA [.file fileA]

/-- The path is parsed where the root directory has the file "A". -/
def fsAB : Fs := (pathparserParse (rootFs [fileA]) pathAB).2

def partA : Nat := (fsAB.pathRootAt (pathparserParse (rootFs [fileA]) pathAB).1).first

theorem treeA_flat : Flat treeA.nodes where
  files := by decide
  names := fun i hi j hj _ _ _ => by
    change i < 1 at hi
    change j < 1 at hj
    omega

theorem fsAB_parts : ∃ L, Ledger (rootFs [fileA]).entries L fsAB.kmem ∧
    PartsAt fsAB L partA [[0x41], [0x42]] :=
  Ledger.parsedParts (rootFs_reached [fileA]).ledger (by decide)
    (show pathparserParse (rootFs [fileA]) pathAB = (_, fsAB) from rfl) (by decide +kernel)
    (by decide +kernel)

theorem fsAB_lists : Lists fsAB fsAB.priv.rootDirectory treeA where
  total := by decide +kernel
  entries := fun i hi => by
    obtain rfl : i = 0 := Nat.lt_one_iff.1 hi
    have hentry : fsAB.directoryItemsAt fsAB.priv.rootDirectory.item 0 = fileA := by decide +kernel
    exact hentry
  array := fun _ => by decide +kernel

theorem fsAB_walk : (fat16GetDirectoryEntryWith returnedSearch maxPath fsAB partA).map
    (fun r => (r.1, r.2.kmem.fault, r.2.kmem.denied)) = some (0, false, false) := by
  decide +kernel

theorem fsAB_served (r : Nat × Fs)
    (hr : fat16GetDirectoryEntryWith returnedSearch maxPath fsAB partA = some r) :
    r.2.kmem.denied = false := by
  have hwalk := fsAB_walk
  rw [hr] at hwalk
  simp only [Option.map_some, Option.some.injEq, Prod.mk.injEq] at hwalk
  exact hwalk.2.2

theorem directory_entry_iff_file : ∃ L, Ledger (rootFs [fileA]).entries L fsAB.kmem ∧
    (Resolves (rootFs [fileA]).entries L treeA [[0x41], [0x42]]
        (fat16GetDirectoryEntryWith returnedSearch maxPath fsAB partA) ↔
      treeA.find [0x41] = none ∨ treeA.Passes [[0x41], [0x42]]) := by
  obtain ⟨L, hl, hparts⟩ := fsAB_parts
  exact ⟨L, hl, directory_entry_iff (treeA_flat.searches fileA) rfl hl fsAB_lists hparts (by decide)
    (by decide +kernel) fsAB_served⟩

/-- The item of the file stays allocated, and the walk answers with null. -/
theorem directory_entry_file_lost : ∃ L, Ledger (rootFs [fileA]).entries L fsAB.kmem ∧
    SearchesTree (rootFs [fileA]).entries treeA returnedSearch ∧
    Lists fsAB fsAB.priv.rootDirectory treeA ∧ PartsAt fsAB L partA [[0x41], [0x42]] ∧
    fsAB.kmem.fault = false ∧
    ¬ Resolves (rootFs [fileA]).entries L treeA [[0x41], [0x42]]
      (fat16GetDirectoryEntryWith returnedSearch maxPath fsAB partA) := by
  obtain ⟨L, hl, hparts⟩ := fsAB_parts
  have hsearch : SearchesTree (rootFs [fileA]).entries treeA returnedSearch := treeA_flat.searches fileA
  refine ⟨L, hl, hsearch, fsAB_lists, hparts, by decide +kernel, ?_⟩
  obtain ⟨r, hans, hrun⟩ := walk_first hsearch hl fsAB_lists hparts (show 1 ≤ maxPath by decide) fsAB_served
  have hfind : treeA.find [0x41] = some (.file fileA) := by rfl
  rw [hfind] at hans
  cases hans with
  | found t f K' B hf' hl' hb hs =>
    have hnull : fat16GetDirectoryEntryWith.loop returnedSearch maxPath K' f
        (fsAB.pathPartAt partA).next = some (0, K') :=
      walk_file hl' (List.mem_append_left L hb.mem) hs.type (hl.ne_zero hparts.2.2.2.1)
    have hnone : treeA.resolve [[0x41], [0x42]] = none :=
      (Node.resolve_cons hfind).trans (Node.resolve_file rfl)
    rw [hrun, if_neg hf', hnull]
    rintro ⟨-, h⟩
    rw [hnone] at h
    exact hl'.not_released hb.mem h.2

end Pandora
