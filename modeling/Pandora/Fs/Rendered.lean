import Pandora.Fs.Leak
import Pandora.Fs.Parsed
import Pandora.Heap.Pages
import Pandora.Heap.Reached
import Pandora.Lib.CString
import Pandora.Lib.Split

/-!
# What a path is parsed to (`fs/pparser.c`)

`PathIs K root drive cs`: the path at `root` has the drive number and the components `cs`, each in a
buffer of its own with a terminator. With `f` free blocks a parse has room for the root and
`(f - 1) / 2` parts; it reads the components up to the first empty one, and keeps those it has room for
(`parse_spec`). `GetsPart` and `ParsesPart` are the outcomes of the functions that read one part, by the
number of free blocks.
-/

namespace Pandora

open ByteMem Split

/-- The characters of the first part. -/
def partOf (path : List UInt8) : List UInt8 := path.takeWhile fun c => c ≠ slash

/-- The path behind the first part and one `/`. -/
def behind (path : List UInt8) : List UInt8 := (path.dropWhile fun c => c ≠ slash).tail

section

variable {e₀ : Nat → UInt8} {L parts : List Nat} {K K' : Fs} {path chars : List UInt8} {root p : Nat}
  {drive : Int} {cs cs' : List (List UInt8)}

/-- The part `p` has the string `c`, in its buffer. -/
structure HoldsString (K : Fs) (p : Nat) (c : List UInt8) : Prop where
  string : CString K.mem (K.pathPartAt p).part c
  room : c.length + 1 ≤ maxPath

/-- The path at `root` (module doc). -/
def PathIs (K : Fs) (root : Nat) (drive : Int) (cs : List (List UInt8)) : Prop :=
  ∃ parts, Parsed K root parts ∧ (K.pathRootAt root).driveNo = drive ∧
    List.Forall₂ (HoldsString K) parts cs

theorem PathIs.unique {drive' : Int} (h : PathIs K root drive cs) (h' : PathIs K root drive' cs') :
    drive = drive' ∧ cs = cs' := by
  obtain ⟨parts, hp, hd, hc⟩ := h
  obtain ⟨parts', hp', hd', hc'⟩ := h'
  obtain rfl := hp.walk.unique hp'.walk
  refine ⟨hd.symm.trans hd', ?_⟩
  clear hp hp'
  induction hc generalizing cs' with
  | nil => exact (List.forall₂_nil_left_iff.1 hc').symm
  | cons hpc hrest ih =>
    obtain ⟨c', cs'', hpc', hrest', rfl⟩ := List.forall₂_cons_left_iff.1 hc'
    rw [hpc.string.unique hpc'.string, ih hrest']

/-! ## One part -/

theorem components_path (path : List UInt8) :
    components slash path =
      if partOf path = [] then [] else partOf path :: components slash (behind path) :=
  components_step slash path

/-- In a string the part ends at a `/` only. -/
theorem getPathPart_part (h0 : (0 : UInt8) ∉ path) :
    (path.takeWhile fun c => c ≠ slash ∧ c ≠ 0) = partOf path := by
  unfold partOf
  induction path with
  | nil => rfl
  | cons c path ih =>
    have hne : c ≠ 0 := fun he => h0 (he ▸ List.mem_cons_self)
    simp only [List.takeWhile_cons, hne, ne_eq, not_false_eq_true, and_true]
    rw [← ih fun hm => h0 (.tail _ hm)]

theorem getPathPart_rest (path : List UInt8) :
    (if (path.drop (partOf path).length).headD 0 = slash then (path.drop (partOf path).length).tail
      else path.drop (partOf path).length) = behind path := by
  have hdrop : path.drop (partOf path).length = path.dropWhile fun c => c ≠ slash := by
    have hsplit : partOf path ++ path.dropWhile (fun c => c ≠ slash) = path :=
      List.takeWhile_append_dropWhile
    exact (congrArg (List.drop _) hsplit.symm).trans List.drop_left
  unfold behind
  rw [hdrop]
  rcases split_head slash path with h | ⟨r, h⟩
  · rw [h]
    rfl
  · rw [h]
    rfl

theorem length_part (path : List UInt8) : (partOf path).length + (behind path).length ≤ path.length := by
  have hsplit : partOf path ++ path.dropWhile (fun c => c ≠ slash) = path :=
    List.takeWhile_append_dropWhile
  have hlen := congrArg List.length hsplit
  rw [List.length_append] at hlen
  have htail := List.length_tail (l := path.dropWhile fun c => c ≠ slash)
  unfold behind
  omega

theorem zero_notMem_part (h0 : (0 : UInt8) ∉ path) :
    (0 : UInt8) ∉ partOf path ∧ (0 : UInt8) ∉ behind path :=
  ⟨fun h => h0 ((List.takeWhile_sublist _).subset h),
    fun h => h0 ((List.dropWhile_sublist _).subset ((List.tail_sublist _).subset h))⟩

/-- What `pathparser_get_path_part` answers: no block is free, or the part is empty, or its string is
in a block of its own. -/
inductive GetsPart (e₀ : Nat → UInt8) (L : List Nat) (K : Fs) (path : List UInt8) :
    Nat × List UInt8 × Fs → Prop
  | denied (hnone : (freeBlocks K.kmem.heap).card = 0) :
      GetsPart e₀ L K path (0, path, { K with kmem := K.kmem.deny })
  | empty (k' : Kmem) (hpart : partOf path = []) (hl : Ledger e₀ L k') (hk : KeepsPages L K.kmem k')
      (hfree : (freeBlocks K.kmem.heap).card ≠ 0) : GetsPart e₀ L K path (0, behind path, { K with kmem := k' })
  | got (str : Nat) (k' : Kmem) (hpart : partOf path ≠ []) (hstr : str ≠ 0)
      (hl : Ledger e₀ (str :: L) k') (hk : KeepsPages L K.kmem k')
      (hs : CString k'.mem str (partOf path))
      (hfree : (freeBlocks k'.heap).card + 1 = (freeBlocks K.kmem.heap).card) :
      GetsPart e₀ L K path (str, behind path, { K with kmem := k' })

theorem Ledger.getsPart (h : Ledger e₀ L K.kmem) (h0 : (0 : UInt8) ∉ path)
    (hlen : path.length < maxPath) : GetsPart e₀ L K path (pathparserGetPathPart K path) := by
  have hroom : maxPath = 108 := rfl
  have hle := length_part path
  unfold pathparserGetPathPart Fs.kzalloc
  rcases h.page maxPath (by decide) (by decide) with ⟨hnone, he⟩ | ⟨str, k₁, he, hp⟩
  · rw [he]
    exact .denied hnone
  · rw [he]
    dsimp only
    rw [if_neg hp.ne_zero, getPathPart_part h0, getPathPart_rest]
    have hkeep : KeepsPages L K.kmem k₁ := hp.keeps h.lt (by decide)
    have hlt := hp.lt
    have hkeep' : KeepsPages L K.kmem { k₁ with mem := writeBytes k₁.mem str (partOf path) } :=
      fun q hq x hx hx' => by
        have hapart := hp.apart q hq
        refine (writeBytes_apply_of_outside ?_).trans (hkeep q hq x hx hx')
        omega
    have hl : Ledger e₀ (str :: L) { k₁ with mem := writeBytes k₁.mem str (partOf path) } :=
      hp.ledger.congr rfl
    by_cases hpart : partOf path = []
    · rw [if_pos (by rw [hpart]; rfl)]
      have hfree := hp.free
      refine .empty _ hpart hl.kfree (fun q hq x hx hx' => ?_) ?_
      · exact (congrFun (follow_mem _ _) x).trans (hkeep' q hq x hx hx')
      · omega
    · rw [if_neg fun hzero => hpart (List.length_eq_zero_iff.1 hzero)]
      refine .got str _ hpart hp.ne_zero hl hkeep' ?_ hp.free
      refine CString.of_bytes (zero_notMem_part h0).1 (fun i hi => writeBytes_apply hi) ?_
      refine (writeBytes_apply_of_outside (.inr (Nat.le_refl _))).trans ?_
      refine (congrFun hp.mem _).trans ?_
      exact fill_apply_of_mem (by omega) (by omega) (by omega)

/-- What `pathparser_parse_path_part` answers: the part is empty, or there is no room for it, which is
denied; or the part is linked, with its string and its structure in new blocks. -/
inductive ParsesPart (e₀ : Nat → UInt8) (L : List Nat) (K : Fs) (lastPart : Nat) (path : List UInt8) :
    Nat × List UInt8 × Fs → Prop
  | none (rest : List UInt8) (k' : Kmem) (hl : Ledger e₀ L k') (hk : KeepsPages L K.kmem k')
      (hend : partOf path = [] ∨ (freeBlocks K.kmem.heap).card < 2)
      (hdenied : k'.denied = false → partOf path = [] ∧ (freeBlocks K.kmem.heap).card ≠ 0) :
      ParsesPart e₀ L K lastPart path (0, rest, { K with kmem := k' })
  | part (t str : Nat) (k' : Kmem) (hpart : partOf path ≠ []) (ht : t ≠ 0)
      (hl : Ledger e₀ (t :: str :: L) k') (hk : KeepsPages L K.kmem k')
      (hs : CString k'.mem str (partOf path))
      (hfree : (freeBlocks k'.heap).card + 2 = (freeBlocks K.kmem.heap).card) :
      ParsesPart e₀ L K lastPart path (t, behind path,
        let K := Fs.setPathPart { K with kmem := k' } t ⟨str, 0⟩
        if lastPart ≠ 0 then K.setPathPart lastPart { K.pathPartAt lastPart with next := t } else K)

theorem Ledger.parsesPart (h : Ledger e₀ L K.kmem) (lastPart : Nat) (h0 : (0 : UInt8) ∉ path)
    (hlen : path.length < maxPath) :
    ParsesPart e₀ L K lastPart path (pathparserParsePathPart K lastPart path) := by
  have hget := h.getsPart h0 hlen
  unfold pathparserParsePathPart
  generalize pathparserGetPathPart K path = r at hget ⊢
  cases hget with
  | denied hnone =>
    dsimp only
    rw [if_pos rfl]
    exact .none _ _ h.deny (fun _ _ _ _ _ => rfl) (.inr (by omega)) fun hd => absurd hd (by simp [Kmem.deny])
  | empty k' hpart hl hk hfree =>
    dsimp only
    rw [if_pos rfl]
    exact .none _ _ hl hk (.inl hpart) fun _ => ⟨hpart, hfree⟩
  | got str k' hpart hstr hl hk hs hfree =>
    have hroom : maxPath = 108 := rfl
    have hle := length_part path
    dsimp only
    rw [if_neg hstr]
    unfold Fs.kzalloc
    dsimp only
    rcases hl.page sizeofPathPart (by decide) (by decide) with ⟨hnone, he⟩ | ⟨t, k₂, he, hp⟩
    · rw [he]
      dsimp only
      rw [if_pos rfl]
      refine .none _ _ hl.deny.kfree (fun q hq x hx hx' => ?_) (.inr (by omega)) fun hd => ?_
      · exact (congrFun (follow_mem _ _) x).trans (hk q hq x hx hx')
      · rw [kfree_denied] at hd
        exact absurd hd (by simp [Kmem.deny])
    · rw [he]
      dsimp only
      rw [if_neg hp.ne_zero]
      have hkeep := hp.keeps hl.lt (by decide)
      have hs₂ : CString k₂.mem str (partOf path) := hs.congr fun x hx hx' =>
        hkeep str List.mem_cons_self x hx (by omega)
      have hk₂ : KeepsPages L K.kmem k₂ := hk.trans fun q hq => hkeep q (.tail _ hq)
      have hfree₂ := hp.free
      have hcount : (freeBlocks k₂.heap).card + 2 = (freeBlocks K.kmem.heap).card := by omega
      by_cases hlast : lastPart ≠ 0
      · have hpart' : ParsesPart e₀ L K lastPart path _ := .part t str (k₂.follow lastPart) hpart
          hp.ne_zero (hp.ledger.follow lastPart) (fun q hq x hx hx' => by
            rw [follow_mem]
            exact hk₂ q hq x hx hx') (by rwa [follow_mem]) (by rwa [follow_heap])
        rw [if_pos hlast] at hpart' ⊢
        exact hpart'
      · have hpart' : ParsesPart e₀ L K lastPart path _ := .part t str k₂ hpart hp.ne_zero hp.ledger
          hk₂ hs₂ hcount
        rw [if_neg hlast] at hpart' ⊢
        exact hpart'

/-! ## All parts -/

/-- The strings of the blocks that stay are what they were. -/
theorem HoldsString.keep {c : List UInt8} (h : HoldsString K p c)
    (hpart : (K'.pathPartAt p).part = (K.pathPartAt p).part) (hk : KeepsPages L K.kmem K'.kmem)
    (hp : (K.pathPartAt p).part ∈ L) : HoldsString K' p c where
  string := by
    have hroom := h.room
    have hmax : maxPath = 108 := rfl
    rw [hpart]
    exact h.string.congr fun x hx hx' => hk _ hp x hx (by omega)
  room := h.room

theorem mem_partBlocks_string (h : p ∈ parts) : (K.pathPartAt p).part ∈ partBlocks K parts :=
  List.mem_flatMap.2 ⟨p, h, List.mem_cons_self⟩

theorem HoldsString.keepAll (h : List.Forall₂ (HoldsString K) parts cs)
    (hparts : ∀ p ∈ parts, (K'.pathPartAt p).part = (K.pathPartAt p).part)
    (hk : KeepsPages (partBlocks K parts ++ L) K.kmem K'.kmem) :
    List.Forall₂ (HoldsString K') parts cs := by
  refine List.forall₂_iff_get.2 ⟨h.length_eq, fun i hi hi' => ?_⟩
  have hmem : parts[i] ∈ parts := List.getElem_mem hi
  exact ((List.forall₂_iff_get.1 h).2 i hi hi').keep (hparts _ hmem) hk
    (List.mem_append_left _ (mem_partBlocks_string hmem))

/-- The loop reads the components up to the first empty one, and keeps those it has room for. -/
theorem parse_loop_spec {first N : Nat} :
    ∀ (n : Nat) (K : Fs) (part : Nat) (path : List UInt8) (parts : List Nat) (cs : List (List UInt8)),
      Ledger e₀ (partBlocks K (parts ++ [part]) ++ L) K.kmem →
      Linked.Walk K.nextPart 0 first (parts ++ [part]) → parts.length + path.length < N →
      path.length < n → path.length < maxPath → (0 : UInt8) ∉ path →
      List.Forall₂ (HoldsString K) (parts ++ [part]) cs →
      ∃ parts', Ledger e₀ (partBlocks (pathparserParse.loop n K part path) parts' ++ L)
          (pathparserParse.loop n K part path).kmem ∧
        Linked.Walk (pathparserParse.loop n K part path).nextPart 0 first parts' ∧
        parts'.length ≤ N ∧ (pathparserParse.loop n K part path).pathRootAt = K.pathRootAt ∧
        List.Forall₂ (HoldsString (pathparserParse.loop n K part path)) parts'
          (cs ++ (components slash path).take ((freeBlocks K.kmem.heap).card / 2)) ∧
        ((pathparserParse.loop n K part path).kmem.denied = false →
          2 * (components slash path).length + 1 ≤ (freeBlocks K.kmem.heap).card)
  | 0, _, _, _, _, _, _, _, _, hn, _, _, _ => absurd hn (Nat.not_lt_zero _)
  | n + 1, K, part, path, parts, cs, h, hw, hlen, hn, hmax, h0, hcs => by
    have hpart : part ≠ 0 := hw.ne_null (List.mem_append_right _ List.mem_cons_self)
    have hstep := h.parsesPart part h0 hmax
    have hpath := length_part path
    unfold pathparserParse.loop
    dsimp only
    generalize pathparserParsePathPart K part path = r at hstep ⊢
    cases hstep with
    | none rest k' hl hk hend hdenied =>
      dsimp only
      rw [if_pos rfl]
      have hnone : (components slash path).take ((freeBlocks K.kmem.heap).card / 2) = [] := by
        rcases hend with hend | hend
        · rw [components_path, if_pos hend, List.take_nil]
        · rw [show (freeBlocks K.kmem.heap).card / 2 = 0 by omega, List.take_zero]
      rw [hnone, List.append_nil]
      refine ⟨parts ++ [part], hl, hw, ?_, rfl, HoldsString.keepAll hcs (fun _ _ => rfl) hk,
        fun hd => ?_⟩
      · rw [List.length_append]
        exact hlen.trans_le' (by simp)
      · obtain ⟨hempty, hfree⟩ := hdenied hd
        rw [components_path, if_pos hempty]
        exact Nat.pos_of_ne_zero hfree
    | part t str k' hne ht hl hk hs hfree =>
      obtain ⟨K₁, hK₁⟩ : ∃ K₁, (let K := Fs.setPathPart { K with kmem := k' } t ⟨str, 0⟩
        K.setPathPart part { K.pathPartAt part with next := t }) = K₁ := ⟨_, rfl⟩
      dsimp only at hK₁ ⊢
      rw [if_neg ht, if_pos hpart, hK₁]
      have hkmem : K₁.kmem = k' := by
        rw [← hK₁]
        rfl
      obtain ⟨h₂, hw₂, hsame, hstr⟩ := append_part hl hw ht hK₁.symm
      have hpos := List.length_pos_iff.2 hne
      have hlen₂ : (parts ++ [part]).length + (behind path).length < N := by
        rw [List.length_append, List.length_singleton]
        omega
      have hk₁ : KeepsPages (partBlocks K (parts ++ [part]) ++ L) K.kmem K₁.kmem := by
        rw [hkmem]
        exact hk
      have hcs₂ : List.Forall₂ (HoldsString K₁) ((parts ++ [part]) ++ [t]) (cs ++ [partOf path]) := by
        refine List.rel_append (HoldsString.keepAll hcs hsame hk₁) (.cons ⟨?_, ?_⟩ .nil)
        · rw [hstr]
          unfold Fs.mem
          rw [hkmem]
          exact hs
        · omega
      obtain ⟨parts', h₃, hw₃, hlen₃, hroots, hstrings, hserved⟩ := parse_loop_spec n K₁ t
        (behind path) (parts ++ [part]) (cs ++ [partOf path]) h₂ hw₂ hlen₂ (by omega) (by omega)
        (zero_notMem_part h0).2 hcs₂
      rw [hkmem] at hstrings hserved
      refine ⟨parts', h₃, hw₃, hlen₃, hroots.trans ?_, ?_, fun hd => ?_⟩
      · rw [← hK₁]
        rfl
      · have htake : cs ++ (components slash path).take ((freeBlocks K.kmem.heap).card / 2) =
            cs ++ [partOf path] ++
              (components slash (behind path)).take ((freeBlocks k'.heap).card / 2) := by
          rw [components_path, if_neg hne, show (freeBlocks K.kmem.heap).card / 2 =
            (freeBlocks k'.heap).card / 2 + 1 by omega, List.take_succ_cons, List.append_assoc]
          rfl
        rw [htake]
        exact hstrings
      · have := hserved hd
        rw [components_path path, if_neg hne, List.length_cons]
        omega

/-- A path that no parse accepts: too long, malformed, with an empty first component, or without room
for the root and one part. -/
def Refused (K : Fs) (path : List UInt8) : Prop :=
  maxPath < path.length ∨ pathparserPathValidFormat path = false ∨ partOf (path.drop 3) = [] ∨
    (freeBlocks K.kmem.heap).card < 3

/-- What a parse answers. -/
inductive Parses (K : Fs) (path : List UInt8) : Nat × Fs → Prop
  | refused (K' : Fs) (h : Refused K path)
      (hdenied : K'.kmem.denied = false →
        maxPath < path.length ∨ pathparserPathValidFormat path = false ∨ partOf (path.drop 3) = []) :
      Parses K path (0, K')
  | parsed (root : Nat) (K' : Fs) (h : ¬ Refused K path) (hroot : root ≠ 0)
      (hpath : PathIs K' root (tonumericdigit (path.getD 0 0))
        ((components slash (path.drop 3)).take (((freeBlocks K.kmem.heap).card - 1) / 2)))
      (hserved : K'.kmem.denied = false →
        2 * (components slash (path.drop 3)).length + 2 ≤ (freeBlocks K.kmem.heap).card) :
      Parses K path (root, K')

theorem tail_length (hvalid : pathparserPathValidFormat path = true) :
    (path.drop 3).length + 3 = path.length := by
  unfold pathparserPathValidFormat at hvalid
  simp only [Bool.and_eq_true, decide_eq_true_eq] at hvalid
  rw [List.length_drop]
  omega

theorem drive_nonneg (hvalid : pathparserPathValidFormat path = true) :
    ¬ tonumericdigit (path.getD 0 0) < 0 := by
  unfold pathparserPathValidFormat isdigit at hvalid
  simp only [Bool.and_eq_true, decide_eq_true_eq, UInt8.le_iff_toNat_le] at hvalid
  have h48 : (48 : UInt8).toNat = 48 := rfl
  unfold tonumericdigit
  omega

theorem Ledger.createsRoot (h : Ledger e₀ L K.kmem) (drive : Int) :
    ((freeBlocks K.kmem.heap).card = 0 ∧
      pathparserCreateRoot K drive = (0, { K with kmem := K.kmem.deny })) ∨
    ∃ root K₁, pathparserCreateRoot K drive = (root, K₁) ∧ root ≠ 0 ∧
      Ledger e₀ (root :: L) K₁.kmem ∧ K₁.pathRootAt root = ⟨drive, 0⟩ ∧
      (freeBlocks K₁.kmem.heap).card + 1 = (freeBlocks K.kmem.heap).card := by
  unfold pathparserCreateRoot Fs.kzalloc
  rcases h.page sizeofPathRoot (by decide) (by decide) with ⟨hnone, he⟩ | ⟨root, k₁, he, hp⟩
  · rw [he]
    exact .inl ⟨hnone, rfl⟩
  · rw [he]
    dsimp only
    rw [if_neg hp.ne_zero]
    exact .inr ⟨root, _, rfl, hp.ne_zero, hp.ledger, Function.update_self _ _ _, hp.free⟩

/-- The first part, and from it on the loop. -/
theorem parse_first {rest : List UInt8} (hdrive : K.pathRootAt root = ⟨drive, 0⟩)
    (h0 : (0 : UInt8) ∉ rest) (hlen : rest.length + 3 ≤ maxPath) {r : Nat × List UInt8 × Fs}
    (hr : ParsesPart e₀ (root :: L) K 0 rest r) :
    (r.1 = 0 ∧ (partOf rest = [] ∨ (freeBlocks K.kmem.heap).card < 2) ∧
      (r.2.2.kmem.denied = false → partOf rest = [])) ∨
    (r.1 ≠ 0 ∧ partOf rest ≠ [] ∧ 2 ≤ (freeBlocks K.kmem.heap).card ∧
      ∀ K', pathparserParse.loop (r.2.1.length + 1)
          (r.2.2.setPathRoot root { r.2.2.pathRootAt root with first := r.1 }) r.1 r.2.1 = K' →
        PathIs K' root drive ((components slash rest).take ((freeBlocks K.kmem.heap).card / 2)) ∧
          (K'.kmem.denied = false →
            2 * (components slash rest).length + 1 ≤ (freeBlocks K.kmem.heap).card)) := by
  have hmax : maxPath = 108 := rfl
  have hpath := length_part rest
  cases hr with
  | none rest' k' hl hk hend hdenied => exact .inl ⟨rfl, hend, fun hd => (hdenied hd).1⟩
  | part t str k' hne ht hl hk hs hfree =>
    refine .inr ⟨ht, hne, by omega, fun K' hK' => ?_⟩
    obtain ⟨K₂, hK₂⟩ : ∃ K₂, (Fs.setPathPart { K with kmem := k' } t ⟨str, 0⟩).setPathRoot root
        { (Fs.setPathPart { K with kmem := k' } t ⟨str, 0⟩).pathRootAt root with first := t } = K₂ :=
      ⟨_, rfl⟩
    dsimp only at hK'
    rw [if_neg (not_not_intro rfl), hK₂] at hK'
    have hkmem : K₂.kmem = k' := by
      rw [← hK₂]
      rfl
    have hat : K₂.pathPartAt t = ⟨str, 0⟩ := by
      rw [← hK₂]
      exact Function.update_self _ _ _
    have hrootAt : K₂.pathRootAt root = ⟨drive, t⟩ := by
      rw [← hK₂]
      unfold Fs.setPathRoot
      dsimp only
      rw [Function.update_self]
      unfold Fs.setPathPart
      rw [hdrive]
    have hl₂ : Ledger e₀ (partBlocks K₂ ([] ++ [t]) ++ root :: L) K₂.kmem := by
      rw [List.nil_append, partBlocks_cons, hat, hkmem]
      exact hl.perm (.swap _ _ _)
    have hw₂ : Linked.Walk K₂.nextPart 0 t ([] ++ [t]) := by
      refine ⟨rfl, ht, ?_⟩
      unfold Fs.nextPart
      rw [hat]
      rfl
    have hcs₂ : List.Forall₂ (HoldsString K₂) ([] ++ [t]) [partOf rest] := by
      refine .cons ⟨?_, by omega⟩ .nil
      rw [hat]
      unfold Fs.mem
      rw [hkmem]
      exact hs
    obtain ⟨parts, -, hw, hparts, hroots, hstrings, hserved⟩ := parse_loop_spec (N := maxPath)
      ((behind rest).length + 1) K₂ t (behind rest) [] [partOf rest] hl₂ hw₂
      (by simp only [List.length_nil]; omega) (by omega) (by omega) (zero_notMem_part h0).2 hcs₂
    rw [hK'] at hw hroots hstrings hserved
    rw [hkmem] at hstrings hserved
    have htake : (components slash rest).take ((freeBlocks K.kmem.heap).card / 2) =
        [partOf rest] ++ (components slash (behind rest)).take ((freeBlocks k'.heap).card / 2) := by
      rw [components_path rest, if_neg hne, show (freeBlocks K.kmem.heap).card / 2 =
        (freeBlocks k'.heap).card / 2 + 1 by omega, List.take_succ_cons]
      rfl
    refine ⟨⟨parts, ⟨?_, hparts⟩, ?_, ?_⟩, fun hd => ?_⟩
    · rw [hroots, hrootAt]
      exact hw
    · rw [hroots, hrootAt]
    · rw [htake]
      exact hstrings
    · have := hserved hd
      rw [components_path rest, if_neg hne, List.length_cons]
      omega

/-- **What a path is parsed to**, by the number of free blocks. -/
theorem Ledger.parses (h : Ledger e₀ L K.kmem) (h0 : (0 : UInt8) ∉ path) :
    Parses K path (pathparserParse K path) := by
  unfold pathparserParse
  dsimp only
  by_cases hlong : path.length > maxPath
  · rw [if_pos hlong]
    exact .refused K (.inl hlong) fun _ => .inl hlong
  · rw [if_neg hlong]
    by_cases hvalid : pathparserPathValidFormat path = true
    case neg =>
      have hfalse : pathparserPathValidFormat path = false := Bool.eq_false_iff.2 hvalid
      unfold pathparserGetDriveByPath
      rw [hfalse]
      exact .refused K (.inr (.inl hfalse)) fun _ => .inr (.inl hfalse)
    case pos =>
      have htail := tail_length hvalid
      have h0' : (0 : UInt8) ∉ path.drop 3 := fun hm => h0 (List.mem_of_mem_drop hm)
      have hdrive : pathparserGetDriveByPath path = (tonumericdigit (path.getD 0 0), path.drop 3) := by
        unfold pathparserGetDriveByPath
        rw [hvalid]
        rfl
      rw [hdrive]
      dsimp only
      rw [if_neg (drive_nonneg hvalid)]
      rcases h.createsRoot (tonumericdigit (path.getD 0 0)) with ⟨hnone, he⟩ |
        ⟨root, K₁, he, hroot, hl₁, hat, hfree⟩
      · rw [he]
        dsimp only
        rw [if_pos rfl]
        exact .refused _ (.inr (.inr (.inr (by omega)))) fun hd => absurd hd (by simp [Kmem.deny])
      · rw [he]
        dsimp only
        rw [if_neg hroot]
        have hstep := hl₁.parsesPart 0 h0' (by omega)
        rcases parse_first hat h0' (by omega) hstep with
          ⟨hzero, hend, hdenied⟩ | ⟨hne, hpart, hroom, hrest⟩
        · rw [if_pos hzero]
          refine .refused _ (.inr (.inr ?_)) fun hd => .inr (.inr (hdenied ?_))
          · exact hend.imp_right fun hlt => by omega
          · exact (kfree_denied _ _).symm.trans hd
        · rw [if_neg hne]
          generalize hloop : pathparserParse.loop _ _ _ _ = K'
          obtain ⟨hpath, hserved⟩ := hrest K' hloop
          rw [show (freeBlocks K₁.kmem.heap).card = (freeBlocks K.kmem.heap).card - 1 by omega] at hpath
          refine .parsed root K' ?_ hroot hpath fun hd => ?_
          · rintro (hbad | hbad | hbad | hbad)
            · exact hlong hbad
            · rw [hvalid] at hbad
              exact absurd hbad (by decide)
            · exact hpart hbad
            · omega
          · have := hserved hd
            omega

/-! ## Rendered paths -/

/-- The text `d:/c1/…/cn`. -/
def renderPath (d : UInt8) (cs : List (List UInt8)) : List UInt8 :=
  d :: 0x3A :: slash :: [slash].intercalate cs

theorem Heap.Reached.ledger (h : K.kmem.heap.Reached) : Ledger K.entries [] K.kmem :=
  .nil h.sound.toKernel fun j hj hfree => by
    rw [h.sound.clean j hj hfree]
    rfl

/-- A valid path is a digit, `:/`, and the rest. -/
theorem valid_path (hvalid : pathparserPathValidFormat path = true) :
    ∃ d, isdigit d = true ∧ path = d :: 0x3A :: slash :: path.drop 3 := by
  unfold pathparserPathValidFormat at hvalid
  match path with
  | [] => simp at hvalid
  | [_] => simp at hvalid
  | [_, _] => simp at hvalid
  | d :: a :: b :: tail =>
    simp only [List.getD_cons_zero, List.getD_cons_succ, Bool.and_eq_true, decide_eq_true_eq] at hvalid
    obtain ⟨⟨-, hd⟩, rfl, rfl⟩ := hvalid
    exact ⟨d, hd, rfl⟩

/-- **Parsing a rendered path gives it back**, and freeing it gives back the blocks. -/
theorem parse_rendered_path (hreach : K.kmem.heap.Reached) {d : UInt8} (hd : isdigit d = true)
    (hne : cs ≠ []) (hcs : ∀ c ∈ cs, c ≠ [] ∧ slash ∉ c ∧ (0 : UInt8) ∉ c)
    (hpath : path = renderPath d cs ∨ path = renderPath d cs ++ [slash]) (hlen : path.length ≤ maxPath)
    (hserved : (pathparserParse K path).2.kmem.denied = false) :
    ∃ root K', pathparserParse K path = (root, K') ∧ root ≠ 0 ∧
      PathIs K' root (tonumericdigit d) cs ∧
      ∃ K'', pathparserFree K' root = some K'' ∧
        freeBlocks K''.kmem.heap = freeBlocks K.kmem.heap := by
  have hcs' : ∀ c ∈ cs, c ≠ [] ∧ slash ∉ c := fun c hc => ⟨(hcs c hc).1, (hcs c hc).2.1⟩
  have hzero : (0 : UInt8) ∉ path := by
    have htext : (0 : UInt8) ∉ renderPath d cs := fun hm => by
      simp only [renderPath, List.mem_cons] at hm
      rcases hm with rfl | hm | hm | hm
      · exact absurd hd (by decide)
      · exact absurd hm (by decide)
      · exact absurd hm (by decide)
      · rcases mem_intercalate hm with hm | ⟨c, hc, hm⟩
        · exact absurd hm (by decide)
        · exact (hcs c hc).2.2 hm
    rcases hpath with rfl | rfl
    · exact htext
    · rw [List.mem_append, List.mem_singleton]
      rintro (hm | hm)
      · exact htext hm
      · exact absurd hm (by decide)
  -- the path behind the drive
  obtain ⟨rest, hrest, hcomps⟩ : ∃ rest, path = d :: 0x3A :: slash :: rest ∧
      components slash rest = cs := by
    rcases hpath with rfl | rfl
    · exact ⟨_, rfl, components_intercalate hcs' hne⟩
    · exact ⟨_, rfl, components_intercalate_sep hcs' hne⟩
  have hdrop : path.drop 3 = rest := by rw [hrest]; rfl
  have hhead : path.getD 0 0 = d := by rw [hrest]; rfl
  have hvalid : pathparserPathValidFormat path = true := by
    rw [hrest]
    unfold pathparserPathValidFormat
    simp [hd, maxPath]
  have hpart : partOf rest ≠ [] := fun he => by
    rw [components_path, if_pos he] at hcomps
    exact hne hcomps.symm
  have hledger := hreach.ledger
  obtain ⟨-, hfreed⟩ := hledger.parse path
  have hparses := hledger.parses hzero
  generalize pathparserParse K path = r at hparses hfreed hserved
  cases hparses with
  | refused K' h hdenied =>
    rcases hdenied hserved with hbad | hbad | hbad
    · omega
    · rw [hvalid] at hbad
      exact absurd hbad (by decide)
    · rw [hdrop] at hbad
      exact absurd hbad hpart
  | parsed root K' h hroot hpathIs hroom =>
    have hroom' := hroom hserved
    rw [hdrop, hhead] at hpathIs
    rw [hdrop] at hroom'
    rw [hcomps] at hpathIs hroom'
    rw [List.take_of_length_le (by omega)] at hpathIs
    refine ⟨root, K', rfl, hroot, hpathIs, ?_⟩
    rcases hfreed with ⟨hzero', -⟩ | ⟨-, parts, hl, hparsed⟩
    · exact absurd hzero' hroot
    · obtain ⟨k', he, hend, -⟩ := hl.pathFree hparsed
      refine ⟨_, he, Finset.ext fun b => ?_⟩
      rw [mem_freeBlocks, mem_freeBlocks]
      exact and_congr_right fun hb => hend.free_iff hb

/-- The digit of a drive number. -/
def driveDigit (drive : Int) : UInt8 := UInt8.ofNat (drive + 48).toNat

/-- Where the parse returns a path, joining its drive and its components gives back the string, up to
the `/` that stand at its end or are repeated. -/
def KeepsPath (K : Fs) (path : List UInt8) : Prop :=
  (pathparserParse K path).1 ≠ 0 → ∃ drive cs,
    PathIs (pathparserParse K path).2 (pathparserParse K path).1 drive cs ∧
      squeeze slash (renderPath (driveDigit drive) cs) = squeeze slash path

theorem driveDigit_tonumericdigit (d : UInt8) : driveDigit (tonumericdigit d) = d := by
  unfold driveDigit tonumericdigit
  rw [show ((d.toNat : Int) - 48 + 48).toNat = d.toNat by omega]
  exact UInt8.ofNat_toNat

/-- The kept components are all pieces of the path exactly where it squeezes to the same. -/
theorem squeeze_render {d : UInt8} {rest : List UInt8} (hd : isdigit d = true) (hne : cs ≠ [])
    (hcs : ∀ c ∈ cs, c ≠ [] ∧ slash ∉ c) :
    squeeze slash (renderPath d cs) = squeeze slash (d :: 0x3A :: slash :: rest) ↔
      cs = pieces slash rest := by
  have hdrive : slash ∉ [d, 0x3A] := fun hm => by
    rcases List.mem_cons.1 hm with rfl | hm
    · exact absurd hd (by decide)
    · exact absurd (List.mem_singleton.1 hm) (by decide)
  have h : squeeze slash ([d, 0x3A] ++ slash :: [slash].intercalate cs) =
      squeeze slash ([d, 0x3A] ++ slash :: rest) ↔ _ := squeeze_inj hdrive (by simp)
  rw [pieces_intercalate hcs hne] at h
  exact h

/-- **A path is kept whole** exactly where no parse accepts it, or no component stands behind an empty
one and there is room for all its parts. -/
theorem path_kept_iff (hreach : K.kmem.heap.Reached) (h0 : (0 : UInt8) ∉ path) :
    KeepsPath K path ↔
      Refused K path ∨
        ((path.drop 3).splitOn slash).Pairwise (fun a b => a = [] → b = []) ∧
          2 * (components slash (path.drop 3)).length + 1 ≤ (freeBlocks K.kmem.heap).card := by
  have hparses := hreach.ledger.parses h0
  unfold KeepsPath
  generalize pathparserParse K path = r at hparses ⊢
  cases hparses with
  | refused K' h hdenied => exact iff_of_true (fun hne => absurd rfl hne) (.inl h)
  | parsed root K' h hroot hpathIs hroom =>
    have hvalid : pathparserPathValidFormat path = true := by
      by_contra hno
      exact h (.inr (.inl (Bool.eq_false_iff.2 hno)))
    obtain ⟨d, hd, hpath⟩ := valid_path hvalid
    obtain ⟨rest, hrest⟩ : ∃ rest, path.drop 3 = rest := ⟨_, rfl⟩
    obtain ⟨f, hf⟩ : ∃ f, (freeBlocks K.kmem.heap).card = f := ⟨_, rfl⟩
    have hroomy : ¬ f < 3 := fun hlt => h (.inr (.inr (.inr (hf ▸ hlt))))
    have hpart : partOf rest ≠ [] := fun he => h (.inr (.inr (.inl (hrest ▸ he))))
    have hhead : path.getD 0 0 = d := by
      rw [hpath]
      rfl
    rw [hhead, hrest, hf] at hpathIs
    rw [hrest] at hpath
    rw [hrest, hf]
    have hne : (components slash rest).take ((f - 1) / 2) ≠ [] := by
      rw [components_path, if_neg hpart, show (f - 1) / 2 = (f - 1) / 2 - 1 + 1 by omega]
      exact List.cons_ne_nil _ _
    have hpieces : ∀ c ∈ (components slash rest).take ((f - 1) / 2), c ≠ [] ∧ slash ∉ c :=
      fun c hc => mem_components (List.mem_of_mem_take hc)
    have hkeeps : (root ≠ 0 → ∃ drive cs, PathIs K' root drive cs ∧
        squeeze slash (renderPath (driveDigit drive) cs) = squeeze slash path) ↔
        (components slash rest).take ((f - 1) / 2) = pieces slash rest := by
      rw [← squeeze_render hd hne hpieces, hpath]
      constructor
      · intro hex
        obtain ⟨drive, cs, hcs, heq⟩ := hex hroot
        obtain ⟨rfl, rfl⟩ := hcs.unique hpathIs
        rwa [driveDigit_tonumericdigit] at heq
      · intro heq _
        exact ⟨_, _, hpathIs, by rwa [driveDigit_tonumericdigit]⟩
    rw [hkeeps, take_components_eq, or_iff_right h]
    exact and_congr_right fun _ => by omega

end

/-! ## Doubled slashes -/

theorem rootFs_reached (items : List FatDirectoryItem) : (rootFs items).kmem.heap.Reached := by
  refine Heap.Reached.firstTaken ⟨rfl, rfl⟩ (show 1 ≤ 25600 by decide) (funext fun j => ?_)
  change (if j = 0 then 0x41 else 0) = firstTaken 1 j
  unfold firstTaken
  by_cases hj : j = 0
  · rw [if_pos hj, if_pos (by omega)]
    rfl
  · rw [if_neg hj, if_neg (by omega)]
    rfl

/-- `0:/a/b/` -/
theorem parse_rendered_path_two :
    ∃ root K', pathparserParse (rootFs []) [0x30, 0x3A, 0x2F, 0x61, 0x2F, 0x62, 0x2F] = (root, K') ∧
      root ≠ 0 ∧ PathIs K' root (tonumericdigit 0x30) [[0x61], [0x62]] ∧
      ∃ K'', pathparserFree K' root = some K'' ∧
        freeBlocks K''.kmem.heap = freeBlocks (rootFs []).kmem.heap :=
  parse_rendered_path (rootFs_reached []) (by decide) (by decide) (by decide) (.inr rfl) (by decide)
    (by decide +kernel)

theorem path_kept_iff_two :
    KeepsPath (rootFs []) [0x30, 0x3A, 0x2F, 0x61, 0x2F, 0x62] ↔
      Refused (rootFs []) [0x30, 0x3A, 0x2F, 0x61, 0x2F, 0x62] ∨
        (List.splitOn slash [0x61, 0x2F, 0x62]).Pairwise (fun a b => a = [] → b = []) ∧
          2 * (components slash [0x61, 0x2F, 0x62]).length + 1 ≤
            (freeBlocks (rootFs []).kmem.heap).card :=
  path_kept_iff (rootFs_reached []) (by decide)

/-- `0:/a//b` is parsed to the path `0:/a`. -/
theorem path_dropped_behind_doubled_slash :
    (rootFs []).kmem.heap.Reached ∧
      ¬ KeepsPath (rootFs []) [0x30, 0x3A, 0x2F, 0x61, 0x2F, 0x2F, 0x62] := by
  refine ⟨rootFs_reached [], fun hkeeps => ?_⟩
  have hroom : 25600 - 1 ≤ (freeBlocks (rootFs []).kmem.heap).card := le_freeBlocks fun b hb _ => by
    have he : (rootFs []).kmem.heap.table.entries b = if b = 0 then 0x41 else 0 := rfl
    rw [he, if_neg (by omega)]
    decide
  have h0 : (0 : UInt8) ∉ [0x30, 0x3A, 0x2F, 0x61, 0x2F, 0x2F, 0x62] := by decide
  have hparses := (rootFs_reached []).ledger.parses h0
  unfold KeepsPath at hkeeps
  generalize pathparserParse (rootFs []) [0x30, 0x3A, 0x2F, 0x61, 0x2F, 0x2F, 0x62] = r at hkeeps hparses
  cases hparses with
  | refused K' h hdenied =>
    rcases h with h | h | h | h
    · exact absurd h (by decide)
    · exact absurd h (by decide)
    · exact absurd h (by decide)
    · omega
  | parsed root K' h hroot hpathIs hserved =>
    obtain ⟨drive, cs, hcs, heq⟩ := hkeeps hroot
    have hcomps : components slash (List.drop 3 [0x30, 0x3A, 0x2F, 0x61, 0x2F, 0x2F, 0x62]) = [[0x61]] := by
      decide
    rw [hcomps, List.take_of_length_le (by simp only [List.length_singleton]; omega)] at hpathIs
    obtain ⟨rfl, rfl⟩ := hcs.unique hpathIs
    exact absurd heq (by decide)

end Pandora
