import Pandora.Process.Denied
import Pandora.Process.Isr80h

/-!
# A string out of a task (`copy_string_from_task` of `task/task.c`)

The string is copied twice: through the directory of the task into a block of the heap, which is
mapped there for that time, and from the block to its destination. `mmu` is what the processor makes
of an address; `none` is a page fault, from which the function does not return.

`strncpyThrough_spec` says what one copy does, wherever its addresses lead, as long as it does not
read what it writes. The first copy reads the memory in which the block is mapped already
(`copyStringFromTask_spec`): that is the memory of before, but for the page entry of the block.
-/

namespace Pandora

open ByteMem

variable {σ : Type}

/-- Where the directory takes the address `virt`, for the kernel: it may write wherever a page is
present. -/
def mmu (dir : Nat) (m : Mem) (virt : Nat) : Option Nat :=
  let directoryEntry := read32 m (dir + 4 * (virt / (1024 * 4096)))
  let entry := read32 m ((directoryEntry &&& 0xFFFFF000) + 4 * (virt % (1024 * 4096) / 4096))
  if directoryEntry &&& pagingIsPresent = 0 ∨ entry &&& pagingIsPresent = 0 then none
  else some ((entry &&& 0xFFFFF000) + virt % 4096)

/-- The loop of `strncpy` where `at' m a` is what the address `a` leads to: `n = count - 1 - i`
characters are left. -/
def strncpyThrough.loop (at' : Mem → Nat → Option Nat) (dest src : Nat) :
    (n i : Nat) → Mem → Option Mem
  | 0, i, m => (at' m (Word.add dest i)).map fun d => Function.update m d 0
  | n + 1, i, m =>
    match at' m (Word.add src i), at' m (Word.add dest i) with
    | some s, some d =>
      if m s = 0 then some (Function.update m d 0)
      else loop at' dest src n (i + 1) (Function.update m d (m s))
    | _, _ => none

def strncpyThrough (at' : Mem → Nat → Option Nat) (m : Mem) (dest src count : Nat) : Option Mem :=
  strncpyThrough.loop at' dest src (count - 1) 0 m

/-- The status; `none` where the processor faults. -/
def copyStringFromTask (K : Kernel σ) (task virt phys : Nat) (max : Int) : Option (Int × Kernel σ) :=
  if 4096 ≤ max then some (-einvarg, K)
  else
    let (tmp, K) := K.kzalloc (Word.ofInt max)
    if tmp = 0 then some (-enomem, K)
    else
      let pageDirectory := (K.queue.task task).pageDirectory
      let taskDirectory := read32 K.mem pageDirectory
      let oldEntry := pagingGet K.mem taskDirectory tmp
      let K := K.withMem (pagingMap K.mem pageDirectory tmp tmp pagingUserWriteable).2
      -- the processor uses the directory of the task until `kernel_page`
      match strncpyThrough (mmu (read32 K.mem pageDirectory)) K.mem tmp virt max.toNat with
      | none => none
      | some m =>
        let (res, m) := pagingSet m taskDirectory tmp oldEntry
        let K := K.withMem m
        if res < 0 then some (-eio, K.kfree tmp)
        else some (res, (K.withMem (strncpy K.mem phys tmp max.toNat)).kfree tmp)

/-! ## Strings through a map -/

/-- Character `i` of the string at `virt`. -/
def charAt (at' : Mem → Nat → Option Nat) (m : Mem) (virt i : Nat) : Option UInt8 :=
  (at' m (Word.add virt i)).map m

/-- The characters before `i` are there, and none of them ends the string. -/
def Reaches (char : Nat → Option UInt8) (i : Nat) : Prop := ∀ j < i, ∃ c, char j = some c ∧ c ≠ 0

/-- `l` is the longest prefix without NUL of at most `n` characters. -/
structure LongestPrefix (char : Nat → Option UInt8) (n : Nat) (l : List UInt8) : Prop where
  length_le : l.length ≤ n
  chars : ∀ i (h : i < l.length), char i = some l[i] ∧ l[i] ≠ 0
  ends : l.length < n → char l.length = some 0

/-- One of the first `n` characters of the string is not there. -/
def Faults (char : Nat → Option UInt8) (n : Nat) : Prop := ∃ i < n, Reaches char i ∧ char i = none

theorem LongestPrefix.unique {char : Nat → Option UInt8} {n : Nat} {l l' : List UInt8}
    (h : LongestPrefix char n l) (h' : LongestPrefix char n l') : l = l' := by
  have key : ∀ {l l' : List UInt8}, LongestPrefix char n l → LongestPrefix char n l' →
      l.length ≤ l'.length := by
    intro l l' h h'
    refine Nat.le_of_not_lt fun hlt => ?_
    have hle := h.length_le
    obtain ⟨hc, hne⟩ := h.chars _ hlt
    rw [h'.ends (by omega)] at hc
    exact hne (Option.some.inj hc).symm
  refine List.ext_getElem (Nat.le_antisymm (key h h') (key h' h)) fun i hi hi' => ?_
  exact Option.some.inj ((h.chars i hi).1.symm.trans (h'.chars i hi').1)

theorem LongestPrefix.first {char : Nat → Option UInt8} {n : Nat} {l : List UInt8} {x : UInt8}
    (h : LongestPrefix char n l) (hx : char 0 = some x) (h0 : x ≠ 0) (hn : 0 < n) :
    l.head? = some x := by
  cases l with
  | nil => exact absurd (Option.some.inj (hx.symm.trans (h.ends hn))) h0
  | cons y l => exact (h.chars 0 (Nat.succ_pos _)).1.symm.trans hx

/-- The memory `m'` is `m` with the string `l` and its NUL at `dest`. -/
structure StringAt (m m' : Mem) (dest : Nat) (l : List UInt8) : Prop where
  chars : ∀ i (h : i < l.length), m' (Word.add dest i) = l[i]
  nul : m' (Word.add dest l.length) = 0
  others : ∀ x, (∀ i ≤ l.length, x ≠ Word.add dest i) → m' x = m x

section

variable {at' : Mem → Nat → Option Nat} {u m m' : Mem} {dest src N n i : Nat}

/-- What a copy of up to `N` characters asks of its addresses: those of the destination lead to
themselves, no byte there is read, and writing there moves no address. -/
structure Apart (at' : Mem → Nat → Option Nat) (u : Mem) (dest src N : Nat) :
    Prop where
  lt : N < 2 ^ 32
  target : ∀ m, (∀ x, (∀ k ≤ N, x ≠ Word.add dest k) → m x = u x) → ∀ i ≤ N, at' m (Word.add dest i) = some (Word.add dest i)
  source : ∀ m, (∀ x, (∀ k ≤ N, x ≠ Word.add dest k) → m x = u x) → ∀ i < N, Reaches (charAt at' u src) i →
    at' m (Word.add src i) = at' u (Word.add src i)
  reads : ∀ i < N, Reaches (charAt at' u src) i → ∀ x, at' u (Word.add src i) = some x →
    ∀ k ≤ N, x ≠ Word.add dest k

theorem Reaches.succ {char : Nat → Option UInt8} {c : UInt8} (h : Reaches char i)
    (hc : char i = some c) (h0 : c ≠ 0) : Reaches char (i + 1) := fun j hj => by
  rcases Nat.lt_or_eq_of_le (Nat.le_of_lt_succ hj) with hlt | rfl
  · exact h j hlt
  · exact ⟨c, hc, h0⟩

/-- The copy from the character `i` on: it faults, or `l` is what it copies. -/
theorem strncpyThrough_loop (h : Apart at' u dest src N) (hN : i + n = N)
    (hm : ∀ x, (∀ k ≤ N, x ≠ Word.add dest k) → m x = u x) (hreach : Reaches (charAt at' u src) i) :
    (strncpyThrough.loop at' dest src n i m = none ∧ Faults (charAt at' u src) N) ∨
    ∃ m' l, strncpyThrough.loop at' dest src n i m = some m' ∧
      LongestPrefix (fun j => charAt at' u src (i + j)) n l ∧
      (∀ j (hj : j < l.length), m' (Word.add dest (i + j)) = l[j]) ∧ m' (Word.add dest (i + l.length)) = 0 ∧
      ∀ x, (∀ j ≤ l.length, x ≠ Word.add dest (i + j)) → m' x = m x := by
  induction n generalizing i m with
  | zero =>
    have hd : at' m (Word.add dest i) = some (Word.add dest i) := h.target m hm i (by omega)
    refine .inr ⟨Function.update m (Word.add dest i) 0, [], ?_, ⟨Nat.le_refl _, ?_, ?_⟩, ?_, ?_, fun x hx => ?_⟩
    · unfold strncpyThrough.loop
      rw [hd]
      rfl
    · intro j hj
      exact absurd hj (Nat.not_lt_zero j)
    · intro hlt
      exact absurd hlt (Nat.lt_irrefl _)
    · intro j hj
      exact absurd hj (Nat.not_lt_zero j)
    · exact Function.update_self _ _ _
    · exact Function.update_of_ne (hx 0 (Nat.le_refl _)) _ _
  | succ n ih =>
    have hd : at' m (Word.add dest i) = some (Word.add dest i) := h.target m hm i (by omega)
    have hs : at' m (Word.add src i) = at' u (Word.add src i) := h.source m hm i (by omega) hreach
    unfold strncpyThrough.loop
    rw [hd, hs]
    cases hx : at' u (Word.add src i) with
    | none =>
      refine .inl ⟨rfl, i, by omega, hreach, ?_⟩
      unfold charAt
      rw [hx]
      rfl
    | some x =>
      have hread : m x = u x := hm x (h.reads i (by omega) hreach x hx)
      have hchar : charAt at' u src i = some (m x) := by
        unfold charAt
        rw [hx, hread]
        rfl
      dsimp only
      by_cases h0 : m x = 0
      · -- the string ends here
        rw [if_pos h0]
        refine .inr ⟨Function.update m (Word.add dest i) 0, [], rfl, ⟨Nat.zero_le _, ?_, fun _ => ?_⟩, ?_, ?_,
          fun y hy => ?_⟩
        · intro j hj
          exact absurd hj (Nat.not_lt_zero j)
        · rw [h0] at hchar
          exact hchar
        · intro j hj
          exact absurd hj (Nat.not_lt_zero j)
        · exact Function.update_self _ _ _
        · exact Function.update_of_ne (hy 0 (Nat.le_refl _)) _ _
      · rw [if_neg h0]
        have hm' : ∀ y, (∀ k ≤ N, y ≠ Word.add dest k) → Function.update m (Word.add dest i) (m x) y = u y := fun y hy =>
          (Function.update_of_ne (hy i (by omega)) _ _).trans (hm y hy)
        rcases ih (i := i + 1) (by omega) hm' (hreach.succ hchar h0) with ⟨he, hf⟩ |
          ⟨m', l, he, hl, hchars, hnul, hothers⟩
        · exact .inl ⟨he, hf⟩
        · have hlen := hl.length_le
          refine .inr ⟨m', m x :: l, he, ⟨?_, ?_, ?_⟩, ?_, ?_, fun y hy => ?_⟩
          · exact Nat.succ_le_succ hlen
          · intro j hj
            cases j with
            | zero => exact ⟨hchar, h0⟩
            | succ j =>
              have := hl.chars j (Nat.lt_of_succ_lt_succ hj)
              rwa [show i + 1 + j = i + (j + 1) by omega] at this
          · intro hlt
            have := hl.ends (Nat.lt_of_succ_lt_succ hlt)
            rwa [show i + 1 + l.length = i + (l.length + 1) by omega] at this
          · intro j hj
            cases j with
            | zero =>
              refine (hothers (Word.add dest i) fun j hj he => ?_).trans (Function.update_self _ _ _)
              have hlt := h.lt
              rw [Word.add_eq, Word.add_eq] at he
              omega
            | succ j =>
              have := hchars j (Nat.lt_of_succ_lt_succ hj)
              rwa [show i + 1 + j = i + (j + 1) by omega] at this
          · rwa [show i + 1 + l.length = i + (l.length + 1) by omega] at hnul
          · have hne := hy 0 (Nat.zero_le _)
            refine (hothers y fun j hj => ?_).trans (Function.update_of_ne hne _ _)
            have := hy (j + 1) (Nat.succ_le_succ hj)
            rwa [show i + (j + 1) = i + 1 + j by omega] at this

/-- **A copy**: it faults, or it leaves the longest prefix at its destination. -/
theorem strncpyThrough_spec {count : Nat} (h : Apart at' m dest src (count - 1)) :
    (strncpyThrough at' m dest src count = none ∧ Faults (charAt at' m src) (count - 1)) ∨
    ∃ m' l, strncpyThrough at' m dest src count = some m' ∧
      LongestPrefix (charAt at' m src) (count - 1) l ∧ StringAt m m' dest l := by
  rcases strncpyThrough_loop h (Nat.zero_add _) (fun _ _ => rfl)
    (fun j hj => absurd hj (Nat.not_lt_zero j)) with hf | ⟨m', l, he, hl, hchars, hnul, hothers⟩
  · exact .inl hf
  · simp only [Nat.zero_add] at hl hchars hnul hothers
    exact .inr ⟨m', l, he, hl, hchars, hnul, hothers⟩

/-- Where every address leads to itself, the copy is `strncpy`. -/
theorem strncpyThrough_id (m : Mem) (dest src count : Nat) :
    strncpyThrough (fun _ a => some a) m dest src count = some (strncpy m dest src count) := by
  have hloop : ∀ n i m, strncpyThrough.loop (fun _ a => some a) dest src n i m =
      some (strncpy.loop dest src n i m) := by
    intro n
    induction n with
    | zero => exact fun _ _ => rfl
    | succ n ih =>
      intro i m
      unfold strncpyThrough.loop strncpy.loop
      dsimp only
      split
      · rfl
      · exact ih _ _
  exact hloop _ _ _

end

/-! ## The directory of the task -/

section

variable {K K' : Kernel σ} {m m' u : Mem} {task dir f virt phys b c n tmp : Nat} {table : Nat → Nat}
  {l : List UInt8}

/-- The directory of a task, in blocks that are taken. -/
structure TaskDir (K : Kernel σ) (task dir f : Nat) (table : Nat → Nat) : Prop where
  pageDir : PageDir K.mem dir f table
  present : f &&& pagingIsPresent ≠ 0
  chunk : ChunkOf K.mem (K.queue.task task).pageDirectory dir table
  chunkWindow : InWindow (K.queue.task task).pageDirectory
  chunkTaken : ¬ Free (K.entries (blockOf (K.queue.task task).pageDirectory))
  dirTaken : ¬ Free (K.entries (blockOf dir))
  tableTaken : ∀ i < 1024, ¬ Free (K.entries (blockOf (table i)))

/-- In such a directory the entry of the page decides. -/
theorem mmu_eq (h : PageDir m dir f table) (hf : f &&& pagingIsPresent ≠ 0) (hv : virt < 2 ^ 32) :
    mmu dir m virt =
      if pageEntry m table (virt / 4096) &&& pagingIsPresent = 0 then none
      else some (pageEntry m table (virt / 4096) / 4096 * 4096 + virt % 4096) := by
  have hi : virt / (1024 * 4096) < 1024 := by omega
  have hflags := h.flags_lt
  have hal := (h.window _ hi).aligned
  have hhi := (h.window _ hi).hi
  have hone : ∀ x, x &&& pagingIsPresent = x % 2 := Nat.and_one_is_mod
  have hpresent : read32 m (dir + 4 * (virt / (1024 * 4096))) &&& pagingIsPresent ≠ 0 := by
    rw [hone] at hf ⊢
    rw [h.entry _ hi]
    omega
  have htable : read32 m (dir + 4 * (virt / (1024 * 4096))) &&& 0xFFFFF000 =
      table (virt / (1024 * 4096)) := by
    rw [Word.and_page_mask (read32_lt _ _), h.entry _ hi]
    omega
  have hentry : read32 m (table (virt / (1024 * 4096)) + 4 * (virt % (1024 * 4096) / 4096)) =
      pageEntry m table (virt / 4096) := by
    unfold pageEntry entryAddr
    rw [show virt / 4096 / 1024 = virt / (1024 * 4096) by omega,
      show virt / 4096 % 1024 = virt % (1024 * 4096) / 4096 by omega]
  unfold mmu
  dsimp only
  rw [htable, hentry, Word.and_page_mask (pageEntry_lt m table _)]
  by_cases hp : pageEntry m table (virt / 4096) &&& pagingIsPresent = 0
  · rw [if_pos (.inr hp), if_pos hp]
  · rw [if_neg (by rintro (h | h) <;> contradiction), if_neg hp]

/-- The address is not in the kernel's heap. -/
def OutsideHeap (a : Nat) : Prop := a < 0x01000000 ∨ 0x07400000 ≤ a

theorem InWindow.ne_outside {a x y : Nat} (ha : InWindow a) (hx : a ≤ x) (hx' : x < a + 4096)
    (hy : OutsideHeap y) : x ≠ y := by
  have hlo := ha.lo
  have hhi := ha.hi
  have hal := ha.aligned
  unfold OutsideHeap at hy
  omega

/-- A directory that no byte of `[tmp, tmp + 4096)` is in. -/
structure DirApart (dir tmp : Nat) (table : Nat → Nat) : Prop where
  window : InWindow tmp
  dir : dir + 4096 ≤ tmp ∨ tmp + 4096 ≤ dir
  table : ∀ i < 1024, table i + 4096 ≤ tmp ∨ tmp + 4096 ≤ table i

theorem TaskDir.apart (ht : TaskDir K task dir f table) (hb : b < 25600)
    (hfree : Free (K.entries b)) : DirApart dir (blockAddr b) table := by
  have hrun : FreeRun K.entries b 1 := fun k hk => by
    obtain rfl : k = 0 := by omega
    exact hfree
  have hapart : ∀ a, InWindow a → ¬ Free (K.entries (blockOf a)) →
      a + 4096 ≤ blockAddr b ∨ blockAddr b + 4096 ≤ a := fun a ha htaken => by
    have := ha.apart_run htaken hrun
    omega
  exact ⟨inWindow_blockAddr hb, hapart _ ht.pageDir.dirWindow ht.dirTaken,
    fun i hi => hapart _ (ht.pageDir.window i hi) (ht.tableTaken i hi)⟩

/-- Bytes of the block are in no entry. -/
theorem DirApart.congr (h : DirApart dir tmp table) (hd : PageDir m dir f table)
    (hm : ∀ x, (x < tmp ∨ tmp + 4096 ≤ x) → m' x = m x) :
    PageDir m' dir f table ∧ ∀ p < 2 ^ 20, pageEntry m' table p = pageEntry m table p := by
  refine ⟨hd.congr fun x hx hx' => hm x ?_, fun p hp => pageEntry_congr hp fun i hi x hx hx' => hm x ?_⟩
  · have := h.dir
    omega
  · have := h.table i hi
    omega

/-- While the block is mapped to itself, the copy into it finds its destination. -/
theorem DirApart.copies (h : DirApart dir tmp table) (hd : PageDir u dir f table)
    (hf : f &&& pagingIsPresent ≠ 0) (hmap : pageEntry u table (tmp / 4096) = tmp + 7) (hn : n < 4096)
    (hreads : ∀ i < n, Reaches (charAt (mmu dir) u virt) i → ∀ x,
      mmu dir u (Word.add virt i) = some x → x / 4096 ≠ tmp / 4096) :
    Apart (mmu dir) u tmp virt n := by
  obtain ⟨hal, hlo, hhi⟩ := h.window
  have hadd : ∀ i ≤ n, Word.add tmp i = tmp + i := fun i hi => Word.add_of_lt (by omega)
  have hsame : ∀ m, (∀ x, (∀ k ≤ n, x ≠ Word.add tmp k) → m x = u x) →
      ∀ v < 2 ^ 32, mmu dir m v = mmu dir u v := fun m hm v hv => by
    have hout : ∀ x, x < tmp ∨ tmp + 4096 ≤ x → m x = u x := fun x hx => hm x fun k hk => by
      rw [hadd k hk]
      omega
    obtain ⟨hdm, hentries⟩ := h.congr hd hout
    rw [mmu_eq hdm hf hv, mmu_eq hd hf hv, hentries _ (by omega)]
  refine ⟨by omega, fun m hm i hi => ?_, fun m hm i hi _ => hsame m hm _ (Word.add_lt _ _),
    fun i hi hreach x hx k hk => ?_⟩
  · rw [hsame m hm _ (Word.add_lt _ _), hadd i hi, mmu_eq hd hf (by omega),
      show (tmp + i) / 4096 = tmp / 4096 by omega, hmap]
    have hone : (tmp + 7) &&& pagingIsPresent = (tmp + 7) % 2 := Nat.and_one_is_mod _
    rw [hone, if_neg (by omega)]
    congr 1
    omega
  · have := hreads i hi hreach x hx
    rw [hadd k hk]
    omega

/-- `strncpy` from the block to a place outside the heap. -/
theorem strncpy_outside (hw : InWindow tmp) (hc : c < 4096)
    (hphys : ∀ i < c + 1, OutsideHeap (Word.add phys i)) (hlen : l.length ≤ c)
    (hl : ∀ i (h : i < l.length), m (tmp + i) = l[i] ∧ l[i] ≠ 0) (hnul : m (tmp + l.length) = 0) :
    StringAt m (strncpy m phys tmp (c + 1)) phys l := by
  obtain ⟨hal, hlo, hhi⟩ := hw
  have hadd : ∀ i ≤ c, Word.add tmp i = tmp + i := fun i hi => Word.add_of_lt (by omega)
  have hchar : ∀ i ≤ c, charAt (fun _ a => some a) m tmp i = some (m (tmp + i)) := fun i hi => by
    unfold charAt
    rw [hadd i hi]
    rfl
  have hapart : Apart (fun _ a => some a) m phys tmp (c + 1 - 1) := by
    refine ⟨by omega, fun _ _ _ _ => rfl, fun _ _ _ _ _ => rfl, fun i hi _ x hx k hk => ?_⟩
    obtain rfl : Word.add tmp i = x := Option.some.inj hx
    have hout := hphys k (by omega)
    rw [hadd i (by omega)]
    unfold OutsideHeap at hout
    omega
  have hprefix : LongestPrefix (charAt (fun _ a => some a) m tmp) (c + 1 - 1) l := by
    refine ⟨hlen, fun i hi => ?_, fun _ => ?_⟩
    · rw [hchar i (by omega), (hl i hi).1]
      exact ⟨rfl, (hl i hi).2⟩
    · rw [hchar _ hlen, hnul]
  rcases strncpyThrough_spec hapart with ⟨-, i, hi, -, hnone⟩ | ⟨m', l', he, hl', hat⟩
  · rw [hchar i (by omega)] at hnone
    exact absurd hnone (by simp)
  · rw [strncpyThrough_id] at he
    rw [Option.some.inj he, hprefix.unique hl']
    exact hat

/-! ## The call -/

/-- The string `l` and its NUL are at `phys`, and nothing else outside the heap has changed. -/
structure Copied (K K' : Kernel σ) (phys : Nat) (l : List UInt8) : Prop where
  chars : ∀ i (h : i < l.length), K'.mem (Word.add phys i) = l[i]
  nul : K'.mem (Word.add phys l.length) = 0
  others : ∀ x < 2 ^ 32, OutsideHeap x → (∀ i ≤ l.length, x ≠ Word.add phys i) → K'.mem x = K.mem x

/-- The entries of the directory and of its tables, and those of the block table, are what they were. -/
structure NoTrace (K K' : Kernel σ) (dir : Nat) (table : Nat → Nat) : Prop where
  state : K' = { K with kmem := K'.kmem }
  blocks : ∀ j, K'.entries j = K.entries j
  directory : ∀ i < 1024, read32 K'.mem (dir + 4 * i) = read32 K.mem (dir + 4 * i)
  pages : ∀ p < 2 ^ 20, pageEntry K'.mem table p = pageEntry K.mem table p

theorem Copied.first {x : UInt8} (h : Copied K K' phys l) (hl : l.head? = some x) :
    K'.mem (Word.add phys 0) = x := by
  obtain ⟨l, rfl⟩ := List.head?_eq_some_iff.1 hl
  exact h.chars 0 (Nat.succ_pos _)

/-- The memory that the first copy reads: the block `tmp` is zeroed and mapped to itself. -/
def whileMapped (m : Mem) (table : Nat → Nat) (tmp c : Nat) : Mem :=
  write32 (fill m tmp c 0) (entryAddr table (tmp / 4096)) (tmp ||| pagingUserWriteable)

/-- What `copy_string_from_task` does once it has the block `tmp`, by the string that the first copy
reads. -/
def CopiesFrom (K : Kernel σ) (result : Option (Int × Kernel σ)) (m : Mem) (dir virt phys n : Nat)
    (table : Nat → Nat) : Prop :=
  (result = none ∧ Faults (charAt (mmu dir) m virt) n) ∨
  ∃ K' l, result = some (allOk, K') ∧ LongestPrefix (charAt (mmu dir) m virt) n l ∧
    Copied K K' phys l ∧ NoTrace K K' dir table

/-- The kernel `K₁` after the block `tmp` was taken and zeroed. -/
structure Prepared (K K₁ : Kernel σ) (task dir f tmp c : Nat) (table : Nat → Nat) : Prop where
  state : K₁ = { K with kmem := K₁.kmem }
  before : PageDir K.mem dir f table
  mem : K₁.mem = fill K.mem tmp c 0
  apart : DirApart dir tmp table
  pageDir : PageDir K₁.mem dir f table
  pages : ∀ p < 2 ^ 20, pageEntry K₁.mem table p = pageEntry K.mem table p
  chunk : ChunkOf K₁.mem (K.queue.task task).pageDirectory dir table
  blocks : ∀ K' : Kernel σ, K'.kmem.heap = K₁.kmem.heap → ∀ j, (K'.kfree tmp).entries j = K.entries j

theorem TaskDir.prepared (ht : TaskDir K task dir f table) (hs : K.kmem.heap.Sound) (hc : c + 1 < 4096) :
    K.kzalloc (c + 1) = (0, { K with kmem := K.kmem.deny }) ∨
    ∃ tmp K₁, K.kzalloc (c + 1) = (tmp, K₁) ∧ Prepared K K₁ task dir f tmp (c + 1) table := by
  rcases kzalloc_page hs.toKernel (c + 1) (by omega) (by omega) with ⟨b, hb, hfree, -, he⟩ | ⟨he, -⟩
  case inr =>
    refine .inl ?_
    unfold Kernel.kzalloc
    rw [he]
  case inl =>
    have hrun : FreeRun K.entries b 1 := fun k hk => by
      obtain rfl : k = 0 := by omega
      exact hfree
    have htake : ∀ a, InWindow a → ¬ Free (K.entries (blockOf a)) → ∀ x, a ≤ x → x < a + 4096 →
        (K.kmem.take b 1 (c + 1)).mem x = K.mem x := fun a ha htaken x hx hx' =>
      take_apply (by omega) (by omega) hrun ha htaken hx hx'
    refine .inr ⟨blockAddr b, { K with kmem := K.kmem.take b 1 (c + 1) }, ?_, rfl, ht.pageDir, rfl,
      ht.apart hb hfree, ?_, fun p hp => ?_, ⟨?_, ht.chunk.apart⟩, fun K' hheap j => ?_⟩
    · unfold Kernel.kzalloc
      rw [he]
    · exact ht.pageDir.congr (htake dir ht.pageDir.dirWindow ht.dirTaken)
    · exact pageEntry_congr hp fun i hi => htake (table i) (ht.pageDir.window i hi) (ht.tableTaken i hi)
    · refine (read32_congr fun j hj => ?_).trans ht.chunk.directory
      exact htake _ ht.chunkWindow ht.chunkTaken _ (by omega) (by omega)
    · exact congrFun (kfree_take_entries hs (Nat.le_refl 1) (by omega) hrun hheap) j

namespace Prepared

variable {K₁ : Kernel σ} (h : Prepared K K₁ task dir f tmp (c + 1) table)

include h

theorem page_lt : tmp / 4096 < 2 ^ 20 := by
  have := h.apart.window.hi
  omega

/-- The memory with the block mapped. -/
theorem mapped :
    write32 K₁.mem (entryAddr table (tmp / 4096)) (tmp ||| pagingUserWriteable) =
        whileMapped K.mem table tmp (c + 1) ∧
      PageDir (whileMapped K.mem table tmp (c + 1)) dir f table ∧
      ∀ p < 2 ^ 20, pageEntry (whileMapped K.mem table tmp (c + 1)) table p =
        if p = tmp / 4096 then tmp + 7 else pageEntry K.mem table p := by
  have hp := h.page_lt
  have hw := h.apart.window
  have hhi := hw.hi
  have hor : tmp ||| pagingUserWriteable = tmp + 7 := Word.or_flags hw.aligned (by decide)
  have hu : write32 K₁.mem (entryAddr table (tmp / 4096)) (tmp ||| pagingUserWriteable) =
      whileMapped K.mem table tmp (c + 1) := by
    rw [h.mem]
    rfl
  refine ⟨hu, ?_, fun p hp' => ?_⟩
  · rw [← hu]
    exact h.pageDir.write hp
  · rw [← hu, h.pageDir.pageEntry_write hp hp' (by omega), hor, h.pages p hp']

/-- The call, once it has the block. -/
theorem call (hz : K.kzalloc (c + 1) = (tmp, K₁)) (hc : c + 1 < 4096) :
    copyStringFromTask K task virt phys (c + 1 : Nat) =
      match strncpyThrough (mmu dir) (whileMapped K.mem table tmp (c + 1)) tmp virt (c + 1) with
      | none => none
      | some m =>
        let (res, m) := pagingSet m dir tmp (pageEntry K.mem table (tmp / 4096))
        if res < 0 then some (-eio, (K₁.withMem m).kfree tmp)
        else some (res, (K₁.withMem (strncpy m phys tmp (c + 1))).kfree tmp) := by
  obtain ⟨hu, -, -⟩ := h.mapped
  have hw := h.apart.window
  have hlo := hw.lo
  have hal := hw.aligned
  have hhi := hw.hi
  have hmax : ¬ (4096 : Int) ≤ (c + 1 : Nat) := by omega
  have hint : Word.ofInt (c + 1 : Nat) = c + 1 := Word.ofInt_natCast (by omega)
  have hnat : ((c + 1 : Nat) : Int).toNat = c + 1 := Int.toNat_natCast _
  have hqueue : K₁.queue = K.queue := by rw [h.state]
  have hold : pagingGet K₁.mem dir tmp = pageEntry K.mem table (tmp / 4096) := by
    rw [h.pageDir.get (by omega) hal]
    exact h.pages _ h.page_lt
  have hset : pagingMap K₁.mem (K.queue.task task).pageDirectory tmp tmp pagingUserWriteable =
      (allOk, whileMapped K.mem table tmp (c + 1)) := by
    unfold pagingMap
    rw [if_neg (by omega), h.chunk.directory, h.pageDir.set (by omega) hal, hu]
  have hchunk : read32 (whileMapped K.mem table tmp (c + 1)) (K.queue.task task).pageDirectory = dir := by
    have := h.chunk.apart (tmp / 4096 / 1024) (by omega)
    have := entryAddr_mem table (tmp / 4096)
    rw [← hu, read32_write32_of_disjoint (by omega)]
    exact h.chunk.directory
  unfold copyStringFromTask
  rw [if_neg hmax, hint, hz]
  dsimp only
  rw [if_neg (show tmp ≠ 0 by omega), hqueue, h.chunk.directory, hold, hset, hnat]
  dsimp only
  have hmem : (K₁.withMem (whileMapped K.mem table tmp (c + 1))).mem =
    whileMapped K.mem table tmp (c + 1) := rfl
  rw [hmem, hchunk]
  rfl

/-- Outside the heap the memory with the block mapped is that of before. -/
theorem outside {x : Nat} (hx : x < 2 ^ 32) (hout : OutsideHeap x) (hc : c + 1 < 4096) :
    whileMapped K.mem table tmp (c + 1) x = K.mem x := by
  have hp := h.page_lt
  have hw := h.apart.window
  have hlo := hw.lo
  have hal := hw.aligned
  have hhi := hw.hi
  have htable := h.pageDir.window (tmp / 4096 / 1024) (by omega)
  have htlo := htable.lo
  have htal := htable.aligned
  have hthi := htable.hi
  have hentry := entryAddr_mem table (tmp / 4096)
  unfold OutsideHeap at hout
  unfold whileMapped
  rw [write32_apply (by omega)]
  exact fill_apply_of_outside (by omega) hx (by omega)

/-- The second half of the call: the entry is put back, the string copied out of the block, and the
block freed. -/
theorem finish {m : Mem} {l : List UInt8} (hat : StringAt (whileMapped K.mem table tmp (c + 1)) m tmp l)
    (hlen : l.length ≤ c) (hne : ∀ i (h : i < l.length), l[i] ≠ 0) (hc : c + 1 < 4096)
    (hphys : ∀ i < c + 1, OutsideHeap (Word.add phys i)) :
    ∃ m', pagingSet m dir tmp (pageEntry K.mem table (tmp / 4096)) = (allOk, m') ∧
      Copied K ((K₁.withMem (strncpy m' phys tmp (c + 1))).kfree tmp) phys l ∧
      NoTrace K ((K₁.withMem (strncpy m' phys tmp (c + 1))).kfree tmp) dir table := by
  have hp := h.page_lt
  have hw := h.apart.window
  have hlo := hw.lo
  have hal := hw.aligned
  have hhi := hw.hi
  obtain ⟨-, hdu, hmapped⟩ := h.mapped
  have hadd : ∀ i ≤ c, Word.add tmp i = tmp + i := fun i hi => Word.add_of_lt (by omega)
  -- the first copy has changed the block only
  have hblock : ∀ x, (x < tmp ∨ tmp + 4096 ≤ x) →
      m x = whileMapped K.mem table tmp (c + 1) x := fun x hx => hat.others x fun i hi => by
    rw [hadd i (by omega)]
    omega
  obtain ⟨hdm, hentries⟩ := h.apart.congr hdu hblock
  obtain ⟨m', hm'⟩ : ∃ m', write32 m (entryAddr table (tmp / 4096))
      (pageEntry K.mem table (tmp / 4096)) = m' := ⟨_, rfl⟩
  have hd' : PageDir m' dir f table := by
    rw [← hm']
    exact hdm.write hp
  have hpages' : ∀ p < 2 ^ 20, pageEntry m' table p = pageEntry K.mem table p := fun p hp' => by
    rw [← hm', hdm.pageEntry_write hp hp' (pageEntry_lt _ _ _)]
    split
    · rename_i heq
      rw [heq]
    · rename_i hnp
      rw [hentries p hp', hmapped p hp', if_neg hnp]
  have hentry := entryAddr_mem table (tmp / 4096)
  have htable := h.pageDir.window (tmp / 4096 / 1024) (by omega)
  have hin : ∀ i ≤ c, m' (tmp + i) = m (tmp + i) := fun i hi => by
    have := h.apart.table (tmp / 4096 / 1024) (by omega)
    rw [← hm']
    exact write32_apply (by omega)
  have hcopy : StringAt m' (strncpy m' phys tmp (c + 1)) phys l := by
    refine strncpy_outside hw (by omega) hphys hlen (fun i hi => ⟨?_, hne i hi⟩) ?_
    · rw [hin i (by omega), ← hadd i (by omega)]
      exact hat.chars i hi
    · rw [hin _ hlen, ← hadd _ hlen]
      exact hat.nul
  -- the second copy has changed nothing in the heap
  have hheap : ∀ a, InWindow a → ∀ x, a ≤ x → x < a + 4096 →
      strncpy m' phys tmp (c + 1) x = m' x := fun a ha x hx hx' =>
    hcopy.others x fun i hi => ha.ne_outside hx hx' (hphys i (by omega))
  have hmem : ((K₁.withMem (strncpy m' phys tmp (c + 1))).kfree tmp).mem =
      strncpy m' phys tmp (c + 1) := follow_mem _ _
  refine ⟨m', ?_, ⟨fun i hi => ?_, ?_, fun x hx hout hne => ?_⟩, ⟨?_, h.blocks _ rfl, fun i hi => ?_,
    fun p hp' => ?_⟩⟩
  · rw [hdm.set (by omega) hal, hm']
  · rw [hmem]
    exact hcopy.chars i hi
  · rw [hmem]
    exact hcopy.nul
  · have htlo := htable.lo
    have htal := htable.aligned
    have hthi := htable.hi
    have hx' : x < tmp ∨ tmp + 4096 ≤ x := by
      unfold OutsideHeap at hout
      omega
    rw [hmem, hcopy.others x hne, ← hm', write32_apply (by unfold OutsideHeap at hout; omega),
      hblock x hx', h.outside hx hout hc]
  · rw [h.state]
    rfl
  · rw [hmem, (hd'.congr (hheap dir hd'.dirWindow)).entry i hi, h.before.entry i hi]
  · rw [hmem, pageEntry_congr hp' fun i hi => hheap (table i) (hd'.window i hi)]
    exact hpages' p hp'

end Prepared

/-- Once it has a block, the call copies the string that is there while the block is mapped. -/
theorem copyStringFromTask_spec (virt : Nat) (ht : TaskDir K task dir f table) (hs : K.kmem.heap.Sound)
    (hc : c + 1 < 4096) (hphys : ∀ i < c + 1, OutsideHeap (Word.add phys i))
    (htmp : (K.kzalloc (c + 1)).1 = tmp) :
    (tmp = 0 ∧ copyStringFromTask K task virt phys (c + 1 : Nat) =
      some (-enomem, { K with kmem := K.kmem.deny })) ∨
    (DirApart dir tmp table ∧
      ((∀ i < c, Reaches (charAt (mmu dir) (whileMapped K.mem table tmp (c + 1)) virt) i → ∀ x,
        mmu dir (whileMapped K.mem table tmp (c + 1)) (Word.add virt i) = some x →
          x / 4096 ≠ tmp / 4096) →
        CopiesFrom K (copyStringFromTask K task virt phys (c + 1 : Nat))
          (whileMapped K.mem table tmp (c + 1)) dir virt phys c table)) := by
  rcases ht.prepared hs hc with hz | ⟨tmp', K₁, hz, h⟩
  · have hmax : ¬ (4096 : Int) ≤ (c + 1 : Nat) := by omega
    have hint : Word.ofInt (c + 1 : Nat) = c + 1 := Word.ofInt_natCast (by omega)
    rw [hz] at htmp
    refine .inl ⟨htmp.symm, ?_⟩
    unfold copyStringFromTask
    rw [if_neg hmax, hint, hz]
    rfl
  · obtain rfl : tmp' = tmp := by rw [← htmp, hz]
    obtain ⟨-, hdu, hmapped⟩ := h.mapped
    refine .inr ⟨h.apart, fun hreads => ?_⟩
    have hcopies : Apart (mmu dir) (whileMapped K.mem table tmp' (c + 1)) tmp' virt (c + 1 - 1) :=
      h.apart.copies hdu ht.present ((hmapped _ h.page_lt).trans (if_pos rfl)) (by omega) hreads
    rw [h.call hz hc]
    rcases strncpyThrough_spec hcopies with ⟨he, hf⟩ | ⟨m, l, he, hl, hat⟩
    · rw [he]
      exact .inl ⟨rfl, hf⟩
    · obtain ⟨m', hset, hcopied, hclean⟩ :=
        h.finish hat hl.length_le (fun i hi => (hl.chars i hi).2) hc hphys
      rw [he]
      dsimp only
      rw [hset]
      exact .inr ⟨_, l, if_neg (show ¬ allOk < 0 by decide), hl, hcopied, hclean⟩

/-! ## The string of before the call -/

/-- No character of the string is in the block `tmp`: neither by its address nor where the directory
takes it. -/
structure PagesApart (m : Mem) (dir virt n tmp : Nat) : Prop where
  pages : ∀ i < n, Reaches (charAt (mmu dir) m virt) i → Word.add virt i / 4096 ≠ tmp / 4096
  frames : ∀ i < n, Reaches (charAt (mmu dir) m virt) i → ∀ x,
    mmu dir m (Word.add virt i) = some x → x / 4096 ≠ tmp / 4096

/-- No character of the string is in the table entry at `a`. -/
def EntryApart (m : Mem) (dir virt n a : Nat) : Prop :=
  ∀ i < n, Reaches (charAt (mmu dir) m virt) i → ∀ x, mmu dir m (Word.add virt i) = some x →
    x < a ∨ a + 4 ≤ x

theorem Reaches.congr {char char' : Nat → Option UInt8} {i : Nat}
    (he : ∀ j < n, Reaches char j → char' j = char j) (hi : i ≤ n) (h : Reaches char' i) :
    Reaches char i := by
  induction i with
  | zero => exact fun j hj => absurd hj (Nat.not_lt_zero j)
  | succ i ih =>
    have hreach : Reaches char i := ih (by omega) fun j hj => h j (by omega)
    obtain ⟨c, hc, h0⟩ := h i (Nat.lt_succ_self i)
    rw [he i (by omega) hreach] at hc
    exact hreach.succ hc h0

theorem LongestPrefix.congr {char char' : Nat → Option UInt8}
    (he : ∀ j < n, Reaches char j → char' j = char j) (h : LongestPrefix char' n l) :
    LongestPrefix char n l := by
  have hlen := h.length_le
  have hreach : ∀ i ≤ l.length, Reaches char i := fun i hi =>
    Reaches.congr he (by omega) fun j hj => ⟨_, h.chars j (by omega)⟩
  refine ⟨hlen, fun i hi => ?_, fun hlt => ?_⟩
  · rw [← he i (by omega) (hreach i (by omega))]
    exact h.chars i hi
  · rw [← he _ hlt (hreach _ (Nat.le_refl _))]
    exact h.ends hlt

theorem Faults.congr {char char' : Nat → Option UInt8}
    (he : ∀ j < n, Reaches char j → char' j = char j) (h : Faults char' n) : Faults char n := by
  obtain ⟨i, hi, hreach, hnone⟩ := h
  have hreach' := Reaches.congr he (by omega) hreach
  exact ⟨i, hi, hreach', (he i hi hreach').symm.trans hnone⟩

/-- A page that is not the block is where it was, for the time that the block is mapped. -/
theorem mmu_whileMapped (hd : PageDir m dir f table) (hf : f &&& pagingIsPresent ≠ 0)
    (ha : DirApart dir tmp table) (hc : c ≤ 4096) (hv : virt < 2 ^ 32)
    (hne : virt / 4096 ≠ tmp / 4096) :
    mmu dir (whileMapped m table tmp c) virt = mmu dir m virt := by
  have hw := ha.window
  have hlo := hw.lo
  have hal := hw.aligned
  have hhi := hw.hi
  have hp : tmp / 4096 < 2 ^ 20 := by omega
  have hfill : ∀ a, InWindow a → (a + 4096 ≤ tmp ∨ tmp + 4096 ≤ a) → ∀ x, a ≤ x → x < a + 4096 →
      fill m tmp c 0 x = m x := fun a hwa hapart x hx hx' => by
    have := hwa.hi
    have := hwa.aligned
    exact fill_apply_of_outside (by omega) (by omega) (by omega)
  have hd₁ : PageDir (fill m tmp c 0) dir f table := hd.congr (hfill dir hd.dirWindow ha.dir)
  have hentry : pageEntry (whileMapped m table tmp c) table (virt / 4096) =
      pageEntry m table (virt / 4096) := by
    unfold whileMapped
    rw [hd₁.pageEntry_write hp (by omega)
      (by rw [Word.or_flags hal (by decide)]; change tmp + 7 < _; omega), if_neg hne]
    exact pageEntry_congr (by omega) fun i hi => hfill (table i) (hd.window i hi) (ha.table i hi)
  have hd₂ : PageDir (whileMapped m table tmp c) dir f table := hd₁.write hp
  rw [mmu_eq hd₂ hf hv, mmu_eq hd hf hv, hentry]

theorem charAt_whileMapped (hd : PageDir m dir f table) (hf : f &&& pagingIsPresent ≠ 0)
    (ha : DirApart dir tmp table) (hc : c ≤ 4096) (hp : PagesApart m dir virt n tmp)
    (hentry : EntryApart m dir virt n (entryAddr table (tmp / 4096))) {i : Nat} (hi : i < n)
    (hreach : Reaches (charAt (mmu dir) m virt) i) :
    charAt (mmu dir) (whileMapped m table tmp c) virt i = charAt (mmu dir) m virt i := by
  have hmmu := mmu_whileMapped hd hf ha hc (Word.add_lt virt i) (hp.pages i hi hreach)
  unfold charAt
  rw [hmmu]
  cases hx : mmu dir m (Word.add virt i) with
  | none => rfl
  | some x =>
    have hframe := hp.frames i hi hreach x hx
    have hout := hentry i hi hreach x hx
    have hhi := ha.window.hi
    have hal := ha.window.aligned
    have hlt : x < 2 ^ 32 := by
      rw [mmu_eq hd hf (Word.add_lt virt i)] at hx
      split at hx
      · exact absurd hx (by simp)
      · have hxe := Option.some.inj hx
        have := pageEntry_lt m table (Word.add virt i / 4096)
        omega
    refine congrArg some ?_
    unfold whileMapped
    rw [write32_apply hout]
    exact fill_apply_of_outside (by omega) hlt (by omega)

/-- What a call does that returns: a negative code, or the string as the directory maps it is at
`phys`; the directory and the block table are as before. Only a page that is not present keeps it
from returning. -/
def CopiesExactly (K : Kernel σ) (result : Option (Int × Kernel σ)) (dir virt phys n : Nat)
    (table : Nat → Nat) : Prop :=
  (result = none ∧ Faults (charAt (mmu dir) K.mem virt) n) ∨
  ∃ res K', result = some (res, K') ∧ NoTrace K K' dir table ∧
    (res < 0 ∨ ∃ l, LongestPrefix (charAt (mmu dir) K.mem virt) n l ∧ Copied K K' phys l)

/-- **A string is copied out of a task exactly and without a trace**, where it does not lie in the
table entry of the temporary block. -/
theorem copy_string_from_task_exact {max : Int} (ht : TaskDir K task dir f table)
    (hreach : K.kmem.heap.Reached) (h0 : 0 < max) (hmax : max < 4096)
    (hphys : ∀ i < max.toNat, OutsideHeap (Word.add phys i))
    (hpages : PagesApart K.mem dir virt (max.toNat - 1) (K.kzalloc max.toNat).1)
    (hentry : EntryApart K.mem dir virt (max.toNat - 1)
      (entryAddr table ((K.kzalloc max.toNat).1 / 4096))) :
    CopiesExactly K (copyStringFromTask K task virt phys max) dir virt phys (max.toNat - 1) table := by
  obtain ⟨c, rfl⟩ : ∃ c : Nat, max = (c + 1 : Nat) := ⟨max.toNat - 1, by omega⟩
  simp only [Int.toNat_natCast, Nat.add_sub_cancel] at hphys hpages hentry ⊢
  rcases copyStringFromTask_spec virt ht hreach.sound (by omega) hphys rfl with ⟨-, hr⟩ | ⟨ha, hcopies⟩
  · rw [hr]
    exact .inr ⟨_, _, rfl, ⟨rfl, fun _ => rfl, fun _ _ => rfl, fun _ _ => rfl⟩, .inl (by decide)⟩
  · have hchar : ∀ i < c, Reaches (charAt (mmu dir) K.mem virt) i →
        charAt (mmu dir) (whileMapped K.mem table (K.kzalloc (c + 1)).1 (c + 1)) virt i =
          charAt (mmu dir) K.mem virt i := fun i hi hri =>
      charAt_whileMapped ht.pageDir ht.present ha (by omega) hpages hentry hi hri
    have hreads := hcopies fun i hi hri x hx => by
      have hri' := Reaches.congr hchar (by omega) hri
      rw [mmu_whileMapped ht.pageDir ht.present ha (by omega) (Word.add_lt virt i)
        (hpages.pages i hi hri')] at hx
      exact hpages.frames i hi hri' x hx
    rcases hreads with ⟨hr, hf⟩ | ⟨K', l, hr, hl, hcopied, hclean⟩
    · exact .inl ⟨hr, hf.congr hchar⟩
    · exact .inr ⟨allOk, K', hr, hclean, .inr ⟨l, hl.congr hchar, hcopied⟩⟩

end

/-! ## The fresh task -/

theorem freshTaskKernel_taken {i : Nat} (h : i < 1026) : ¬ Free (freshTaskKernel.entries i) := by
  have : freshTaskKernel.entries i = entryTaken ||| isFirst := if_pos h
  rw [this]
  decide

theorem freshTaskKernel_dir :
    TaskDir freshTaskKernel 1 0x01000000 7 (fun i => blockAddr (i + 1)) where
  pageDir := freshTaskKernel_pageDir
  present := by decide
  chunk := freshTaskKernel_chunk
  chunkWindow := inWindow_blockAddr (b := 1025) (by decide)
  chunkTaken := freshTaskKernel_taken (i := 1025) (by decide)
  dirTaken := freshTaskKernel_taken (i := 0) (by decide)
  tableTaken := fun i hi => by
    have hblock : blockOf (blockAddr (i + 1)) = i + 1 := by
      unfold blockOf blockAddr
      omega
    rw [hblock]
    exact freshTaskKernel_taken (by omega)

theorem freshTaskKernel_reached : freshTaskKernel.kmem.heap.Reached :=
  Heap.Reached.firstTaken ⟨rfl, rfl⟩ (show 1026 ≤ 25600 by decide) rfl

theorem freshTaskKernel_kzalloc {size : Nat} (h1 : 1 ≤ size) (h2 : size ≤ 4096) :
    (freshTaskKernel.kzalloc size).1 = blockAddr 1026 := by
  have hfree : Free (freshTaskKernel.entries 1026) := by
    have : freshTaskKernel.entries 1026 = entryFree := rfl
    rw [this]
    exact free_entryFree
  unfold Kernel.kzalloc
  rcases kzalloc_page (k := freshTaskKernel.kmem) ⟨rfl, rfl⟩ size h1 h2 with
    ⟨b, -, hbfree, hfirst, he⟩ | ⟨-, hno⟩
  · have hle : b ≤ 1026 := Nat.le_of_not_lt fun hlt => hfirst 1026 hlt hfree
    have hge : 1026 ≤ b := Nat.le_of_not_lt fun hlt => freshTaskKernel_taken hlt hbfree
    rw [he, Nat.le_antisymm hle hge]
  · exact absurd hfree (hno 1026 (by decide))

theorem freshTaskKernel_mmu {v : Nat} (hv : v < 2 ^ 32) :
    mmu 0x01000000 freshTaskKernel.mem v = some v := by
  have hpresent : (4096 * (v / 4096) + 5) &&& pagingIsPresent = (4096 * (v / 4096) + 5) % 2 :=
    Nat.and_one_is_mod _
  rw [mmu_eq freshTaskKernel_dir.pageDir freshTaskKernel_dir.present hv,
    freshTaskKernel_entry (by omega), hpresent, if_neg (by omega)]
  congr 1
  omega

theorem freshTaskKernel_table {x : Nat} (h : 0x01001000 ≤ x) (h' : x < 0x01401000) :
    freshTaskKernel.mem x = byte (4096 * ((x - 0x01001000) / 4) + 5) (x % 4) :=
  (if_neg (by omega)).trans (if_pos ⟨h, h'⟩)

/-- The table entry of the first free block. -/
theorem freshTaskKernel_entryAddr :
    entryAddr (fun i => blockAddr (i + 1)) (blockAddr 1026 / 4096) = 0x01006008 := by decide

/-- The string is on the user stack. -/
theorem copy_string_from_task_exact_stack :
    CopiesExactly freshTaskKernel (copyStringFromTask freshTaskKernel 1 0x3FEFFF 0x5000 4) 0x01000000
      0x3FEFFF 0x5000 3 (fun i => blockAddr (i + 1)) := by
  have hmmu : ∀ i < 3, ∀ x, mmu 0x01000000 freshTaskKernel.mem (Word.add 0x3FEFFF i) = some x →
      x = 0x3FEFFF + i := fun i hi x hx => by
    rw [freshTaskKernel_mmu (Word.add_lt _ _), Word.add_of_lt (by omega)] at hx
    exact (Option.some.inj hx).symm
  have htmp : (freshTaskKernel.kzalloc (4 : Int).toNat).1 = blockAddr 1026 :=
    freshTaskKernel_kzalloc (by decide) (by decide)
  refine copy_string_from_task_exact freshTaskKernel_dir freshTaskKernel_reached (by decide)
    (by decide) (fun i hi => .inl ?_) ?_ ?_
  · rw [Word.add_of_lt (by omega)]
    omega
  · rw [htmp]
    refine ⟨fun i hi _ => ?_, fun i hi _ x hx => ?_⟩
    · rw [Word.add_of_lt (by omega)]
      unfold blockAddr
      omega
    · rw [hmmu i hi x hx]
      unfold blockAddr
      omega
  · rw [htmp]
    intro i hi _ x hx
    rw [hmmu i hi x hx, freshTaskKernel_entryAddr]
    exact .inl (by omega)

/-- The string is the table entry of the temporary block itself: for the copy it has other flags. -/
theorem copy_string_from_task_own_entry :
    TaskDir freshTaskKernel 1 0x01000000 7 (fun i => blockAddr (i + 1)) ∧
      freshTaskKernel.kmem.heap.Reached ∧ (∀ i < 2, OutsideHeap (Word.add 0x5000 i)) ∧
      PagesApart freshTaskKernel.mem 0x01000000 0x01006008 1 (freshTaskKernel.kzalloc 2).1 ∧
      ¬ CopiesExactly freshTaskKernel (copyStringFromTask freshTaskKernel 1 0x01006008 0x5000 2)
        0x01000000 0x01006008 0x5000 1 (fun i => blockAddr (i + 1)) := by
  have htmp : (freshTaskKernel.kzalloc 2).1 = blockAddr 1026 :=
    freshTaskKernel_kzalloc (by decide) (by decide)
  have hout : ∀ i < 2, OutsideHeap (Word.add 0x5000 i) := fun i hi => .inl (by
    rw [Word.add_of_lt (by omega)]
    omega)
  have hadd : ∀ i < 1, Word.add 0x01006008 i = 0x01006008 := fun i hi => by
    obtain rfl : i = 0 := by omega
    exact Word.add_of_lt (by decide)
  have hmmu := freshTaskKernel_mmu (v := 0x01006008) (by decide)
  have hpages : PagesApart freshTaskKernel.mem 0x01000000 0x01006008 1 (blockAddr 1026) := by
    refine ⟨fun i hi _ => ?_, fun i hi _ x hx => ?_⟩
    · rw [hadd i hi]
      decide
    · rw [hadd i hi, hmmu] at hx
      rw [← Option.some.inj hx]
      decide
  refine ⟨freshTaskKernel_dir, freshTaskKernel_reached, hout, by rwa [htmp], ?_⟩
  -- the byte of before is 5, the one that is read 7
  have hbefore : charAt (mmu 0x01000000) freshTaskKernel.mem 0x01006008 0 = some 5 := by
    have hbyte : freshTaskKernel.mem 0x01006008 = 5 :=
      (freshTaskKernel_table (by decide) (by decide)).trans (by decide)
    unfold charAt
    rw [hadd 0 (by decide), hmmu, ← hbyte]
    rfl
  rcases copyStringFromTask_spec 0x01006008 freshTaskKernel_dir freshTaskKernel_reached.sound
    (by decide) hout htmp with ⟨h0, -⟩ | ⟨ha, hcopies⟩
  · exact absurd h0 (blockAddr_ne_zero 1026)
  have hwhile : mmu 0x01000000 (whileMapped freshTaskKernel.mem (fun i => blockAddr (i + 1))
      (blockAddr 1026) 2) 0x01006008 = some 0x01006008 :=
    (mmu_whileMapped freshTaskKernel_dir.pageDir freshTaskKernel_dir.present ha (by decide)
      (by decide) (by decide)).trans hmmu
  have hduring : charAt (mmu 0x01000000) (whileMapped freshTaskKernel.mem
      (fun i => blockAddr (i + 1)) (blockAddr 1026) 2) 0x01006008 0 = some 7 := by
    have hbyte : whileMapped freshTaskKernel.mem (fun i => blockAddr (i + 1)) (blockAddr 1026) 2
        0x01006008 = 7 := by
      unfold whileMapped write32
      rw [freshTaskKernel_entryAddr, if_pos (by decide)]
      decide
    unfold charAt
    rw [hadd 0 (by decide), hwhile, ← hbyte]
    rfl
  have hreads := hcopies fun i hi _ x hx => by
    rw [hadd i (by omega), hwhile] at hx
    rw [← Option.some.inj hx]
    decide
  rcases hreads with ⟨-, i, hi, -, hnone⟩ | ⟨K', l, hr, hl, hcopied, -⟩
  · obtain rfl : i = 0 := by omega
    rw [hduring] at hnone
    exact absurd hnone (by simp)
  · rintro (⟨-, i, hi, -, hnone⟩ | ⟨res, K'', hr', -, hdone⟩)
    · obtain rfl : i = 0 := by omega
      rw [hbefore] at hnone
      exact absurd hnone (by simp)
    · obtain ⟨rfl, rfl⟩ := Prod.mk.inj (Option.some.inj (hr.symm.trans hr'))
      rcases hdone with hneg | ⟨l', hl', hcopied'⟩
      · exact absurd hneg (by decide)
      · have h7 := hl.first hduring (by decide) (by decide)
        have h5 := hl'.first hbefore (by decide) (by decide)
        have hphys7 := hcopied.first h7
        rw [hcopied'.first h5] at hphys7
        exact absurd hphys7 (by decide)

end Pandora
