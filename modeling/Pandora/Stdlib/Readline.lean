import Mathlib.Algebra.Group.Nat.Even
import Mathlib.Data.List.Infix
import Pandora.Lib.Traced

/-!
# Line input (`programs/stdlib/src/pandora.c`)

`pandora_terminal_readline` keeps the line in `out` and its length in the index of its loop: a backspace
takes the index back by two before the loop adds one. What the keyboard answers is a list of polls, 0
where no key was struck.

At the start of a line a backspace is no different from another key: it is stored, and the next one
removes it. So the line is what the keys say (`edited`), with a backspace before it as long as an odd
number of backspaces has been struck on an empty line (`typed_eq`), and it may be full one key too early.
-/

namespace Pandora

open ByteMem

/-- What a program sees of the keyboard and of the screen while it reads a line. -/
structure Typing where
  polls : List UInt8
  memory : Traced
  /-- The characters put on the screen, the latest first. -/
  shown : List UInt8 := []

def Typing.store (s : Typing) (a : Nat) (v : UInt8) : Typing := { s with memory := s.memory.store a v }

def pandoraPutchar (s : Typing) (c : UInt8) : Typing := { s with shown := c :: s.shown }

/-- The key and the polls behind it; `none` where no key comes. -/
def pandoraGetkeyblock : (polls : List UInt8) → Option (UInt8 × List UInt8)
  | [] => none
  | val :: polls => if val = 0 then pandoraGetkeyblock polls else some (val, polls)

/-- The loop of `pandora_terminal_readline`: the index it ends with. -/
def pandoraTerminalReadline.loop (out : Nat) (max : Int) (outputWhileTyping : Bool) :
    (fuel : Nat) → (i : Int) → Typing → Option (Int × Typing)
  | 0, _, _ => none
  | fuel + 1, i, s =>
    if i < max - 1 then
      match pandoraGetkeyblock s.polls with
      | none => none
      | some (key, polls) =>
        let s := { s with polls := polls }
        if key = 13 then some (i, s)
        else
          let s := if outputWhileTyping then pandoraPutchar s key else s
          if key = 0x08 ∧ i ≥ 1 then
            loop out max outputWhileTyping fuel (i - 2 + 1) (s.store (Word.ofInt (out + (i - 1))) 0)
          else loop out max outputWhileTyping fuel (i + 1) (s.store (Word.ofInt (out + i)) key)
    else some (i, s)

/-- `none` where the polls run out before the line has ended. -/
def pandoraTerminalReadline (s : Typing) (out : Nat) (max : Int) (outputWhileTyping : Bool) :
    Option Typing :=
  match pandoraTerminalReadline.loop out max outputWhileTyping (s.polls.length + 1) 0 s with
  | none => none
  | some (i, s) => some (s.store (Word.ofInt (out + i)) 0)

/-! ## What the keys say -/

/-- A key struck on the line `l`: a backspace takes the last character away, if there is one. -/
def editKey (l : List UInt8) (key : UInt8) : List UInt8 :=
  if key = 0x08 then l.dropLast else l ++ [key]

def edited (keys : List UInt8) : List UInt8 := keys.foldl editKey []

/-- How many of the keys are backspaces on an empty line; the line is `l` before them. -/
def idleBackspaces : (l keys : List UInt8) → Nat
  | _, [] => 0
  | l, key :: keys => (if key = 0x08 ∧ l = [] then 1 else 0) + idleBackspaces (editKey l key) keys

/-- What the loop makes of a key. -/
def typeKey (l : List UInt8) (key : UInt8) : List UInt8 :=
  if key = 0x08 ∧ l ≠ [] then l.dropLast else l ++ [key]

section

variable {l keys polls : List UInt8} {key : UInt8}

theorem typeKey_idle (h : key = 0x08 ∧ l = []) : typeKey l key = 0x08 :: editKey l key := by
  obtain ⟨rfl, rfl⟩ := h
  simp [typeKey, editKey]

theorem typeKey_edit (h : ¬ (key = 0x08 ∧ l = [])) : typeKey l key = editKey l key := by
  unfold typeKey editKey
  by_cases hk : key = 0x08
  · have hl : l ≠ [] := fun hl => h ⟨hk, hl⟩
    rw [if_pos ⟨hk, hl⟩, if_pos hk]
  · rw [if_neg (fun hc => hk hc.1), if_neg hk]

/-- With a backspace before the line, the next one on the empty line removes it. -/
theorem typeKey_ahead_idle (h : key = 0x08 ∧ l = []) :
    typeKey (0x08 :: l) key = editKey l key := by
  obtain ⟨rfl, rfl⟩ := h
  simp [typeKey, editKey]

theorem typeKey_ahead (h : ¬ (key = 0x08 ∧ l = [])) :
    typeKey (0x08 :: l) key = 0x08 :: editKey l key := by
  unfold typeKey editKey
  by_cases hk : key = 0x08
  · have hl : l ≠ [] := fun hl => h ⟨hk, hl⟩
    rw [if_pos ⟨hk, List.cons_ne_nil _ _⟩, if_pos hk, List.dropLast_cons_of_ne_nil hl]
  · rw [if_neg (fun hc => hk hc.1), if_neg hk]
    rfl

theorem idleBackspaces_append (l keys keys' : List UInt8) :
    idleBackspaces l (keys ++ keys') =
      idleBackspaces l keys + idleBackspaces (keys.foldl editKey l) keys' := by
  induction keys generalizing l with
  | nil => simp [idleBackspaces]
  | cons key keys ih => simp only [List.cons_append, List.foldl_cons, idleBackspaces, ih, Nat.add_assoc]

/-- The line in the array is the edited one, with a backspace before it after an odd number of idle
backspaces. -/
theorem typed_eq (l keys : List UInt8) :
    keys.foldl typeKey l = (if Even (idleBackspaces l keys) then keys.foldl editKey l
      else 0x08 :: keys.foldl editKey l) ∧
    keys.foldl typeKey (0x08 :: l) = (if Even (idleBackspaces l keys) then
      0x08 :: keys.foldl editKey l else keys.foldl editKey l) := by
  induction keys generalizing l with
  | nil => simp [idleBackspaces]
  | cons key keys ih =>
    rw [List.foldl_cons, List.foldl_cons, List.foldl_cons]
    by_cases h : key = 0x08 ∧ l = []
    · have hn : idleBackspaces l (key :: keys) = 1 + idleBackspaces (editKey l key) keys := by
        rw [idleBackspaces, if_pos h]
      obtain ⟨hline, hahead⟩ := ih (editKey l key)
      rw [typeKey_idle h, typeKey_ahead_idle h, hline, hahead]
      simp only [hn]
      by_cases he : Even (idleBackspaces (editKey l key) keys)
      · simp [he, Nat.even_add]
      · simp [he, Nat.even_add]
    · have hn : idleBackspaces l (key :: keys) = idleBackspaces (editKey l key) keys := by
        rw [idleBackspaces, if_neg h, Nat.zero_add]
      rw [typeKey_edit h, typeKey_ahead h, hn]
      exact ih _

/-- A line holds what it held before and keys. -/
theorem mem_foldl_keys {f : List UInt8 → UInt8 → List UInt8} {P : UInt8 → Prop}
    (hf : ∀ l key, ∀ c ∈ f l key, c ∈ l ∨ c = key ∧ P c) {c : UInt8} (h : c ∈ keys.foldl f l) :
    c ∈ l ∨ c ∈ keys ∧ P c := by
  induction keys generalizing l with
  | nil => exact .inl h
  | cons key keys ih =>
    rcases ih h with hc | ⟨hc, hP⟩
    · rcases hf l key c hc with hc | ⟨rfl, hP⟩
      · exact .inl hc
      · exact .inr ⟨List.mem_cons_self, hP⟩
    · exact .inr ⟨.tail _ hc, hP⟩

/-- The characters of the edited line are keys other than the backspace. -/
theorem mem_edited {c : UInt8} (h : c ∈ edited keys) : c ∈ keys ∧ c ≠ 0x08 := by
  refine (mem_foldl_keys (l := []) (P := fun c => c ≠ 0x08) (fun l key c hc => ?_) h).resolve_left
    (by simp)
  unfold editKey at hc
  split at hc
  · exact .inl (List.mem_of_mem_dropLast hc)
  · rename_i hk
    rcases List.mem_append.1 hc with hc | hc
    · exact .inl hc
    · obtain rfl := List.mem_singleton.1 hc
      exact .inr ⟨rfl, hk⟩

theorem edited_length_le (keys : List UInt8) : (edited keys).length ≤ keys.length := by
  suffices h : ∀ l, (keys.foldl editKey l).length ≤ l.length + keys.length by
    simpa [edited] using h []
  induction keys with
  | nil => simp
  | cons key keys ih =>
    intro l
    have hkey : (editKey l key).length ≤ l.length + 1 := by
      unfold editKey
      split
      · rw [List.length_dropLast]
        omega
      · rw [List.length_append, List.length_singleton]
    have := ih (editKey l key)
    rw [List.foldl_cons, List.length_cons]
    omega

theorem mem_typed {c : UInt8} (h : c ∈ keys.foldl typeKey []) : c ∈ keys := by
  have hmem := mem_foldl_keys (P := fun _ => True) (fun l key c hc => ?_) h
  · exact (hmem.resolve_left (by simp)).1
  · unfold typeKey at hc
    split at hc
    · exact .inl (List.mem_of_mem_dropLast hc)
    · rcases List.mem_append.1 hc with hc | hc
      · exact .inl hc
      · exact .inr ⟨List.mem_singleton.1 hc, trivial⟩

/-! ## The loop -/

/-- The next key of the polls. -/
theorem getkeyblock_filter {key : UInt8} {keys : List UInt8}
    (h : polls.filter (· ≠ 0) = key :: keys) :
    ∃ polls', pandoraGetkeyblock polls = some (key, polls') ∧ polls'.filter (· ≠ 0) = keys ∧
      polls'.length < polls.length := by
  induction polls with
  | nil => simp at h
  | cons val polls ih =>
    unfold pandoraGetkeyblock
    by_cases hv : val = 0
    · rw [List.filter_cons_of_neg (by simpa using hv)] at h
      obtain ⟨polls', hget, hkeys, hlen⟩ := ih h
      rw [if_pos hv]
      exact ⟨polls', hget, hkeys, by rw [List.length_cons]; omega⟩
    · rw [List.filter_cons_of_pos (by simpa using hv), List.cons.injEq] at h
      obtain ⟨rfl, rfl⟩ := h
      rw [if_neg hv]
      exact ⟨polls, rfl, rfl, Nat.lt_succ_self _⟩

end

section

variable {out max fuel : Nat} {w : Bool} {l keys rest : List UInt8} {s s' : Typing}

/-- The characters `l` are in the array, and nothing outside it has been written. -/
structure LineTyped (out max : Nat) (s : Typing) (l : List UInt8) : Prop where
  bytes : ∀ i (h : i < l.length), s.memory.mem (out + i) = l[i]
  within : s.memory.Within out (out + max)

theorem LineTyped.congr {s' : Typing} (h : LineTyped out max s l) (hm : s'.memory = s.memory) :
    LineTyped out max s' l :=
  ⟨by rw [hm]; exact h.bytes, by rw [hm]; exact h.within⟩

/-- A character behind the line. -/
theorem LineTyped.append (h : LineTyped out max s l) (hl : l.length < max) (key : UInt8) :
    LineTyped out max (s.store (out + l.length) key) (l ++ [key]) where
  bytes := fun i hi => by
    rw [List.length_append, List.length_singleton] at hi
    simp only [Typing.store, Traced.store_mem]
    rcases Nat.lt_or_ge i l.length with hlt | hge
    · rw [Function.update_of_ne (by omega), List.getElem_append_left hlt]
      exact h.bytes i hlt
    · obtain rfl : i = l.length := by omega
      rw [Function.update_self]
      simp
  within := Traced.within_store.2 ⟨⟨by omega, by omega⟩, h.within⟩

/-- The last character is overwritten. -/
theorem LineTyped.dropLast (h : LineTyped out max s l) (hl : l.length < max) (hne : l ≠ []) :
    LineTyped out max (s.store (out + (l.length - 1)) 0) l.dropLast where
  bytes := fun i hi => by
    rw [List.length_dropLast] at hi
    simp only [Typing.store, Traced.store_mem]
    rw [Function.update_of_ne (by omega), List.getElem_dropLast]
    exact h.bytes i (by omega)
  within := by
    have := List.length_pos_iff.2 hne
    exact Traced.within_store.2 ⟨⟨by omega, by omega⟩, h.within⟩

/-- The line ends where the keys do, or where the array is full. -/
def Ends (max : Nat) (l keys p : List UInt8) : Prop :=
  (p = keys ∧ ∀ p', p' <+: keys → (p'.foldl typeKey l).length + 1 < max) ∨
    (p <+: keys ∧ (p.foldl typeKey l).length + 1 = max)

theorem Ends.isPrefix {p : List UInt8} (h : Ends max l keys p) : p <+: keys := by
  rcases h with ⟨rfl, -⟩ | ⟨hp, -⟩
  · exact List.prefix_refl p
  · exact hp

theorem Ends.cons {key : UInt8} {p : List UInt8} (h : Ends max (typeKey l key) keys p)
    (hl : l.length + 1 < max) : Ends max l (key :: keys) (key :: p) := by
  rcases h with ⟨rfl, hall⟩ | ⟨hp, hfull⟩
  · refine .inl ⟨rfl, fun p' hp' => ?_⟩
    cases p' with
    | nil => exact hl
    | cons k p' =>
      obtain ⟨rfl, hrest⟩ := List.cons_prefix_cons.1 hp'
      exact hall p' hrest
  · exact .inr ⟨List.cons_prefix_cons.2 ⟨rfl, hp⟩, hfull⟩

theorem readline_loop (hout : out + max ≤ 2 ^ 32) (hl : l.length + 1 ≤ max)
    (h : LineTyped out max s l) (hkeys : s.polls.filter (· ≠ 0) = keys ++ 13 :: rest) (h13 : 13 ∉ keys)
    (hfuel : s.polls.length < fuel) :
    ∃ p s', pandoraTerminalReadline.loop out max w fuel l.length s =
        some ((p.foldl typeKey l).length, s') ∧
      LineTyped out max s' (p.foldl typeKey l) ∧ Ends max l keys p := by
  induction fuel generalizing l s keys with
  | zero => omega
  | succ fuel ih =>
    unfold pandoraTerminalReadline.loop
    by_cases hfull : l.length + 1 = max
    · rw [if_neg (by omega)]
      exact ⟨[], s, rfl, h, .inr ⟨List.nil_prefix, hfull⟩⟩
    have hlt : l.length + 1 < max := by omega
    rw [if_pos (by omega)]
    cases keys with
    | nil =>
      obtain ⟨polls, hget, -, -⟩ := getkeyblock_filter hkeys
      rw [hget]
      dsimp only
      rw [if_pos rfl]
      refine ⟨[], _, rfl, h.congr rfl, .inl ⟨rfl, fun p' hp' => ?_⟩⟩
      rw [List.prefix_nil.1 hp']
      exact hlt
    | cons key keys =>
      obtain ⟨polls, hget, hrest, hlen⟩ := getkeyblock_filter hkeys
      simp only [List.mem_cons, not_or] at h13
      rw [hget]
      dsimp only
      rw [if_neg (Ne.symm h13.1)]
      obtain ⟨s₁, hs₁⟩ : ∃ s₁, (if w = true then pandoraPutchar { s with polls := polls } key
        else { s with polls := polls }) = s₁ := ⟨_, rfl⟩
      have hpolls : s₁.polls = polls := by
        rw [← hs₁]
        split <;> rfl
      have h₁ : LineTyped out max s₁ l := by
        refine h.congr ?_
        rw [← hs₁]
        split <;> rfl
      rw [hs₁]
      by_cases hback : key = 0x08 ∧ l ≠ []
      · have hpos := List.length_pos_iff.2 hback.2
        have hlast : (l.dropLast).length = l.length - 1 := List.length_dropLast
        have haddr : Word.ofInt (out + ((l.length : Int) - 1)) = out + (l.length - 1) := by
          rw [← Word.ofInt_natCast (show out + (l.length - 1) < 2 ^ 32 by omega)]
          congr 1
          omega
        have htype : typeKey l key = l.dropLast := if_pos hback
        rw [if_pos ⟨hback.1, by omega⟩, haddr]
        obtain ⟨p, s', hloop, htyped, hends⟩ := ih (by omega) (h₁.dropLast (by omega) hback.2)
          (hpolls.symm ▸ hrest) h13.2 (show s₁.polls.length < fuel by rw [hpolls]; omega)
        rw [← htype] at hends htyped hloop
        have hidx : (l.length : Int) - 2 + 1 = ((typeKey l key).length : Int) := by
          rw [htype]
          omega
        rw [hidx]
        exact ⟨key :: p, s', hloop, htyped, hends.cons hlt⟩
      · have haddr : Word.ofInt (out + (l.length : Int)) = out + l.length :=
          Word.ofInt_natCast (show out + l.length < 2 ^ 32 by omega)
        have hno : ¬ (key = 0x08 ∧ (l.length : Int) ≥ 1) := fun hc => hback ⟨hc.1, by
          rintro rfl
          simp at hc⟩
        have htype : typeKey l key = l ++ [key] := if_neg hback
        rw [if_neg hno, haddr]
        obtain ⟨p, s', hloop, htyped, hends⟩ := ih (by simp; omega) (h₁.append (by omega) key)
          (hpolls.symm ▸ hrest) h13.2 (show s₁.polls.length < fuel by rw [hpolls]; omega)
        rw [← htype] at hends htyped hloop
        have hidx : (l.length : Int) + 1 = ((typeKey l key).length : Int) := by
          rw [htype]
          simp
        rw [hidx]
        exact ⟨key :: p, s', hloop, htyped, hends.cons hlt⟩

/-! ## The whole call -/

/-- The text that the keys say is in the array, and no other byte was written. -/
def ReadsLine (result : Option Typing) (out max : Nat) (keys : List UInt8) : Prop :=
  ∃ s, result = some s ∧ CString s.memory.mem out (edited keys) ∧ s.memory.Within out (out + max)

/-- The call ends with the line that the loop has made of the keys, or of the first of them. -/
theorem readline_spec (hmax : 2 ≤ max) (hout : out + max ≤ 2 ^ 32) (hs : s.memory.written = [])
    (hkeys : s.polls.filter (· ≠ 0) = keys ++ 13 :: rest) (h13 : 13 ∉ keys) :
    ∃ p s', pandoraTerminalReadline s out max w = some s' ∧
      CString s'.memory.mem out (p.foldl typeKey []) ∧ s'.memory.Within out (out + max) ∧
      Ends max [] keys p := by
  have hstart : LineTyped out max s [] := ⟨by simp, by rw [Traced.Within, hs]; simp⟩
  obtain ⟨p, s', hloop, htyped, hends⟩ := readline_loop (w := w) hout
    (show ([] : List UInt8).length + 1 ≤ max by simp; omega) hstart hkeys h13 (Nat.lt_succ_self _)
  have hlen : (p.foldl typeKey []).length < max := by
    rcases hends with ⟨rfl, hall⟩ | ⟨-, hfull⟩
    · have := hall p (List.prefix_refl p)
      omega
    · omega
  refine ⟨p, s'.store (out + (p.foldl typeKey []).length) 0, ?_, ?_, ?_, hends⟩
  · unfold pandoraTerminalReadline
    rw [List.length_nil, Int.natCast_zero] at hloop
    rw [hloop]
    dsimp only
    rw [show (out : Int) + ((p.foldl typeKey []).length : Nat) =
      ((out + (p.foldl typeKey []).length : Nat) : Int) by omega, Word.ofInt_natCast (by omega)]
  · have hend := htyped.append hlen 0
    refine CString.of_bytes (fun hmem => ?_) (fun i hi => ?_) ?_
    · -- no key is null
      have hpoll : (0 : UInt8) ∈ s.polls.filter (· ≠ 0) := by
        rw [hkeys]
        exact List.mem_append_left _ (hends.isPrefix.subset (mem_typed hmem))
      simp at hpoll
    · rw [hend.bytes i (by simp; omega), List.getElem_append_left hi]
    · have := hend.bytes (p.foldl typeKey []).length (by simp)
      simpa using this
  · exact Traced.within_store.2 ⟨⟨by omega, by omega⟩, htyped.within⟩

/-- After an even number of idle backspaces the array holds the edited line, after an odd number one
character more. -/
theorem typed_cases (keys : List UInt8) :
    (Even (idleBackspaces [] keys) ∧ keys.foldl typeKey [] = edited keys) ∨
      (¬ Even (idleBackspaces [] keys) ∧ keys.foldl typeKey [] = 0x08 :: edited keys) := by
  have h := (typed_eq [] keys).1
  by_cases he : Even (idleBackspaces [] keys)
  · rw [if_pos he] at h
    exact .inl ⟨he, h⟩
  · rw [if_neg he] at h
    exact .inr ⟨he, h⟩

/-- **Line editing**: `out` gets the edited text if and only if the number of backspaces that were
struck on an empty line is even, and the line left room for one character more whenever it was odd. -/
theorem readline_edits_iff (hmax : 2 ≤ max) (hout : out + max ≤ 2 ^ 32) (hs : s.memory.written = [])
    (hkeys : s.polls.filter (· ≠ 0) = keys ++ 13 :: rest) (h13 : 13 ∉ keys)
    (hshort : ∀ p, p <+: keys → (edited p).length + 1 < max) :
    ReadsLine (pandoraTerminalReadline s out max w) out max keys ↔
      Even (idleBackspaces [] keys) ∧
        ∀ p, p <+: keys → ¬ Even (idleBackspaces [] p) → (edited p).length + 2 < max := by
  obtain ⟨p, s', hread, htext, hwithin, hends⟩ :=
    readline_spec (w := w) hmax hout hs hkeys h13
  have htyped := typed_cases p
  rcases hends with ⟨rfl, hroom⟩ | ⟨hp, hfull⟩
  · -- the line has ended with the last key
    constructor
    · rintro ⟨s'', he, hline, -⟩
      obtain rfl : s' = s'' := by
        rw [hread] at he
        exact Option.some.inj he
      have htxt := htext.unique hline
      refine ⟨?_, fun p' hp' hodd => ?_⟩
      · rcases htyped with ⟨heven, -⟩ | ⟨-, hahead⟩
        · exact heven
        · rw [hahead] at htxt
          exact absurd (congrArg List.length htxt) (by simp)
      · have := hroom p' hp'
        rcases typed_cases p' with ⟨heven, -⟩ | ⟨-, hahead⟩
        · exact absurd heven hodd
        · rw [hahead, List.length_cons] at this
          omega
    · rintro ⟨heven, -⟩
      rcases htyped with ⟨-, hline⟩ | ⟨hodd, -⟩
      · exact ⟨s', hread, hline ▸ htext, hwithin⟩
      · exact absurd heven hodd
  · -- the array was full before, with a backspace in it
    obtain ⟨hodd, hahead⟩ : ¬ Even (idleBackspaces [] p) ∧
        p.foldl typeKey [] = 0x08 :: edited p := by
      rcases htyped with ⟨-, hline⟩ | hahead
      · have := hshort p hp
        rw [hline] at hfull
        omega
      · exact hahead
    rw [hahead] at htext hfull
    rw [List.length_cons] at hfull
    constructor
    · rintro ⟨s'', he, hline, -⟩
      obtain rfl : s' = s'' := by
        rw [hread] at he
        exact Option.some.inj he
      have htxt := htext.unique hline
      have hmem : (0x08 : UInt8) ∈ edited keys := htxt ▸ List.mem_cons_self
      exact absurd rfl (mem_edited hmem).2
    · rintro ⟨-, hroom⟩
      have := hroom p hp hodd
      omega

end

/-! ## Two lines -/

/-- A poll without a key, `a`, a backspace, another such poll, `b` and a carriage return. -/
theorem readline_edits_iff_corrected :
    ReadsLine (pandoraTerminalReadline ⟨[0, 0x61, 0x08, 0, 0x62, 13], ⟨fun _ => 0, []⟩, []⟩ 0x3FE000
      (1024 : Nat) true) 0x3FE000 1024 [0x61, 0x08, 0x62] := by
  have hshort : ∀ p : List UInt8, p <+: [0x61, 0x08, 0x62] → (edited p).length ≤ 3 := fun p hp =>
    (edited_length_le p).trans hp.length_le
  refine (readline_edits_iff (by decide) (by decide) rfl
    (show _ = [0x61, 0x08, 0x62] ++ 13 :: [] from by decide) (by decide)
    fun p hp => ?_).2 ⟨by decide, fun p hp _ => ?_⟩
  · have := hshort p hp
    omega
  · have := hshort p hp
    omega

/-- A backspace on the empty line, then a carriage return. -/
def idleTyping : Typing where
  polls := [0x08, 13]
  memory := ⟨fun _ => 0, []⟩

theorem readline_keeps_backspace :
    ¬ ReadsLine (pandoraTerminalReadline idleTyping 0x3FE000 (1024 : Nat) true) 0x3FE000 1024 [0x08] := by
  rintro ⟨s, he, hline, -⟩
  obtain ⟨p, s', hread, htext, -, hends⟩ := readline_spec (s := idleTyping) (w := true) (by decide)
    (show 0x3FE000 + 1024 ≤ 2 ^ 32 by decide) rfl
    (show _ = [0x08] ++ 13 :: [] from by decide) (by decide)
  obtain rfl : s' = s := Option.some.inj (hread.symm.trans he)
  have hempty : p.foldl typeKey [] = [] := htext.unique hline
  rcases hends with ⟨rfl, -⟩ | ⟨-, hfull⟩
  · cases hempty
  · rw [hempty] at hfull
    cases hfull

end Pandora
