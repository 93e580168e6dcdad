import Pandora.Lib.CString
import Pandora.Process.Defs

/-!
# `strtok` (`programs/stdlib/src/string.c`)

`strtok` keeps in `sp` where the next token is looked for; null means that no string is worked on. It
overwrites the delimiter behind a token with a terminator. `strtok_token` and `strtok_end` say what a
call does in terms of the words of what is left of the string.
-/

namespace Pandora

open ByteMem

def isDelimiter (delimiters : List UInt8) (c : UInt8) : Bool := c ∈ delimiters

/-- The loop that skips delimiters: the new `p_start`, or `none` where the memory has nothing else. -/
def strtok.skip (delimiters : List UInt8) (m : Mem) : (fuel pStart : Nat) → Option Nat
  | 0, _ => none
  | fuel + 1, pStart =>
    if m pStart ∈ delimiters then skip delimiters m fuel (Word.add pStart 1) else some pStart

/-- The loop that finds the end of the token: `sp` and the memory. -/
def strtok.findEnd (delimiters : List UInt8) : (fuel sp : Nat) → Mem → Option (Nat × Mem)
  | 0, _, _ => none
  | fuel + 1, sp, m =>
    if m sp = 0 then some (sp, m)
    else if m sp ∈ delimiters then some (Word.add sp 1, Function.update m sp 0)
    else findEnd delimiters fuel (Word.add sp 1) m

/-- The token, `sp` and the memory after the call; `sp` is what it is before. -/
def strtok (m : Mem) (sp str : Nat) (delimiters : List UInt8) : Option (Nat × Nat × Mem) :=
  if str = 0 ∧ sp = 0 then some (0, 0, m)
  else
    let sp := if str ≠ 0 ∧ sp = 0 then str else sp
    match strtok.skip delimiters m argumentFuel sp with
    | none => none
    | some pStart =>
      if m pStart = 0 then some (0, 0, m)
      else
        match strtok.findEnd delimiters argumentFuel pStart m with
        | none => none
        | some (sp, m) => some (pStart, sp, m)

section

variable {m : Mem} {delimiters l : List UInt8} {p sp str : Nat}

/-- The delimiters before the first word are skipped. -/
theorem strtok_skip (h : CString m p l) (hend : p + l.length < 2 ^ 32) (h0 : 0 ∉ delimiters)
    {fuel : Nat} (hf : l.length < fuel) :
    ∃ q, strtok.skip delimiters m fuel p = some q ∧ p ≤ q ∧
      CString m q (l.dropWhile (isDelimiter delimiters)) ∧
      q + (l.dropWhile (isDelimiter delimiters)).length = p + l.length := by
  induction l generalizing p fuel with
  | nil =>
    obtain ⟨fuel, rfl⟩ : ∃ n, fuel = n + 1 := ⟨fuel - 1, by omega⟩
    refine ⟨p, ?_, Nat.le_refl p, h, rfl⟩
    unfold strtok.skip
    rw [cstring_nil.1 h, if_neg h0]
  | cons c l ih =>
    rw [List.length_cons] at hend hf
    obtain ⟨fuel, rfl⟩ : ∃ n, fuel = n + 1 := ⟨fuel - 1, by omega⟩
    obtain ⟨hc, -, hrest⟩ := id h
    unfold strtok.skip
    rw [hc]
    by_cases hd : c ∈ delimiters
    · obtain ⟨q, hq, hle, hstr, hlen⟩ := ih hrest (by omega) (show l.length < fuel by omega)
      rw [if_pos hd, Word.add_of_lt (by omega), List.dropWhile_cons_of_pos (by simpa [isDelimiter] using hd),
        List.length_cons]
      exact ⟨q, hq, by omega, hstr, by omega⟩
    · rw [if_neg hd, List.dropWhile_cons_of_neg (by simpa [isDelimiter] using hd)]
      exact ⟨p, rfl, Nat.le_refl p, h, rfl⟩

/-- The characters up to a delimiter are cut off: behind them is a terminator. -/
theorem strtok_findEnd {w rest : List UInt8} (hw : ∀ c ∈ w, c ∉ delimiters)
    (hrest : ∀ c r, rest = c :: r → c ∈ delimiters) (h : CString m p (w ++ rest))
    (hend : p + (w ++ rest).length < 2 ^ 32) {fuel : Nat} (hf : (w ++ rest).length < fuel) :
    strtok.findEnd delimiters fuel p m =
      some (p + w.length + min 1 rest.length, Function.update m (p + w.length) 0) := by
  induction w generalizing p fuel with
  | nil =>
    rw [List.nil_append] at h hend hf
    obtain ⟨fuel, rfl⟩ : ∃ n, fuel = n + 1 := ⟨fuel - 1, by omega⟩
    unfold strtok.findEnd
    cases rest with
    | nil =>
      rw [if_pos (cstring_nil.1 h)]
      have hsame : Function.update m p 0 = m := Function.update_eq_self_iff.2 (cstring_nil.1 h).symm
      simp [hsame]
    | cons c r =>
      rw [List.length_cons] at hend
      rw [h.1, if_neg h.2.1, if_pos (hrest c r rfl), Word.add_of_lt (by omega)]
      simp
  | cons c w ih =>
    rw [List.cons_append, List.length_cons] at hend hf
    obtain ⟨fuel, rfl⟩ : ∃ n, fuel = n + 1 := ⟨fuel - 1, by omega⟩
    obtain ⟨hc, hc0, htail⟩ := h
    unfold strtok.findEnd
    rw [hc, if_neg hc0, if_neg (hw c List.mem_cons_self), Word.add_of_lt (by omega),
      ih (fun x hx => hw x (.tail _ hx)) htail (by omega) (by omega), List.length_cons,
      show p + 1 + w.length = p + (w.length + 1) by omega]

/-- The string that is worked on is `l`, none is left, or a new one is at `str`. -/
structure Tokenizing (m : Mem) (sp str : Nat) (l : List UInt8) : Prop where
  string : CString m (if str ≠ 0 ∧ sp = 0 then str else sp) l
  some : ¬ (str = 0 ∧ sp = 0)
  ends : (if str ≠ 0 ∧ sp = 0 then str else sp) + l.length < 2 ^ 32

theorem Tokenizing.start_ne_zero (h : Tokenizing m sp str l) :
    (if str ≠ 0 ∧ sp = 0 then str else sp) ≠ 0 := by
  have hsome := h.some
  split
  · rename_i hc
    exact hc.1
  · rename_i hc
    intro h0
    exact hc ⟨fun hs => hsome ⟨hs, h0⟩, h0⟩

/-- The word `w` of the string `l` at `p` is cut off at `token`, and `r` is left at `sp'`. -/
structure Cut (m m' : Mem) (p token sp' : Nat) (l w r : List UInt8) : Prop where
  start : p ≤ token
  within : token + w.length ≤ p + l.length
  word : CString m' token w
  mem : m' = Function.update m (token + w.length) 0
  rest : CString m' sp' r
  ends : sp' + r.length = p + l.length
  behind : token + w.length < sp' ∨ r = []

/-- The next token is the first word; the other words are left. -/
theorem strtok_cut (h : Tokenizing m sp str l) (h0 : 0 ∉ delimiters) {w : List UInt8}
    {ws : List (List UInt8)} (hw : words (isDelimiter delimiters) l = w :: ws) :
    ∃ token sp' m' r, strtok m sp str delimiters = some (token, sp', m') ∧
      Cut m m' (if str ≠ 0 ∧ sp = 0 then str else sp) token sp' l w r ∧
      words (isDelimiter delimiters) r = ws := by
  obtain ⟨p, hp⟩ : ∃ p, (if str ≠ 0 ∧ sp = 0 then str else sp) = p := ⟨_, rfl⟩
  have hstr := h.string
  have hend := h.ends
  rw [hp] at hstr hend
  have hfuel : ∀ {n}, n < 2 ^ 32 → n < argumentFuel := fun hn => by
    unfold argumentFuel
    omega
  obtain ⟨q, hskip, hle, hq, hlen⟩ := strtok_skip hstr hend h0 (hfuel (by omega))
  rw [← words_dropWhile] at hw
  cases hr : l.dropWhile (isDelimiter delimiters) with
  | nil =>
    rw [hr] at hw
    cases hw
  | cons c s =>
    rw [hr] at hw hq hlen
    have hc : isDelimiter delimiters c = false := head_of_dropWhile hr
    rw [words_cons hc, List.cons.injEq] at hw
    obtain ⟨hw, hws⟩ := hw
    -- the word and what is behind it, where it ends with a delimiter if it is not the last
    obtain ⟨rest, hrest⟩ : ∃ rest, s.dropWhile (!isDelimiter delimiters ·) = rest := ⟨_, rfl⟩
    have hsplit : c :: s = w ++ rest := by
      rw [← hw, ← hrest, List.cons_append, List.takeWhile_append_dropWhile]
    have hword : ∀ x ∈ w, x ∉ delimiters := fun x hx => by
      rw [← hw] at hx
      have hx' : isDelimiter delimiters x = false := by
        rcases List.mem_cons.1 hx with rfl | hx
        · exact hc
        · simpa using List.mem_takeWhile_imp hx
      simpa [isDelimiter] using hx'
    have hdelimiter : ∀ x r, rest = x :: r → x ∈ delimiters := fun x r hx => by
      have := head_of_dropWhile (hrest.trans hx)
      simpa [isDelimiter] using this
    rw [hsplit] at hq hlen
    rw [List.length_append] at hlen
    have hfind := strtok_findEnd hword hdelimiter hq (by rw [List.length_append]; omega)
      (hfuel (by rw [List.length_append]; omega))
    have hfirst : m q ≠ 0 := by
      rw [← hsplit] at hq
      rw [hq.1]
      exact hq.2.1
    have hcall : strtok m sp str delimiters =
        some (q, q + w.length + min 1 rest.length, Function.update m (q + w.length) 0) := by
      unfold strtok
      rw [if_neg h.some]
      dsimp only
      rw [hp, hskip]
      dsimp only
      rw [if_neg hfirst, hfind]
    refine ⟨q, _, _, rest.drop 1, hcall, ⟨?_, ?_, hq.cut, rfl, ?_, ?_, ?_⟩, ?_⟩
    · rwa [hp]
    · rw [hp]
      omega
    · cases rest with
      | nil =>
        exact Function.update_self _ _ _
      | cons x r =>
        have hmin : min 1 (x :: r).length = 1 := by simp
        rw [hmin]
        exact (CString.drop hq).2.2.congr fun y hy _ => Function.update_of_ne (by omega) _ _
    · rw [hp]
      cases rest with
      | nil => simpa using hlen
      | cons x r =>
        have hmin : min 1 (x :: r).length = 1 := by simp
        rw [hmin, List.drop_one, List.tail_cons]
        rw [List.length_cons] at hlen
        omega
    · cases rest with
      | nil => exact .inr rfl
      | cons x r =>
        left
        simp
    · rw [← hrest]
      exact hws

/-- What is left behind a token is worked on next. -/
theorem Cut.tokenizing {m' : Mem} {token sp' : Nat} {w r : List UInt8} (h : Tokenizing m sp str l)
    (hcut : Cut m m' (if str ≠ 0 ∧ sp = 0 then str else sp) token sp' l w r) :
    Tokenizing m' sp' 0 r := by
  have hne := h.start_ne_zero
  have hend := h.ends
  have hstart := hcut.start
  have hends := hcut.ends
  have hsp : sp' ≠ 0 := by
    rcases hcut.behind with hlt | rfl
    · omega
    · rw [List.length_nil] at hends
      omega
  have hat : (if (0 : Nat) ≠ 0 ∧ sp' = 0 then 0 else sp') = sp' := if_neg fun hn => hn.1 rfl
  refine ⟨?_, fun hn => hsp hn.2, ?_⟩
  · rw [hat]
    exact hcut.rest
  · rw [hat]
    omega

theorem strtok_token (h : Tokenizing m sp str l) (h0 : 0 ∉ delimiters) {w : List UInt8}
    {ws : List (List UInt8)} (hw : words (isDelimiter delimiters) l = w :: ws) :
    ∃ token sp' m' r, strtok m sp str delimiters = some (token, sp', m') ∧ token ≠ 0 ∧
      CString m' token w ∧ token + w.length < 2 ^ 32 ∧ Tokenizing m' sp' 0 r ∧
      words (isDelimiter delimiters) r = ws := by
  obtain ⟨token, sp', m', r, hcall, hcut, hws⟩ := strtok_cut h h0 hw
  have hne := h.start_ne_zero
  have hend := h.ends
  have hstart := hcut.start
  have hwithin := hcut.within
  exact ⟨token, sp', m', r, hcall, by omega, hcut.word, by omega, hcut.tokenizing h, hws⟩

/-- Behind the last word there is no token, and no string is worked on. -/
theorem strtok_end (h : Tokenizing m sp str l) (h0 : 0 ∉ delimiters)
    (hw : words (isDelimiter delimiters) l = []) : strtok m sp str delimiters = some (0, 0, m) := by
  obtain ⟨p, hp⟩ : ∃ p, (if str ≠ 0 ∧ sp = 0 then str else sp) = p := ⟨_, rfl⟩
  have hstr := h.string
  have hend := h.ends
  rw [hp] at hstr hend
  have hfuel : l.length < argumentFuel := by
    unfold argumentFuel
    omega
  obtain ⟨q, hskip, -, hq, -⟩ := strtok_skip hstr hend h0 hfuel
  rw [← words_dropWhile] at hw
  cases hr : l.dropWhile (isDelimiter delimiters) with
  | nil =>
    rw [hr] at hq
    unfold strtok
    rw [if_neg h.some]
    dsimp only
    rw [hp, hskip]
    dsimp only
    rw [if_pos (cstring_nil.1 hq)]
  | cons c r =>
    have hc : isDelimiter delimiters c = false := head_of_dropWhile hr
    rw [hr, words_cons hc] at hw
    cases hw

end

end Pandora
