import Mathlib.Data.List.Forall2
import Pandora.Stdlib.Strtok

/-!
# The tokens of a string (`programs/stdlib/src/string.c`)

`strtok` is called with a string and then with null until it answers null; `tokenize` is such a run. It
returns the words of the string (`strtok_yields_words`): each call cuts one word off, at the first
delimiter behind it, and what the later calls work on lies behind that word (`Cut`).

`strtok.reads` lists the addresses that a call looks at. It writes only there, and what it returns
and writes depends on these bytes alone (`strtok_congr`).
-/

namespace Pandora

open ByteMem

/-! ## The bytes a call looks at -/

/-- The addresses that the loop over the delimiters looks at. -/
def strtok.skipReads (delimiters : List UInt8) (m : Mem) : (fuel pStart : Nat) → List Nat
  | 0, _ => []
  | fuel + 1, pStart =>
    pStart :: if m pStart ∈ delimiters then skipReads delimiters m fuel (Word.add pStart 1) else []

/-- The addresses that the loop to the end of the token looks at. -/
def strtok.findEndReads (delimiters : List UInt8) (m : Mem) : (fuel sp : Nat) → List Nat
  | 0, _ => []
  | fuel + 1, sp =>
    sp :: if m sp = 0 ∨ m sp ∈ delimiters then []
      else findEndReads delimiters m fuel (Word.add sp 1)

/-- The addresses of the characters that a call looks at. -/
def strtok.reads (m : Mem) (sp str : Nat) (delimiters : List UInt8) : List Nat :=
  if str = 0 ∧ sp = 0 then []
  else
    let sp := if str ≠ 0 ∧ sp = 0 then str else sp
    skipReads delimiters m argumentFuel sp ++
      match strtok.skip delimiters m argumentFuel sp with
      | none => []
      | some pStart =>
        if m pStart = 0 then [] else findEndReads delimiters m argumentFuel pStart

section

variable {m m' u : Mem} {delimiters l w r : List UInt8} {p sp sp' str token fuel : Nat}

theorem strtok_skip_congr (h : ∀ x ∈ strtok.skipReads delimiters m fuel p, m' x = m x) :
    strtok.skip delimiters m' fuel p = strtok.skip delimiters m fuel p := by
  induction fuel generalizing p with
  | zero => rfl
  | succ fuel ih =>
    unfold strtok.skipReads at h
    unfold strtok.skip
    rw [h p List.mem_cons_self]
    by_cases hd : m p ∈ delimiters
    · rw [if_pos hd] at h
      rw [if_pos hd, if_pos hd]
      exact ih fun x hx => h x (.tail _ hx)
    · rw [if_neg hd, if_neg hd]

theorem strtok_skip_mem (h : strtok.skip delimiters m fuel p = some token) :
    token ∈ strtok.skipReads delimiters m fuel p := by
  induction fuel generalizing p with
  | zero => cases h
  | succ fuel ih =>
    unfold strtok.skip at h
    unfold strtok.skipReads
    by_cases hd : m p ∈ delimiters
    · rw [if_pos hd] at h
      rw [if_pos hd]
      exact .tail _ (ih h)
    · rw [if_neg hd, Option.some.injEq] at h
      rw [h]
      exact List.mem_cons_self

/-- A byte is as it was, or it was looked at. -/
theorem strtok_findEnd_congr
    (h : ∀ x ∈ strtok.findEndReads delimiters m fuel p, m' x = m x)
    (he : strtok.findEnd delimiters fuel p m = some (sp', u)) :
    ∃ u', strtok.findEnd delimiters fuel p m' = some (sp', u') ∧
      ∀ x, u' x = m' x ∧ u x = m x ∨
        x ∈ strtok.findEndReads delimiters m fuel p ∧ u' x = u x := by
  induction fuel generalizing p with
  | zero => cases he
  | succ fuel ih =>
    unfold strtok.findEndReads at h ⊢
    unfold strtok.findEnd at he ⊢
    rw [h p List.mem_cons_self]
    by_cases hz : m p = 0
    · rw [if_pos hz, Option.some.injEq, Prod.mk.injEq] at he
      obtain ⟨rfl, rfl⟩ := he
      rw [if_pos hz]
      exact ⟨m', rfl, fun x => .inl ⟨rfl, rfl⟩⟩
    rw [if_neg hz] at he ⊢
    by_cases hd : m p ∈ delimiters
    · rw [if_pos hd, Option.some.injEq, Prod.mk.injEq] at he
      obtain ⟨rfl, rfl⟩ := he
      rw [if_pos hd]
      refine ⟨_, rfl, fun x => ?_⟩
      by_cases hx : x = p
      · subst hx
        exact .inr ⟨List.mem_cons_self, by rw [Function.update_self, Function.update_self]⟩
      · exact .inl ⟨Function.update_of_ne hx _ _, Function.update_of_ne hx _ _⟩
    · rw [if_neg hd] at he ⊢
      rw [if_neg (not_or.2 ⟨hz, hd⟩)] at h ⊢
      obtain ⟨u', hu, hx⟩ := ih (fun x hx => h x (.tail _ hx)) he
      refine ⟨u', hu, fun x => ?_⟩
      rcases hx x with hsame | ⟨hmem, heq⟩
      · exact .inl hsame
      · exact .inr ⟨.tail _ hmem, heq⟩

/-- What a call returns and writes depends on the bytes it looks at, and it writes nowhere else. -/
theorem strtok_congr (h : ∀ x ∈ strtok.reads m sp str delimiters, m' x = m x)
    (he : strtok m sp str delimiters = some (token, sp', u)) :
    ∃ u', strtok m' sp str delimiters = some (token, sp', u') ∧
      ∀ x, u' x = m' x ∧ u x = m x ∨ x ∈ strtok.reads m sp str delimiters ∧ u' x = u x := by
  unfold strtok.reads at h ⊢
  unfold strtok at he ⊢
  by_cases hnull : str = 0 ∧ sp = 0
  · rw [if_pos hnull, Option.some.injEq, Prod.mk.injEq, Prod.mk.injEq] at he
    obtain ⟨rfl, rfl, rfl⟩ := he
    rw [if_pos hnull]
    exact ⟨m', rfl, fun x => .inl ⟨rfl, rfl⟩⟩
  rw [if_neg hnull] at h he ⊢
  rw [if_neg hnull]
  obtain ⟨p, hp⟩ : ∃ p, (if str ≠ 0 ∧ sp = 0 then str else sp) = p := ⟨_, rfl⟩
  dsimp only at h he ⊢
  rw [hp] at h he ⊢
  have hskip := strtok_skip_congr fun x hx => h x (List.mem_append_left _ hx)
  rw [hskip]
  cases hq : strtok.skip delimiters m argumentFuel p with
  | none =>
    rw [hq] at he
    cases he
  | some q =>
    have hfirst := h q (List.mem_append_left _ (strtok_skip_mem hq))
    rw [hq] at h he
    dsimp only at h he ⊢
    rw [hfirst]
    by_cases hz : m q = 0
    · rw [if_pos hz, Option.some.injEq, Prod.mk.injEq, Prod.mk.injEq] at he
      obtain ⟨rfl, rfl, rfl⟩ := he
      rw [if_pos hz]
      exact ⟨m', rfl, fun x => .inl ⟨rfl, rfl⟩⟩
    · rw [if_neg hz] at h he ⊢
      rw [if_neg hz]
      cases hfind : strtok.findEnd delimiters argumentFuel q m with
      | none =>
        rw [hfind] at he
        cases he
      | some e =>
        obtain ⟨sp₁, u₁⟩ := e
        rw [hfind, Option.some.injEq, Prod.mk.injEq, Prod.mk.injEq] at he
        obtain ⟨rfl, rfl, rfl⟩ := he
        obtain ⟨u', hu, hx⟩ :=
          strtok_findEnd_congr (fun x hx => h x (List.mem_append_right _ hx)) hfind
        rw [hu]
        refine ⟨u', rfl, fun x => ?_⟩
        rcases hx x with hsame | ⟨hmem, heq⟩
        · exact .inl hsame
        · exact .inr ⟨List.mem_append_right _ hmem, heq⟩

/-! ## A call on a string -/

theorem strtok_skipReads_within (h : CString m p l) (hend : p + l.length < 2 ^ 32) (h0 : 0 ∉ delimiters) :
    ∀ a ∈ strtok.skipReads delimiters m fuel p, p ≤ a ∧ a ≤ p + l.length := by
  intro a ha
  induction fuel generalizing p l with
  | zero => cases ha
  | succ fuel ih =>
    unfold strtok.skipReads at ha
    rcases List.mem_cons.1 ha with rfl | ha
    · exact ⟨Nat.le_refl _, Nat.le_add_right _ _⟩
    cases l with
    | nil =>
      rw [cstring_nil.1 h, if_neg h0] at ha
      cases ha
    | cons c l =>
      rw [List.length_cons] at hend ⊢
      split at ha
      · rw [Word.add_of_lt (by omega)] at ha
        have := ih h.2.2 (by omega) ha
        omega
      · cases ha

theorem strtok_findEndReads_within (h : CString m p l) (hend : p + l.length < 2 ^ 32) :
    ∀ a ∈ strtok.findEndReads delimiters m fuel p, p ≤ a ∧ a ≤ p + l.length := by
  intro a ha
  induction fuel generalizing p l with
  | zero => cases ha
  | succ fuel ih =>
    unfold strtok.findEndReads at ha
    rcases List.mem_cons.1 ha with rfl | ha
    · exact ⟨Nat.le_refl _, Nat.le_add_right _ _⟩
    cases l with
    | nil =>
      rw [if_pos (.inl (cstring_nil.1 h))] at ha
      cases ha
    | cons c l =>
      rw [List.length_cons] at hend ⊢
      split at ha
      · cases ha
      · rw [Word.add_of_lt (by omega)] at ha
        have := ih h.2.2 (by omega) ha
        omega

/-- A call looks at bytes of the string and at its terminator. -/
theorem strtok_reads_within (h : Tokenizing m sp str l) (h0 : 0 ∉ delimiters) :
    ∀ a ∈ strtok.reads m sp str delimiters,
      (if str ≠ 0 ∧ sp = 0 then str else sp) ≤ a ∧
        a ≤ (if str ≠ 0 ∧ sp = 0 then str else sp) + l.length := by
  intro a ha
  have hstr := h.string
  have hend := h.ends
  unfold strtok.reads at ha
  rw [if_neg h.some] at ha
  generalize (if str ≠ 0 ∧ sp = 0 then str else sp) = p at hstr hend ha ⊢
  have hfuel : l.length < argumentFuel := by
    unfold argumentFuel
    omega
  obtain ⟨q, hskip, hle, hq, hlen⟩ := strtok_skip hstr hend h0 hfuel
  rcases List.mem_append.1 ha with ha | ha
  · exact strtok_skipReads_within hstr hend h0 a ha
  · rw [hskip] at ha
    dsimp only at ha
    split at ha
    · cases ha
    · have := strtok_findEndReads_within hq (by omega) a ha
      omega

/-! ## The whole string -/

/-- The tokens, each with the memory when it is returned, `sp` and the memory behind the call that
returns null, and the addresses that were looked at. -/
structure Tokens where
  tokens : List (Nat × Mem)
  sp : Nat
  mem : Mem
  reads : List Nat

/-- `strtok(str, delimiters)`, and then `strtok(NULL, delimiters)` until it returns null. -/
def tokenize (delimiters : List UInt8) : (calls : Nat) → Mem → (sp str : Nat) → Option Tokens
  | 0, _, _, _ => none
  | calls + 1, m, sp, str =>
    match strtok m sp str delimiters with
    | none => none
    | some (token, sp', m') =>
      if token = 0 then some ⟨[], sp', m', strtok.reads m sp str delimiters⟩
      else
        match tokenize delimiters calls m' sp' 0 with
        | none => none
        | some t => some {
            tokens := (token, m') :: t.tokens
            sp := t.sp
            mem := t.mem
            reads := strtok.reads m sp str delimiters ++ t.reads }

/-- The tokens are the words `ws` in the string `l` at `p`, when they are returned and at the end; no
string is worked on any more, only the string was looked at, and its terminator is not written. -/
structure Yields (m : Mem) (p : Nat) (l : List UInt8) (ws : List (List UInt8)) (t : Tokens) : Prop where
  words : List.Forall₂ (fun token w => p ≤ token.1 ∧ token.1 + w.length ≤ p + l.length ∧
    CString token.2 token.1 w ∧ CString t.mem token.1 w) t.tokens ws
  pending : t.sp = 0
  reads : ∀ a ∈ t.reads, p ≤ a ∧ a ≤ p + l.length
  writes : ∀ x, t.mem x ≠ m x → p ≤ x ∧ x < p + l.length

/-- A word is cut off before the others: they lie behind it. -/
theorem Yields.cons {t : Tokens} {ws : List (List UInt8)} {reads : List Nat} (hl : CString m p l)
    (hcut : Cut m m' p token sp' l w r) (hreads : ∀ a ∈ reads, p ≤ a ∧ a ≤ p + l.length)
    (h : Yields m' sp' r ws t) :
    Yields m p l (w :: ws) ⟨(token, m') :: t.tokens, t.sp, t.mem, reads ++ t.reads⟩ := by
  have hstart := hcut.start
  have hwithin := hcut.within
  have hends := hcut.ends
  have hsp : p ≤ sp' := by
    rcases hcut.behind with hlt | rfl
    · omega
    · rw [List.length_nil] at hends
      omega
  refine ⟨.cons ⟨hstart, hwithin, hcut.word, ?_⟩ (h.words.imp ?_), h.pending, fun a ha => ?_, fun x hx => ?_⟩
  · -- what the later calls write is behind the word
    refine hcut.word.congr fun x _ hle => ?_
    by_contra hne
    have hx := h.writes x hne
    rcases hcut.behind with hlt | rfl
    · omega
    · rw [List.length_nil] at hx
      omega
  · rintro token' v ⟨hge, hle, hword, hlast⟩
    exact ⟨by omega, by omega, hword, hlast⟩
  · rcases List.mem_append.1 ha with ha | ha
    · exact hreads a ha
    · have := h.reads a ha
      omega
  · by_cases hlater : t.mem x = m' x
    · -- the call itself wrote, and not the terminator, which is zero already
      dsimp only at hx
      rw [hlater, hcut.mem] at hx
      have hat : x = token + w.length := by
        by_contra hne
        exact hx (Function.update_of_ne hne _ _)
      have hne : m x ≠ 0 := fun hz => by
        rw [hat, Function.update_self] at hx
        exact hx (hat ▸ hz).symm
      have hterminator : m (p + l.length) = 0 := (hl.zero_iff (Nat.le_refl _)).2 rfl
      have hlt : x ≠ p + l.length := fun he => hne (he ▸ hterminator)
      omega
    · have := h.writes x hlater
      omega

/-- The calls from a string that is worked on, or from a new one. -/
theorem tokenize_yields (h0 : 0 ∉ delimiters) (ws : List (List UInt8)) :
    ∀ {m : Mem} {sp str : Nat} {l : List UInt8}, Tokenizing m sp str l →
      words (isDelimiter delimiters) l = ws →
      ∃ t, (∀ calls, ws.length < calls → tokenize delimiters calls m sp str = some t) ∧
        Yields m (if str ≠ 0 ∧ sp = 0 then str else sp) l ws t := by
  induction ws with
  | nil =>
    intro m sp str l h hws
    have hcall := strtok_end h h0 hws
    refine ⟨⟨[], 0, m, strtok.reads m sp str delimiters⟩, fun calls hcalls => ?_,
      ⟨.nil, rfl, strtok_reads_within h h0, fun x hx => absurd rfl hx⟩⟩
    obtain ⟨calls, rfl⟩ : ∃ n, calls = n + 1 := ⟨calls - 1, by omega⟩
    unfold tokenize
    rw [hcall]
    exact if_pos rfl
  | cons w ws ih =>
    intro m sp str l h hws
    obtain ⟨token, sp', m', r, hcall, hcut, hrest⟩ := strtok_cut h h0 hws
    have htoken : token ≠ 0 := by
      have := h.start_ne_zero
      have := hcut.start
      omega
    have hnext := hcut.tokenizing h
    obtain ⟨t, ht, hyields⟩ := ih hnext hrest
    rw [if_neg fun hn => hn.1 rfl] at hyields
    refine ⟨_, fun calls hcalls => ?_, hyields.cons h.string hcut (strtok_reads_within h h0)⟩
    obtain ⟨calls, rfl⟩ : ∃ n, calls = n + 1 := ⟨calls - 1, by omega⟩
    unfold tokenize
    rw [hcall]
    dsimp only
    rw [if_neg htoken, ht calls (by rw [List.length_cons] at hcalls; omega)]

/-- **Tokenizing yields the words**, in as many calls and one more, and leaves no string pending. -/
theorem strtok_yields_words {s : Nat} (h : CString m s l) (hs : s ≠ 0)
    (hend : s + l.length < 2 ^ 32) (h0 : 0 ∉ delimiters) :
    ∃ t, (∀ calls, (words (isDelimiter delimiters) l).length < calls →
        tokenize delimiters calls m 0 s = some t) ∧
      Yields m s l (words (isDelimiter delimiters) l) t := by
  have hat : (if s ≠ 0 ∧ 0 = 0 then s else 0) = s := if_pos ⟨hs, rfl⟩
  have hstart : Tokenizing m 0 s l :=
    ⟨by rwa [hat], fun hn => hs hn.1, by rwa [hat]⟩
  obtain ⟨t, ht, hyields⟩ := tokenize_yields h0 _ hstart rfl
  rw [hat] at hyields
  exact ⟨t, ht, hyields⟩

end

/-- `" a,b"` at `0x1000`. -/
def listMemory : Mem := fun a => [0x20, 0x61, 0x2C, 0x62].getD (a - 0x1000) 0

theorem strtok_yields_words_list :
    0x1000 + [(0x20 : UInt8), 0x61, 0x2C, 0x62].length < 2 ^ 32 ∧ ∃ t,
      (∀ calls, (words (isDelimiter [0x20, 0x2C]) [0x20, 0x61, 0x2C, 0x62]).length < calls →
        tokenize [0x20, 0x2C] calls listMemory 0 0x1000 = some t) ∧
      Yields listMemory 0x1000 [0x20, 0x61, 0x2C, 0x62]
        (words (isDelimiter [0x20, 0x2C]) [0x20, 0x61, 0x2C, 0x62]) t := by
  have hstring : CString listMemory 0x1000 [0x20, 0x61, 0x2C, 0x62] := by
    simp [CString, listMemory]
  exact ⟨by decide, strtok_yields_words hstring (by decide) (by decide) (by decide)⟩

example : words (isDelimiter [0x20, 0x2C]) [0x20, 0x61, 0x2C, 0x62] = [[0x61], [0x62]] := by decide

end Pandora
