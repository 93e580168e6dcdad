import Pandora.Lib.Run
import Pandora.Stdlib.Run

/-!
# One command line after another (`programs/stdlib/src/pandora.c`)

`strtok` keeps its place in `sp`, which only the end of a string sets back to null. A call of
`pandora_parse_command` that was refused an allocation returns before the end of its line, and the next
call works on what is left there. Between two calls the program and the kernel may do anything but call
`strtok`: a `ParseCall` brings its own memories, and `sp` is all that a run of calls hands on.

`parse_commands_alone`: after calls that were refused nothing, a call lists its own words up to its own
first refused allocation. `parse_depends_on_history` is a call that lists something else.
-/

namespace Pandora

open ByteMem

variable {σ : Type}

/-- A call of `pandora_parse_command`, with the kernel and the memory of the program as it finds them. -/
structure ParseCall (σ : Type) where
  kernel : Kernel σ
  mem : Mem
  command : Nat
  max : Int
  scommand : Nat

/-- The nodes from `root` on: where they are and which words they hold. -/
structure Listed (m : Mem) (root : Nat) (nodes : List (Nat × List UInt8)) : Prop where
  walk : Linked.Walk (argumentNext m) 0 root (nodes.map Prod.fst)
  strings : ∀ node ∈ nodes, CString m node.1 (node.2.take 511)

namespace ParseCall

def program (c : ParseCall σ) (sp : Nat) : Program σ :=
  { kernel := c.kernel, mem := c.mem, sp := sp, starved := false }

def run (c : ParseCall σ) (sp : Nat) : Option (Nat × Program σ) :=
  pandoraParseCommand (c.program sp) c.command c.max c.scommand

/-- What the allocations of the call are answered. -/
def answers (c : ParseCall σ) (sp : Nat) : List Nat :=
  pandoraParseCommand.answers (c.program sp) c.command c.max c.scommand

/-- The variable `sp` after the call. -/
def step (sp : Nat) (c : ParseCall σ) : Nat :=
  match c.run sp with
  | none => sp
  | some (_, P) => P.sp

/-- The words that the call is to list: none where `max` is beyond the array, which the line is cut to. -/
def lineWords (c : ParseCall σ) (line : List UInt8) : List (List UInt8) :=
  if 1025 ≤ c.max then [] else words isSpace (line.take 1024)

/-- The line is a string, apart from the array that it is copied to. -/
structure Valid (c : ParseCall σ) (line : List UInt8) : Prop where
  string : CString c.mem c.command line
  line_end : c.command + line.length < 2 ^ 32
  scommand_ne : c.scommand ≠ 0
  scommand_end : c.scommand + 1025 ≤ 2 ^ 32
  apart : c.command + line.length < c.scommand ∨ c.scommand + 1025 ≤ c.command

/-- The list is what the words of the line and the answers of the call's own allocations make it. -/
def ParsesAlone (c : ParseCall σ) (line : List UInt8) (sp : Nat) : Prop :=
  ∃ root P nodes, c.run sp = some (root, P) ∧
    argumentsOf (c.lineWords line) (c.answers sp) = some nodes ∧ Listed P.kernel.mem root nodes

end ParseCall

section

variable {owned : σ → Nat → Prop} {c : ParseCall σ} {m : Mem} {process dir f root sp : Nat}
  {table : Nat → Nat} {bs : List Nat} {line l : List UInt8} {ws : List (List UInt8)}

theorem ArgumentList.listed (h : ArgumentList m root bs (ws.take bs.length)) :
    Listed m root ((bs.map blockAddr).zip ws) := by
  have hlen : bs.length ≤ ws.length := by
    have := h.length_eq
    rw [List.length_take] at this
    omega
  refine ⟨?_, fun node hnode => ?_⟩
  · rw [List.map_fst_zip (by rw [List.length_map]; exact hlen)]
    exact h.walk
  · obtain ⟨i, hi, rfl⟩ := List.getElem_of_mem hnode
    rw [List.length_zip, List.length_map] at hi
    have := (List.forall₂_iff_get.1 h.strings).2 i (by omega) (by rw [List.length_take]; omega)
    simpa using this

/-- A call whose string has been found: it ends, and `sp` is null behind it where nothing was refused. -/
theorem ParseCall.spec (owned : σ → Nat → Prop) (process dir f : Nat) (table : Nat → Nat)
    (hmax : c.max < 1025)
    (ht : Tokenizing (strncpy c.mem c.scommand c.command 1025) sp c.scommand l)
    (hfuel : l.length < argumentFuel) :
    ∃ root P, c.run sp = some (root, P) ∧ (P.sp = 0 ↔ 0 ∉ c.answers sp) ∧
      (Caller owned c.kernel process dir f table → ∃ nodes,
        argumentsOf (words isSpace l) (c.answers sp) = some nodes ∧ Listed P.kernel.mem root nodes) := by
  have hcount := (words_length_le isSpace l).trans_lt hfuel
  obtain ⟨root, P, hrun, -, hsp, hlists⟩ :=
    parseCommand_spec (P := c.program sp) owned process dir f table hmax ht hcount
  refine ⟨root, P, hrun, hsp, fun hc => ?_⟩
  obtain ⟨bs, hlist⟩ := hlists hc
  exact ⟨_, hlist.answered, ArgumentList.listed hlist.list⟩

/-- A call that finds `sp` null works on its own line. -/
theorem ParseCall.Valid.tokenizing (h : c.Valid line) :
    Tokenizing (strncpy c.mem c.scommand c.command 1025) 0 c.scommand (line.take 1024) :=
  tokenizing_line h.string h.line_end h.scommand_ne h.scommand_end h.apart

theorem lineLength_lt (line : List UInt8) : (line.take 1024).length < argumentFuel := by
  rw [List.length_take]
  unfold argumentFuel
  omega

/-- From null, `sp` is null again behind a call exactly where the call was refused nothing. -/
theorem ParseCall.Valid.step_eq_zero_iff (h : c.Valid line) :
    ParseCall.step 0 c = 0 ↔ 0 ∉ c.answers 0 := by
  unfold ParseCall.step
  by_cases hmax : 1025 ≤ c.max
  · have hrun : c.run 0 = some (0, c.program 0) := if_pos hmax
    have hanswers : c.answers 0 = [] := if_pos hmax
    rw [hrun, hanswers]
    exact iff_of_true rfl List.not_mem_nil
  · obtain ⟨root, P, hrun, hsp, -⟩ := ParseCall.spec (fun _ _ => False) 0 0 0 id (by omega)
      h.tokenizing (lineLength_lt line)
    rw [hrun]
    exact hsp

/-- From null, a call lists its own words. -/
theorem ParseCall.Valid.parsesAlone (h : c.Valid line)
    (hc : Caller owned c.kernel process dir f table) : c.ParsesAlone line 0 := by
  unfold ParseCall.ParsesAlone ParseCall.lineWords
  by_cases hmax : 1025 ≤ c.max
  · have hrun : c.run 0 = some (0, c.program 0) := if_pos hmax
    have hanswers : c.answers 0 = [] := if_pos hmax
    rw [if_pos hmax, hanswers]
    exact ⟨0, _, [], hrun, rfl, rfl, fun node hn => absurd hn List.not_mem_nil⟩
  · obtain ⟨root, P, hrun, -, hlist⟩ := ParseCall.spec owned process dir f table (by omega)
      h.tokenizing (lineLength_lt line)
    obtain ⟨nodes, hanswered, hlisted⟩ := hlist hc
    rw [if_neg hmax]
    exact ⟨root, P, nodes, hrun, hanswered, hlisted⟩

/-- Calls that are refused nothing hand a null `sp` on. -/
theorem parse_run_null {os : List (ParseCall σ)}
    (h : Run.Steps ParseCall.step (fun sp c => (∃ line, c.Valid line) ∧ 0 ∉ c.answers sp) 0 os) :
    Run.exec ParseCall.step 0 os = 0 := by
  refine Run.Steps.inv (I := fun sp => sp = 0) ?_ rfl h
  rintro sp c rfl ⟨⟨line, hv⟩, hu⟩
  exact hv.step_eq_zero_iff.2 hu

/-- **A command line is parsed on its own** after calls that were refused no allocation: the list has the
words of this line, up to the first allocation that this call is refused. -/
theorem parse_commands_alone (os : List (ParseCall σ)) (c : ParseCall σ) (line : List UInt8)
    (h : Run.Steps ParseCall.step (fun sp c => (∃ line, c.Valid line) ∧ 0 ∉ c.answers sp) 0 os)
    (hv : c.Valid line) (hc : Caller owned c.kernel process dir f table) :
    c.ParsesAlone line (Run.exec ParseCall.step 0 os) := by
  rw [parse_run_null h]
  exact hv.parsesAlone hc

/-! ## A call that lists something else -/

/-- The end of the last word is the end of the string. -/
theorem strtok_findEnd_last {delimiters : List UInt8} {p fuel : Nat} (h : CString m p l)
    (hd : ∀ x ∈ l, x ∉ delimiters) (hend : p + l.length < 2 ^ 32) (hf : l.length < fuel) :
    strtok.findEnd delimiters fuel p m = some (p + l.length, m) := by
  have hfind := @strtok_findEnd m delimiters p l [] hd (fun _ _ hc => nomatch hc)
    (by rwa [List.append_nil]) (by rwa [List.append_nil]) fuel (by rwa [List.append_nil])
  have hterminator : m (p + l.length) = 0 := (h.zero_iff (Nat.le_refl _)).2 rfl
  have hsame : Function.update m (p + l.length) 0 = m :=
    Function.update_eq_self_iff.2 hterminator.symm
  rw [hsame] at hfind
  exact hfind

/-- A string that is one word: `sp` is left at its end. -/
theorem strtok_last {delimiters : List UInt8} {x : UInt8} {str : Nat}
    (h : Tokenizing m 0 str (x :: l)) (hd : ∀ y ∈ x :: l, y ∉ delimiters) :
    strtok m 0 str delimiters = some (str, str + (x :: l).length, m) := by
  have hne : str ≠ 0 := fun h0 => h.some ⟨h0, rfl⟩
  have hat : (if str ≠ 0 ∧ 0 = 0 then str else 0) = str := if_pos ⟨hne, rfl⟩
  have hstring := h.string
  have hend := h.ends
  rw [hat] at hstring hend
  have hlen : (x :: l).length < argumentFuel := by
    unfold argumentFuel
    omega
  have hskip : strtok.skip delimiters m argumentFuel str = some str := by
    obtain ⟨fuel, hfuel⟩ : ∃ fuel, argumentFuel = fuel + 1 := ⟨2 ^ 32, by unfold argumentFuel; rfl⟩
    rw [hfuel]
    unfold strtok.skip
    rw [hstring.1, if_neg (hd x List.mem_cons_self)]
  have hchar : m str ≠ 0 := by
    rw [hstring.1]
    exact hstring.2.1
  unfold strtok
  rw [if_neg h.some]
  dsimp only
  rw [hat, hskip]
  dsimp only
  rw [if_neg hchar, strtok_findEnd_last hstring hd hend hlen]

/-- A call that is refused its first allocation leaves `sp` behind the first word. -/
theorem ParseCall.step_refused (hmax : c.max < 1025) {token sp' : Nat} {m' : Mem}
    (htok : strtok (strncpy c.mem c.scommand c.command 1025) sp c.scommand spaceDelimiter =
      some (token, sp', m')) (hne : token ≠ 0)
    (h0 : (isr80hCommand4Malloc c.kernel sizeofCommandArgument).1 = 0) : ParseCall.step sp c = sp' := by
  have hcall : Program.strtok
      { c.program sp with mem := strncpy c.mem c.scommand c.command 1025 } c.scommand spaceDelimiter =
      some (token, { c.program sp with mem := m', sp := sp' }) := by
    unfold Program.strtok
    have : strtok (strncpy c.mem c.scommand c.command 1025) (c.program sp).sp c.scommand
      spaceDelimiter = some (token, sp', m') := htok
    rw [this]
  have hrun : ∃ P, c.run sp = some (0, P) ∧ P.sp = sp' := by
    refine ⟨(Program.pandoraMalloc { c.program sp with mem := m', sp := sp' }
      sizeofCommandArgument).2, ?_, rfl⟩
    unfold ParseCall.run pandoraParseCommand
    rw [if_neg (by omega)]
    dsimp only
    have hmem : (c.program sp).mem = c.mem := rfl
    rw [hmem, hcall]
    dsimp only
    rw [if_neg hne]
    exact if_pos h0
  obtain ⟨P, hrun, hsp⟩ := hrun
  unfold ParseCall.step
  rw [hrun]
  exact hsp

/-- The first allocation is answered by the kernel as the call finds it. -/
theorem ParseCall.answers_head (c : ParseCall σ) (sp : Nat) :
    c.answers sp = [] ∨
      ∃ answers, c.answers sp = (isr80hCommand4Malloc c.kernel sizeofCommandArgument).1 :: answers := by
  unfold ParseCall.answers pandoraParseCommand.answers
  split
  · exact .inl rfl
  dsimp only
  split
  · exact .inl rfl
  rename_i token P htok
  split
  · exact .inl rfl
  have hkernel : P.kernel = c.kernel := by
    unfold Program.strtok at htok
    split at htok
    · cases htok
    · rw [Option.some.injEq, Prod.mk.injEq] at htok
      rw [← htok.2]
      rfl
  have hmalloc : (P.pandoraMalloc sizeofCommandArgument).1 =
      (isr80hCommand4Malloc c.kernel sizeofCommandArgument).1 := by
    rw [← hkernel]
    rfl
  rw [← hmalloc]
  right
  split
  · rename_i h0
    exact ⟨[], by rw [h0]⟩
  · split
    · exact ⟨_, rfl⟩
    · exact ⟨_, rfl⟩

end

/-- The line `x`, where no block is free. -/
def refusedCall : ParseCall Unit where
  kernel := { shellKernel with
    kmem := { shellKernel.kmem with
      heap := { saddr := 0x01000000
                table := { entries := fun _ => entryTaken ||| isFirst, total := 25600 } } } }
  mem := fun x => if x = 0x3FD000 then 0x78 else 0
  command := 0x3FD000
  max := 1024
  scommand := 0x3FE000

/-- The line `ab`, where there is room. -/
def laterCall : ParseCall Unit where
  kernel := shellKernel
  mem := fun x => if x = 0x3FD000 then 0x61 else if x = 0x3FD001 then 0x62 else 0
  command := 0x3FD000
  max := 1024
  scommand := 0x3FE000

theorem refusedCall_valid : refusedCall.Valid [0x78] where
  string := ⟨rfl, by decide, rfl⟩
  line_end := by decide
  scommand_ne := by decide
  scommand_end := by decide
  apart := .inl (by decide)

theorem laterCall_valid : laterCall.Valid [0x61, 0x62] where
  string := ⟨rfl, by decide, rfl, by decide, rfl⟩
  line_end := by decide
  scommand_ne := by decide
  scommand_end := by decide
  apart := .inl (by decide)

/-- What the heap refuses is refused to the process. -/
theorem processMalloc_refused {σ : Type} {K : Kernel σ} {k : Kmem} {process size : Nat}
    (h : kzalloc K.kmem size = (0, k)) : (processMalloc K process size).1 = 0 := by
  unfold processMalloc Kernel.kzalloc
  rw [h]
  dsimp only
  rw [if_pos rfl]

theorem refusedCall_malloc :
    (isr80hCommand4Malloc refusedCall.kernel sizeofCommandArgument).1 = 0 := by
  have hk : refusedCall.kernel.kmem.heap.Kernel := ⟨rfl, rfl⟩
  rcases kzalloc_page hk sizeofCommandArgument (by decide) (by decide) with
    ⟨b, -, hfree, -, -⟩ | ⟨he, -⟩
  · exact absurd (show Free (entryTaken ||| isFirst) from hfree) (by decide)
  · exact processMalloc_refused he

theorem refusedCall_word : ∀ y ∈ [(0x78 : UInt8)], y ∉ spaceDelimiter := fun y hy => by
  rw [List.mem_singleton.1 hy]
  decide

/-- It leaves `sp` behind its `x`. -/
theorem refusedCall_step : ParseCall.step 0 refusedCall = 0x3FE001 :=
  ParseCall.step_refused (show (1024 : Int) < 1025 by decide)
    (strtok_last refusedCall_valid.tokenizing refusedCall_word) refusedCall_valid.scommand_ne
    refusedCall_malloc

theorem argumentsOf_single {w : List UInt8} {answers : List Nat} {p : Nat}
    (h : argumentsOf [w] answers = some [(p, w)]) : answers = [p] := by
  cases answers with
  | nil => cases h
  | cons answer answers =>
    by_cases h0 : answer = 0
    · unfold argumentsOf at h
      rw [if_pos h0] at h
      cases h
    · cases answers with
      | nil =>
        rw [argumentsOf_served h0 rfl, Option.some.injEq, List.cons.injEq, Prod.mk.injEq] at h
        rw [h.1.1]
      | cons answer' answers =>
        unfold argumentsOf at h
        rw [if_neg h0] at h
        cases h

/-- From `sp`, it lists the one word that `sp` points to. -/
theorem laterCall_lists {sp : Nat} {l w : List UInt8}
    (ht : Tokenizing (strncpy laterCall.mem 0x3FE000 0x3FD000 1025) sp 0x3FE000 l)
    (hfuel : l.length < argumentFuel) (hw : words isSpace l = [w]) :
    ∃ b P, laterCall.run sp = some (blockAddr b, P) ∧ laterCall.answers sp = [blockAddr b] ∧
      CString P.kernel.mem (blockAddr b) (w.take 511) := by
  have hcaller : Caller noBlocks (laterCall.program sp).kernel (blockAddr 1027) 0x01000000
    pagingUserWriteable (fun i => blockAddr (i + 1)) := shellKernel_caller
  obtain ⟨root, P, hrun, hstarved, -⟩ := pandoraParseCommand_room (P := laterCall.program sp)
    (show (1024 : Int) < 1025 by decide) ht hw hcaller shellKernel_room ⟨rfl, rfl⟩ rfl
    (show 1026 < 25600 by decide) ⟨0, by decide, rfl⟩ (by decide)
  obtain ⟨root', P', hrun', -, -, hlists⟩ := parseCommand_spec (P := laterCall.program sp) noBlocks
    (blockAddr 1027) 0x01000000 pagingUserWriteable (fun i => blockAddr (i + 1))
    (show (1024 : Int) < 1025 by decide) ht ((words_length_le isSpace l).trans_lt hfuel)
  rw [hrun, Option.some.injEq, Prod.mk.injEq] at hrun'
  obtain ⟨rfl, rfl⟩ := hrun'
  obtain ⟨bs, hlist⟩ := hlists hcaller
  have hlisted := (hlist.built hstarved).list
  have hanswered := hlist.answered
  rw [hw] at hlisted hanswered
  obtain ⟨b, rfl⟩ : ∃ b, bs = [b] := List.length_eq_one_iff.1 hlisted.length_eq
  have hstring : CString P.kernel.mem (blockAddr b) (w.take 511) :=
    (List.forall₂_cons.1 hlisted.strings).1
  rw [show root = blockAddr b from hlisted.walk.1] at hrun
  exact ⟨b, P, hrun, argumentsOf_single hanswered, hstring⟩

/-- **A call after one that was refused** lists something else: the word `b` for the line `ab`, with the
answers with which it lists `ab` where `sp` is null. -/
theorem parse_depends_on_history :
    laterCall.ParsesAlone [0x61, 0x62] 0 ∧
      laterCall.answers (Run.exec ParseCall.step 0 [refusedCall]) =
        laterCall.answers 0 ∧
      ¬ laterCall.ParsesAlone [0x61, 0x62] (Run.exec ParseCall.step 0 [refusedCall]) := by
  have hstep : Run.exec ParseCall.step 0 [refusedCall] = 0x3FE001 := by
    rw [Run.exec_cons, Run.exec_nil, refusedCall_step]
  rw [hstep]
  have ht := laterCall_valid.tokenizing
  have hword : words isSpace [0x61, 0x62] = [[0x61, 0x62]] := by decide
  obtain ⟨b₀, -, -, hanswers₀, -⟩ := laterCall_lists ht (by unfold argumentFuel; decide) hword
  -- behind the first character is the end of the line
  have hcopied : CString (strncpy laterCall.mem 0x3FE000 0x3FD000 1025) 0x3FE000 [0x61, 0x62] := ht.string
  have ht' : Tokenizing (strncpy laterCall.mem 0x3FE000 0x3FD000 1025) 0x3FE001 0x3FE000 [0x62] :=
    ⟨hcopied.2.2, by decide, by decide⟩
  obtain ⟨b, P, hrun, hanswers, hstring⟩ := laterCall_lists ht' (by unfold argumentFuel; decide)
    (show words isSpace [0x62] = [[0x62]] by decide)
  have hsame : laterCall.answers 0x3FE001 = laterCall.answers 0 := by
    rcases laterCall.answers_head 0 with h₀ | ⟨rest₀, h₀⟩
    · exact absurd (h₀.symm.trans hanswers₀) (by simp)
    rcases laterCall.answers_head 0x3FE001 with h | ⟨rest, h⟩
    · exact absurd (h.symm.trans hanswers) (by simp)
    rw [hanswers₀, List.cons.injEq] at h₀
    rw [hanswers, List.cons.injEq] at h
    rw [hanswers, hanswers₀, h.1, h₀.1]
  refine ⟨laterCall_valid.parsesAlone shellKernel_caller, hsame, ?_⟩
  rintro ⟨root, P', nodes, hrun', hanswered, hlisted⟩
  rw [hrun, Option.some.injEq, Prod.mk.injEq] at hrun'
  obtain ⟨-, rfl⟩ := hrun'
  have hwords : laterCall.lineWords [0x61, 0x62] = [[0x61, 0x62]] := by decide
  rw [hwords, hanswers, argumentsOf_served (blockAddr_ne_zero b) rfl, Option.some.injEq] at hanswered
  have := hlisted.strings (blockAddr b, [0x61, 0x62]) (by rw [← hanswered]; exact List.mem_singleton_self _)
  have hne : ([0x61, 0x62] : List UInt8).take 511 ≠ [0x62].take 511 := by decide
  exact hne (this.unique hstring)

theorem parse_commands_alone_later :
    laterCall.ParsesAlone [0x61, 0x62] (Run.exec ParseCall.step 0 [laterCall]) := by
  refine parse_commands_alone [laterCall] laterCall [0x61, 0x62] ⟨⟨⟨_, laterCall_valid⟩, ?_⟩, trivial⟩
    laterCall_valid shellKernel_caller
  obtain ⟨b, -, -, hanswers, -⟩ := laterCall_lists laterCall_valid.tokenizing
    (by unfold argumentFuel; decide) (show words isSpace [0x61, 0x62] = [[0x61, 0x62]] by decide)
  rw [hanswers, List.mem_singleton]
  exact (blockAddr_ne_zero b).symm

end Pandora
