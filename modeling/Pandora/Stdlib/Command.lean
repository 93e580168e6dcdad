import Pandora.Process.Arguments
import Pandora.Process.Isr80h
import Pandora.Stdlib.Strtok

/-!
# Command lines (`programs/stdlib/src/pandora.c`)

`pandora_parse_command` cuts a command line into words and builds a list of them in allocations of the
program; `pandora_system_run` hands the list to system call 7. A program has its image and its stack to
itself: they are `Program.mem`, apart from the memory of the kernel, in which its allocations are. An
allocation is mapped at its own address, so the program writes to it there.

`Built` is the list so far. Each round of the loop makes a node for the next word and links it
(`Built.append`), until no word is left (`Built.loop`); `pandoraParseCommand_spec` is the whole call.
-/

namespace Pandora

open ByteMem

variable {σ : Type}

/-- The program that makes the calls. `starved` notes that an allocation was refused; no code reads
it. -/
structure Program (σ : Type) where
  kernel : Kernel σ
  mem : Mem
  /-- The variable `sp` of `strtok`. -/
  sp : Nat
  starved : Bool

def sizeofCommandArgument : Nat := 516

/-- `" "` -/
def spaceDelimiter : List UInt8 := [0x20]

namespace Program

def pandoraMalloc (P : Program σ) (size : Nat) : Nat × Program σ :=
  let (ptr, K) := isr80hCommand4Malloc P.kernel size
  (ptr, { P with kernel := K, starved := P.starved || ptr == 0 })

def strtok (P : Program σ) (str : Nat) (delimiters : List UInt8) : Option (Nat × Program σ) :=
  match Pandora.strtok P.mem P.sp str delimiters with
  | none => none
  | some (token, sp, m) => some (token, { P with sp := sp, mem := m })

/-- `strncpy(argument->argument, token, 512)` and `argument->next = 0` -/
def setArgument (P : Program σ) (argument token : Nat) : Program σ :=
  let m := copyString P.mem argument token 511 0 P.kernel.mem
  { P with kernel := P.kernel.withMem (write32 m (Word.add argument 512) 0) }

/-- `current->next = next` -/
def setNext (P : Program σ) (current next : Nat) : Program σ :=
  { P with kernel := P.kernel.withMem (write32 P.kernel.mem (Word.add current 512) next) }

end Program

/-- The loop of `pandora_parse_command`; `none` where it does not end within `fuel` words. -/
def pandoraParseCommand.loop : (fuel current token : Nat) → Program σ → Option (Program σ)
  | 0, _, _, _ => none
  | fuel + 1, current, token, P =>
    if token = 0 then some P
    else
      let (newCommand, P) := P.pandoraMalloc sizeofCommandArgument
      if newCommand = 0 then some P
      else
        let P := P.setArgument newCommand token
        let P := P.setNext current newCommand
        match P.strtok 0 spaceDelimiter with
        | none => none
        | some (token, P) => loop fuel newCommand token P

/-- The list and the program after the call; `scommand` is where the array is on the stack. -/
def pandoraParseCommand (P : Program σ) (command : Nat) (max : Int) (scommand : Nat) :
    Option (Nat × Program σ) :=
  if 1025 ≤ max then some (0, P)
  else
    let P := { P with mem := strncpy P.mem scommand command 1025 }
    match P.strtok scommand spaceDelimiter with
    | none => none
    | some (token, P) =>
      if token = 0 then some (0, P)
      else
        let (rootCommand, P) := P.pandoraMalloc sizeofCommandArgument
        if rootCommand = 0 then some (0, P)
        else
          let P := P.setArgument rootCommand token
          match P.strtok 0 spaceDelimiter with
          | none => none
          | some (token, P) =>
            match pandoraParseCommand.loop argumentFuel rootCommand token P with
            | none => none
            | some P => some (rootCommand, P)

/-- What the allocations of the loop are answered: the pointers, the last one null if it is refused. -/
def pandoraParseCommand.loopAnswers : (fuel current token : Nat) → Program σ → List Nat
  | 0, _, _, _ => []
  | fuel + 1, current, token, P =>
    if token = 0 then []
    else
      let (newCommand, P) := P.pandoraMalloc sizeofCommandArgument
      if newCommand = 0 then [0]
      else
        let P := P.setArgument newCommand token
        let P := P.setNext current newCommand
        match P.strtok 0 spaceDelimiter with
        | none => [newCommand]
        | some (token, P) => newCommand :: loopAnswers fuel newCommand token P

/-- What the allocations of the call are answered. -/
def pandoraParseCommand.answers (P : Program σ) (command : Nat) (max : Int) (scommand : Nat) :
    List Nat :=
  if 1025 ≤ max then []
  else
    let P := { P with mem := strncpy P.mem scommand command 1025 }
    match P.strtok scommand spaceDelimiter with
    | none => []
    | some (token, P) =>
      if token = 0 then []
      else
        let (rootCommand, P) := P.pandoraMalloc sizeofCommandArgument
        if rootCommand = 0 then [0]
        else
          let P := P.setArgument rootCommand token
          match P.strtok 0 spaceDelimiter with
          | none => [rootCommand]
          | some (token, P) => rootCommand :: loopAnswers argumentFuel rootCommand token P

/-- The nodes that a list of `words` has where the allocations for them are answered so: there is one
for each word, until one is refused. -/
def argumentsOf : (words : List (List UInt8)) → (answers : List Nat) →
    Option (List (Nat × List UInt8))
  | [], [] => some []
  | w :: words, answer :: answers =>
    if answer = 0 then some [] else (argumentsOf words answers).map ((answer, w) :: ·)
  | _, _ => none

/-- `buf` and `scommand` are where the arrays are on the stack. -/
def pandoraSystemRun (F : FileLayer σ) (P : Program σ) (command buf scommand stale : Nat) :
    Option (SyscallEnd σ) :=
  let P := { P with mem := strncpy P.mem buf command 1024 }
  match pandoraParseCommand P buf 1024 scommand with
  | none => none
  | some (rootCommandArgument, P) =>
    if rootCommandArgument = 0 then some (.returned (Word.ofInt (-1)) P.kernel)
    else isr80hCommand7InvokeSystemCommand F P.kernel rootCommandArgument stale

/-! ## Nodes -/

section

variable {owned : σ → Nat → Prop} {K K' : Kernel σ} {process dir f b c i size : Nat}
  {table : Nat → Nat} {bs : List Nat} {ws : List (List UInt8)} {w : List UInt8}

/-- A node for the word `w` has been made in the block `b`. -/
structure NodeAdded (owned : σ → Nat → Prop) (K K' : Kernel σ) (process dir f : Nat)
    (table : Nat → Nat) (b : Nat) (w : List UInt8) : Prop where
  held : HeldDir K' process dir f table
  tidy : Tidy (owned K'.files) K'.kmem
  dataOnly : K.DataOnly K' process
  block : DataBlock K' process dir table b
  foreign : ¬ owned K'.files b
  string : CString K'.mem (blockAddr b) (w.take 511)
  next : argumentNext K'.mem (blockAddr b) = 0
  page : pageEntry K'.mem table (4096 + b) = 4096 * (4096 + b) ||| pagingUserWriteable
  others : ∀ j, DataBlock K process dir table j → j ≠ b ∧ DataBlock K' process dir table j ∧
    SameBlock K.mem K'.mem j ∧ pageEntry K'.mem table (4096 + j) = pageEntry K.mem table (4096 + j)

/-- The allocation of a node and the writes to it. -/
theorem Malloced.node (h : Malloced K K' process sizeofCommandArgument dir f table b i)
    (hd : HeldDir K process dir f table) (ht : Tidy (owned K.files) K.kmem) {u : Mem} {token : Nat}
    (hw : CString u token w) (hend : token + w.length < 2 ^ 32) :
    NodeAdded owned K (K'.withMem (write32 (copyString u (blockAddr b) token 511 0 K'.mem)
      (Word.add (blockAddr b) 512) 0)) process dir f table b w := by
  have h1 : 1 ≤ sizeofCommandArgument := by decide
  have hd' := h.heldDir hd h1
  have hb := h.newBlock hd h1
  obtain ⟨m, hm⟩ : ∃ m, write32 (copyString u (blockAddr b) token 511 0 K'.mem)
    (Word.add (blockAddr b) 512) 0 = m := ⟨_, rfl⟩
  obtain ⟨hstring, hnext, hframe⟩ := argumentNode_spec (m := K'.mem) hb.lt hw hend hm.symm
  obtain ⟨hheld, hpages⟩ := hd'.write hb hframe
  have hfree : Free (K.entries b) := h.free 0 (blocksFor_pos h1)
  have htidy := h.tidy h1 ht
  rw [hm]
  refine ⟨hheld, ?_, h.dataOnly.trans ⟨rfl, rfl⟩, hb.withMem m, ?_, hstring, hnext, ?_, fun j hj => ?_⟩
  · rw [← h.files_eq] at htidy
    exact ⟨htidy.kernel, htidy.clean, htidy.owned⟩
  · intro ho
    change owned K'.files b at ho
    rw [h.files_eq] at ho
    exact (ht.owned b ho).2 hfree
  · have := hb.lt
    exact (hpages _ (by omega)).trans (h.newPage h1)
  · have hne := h.ne h1 hj.taken
    have hlt := hj.lt
    refine ⟨hne, (h.dataBlock h1 hj).withMem m, (h.sameBlock hd hj).trans
      (sameBlock_of_outside hne hframe), ?_⟩
    exact (hpages _ (by omega)).trans (h.pageEntry_eq hj.lt hj.taken)

/-- The process that makes the calls, with its directory and its task. -/
structure Caller (owned : σ → Nat → Prop) (K : Kernel σ) (process dir f : Nat) (table : Nat → Nat) :
    Prop where
  held : HeldDir K process dir f table
  tidy : Tidy (owned K.files) K.kmem
  task : (K.processAt process).task = K.queue.current
  owner : (K.queue.task K.queue.current).process = process

theorem NodeAdded.caller (h : NodeAdded owned K K' process dir f table b w)
    (hc : Caller owned K process dir f table) : Caller owned K' process dir f table where
  held := h.held
  tidy := h.tidy
  task := by
    have hq : K'.queue = K.queue := by rw [h.dataOnly.state]
    rw [hq, h.dataOnly.task, hc.task]
  owner := by
    have hq : K'.queue = K.queue := by rw [h.dataOnly.state]
    rw [hq, hc.owner]

/-- The list of the words `ws` in blocks of the caller, mapped at their own addresses. -/
structure Built (owned : σ → Nat → Prop) (K : Kernel σ) (process dir f : Nat) (table : Nat → Nat)
    (root : Nat) (bs : List Nat) (ws : List (List UInt8)) : Prop
    extends Caller owned K process dir f table where
  list : ArgumentList K.mem root bs ws
  nodes : ∀ b ∈ bs, DataBlock K process dir table b ∧ ¬ owned K.files b ∧
    pageEntry K.mem table (4096 + b) = 4096 * (4096 + b) ||| pagingUserWriteable

/-- The first node. -/
theorem NodeAdded.built (h : NodeAdded owned K K' process dir f table b w)
    (hc : Caller owned K process dir f table) :
    Built owned K' process dir f table (blockAddr b) [b] [w] where
  toCaller := h.caller hc
  list := .single h.string h.next
  nodes := fun j hj => by
    obtain rfl := List.mem_singleton.1 hj
    exact ⟨h.block, h.foreign, h.page⟩

/-- The next node is linked behind the last one. -/
theorem Built.append {root : Nat} (h : Built owned K process dir f table root (bs ++ [c]) ws)
    (hn : NodeAdded owned K K' process dir f table b w) :
    Built owned (K'.withMem (write32 K'.mem (Word.add (blockAddr c) 512) (blockAddr b))) process dir f
      table root (bs ++ [c, b]) (ws ++ [w]) := by
  obtain ⟨hc, hcown, hcpage⟩ := h.nodes c (List.mem_append_right _ (List.mem_singleton_self c))
  obtain ⟨hcb, hc', hcsame, -⟩ := hn.others c hc
  have hltb := blockAddr_lt hn.block.lt
  have hltc := blockAddr_lt hc.lt
  obtain ⟨m, hm⟩ : ∃ m, write32 K'.mem (Word.add (blockAddr c) 512) (blockAddr b) = m := ⟨_, rfl⟩
  rw [hm]
  rw [Word.add_of_lt (by omega)] at hm
  have hframe : ∀ x, (x < blockAddr c + 512 ∨ blockAddr c + 516 ≤ x) → m x = K'.mem x := fun x hx => by
    rw [← hm]
    exact write32_apply (by omega)
  have hout : ∀ x, (x < blockAddr c ∨ blockAddr c + 4096 ≤ x) → m x = K'.mem x := fun x hx =>
    hframe x (by omega)
  obtain ⟨hheld, hpages⟩ := hn.held.write hc' hout
  have hcaller := hn.caller h.toCaller
  -- no node is met twice
  have hne : ∀ j ∈ bs, j ≠ c := fun j hj he => by
    have hnodup := h.list.walk.nodup
    rw [List.map_append, List.map_singleton] at hnodup
    have hdisj := (List.nodup_append.1 hnodup).2.2
    exact hdisj _ (List.mem_map.2 ⟨j, hj, rfl⟩) _ (List.mem_singleton_self _) (by rw [he])
  have hsame : ∀ j ∈ bs, SameBlock K.mem m j := fun j hj => by
    obtain ⟨-, -, hs, -⟩ := hn.others j (h.nodes j (List.mem_append_left _ hj)).1
    exact hs.trans (sameBlock_of_outside (hne j hj) hout)
  have hbsame : SameBlock K'.mem m b := sameBlock_of_outside (Ne.symm hcb) hout
  refine ⟨⟨hheld, ?_, hcaller.task, hcaller.owner⟩, ?_, fun j hj => ?_⟩
  · exact ⟨hcaller.tidy.kernel, hcaller.tidy.clean, hcaller.tidy.owned⟩
  · refine h.list.snoc (fun j hj => (h.nodes j hj).1.lt) hsame (fun x hx hx' => ?_) ?_ ?_ ?_
    · change m x = K.mem x
      rw [hframe x (by omega)]
      exact hcsame x hx (by omega)
    · change argumentNext m (blockAddr c) = blockAddr b
      rw [argumentNext_eq hc.lt, ← hm, read32_write32 _ _ (by omega)]
    · exact cstring_take_congr hn.string fun x hx hx' => hbsame x hx (by omega)
    · exact (argumentNext_sameBlock hn.block.lt hbsame).trans hn.next
  · have hkeep : ∀ j, DataBlock K' process dir table j → pageEntry m table (4096 + j) =
        pageEntry K'.mem table (4096 + j) := fun j hj => by
      have := hj.lt
      exact hpages _ (by omega)
    have hnew : b = j ∨ j ∈ bs ++ [c] := by
      rw [show bs ++ [c, b] = bs ++ [c] ++ [b] by simp] at hj
      rcases List.mem_append.1 hj with hj | hj
      · exact .inr hj
      · exact .inl (List.mem_singleton.1 hj).symm
    rcases hnew with rfl | hj
    · exact ⟨hn.block.withMem m, hn.foreign, (hkeep b hn.block).trans hn.page⟩
    · obtain ⟨hdata, hown, hpage⟩ := h.nodes j hj
      obtain ⟨-, hdata', -, hpage'⟩ := hn.others j hdata
      refine ⟨hdata'.withMem m, ?_, (hkeep j hdata').trans (hpage'.trans hpage)⟩
      have hfiles : K'.files = K.files := by rw [hn.dataOnly.state]
      change ¬ owned K'.files j
      rw [hfiles]
      exact hown

end

/-! ## The words of the line -/

section

variable {P P' : Program σ} {m : Mem} {sp str token : Nat} {l w : List UInt8}
  {ws : List (List UInt8)}

abbrev isSpace : UInt8 → Bool := isDelimiter spaceDelimiter

/-- The words `ws` are still to come, and `token` is the first one. -/
inductive Pending (m : Mem) (sp token : Nat) : List (List UInt8) → Prop where
  | done : token = 0 → Pending m sp token []
  | word (w r : List UInt8) (ws : List (List UInt8)) : token ≠ 0 → CString m token w →
      token + w.length < 2 ^ 32 → Tokenizing m sp 0 r → words isSpace r = ws →
      Pending m sp token (w :: ws)

theorem strtok_pending (h : Tokenizing m sp str l) :
    ∃ token sp' m', strtok m sp str spaceDelimiter = some (token, sp', m') ∧
      Pending m' sp' token (words isSpace l) ∧ (token = 0 → sp' = 0) := by
  have h0 : 0 ∉ spaceDelimiter := by decide
  obtain ⟨ws, hws⟩ : ∃ ws, words isSpace l = ws := ⟨_, rfl⟩
  cases ws with
  | nil =>
    rw [hws]
    exact ⟨0, 0, m, strtok_end h h0 hws, .done rfl, fun _ => rfl⟩
  | cons w ws =>
    obtain ⟨token, sp', m', r, he, hne, hw, hend, hr, hwords⟩ := strtok_token h h0 hws
    rw [hws]
    exact ⟨token, sp', m', he, .word w r ws hne hw hend hr hwords, fun ht => absurd ht hne⟩

/-- The next token is looked for in the memory of the program. -/
theorem Program.strtok_pending (h : Tokenizing P.mem P.sp str l) :
    ∃ token P', P.strtok str spaceDelimiter = some (token, P') ∧ P'.kernel = P.kernel ∧
      P'.starved = P.starved ∧ Pending P'.mem P'.sp token (words isSpace l) ∧
      (token = 0 → P'.sp = 0) := by
  obtain ⟨token, sp', m', htok, hp, hsp⟩ := Pandora.strtok_pending h
  refine ⟨token, { P with sp := sp', mem := m' }, ?_, rfl, rfl, hp, hsp⟩
  unfold Program.strtok
  rw [htok]

/-- A refused allocation, a fault and a short run stay noted, and the table of processes is as it
was. -/
structure Program.Later (P P' : Program σ) : Prop where
  starved : P.starved = true → P'.starved = true
  rises : P.kernel.kmem.Rises P'.kernel.kmem
  processes : P'.kernel.processes = P.kernel.processes

theorem Program.Later.trans {P'' : Program σ} (h : P.Later P') (h' : P'.Later P'') : P.Later P'' :=
  ⟨fun hs => h'.starved (h.starved hs), h.rises.trans h'.rises, h'.processes.trans h.processes⟩

theorem Program.pandoraMalloc_eq {size ptr : Nat} (h : P.pandoraMalloc size = (ptr, P')) :
    P' = { P with kernel := P'.kernel, starved := P.starved || ptr == 0 } := by
  unfold Program.pandoraMalloc at h
  dsimp only at h
  rw [Prod.mk.injEq] at h
  obtain ⟨rfl, rfl⟩ := h
  rfl

theorem Program.pandoraMalloc_later (P : Program σ) (size : Nat) :
    P.Later (P.pandoraMalloc size).2 where
  starved := fun hs => by
    unfold Program.pandoraMalloc
    dsimp only
    rw [hs, Bool.true_or]
  rises := processMalloc_rises _ _ _
  processes := processMalloc_processes _ _ _

variable {owned : σ → Nat → Prop} {process dir f fuel : Nat} {table : Nat → Nat}

/-- An allocation that is served becomes a node. -/
theorem Caller.malloc (h : Caller owned P.kernel process dir f table) {u : Mem} {ptr : Nat}
    (hm : P.pandoraMalloc sizeofCommandArgument = (ptr, P')) (hne : ptr ≠ 0)
    (hw : CString u token w) (hend : token + w.length < 2 ^ 32) :
    ∃ b, ptr = blockAddr b ∧ NodeAdded owned P.kernel
      (P'.kernel.withMem (write32 (copyString u (blockAddr b) token 511 0 P'.kernel.mem)
        (Word.add (blockAddr b) 512) 0)) process dir f table b w := by
  have hcall : processMalloc P.kernel process sizeofCommandArgument = (ptr, P'.kernel) := by
    unfold Program.pandoraMalloc isr80hCommand4Malloc at hm
    rw [h.owner] at hm
    dsimp only at hm
    rw [Prod.mk.injEq] at hm
    obtain ⟨hptr, hP'⟩ := hm
    rw [← hP', ← hptr]
  obtain ⟨b, i, K', he, hmalloced⟩ := processMalloc_page h.held
    (show 1 ≤ sizeofCommandArgument by decide) (by decide) (by rw [hcall]; exact hne)
  rw [hcall, Prod.mk.injEq] at he
  obtain ⟨hptr, rfl⟩ := he
  exact ⟨b, hptr, hmalloced.node h.held h.tidy hw hend⟩

@[simp] theorem argumentsOf_refused (w : List UInt8) (ws : List (List UInt8)) :
    argumentsOf (w :: ws) [0] = some [] := rfl

theorem argumentsOf_served {answer : Nat} {answers : List Nat} {nodes : List (Nat × List UInt8)}
    (hne : answer ≠ 0) (h : argumentsOf ws answers = some nodes) :
    argumentsOf (w :: ws) (answer :: answers) = some ((answer, w) :: nodes) := by
  unfold argumentsOf
  rw [if_neg hne, h]
  rfl

/-- What is made of the words `ws` behind the nodes `old`: a node for each word up to a refused
allocation. -/
structure Program.Lists (owned : σ → Nat → Prop) (P' : Program σ) (process dir f : Nat)
    (table : Nat → Nat) (root : Nat) (answers old : List Nat) (done ws : List (List UInt8))
    (bs : List Nat) : Prop where
  answered : argumentsOf ws answers = some ((bs.map blockAddr).zip ws)
  list : ArgumentList P'.kernel.mem root (old ++ bs) (done ++ ws.take bs.length)
  built : P'.starved = false → Built owned P'.kernel process dir f table root (old ++ bs) (done ++ ws)

/-- A refused allocation leaves the list alone. -/
theorem Built.refused {root : Nat} {bs : List Nat} (h : Built owned P.kernel process dir f table root bs ws)
    (hm : P.pandoraMalloc sizeofCommandArgument = (0, P')) : ArgumentList P'.kernel.mem root bs ws := by
  have hcall : processMalloc P.kernel process sizeofCommandArgument = (0, P'.kernel) := by
    unfold Program.pandoraMalloc isr80hCommand4Malloc at hm
    rw [h.owner] at hm
    dsimp only at hm
    rw [Prod.mk.injEq] at hm
    obtain ⟨hptr, hP'⟩ := hm
    rw [← hP', ← hptr]
  refine h.list.sameBlocks (fun b hb => (h.nodes b hb).1.lt) fun b hb => ?_
  have hdata := (h.nodes b hb).1
  have := processMalloc_refused_sameBlock h.held (show 1 ≤ sizeofCommandArgument by decide)
    (by decide) (by rw [hcall]) hdata.lt hdata.taken
  rwa [hcall] at this

/-- The loop ends, with a node behind the list for each word up to a refused allocation. Where one is
refused, `sp` is left where the next word is. -/
theorem parseCommand_loop_spec (owned : σ → Nat → Prop) (process dir f : Nat) (table : Nat → Nat)
    (root current : Nat) (hp : Pending P.mem P.sp token ws) (hsp : token = 0 → P.sp = 0)
    (hfuel : ws.length < fuel) :
    ∃ P', pandoraParseCommand.loop fuel current token P = some P' ∧ P.Later P' ∧
      (P'.sp = 0 ↔ 0 ∉ pandoraParseCommand.loopAnswers fuel current token P) ∧
      ∀ bs c done, current = blockAddr c →
        Built owned P.kernel process dir f table root (bs ++ [c]) done →
        ∃ bs', P'.Lists owned process dir f table root
          (pandoraParseCommand.loopAnswers fuel current token P) (bs ++ [c]) done ws bs' := by
  induction ws generalizing P token current fuel with
  | nil =>
    obtain ⟨fuel, rfl⟩ : ∃ n, fuel = n + 1 := ⟨fuel - 1, by omega⟩
    cases hp with
    | done h0 =>
      unfold pandoraParseCommand.loop pandoraParseCommand.loopAnswers
      rw [if_pos h0, if_pos h0]
      refine ⟨P, rfl, ⟨id, .refl _, rfl⟩, iff_of_true (hsp h0) List.not_mem_nil,
        fun bs c done _ hb => ⟨[], rfl, ?_, ?_⟩⟩
      · rw [List.append_nil, List.take_nil, List.append_nil]
        exact hb.list
      · rw [List.append_nil, List.append_nil]
        exact fun _ => hb
  | cons w ws ih =>
    obtain ⟨fuel, rfl⟩ : ∃ n, fuel = n + 1 := ⟨fuel - 1, by omega⟩
    rw [List.length_cons] at hfuel
    cases hp with
    | word _ r _ hne hw hend hr hwords =>
      unfold pandoraParseCommand.loop pandoraParseCommand.loopAnswers
      rw [if_neg hne, if_neg hne]
      obtain ⟨⟨ptr, P₁⟩, hm⟩ : ∃ r, P.pandoraMalloc sizeofCommandArgument = r := ⟨_, rfl⟩
      have hlater := P.pandoraMalloc_later sizeofCommandArgument
      rw [hm] at hlater ⊢
      dsimp only at hlater ⊢
      by_cases hptr : ptr = 0
      · -- the allocation is refused
        have hstarved : P₁.starved = true := by
          rw [Program.pandoraMalloc_eq hm, hptr]
          exact Bool.or_true _
        rw [if_pos hptr, if_pos hptr]
        have hsp₁ : P₁.sp = P.sp := by rw [Program.pandoraMalloc_eq hm]
        refine ⟨P₁, rfl, hlater, iff_of_false (fun h0 => hr.some ⟨rfl, hsp₁.symm.trans h0⟩)
          fun hn => hn (List.mem_singleton_self 0), fun bs c done _ hb => ⟨[], rfl, ?_, fun hs => ?_⟩⟩
        · rw [List.append_nil, List.length_nil, List.take_zero, List.append_nil]
          exact hb.refused (by rw [hm, hptr])
        · exact absurd (hs.symm.trans hstarved) Bool.false_ne_true
      rw [if_neg hptr, if_neg hptr]
      -- the next token is in the memory of the program
      obtain ⟨P₂, hP₂⟩ : ∃ P₂, (P₁.setArgument ptr token).setNext current ptr = P₂ := ⟨_, rfl⟩
      have hmem : P₂.mem = P.mem := by
        rw [← hP₂, Program.pandoraMalloc_eq hm]
        rfl
      have hsp₂ : P₂.sp = P.sp := by
        rw [← hP₂, Program.pandoraMalloc_eq hm]
        rfl
      rw [← hmem, ← hsp₂] at hr
      obtain ⟨token', P₃, htok, hkernel₃, hstarved₃, hp', hsp₃⟩ := Program.strtok_pending hr
      rw [hwords] at hp'
      rw [hP₂, htok]
      dsimp only
      have hlater₃ : P₁.Later P₃ := by
        refine ⟨fun hs => ?_, ?_, ?_⟩
        · rw [hstarved₃, ← hP₂]
          exact hs
        · rw [hkernel₃, ← hP₂]
          exact ⟨id, id⟩
        · rw [hkernel₃, ← hP₂]
          rfl
      obtain ⟨P', hloop, hlater', hend', hbuilt⟩ := ih ptr hp' hsp₃ (show ws.length < fuel by omega)
      refine ⟨P', hloop, (hlater.trans hlater₃).trans hlater', hend'.trans ?_,
        fun bs c done hc hb => ?_⟩
      · rw [List.mem_cons, not_or]
        exact ⟨fun h => ⟨Ne.symm hptr, h⟩, fun h => h.2⟩
      obtain ⟨b, rfl, hnode⟩ := hb.toCaller.malloc hm hptr hw hend
      have happend := hb.append hnode
      have hkernel : P₃.kernel = (P₁.kernel.withMem (write32 (copyString P.mem (blockAddr b) token 511 0
          P₁.kernel.mem) (Word.add (blockAddr b) 512) 0)).withMem (write32 (write32 (copyString P.mem
            (blockAddr b) token 511 0 P₁.kernel.mem) (Word.add (blockAddr b) 512) 0)
              (Word.add (blockAddr c) 512) (blockAddr b)) := by
        have hmem₁ : P₁.mem = P.mem := by rw [Program.pandoraMalloc_eq hm]
        rw [hkernel₃, ← hP₂, ← hmem₁, hc]
        rfl
      have hstep : Built owned P₃.kernel process dir f table root (bs ++ [c] ++ [b]) (done ++ [w]) := by
        rw [hkernel, List.append_assoc]
        exact happend
      obtain ⟨bs', hfinal⟩ := hbuilt (bs ++ [c]) b (done ++ [w]) rfl hstep
      refine ⟨b :: bs', argumentsOf_served hptr hfinal.answered, ?_, fun hs => ?_⟩
      · rw [List.append_cons _ b, List.length_cons, List.take_succ_cons, List.append_cons done]
        exact hfinal.list
      · rw [List.append_cons _ b, List.append_cons done]
        exact hfinal.built hs

/-- `pandora_parse_command`, where the string that `strtok` works on has words: it ends, and with a list
of them up to a refused allocation. -/
theorem parseCommand_spec (owned : σ → Nat → Prop) (process dir f : Nat) (table : Nat → Nat)
    {command scommand : Nat} {max : Int} (hmax : max < 1025)
    (ht : Tokenizing (strncpy P.mem scommand command 1025) P.sp scommand l)
    (hfuel : (words isSpace l).length < argumentFuel) :
    ∃ root P', pandoraParseCommand P command max scommand = some (root, P') ∧ P.Later P' ∧
      (P'.sp = 0 ↔ 0 ∉ pandoraParseCommand.answers P command max scommand) ∧
      (Caller owned P.kernel process dir f table → ∃ bs, P'.Lists owned process dir f table root
        (pandoraParseCommand.answers P command max scommand) [] [] (words isSpace l) bs) := by
  obtain ⟨P₀, hP₀⟩ : ∃ P₀, { P with mem := strncpy P.mem scommand command 1025 } = P₀ := ⟨_, rfl⟩
  have hkernel₀ : P₀.kernel = P.kernel := by rw [← hP₀]
  have hstarved₀ : P₀.starved = P.starved := by rw [← hP₀]
  have ht₀ : Tokenizing P₀.mem P₀.sp scommand l := by
    rw [← hP₀]
    exact ht
  obtain ⟨token, P₁, htok, hkernel₁, hstarved₁, hp, hsp₁⟩ := Program.strtok_pending ht₀
  have hlater₁ : P.Later P₁ := by
    refine ⟨fun hs => ?_, ?_, ?_⟩
    · rw [hstarved₁, hstarved₀]
      exact hs
    · rw [hkernel₁, hkernel₀]
      exact .refl _
    · rw [hkernel₁, hkernel₀]
  unfold pandoraParseCommand pandoraParseCommand.answers
  rw [if_neg (by omega), if_neg (by omega), hP₀]
  dsimp only
  rw [htok]
  dsimp only
  obtain ⟨ws, hws⟩ : ∃ ws, words isSpace l = ws := ⟨_, rfl⟩
  rw [hws] at hp hfuel ⊢
  cases hp with
  | done h0 =>
    rw [if_pos h0, if_pos h0]
    refine ⟨0, P₁, rfl, hlater₁, iff_of_true (hsp₁ h0) List.not_mem_nil,
      fun hc => ⟨[], rfl, ⟨rfl, .nil⟩, fun _ => ?_⟩⟩
    have hc₁ : Caller owned P₁.kernel process dir f table := by
      rw [hkernel₁, hkernel₀]
      exact hc
    exact ⟨hc₁, ⟨rfl, .nil⟩, fun b hb => absurd hb List.not_mem_nil⟩
  | word w r ws htoken hw hend hr hrest =>
    rw [if_neg htoken, if_neg htoken]
    obtain ⟨⟨root, P₂⟩, hm⟩ : ∃ r, P₁.pandoraMalloc sizeofCommandArgument = r := ⟨_, rfl⟩
    have hlater₂ := P₁.pandoraMalloc_later sizeofCommandArgument
    rw [hm] at hlater₂ ⊢
    dsimp only at hlater₂ ⊢
    by_cases hroot : root = 0
    · -- the first allocation is refused
      have hstarved : P₂.starved = true := by
        rw [Program.pandoraMalloc_eq hm, hroot]
        exact Bool.or_true _
      rw [if_pos hroot, if_pos hroot]
      have hsp₂ : P₂.sp = P₁.sp := by rw [Program.pandoraMalloc_eq hm]
      refine ⟨0, P₂, rfl, hlater₁.trans hlater₂,
        iff_of_false (fun h0 => hr.some ⟨rfl, hsp₂.symm.trans h0⟩)
          fun hn => hn (List.mem_singleton_self 0), fun _ => ⟨[], rfl, ⟨rfl, .nil⟩, fun hs => ?_⟩⟩
      exact absurd (hs.symm.trans hstarved) Bool.false_ne_true
    rw [if_neg hroot, if_neg hroot]
    obtain ⟨P₃, hP₃⟩ : ∃ P₃, P₂.setArgument root token = P₃ := ⟨_, rfl⟩
    have hmem₂ : P₂.mem = P₁.mem := by rw [Program.pandoraMalloc_eq hm]
    have hmem : P₃.mem = P₁.mem := by
      rw [← hP₃]
      exact hmem₂
    have hsp₃ : P₃.sp = P₁.sp := by
      rw [← hP₃, Program.pandoraMalloc_eq hm]
      rfl
    rw [← hmem, ← hsp₃] at hr
    obtain ⟨token', P₄, htok', hkernel₄, hstarved₄, hp', hsp₄⟩ := Program.strtok_pending hr
    rw [hrest] at hp'
    rw [hP₃, htok']
    dsimp only
    have hlater₄ : P₂.Later P₄ := by
      refine ⟨fun hs => ?_, ?_, ?_⟩
      · rw [hstarved₄, ← hP₃]
        exact hs
      · rw [hkernel₄, ← hP₃]
        exact ⟨id, id⟩
      · rw [hkernel₄, ← hP₃]
        rfl
    obtain ⟨P', hloop, hlater', hsp', hlists⟩ := parseCommand_loop_spec owned process dir f table root
      root hp' hsp₄ (Nat.lt_of_succ_lt hfuel)
    rw [hloop]
    refine ⟨root, P', rfl, ((hlater₁.trans hlater₂).trans hlater₄).trans hlater', hsp'.trans ?_,
      fun hc => ?_⟩
    · rw [List.mem_cons, not_or]
      exact ⟨fun h => ⟨Ne.symm hroot, h⟩, fun h => h.2⟩
    have hc₁ : Caller owned P₁.kernel process dir f table := by
      rw [hkernel₁, hkernel₀]
      exact hc
    obtain ⟨b, rfl, hnode⟩ := hc₁.malloc hm hroot hw hend
    have hfirst : Built owned P₄.kernel process dir f table (blockAddr b) ([] ++ [b]) [w] := by
      rw [hkernel₄, ← hP₃]
      unfold Program.setArgument
      rw [hmem₂]
      exact hnode.built hc₁
    obtain ⟨bs, hlist⟩ := hlists [] b [w] rfl hfirst
    exact ⟨b :: bs, argumentsOf_served hroot hlist.answered, hlist.list, hlist.built⟩

/-- A line that is copied to `scommand` is worked on, where no other string is. -/
theorem tokenizing_line {command scommand : Nat} {line : List UInt8} (hline : CString m command line)
    (hend : command + line.length < 2 ^ 32) (hne : scommand ≠ 0) (hsend : scommand + 1025 ≤ 2 ^ 32)
    (hsep : command + line.length < scommand ∨ scommand + 1025 ≤ command) :
    Tokenizing (strncpy m scommand command 1025) 0 scommand (line.take 1024) := by
  obtain ⟨hcopy, -⟩ := strncpy_spec hline hend hsend (by decide) hsep
  have hat : (if scommand ≠ 0 ∧ 0 = 0 then scommand else 0) = scommand := if_pos ⟨hne, rfl⟩
  refine ⟨?_, fun hn => hne hn.1, ?_⟩
  · rw [hat]
    exact hcopy
  · rw [hat, List.length_take]
    omega

/-- `pandora_parse_command` of a line with words: it ends, and with a list of them if no allocation
was refused. -/
theorem pandoraParseCommand_spec {command scommand : Nat} {max : Int} {line : List UInt8}
    (hmax : max < 1025) (hsp : P.sp = 0) (hline : CString P.mem command line)
    (hlen : line.length ≤ 1024) (hend : command + line.length < 2 ^ 32) (hne : scommand ≠ 0)
    (hsend : scommand + 1025 ≤ 2 ^ 32)
    (hsep : command + line.length < scommand ∨ scommand + 1025 ≤ command)
    (hwords : words isSpace line = w :: ws) (hfuel : (w :: ws).length < argumentFuel) :
    ∃ root P', pandoraParseCommand P command max scommand = some (root, P') ∧ P.Later P' ∧
      (Caller owned P.kernel process dir f table → P'.starved = false →
        ∃ bs, Built owned P'.kernel process dir f table root bs (w :: ws)) := by
  have ht := tokenizing_line hline hend hne hsend hsep
  rw [List.take_of_length_le hlen, ← hsp] at ht
  obtain ⟨root, P', hparse, hlater, -, hlists⟩ := parseCommand_spec owned process dir f table hmax ht
    (hwords ▸ hfuel)
  refine ⟨root, P', hparse, hlater, fun hc hs => ?_⟩
  obtain ⟨bs, hlist⟩ := hlists hc
  have hbuilt := hlist.built hs
  rw [hwords] at hbuilt
  exact ⟨bs, hbuilt⟩

end

end Pandora
