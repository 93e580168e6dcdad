import Pandora.Process.Outcome
import Pandora.Process.Served
import Pandora.Stdlib.Command

/-!
# Running a command line (`isr80h/process.c`, `programs/stdlib/src/pandora.c`)

System call 7 finds the list of words where the program has built it, as the pages of its allocations
are mapped to themselves. It loads the program that the first word names and copies the list into
allocations of the new process. `command_line_reaches_program`: the new process gets the words of the
line as they were typed, up to 511 characters of each.
-/

namespace Pandora

open ByteMem

/-! ## Strings of the kernel -/

section

variable {m : Mem} {p n fuel : Nat} {l : List UInt8}

theorem strlen_eq (h : CString m p l) (hend : p + l.length < 2 ^ 32) (hf : l.length < fuel) :
    strlen m fuel p = some l.length := by
  induction l generalizing p fuel with
  | nil =>
    obtain ⟨fuel, rfl⟩ : ∃ n, fuel = n + 1 := ⟨fuel - 1, by omega⟩
    unfold strlen
    rw [if_pos (cstring_nil.1 h)]
    rfl
  | cons c l ih =>
    obtain ⟨fuel, rfl⟩ : ∃ n, fuel = n + 1 := ⟨fuel - 1, by omega⟩
    rw [List.length_cons] at hend hf
    obtain ⟨hc, hc0, hrest⟩ := h
    unfold strlen
    rw [hc, if_neg hc0, Word.add_of_lt (by omega), ih hrest (by omega) (by omega)]
    rfl

theorem stringPrefix_eq (h : CString m p l) (hend : p + l.length < 2 ^ 32) :
    stringPrefix m n p = l.take n := by
  induction n generalizing p l with
  | zero => rfl
  | succ n ih =>
    unfold stringPrefix
    cases l with
    | nil =>
      rw [if_pos (cstring_nil.1 h)]
      rfl
    | cons c l =>
      rw [List.length_cons] at hend
      obtain ⟨hc, hc0, hrest⟩ := h
      rw [hc, if_neg hc0, Word.add_of_lt (by omega), ih hrest (by omega)]
      rfl

end

/-! ## What the new process gets -/

section

variable {σ : Type} {F : FileLayer σ} {owned : σ → Nat → Prop} {K K' : Kernel σ}
  {process dir f root stale a : Nat} {table : Nat → Nat} {bs cs : List Nat} {w : List UInt8}
  {ws : List (List UInt8)}

/-- The arguments of `process` are the words `ws`, up to 511 characters of each, as the process reads
them, and system call 8 writes their number and their address. -/
structure HasArguments (K : Kernel σ) (process : Nat) (ws : List (List UInt8)) : Prop where
  argc : (K.processAt process).arguments.argc = ws.length
  argv : ∀ i (h : i < ws.length), CString (K.readVirtual process)
    (read32 (K.readVirtual process) ((K.processAt process).arguments.argv + 4 * i)) (ws[i].take 511)
  reported : WritesArguments K (isr80hCommand8GetProgramArguments K) process (command8Arguments K)

/-- A page that is mapped to itself. -/
theorem ProcessDir.readVirtual_identity (hd : ProcessDir K process dir f table) {b v : Nat}
    (hb : b < 25600)
    (hpage : pageEntry K.mem table (4096 + b) = 4096 * (4096 + b) ||| pagingUserWriteable)
    (hv : blockAddr b ≤ v) (hv' : v < blockAddr b + 4096) : K.readVirtual process v = K.mem v := by
  have hlt := blockAddr_lt hb
  have hindex : v / 4096 = 4096 + b := by
    unfold blockAddr at hv hv'
    omega
  have hentry : (4096 * (4096 + b) ||| pagingUserWriteable) = 4096 * (4096 + b) + 7 :=
    Word.or_flags (by omega) (by decide)
  unfold Kernel.readVirtual
  rw [hd.reads.2 v (by omega), hindex, hpage, hentry]
  congr 1
  omega

/-- Another task becomes the current one. -/
theorem Injected.taskSwitch (h : Injected K process dir f table a cs ws) (task : Nat) :
    Injected (taskSwitch K task) process dir f table a cs ws where
  held := ⟨⟨h.held.pageDir, h.held.chunk⟩, h.held.heap, h.held.chunkWindow, h.held.chunkTaken,
    h.held.dirTaken, h.held.tableTaken⟩
  vector := ⟨h.vector.lt, h.vector.taken, h.vector.dir_ne, h.vector.chunk_ne, h.vector.table_ne⟩
  copies := fun c hc =>
    have hdata := (h.copies c hc).1
    ⟨⟨hdata.lt, hdata.taken, hdata.dir_ne, hdata.chunk_ne, hdata.table_ne⟩, (h.copies c hc).2⟩
  items := h.items
  strings := h.strings
  pages := h.pages

/-- What the kernel has copied is what the process reads. -/
theorem Injected.hasArguments (h : Injected K process dir f table a cs ws) (hlen : ws.length ≤ 1024)
    (harguments : (K.processAt process).arguments = ⟨ws.length, blockAddr a⟩)
    (hcurrent : (K.queue.task K.queue.current).process = process) : HasArguments K process ws where
  argc := by rw [harguments]
  argv := fun i hi => by
    have hlength := h.strings.length_eq
    have hread : ∀ {c}, c = a ∨ c ∈ cs → c < 25600 → ∀ v, blockAddr c ≤ v → v < blockAddr c + 4096 →
        K.readVirtual process v = K.mem v := fun hc hlt v hv hv' =>
      h.held.toProcessDir.readVirtual_identity hlt (h.pages _ hc) hv hv'
    have hmem : cs[i] ∈ cs := List.getElem_mem _
    have hword : read32 (K.readVirtual process) (blockAddr a + 4 * i) = blockAddr cs[i] := by
      rw [← h.items i (by omega)]
      exact read32_congr fun j hj => hread (.inl rfl) h.vector.lt _ (by omega) (by omega)
    rw [harguments]
    dsimp only
    rw [hword]
    have hstring := (List.forall₂_iff_get.1 h.strings).2 i (by omega) hi
    refine cstring_take_congr hstring fun x hx hx' => ?_
    exact hread (.inr hmem) (h.copies _ hmem).1.lt x hx (by omega)
  reported := by
    rw [← hcurrent]
    exact processGetArguments_writes K _ _

/-- A process with the arguments `ws` is in a slot that was free, and its task runs. -/
def StartedWith (K K' : Kernel σ) (ws : List (List UInt8)) : Prop :=
  ∃ slot < maxProcesses, K.processes slot = 0 ∧ K'.processes slot ≠ 0 ∧
    (K'.queue.task K'.queue.current).process = K'.processes slot ∧
    HasArguments K' (K'.processes slot) ws

/-- The program is loaded and the allocations for its arguments are served, without a fault and
without a short run. -/
structure CommandServed (F : FileLayer σ) (K : Kernel σ) (root stale : Nat)
    (ws : List (List UInt8)) : Prop where
  loaded : 0 ≤ (processLoadSwitch F K (pathPrefix ++ ws.headD []) 0 stale).1
  sound : (processLoadSwitch F K (pathPrefix ++ ws.headD []) 0 stale).2.2.kmem.Sound
  injected : ArgumentsServed (processLoadSwitch F K (pathPrefix ++ ws.headD []) 0 stale).2.2
    (processLoadSwitch F K (pathPrefix ++ ws.headD []) 0 stale).2.1 root ws.length

/-- `process_load_switch` is `process_load`, but for the current process. -/
theorem processLoadSwitch_eq (F : FileLayer σ) (K : Kernel σ) (filename : List UInt8)
    (out stale : Nat) :
    ∃ current, processLoadSwitch F K filename out stale =
      ((processLoad F K filename out stale).1, (processLoad F K filename out stale).2.1,
        { (processLoad F K filename out stale).2.2 with currentProcess := current }) := by
  unfold processLoadSwitch
  dsimp only
  split
  · exact ⟨_, rfl⟩
  · exact ⟨_, rfl⟩

/-- The list starts with the node for the first word, which the kernel finds at its address. -/
theorem Built.first (h : Built owned K process dir f table root bs (w :: ws)) :
    ∃ b, root = blockAddr b ∧ b < 25600 ∧ CString K.mem root (w.take 511) ∧
      taskVirtualAddressToPhysical K K.queue.current root = root := by
  obtain ⟨hwalk, hstrings⟩ := h.list
  cases hstrings with
  | @cons b _ bs _ hw _ =>
    obtain ⟨hdata, -, hpage⟩ := h.nodes b List.mem_cons_self
    have hroot : root = blockAddr b := hwalk.1
    have hlt := blockAddr_lt hdata.lt
    refine ⟨b, hroot, hdata.lt, hroot ▸ hw, ?_⟩
    have hindex : blockAddr b / 4096 = 4096 + b ∧ blockAddr b % 4096 = 0 := by
      unfold blockAddr
      omega
    have hentry : (4096 * (4096 + b) ||| pagingUserWriteable) = 4096 * (4096 + b) + 7 :=
      Word.or_flags (by omega) (by decide)
    have hchunk := h.held.chunk
    rw [h.task] at hchunk
    rw [hroot, taskVirtualAddressToPhysical_eq h.held.pageDir hchunk (by omega), hindex.1, hindex.2,
      hpage, hentry]
    unfold blockAddr
    omega

/-- **System call 7** on a list of words that the program has built. -/
theorem isr80hCommand7_spec (hF : F.Sound owned) (hR : F.Regular)
    (h : Built owned K process dir f table root bs (w :: ws)) (hne : w ≠ []) (hw : w.length < 105)
    (hlen : (w :: ws).length ≤ 1024) (hs : CommandServed F K root stale (w :: ws)) :
    ∃ K', isr80hCommand7InvokeSystemCommand F K root stale = some (.entered K') ∧
      StartedWith K K' (w :: ws) := by
  obtain ⟨b, hroot, hb, hstring, hphysical⟩ := h.first
  have hlt := blockAddr_lt hb
  have htake := List.length_take_le 511 w
  have hstrlen : strlen K.mem argumentFuel root = some (w.take 511).length :=
    strlen_eq hstring (by omega) (by unfold argumentFuel; omega)
  have hmax : maxPath = 108 := rfl
  have hname : stringPrefix K.mem (maxPath - 1) root = w := by
    rw [stringPrefix_eq hstring (by omega), List.take_take, List.take_of_length_le (by omega)]
  obtain ⟨len, hlength⟩ : ∃ len, (w.take 511).length = len + 1 := by
    cases w with
    | nil => exact absurd rfl hne
    | cons c w => exact ⟨(w.take 510).length, rfl⟩
  -- the load
  obtain ⟨hloaded, hsound, hinjected⟩ := hs
  change 0 ≤ (processLoadSwitch F K (pathPrefix ++ w) 0 stale).1 at hloaded
  change (processLoadSwitch F K (pathPrefix ++ w) 0 stale).2.2.kmem.Sound at hsound
  change ArgumentsServed (processLoadSwitch F K (pathPrefix ++ w) 0 stale).2.2
    (processLoadSwitch F K (pathPrefix ++ w) 0 stale).2.1 root (w :: ws).length at hinjected
  obtain ⟨current, hswitch⟩ := processLoadSwitch_eq F K (pathPrefix ++ w) 0 stale
  rw [hswitch] at hloaded hsound hinjected
  have h₀ : Scope owned _ K K fun _ : Role => none :=
    .init h.tidy (by simp) (by simp) fun _ j hj => absurd hj (inChunk_none j)
  obtain ⟨res, child, K₁, slot, obj, dir', table', hload, hres, hget, hslot, hempty, hentered, hlive,
    hscope⟩ := h₀.processLoad hF hR hloaded hsound
  rw [hload] at hinjected hswitch
  dsimp only at hinjected hswitch
  obtain ⟨K₂, hK₂⟩ : ∃ K₂, { K₁ with currentProcess := current } = K₂ := ⟨_, rfl⟩
  rw [hK₂] at hinjected hswitch
  -- the list is still there, and not in the directory of the new process
  have hrest : ∀ j ∈ bs, j < 25600 ∧ ¬ Free (K.entries j) ∧ ¬ owned K.files j ∧
      ∀ i, ¬ InChunk ((fun _ : Role => none) i) j := fun j hj => by
    obtain ⟨hdata, hown, -⟩ := h.nodes j hj
    exact ⟨hdata.lt, hdata.taken, hown, fun _ => inChunk_none j⟩
  have hkmem₂ : K₂.kmem = K₁.kmem := by rw [← hK₂]
  have hqueue₂ : K₂.queue = K₁.queue := by rw [← hK₂]
  have htask₂ : (K₂.processAt child).task = (K₁.processAt child).task := by rw [← hK₂]
  have hheld₂ := (hlive.heldDir hscope).of_eq hkmem₂ hqueue₂ htask₂
  have hdata₂ : ∀ j ∈ bs, DataBlock K₂ child dir' table' j := fun j hj =>
    (hlive.dataBlock hscope (hrest j hj)).of_eq hkmem₂ hqueue₂ htask₂
  have hlist₂ : ArgumentList K₂.mem root bs (w :: ws) := by
    have hmem₂ : K₂.mem = K₁.mem := congrArg Kmem.mem hkmem₂
    rw [hmem₂]
    exact h.list.sameBlocks (fun j hj => (hrest j hj).1) fun j hj => (hscope.same j (hrest j hj)).2.1
  obtain ⟨a, cs, K₃, hinject, hfinal, harguments, honly⟩ := processInjectArguments_spec hheld₂ hdata₂
    hlist₂ (by simp) hlen hinjected
  have hqueue₃ : K₃.queue = K₁.queue := by rw [honly.state, ← hqueue₂]
  have htask₃ : (K₃.processAt child).task = (K₁.processAt child).task := honly.task.trans htask₂
  obtain ⟨K₄, hK₄⟩ : ∃ K₄, taskSwitch K₃ (K₃.processAt child).task = K₄ := ⟨_, rfl⟩
  have hprocesses₄ : K₄.processes slot = child := by
    rw [← hK₄]
    change K₃.processes slot = child
    rw [honly.state, ← hK₂]
    change K₁.processes slot = child
    rw [hentered.processes, Function.update_self]
  have howner₄ : (K₄.queue.task K₄.queue.current).process = child := by
    rw [← hK₄]
    change (K₃.queue.task (K₃.processAt child).task).process = child
    rw [hqueue₃, htask₃]
    exact hlive.owner
  refine ⟨K₄, ?_, slot, hslot, hempty, ?_, ?_, ?_⟩
  · unfold isr80hCommand7InvokeSystemCommand
    dsimp only
    rw [hphysical, if_neg (by rw [hroot]; exact blockAddr_ne_zero b), hstrlen, hlength]
    rw [hname, if_neg (by rw [List.length_append]; unfold pathPrefix; simp; omega), hswitch]
    dsimp only
    rw [if_neg (not_lt.2 hres), hinject]
    dsimp only
    rw [if_neg (show ¬ allOk < 0 by decide), hK₄]
    rfl
  · rw [hprocesses₄]
    obtain ⟨b', n, -, hchild⟩ := hlive.block
    rw [hchild]
    exact blockAddr_ne_zero b'
  · rw [hprocesses₄, howner₄]
  · rw [hprocesses₄]
    have hfinal₄ : Injected K₄ child dir' pagingUserWriteable table' a cs (w :: ws) := by
      rw [← hK₄]
      exact hfinal.taskSwitch _
    refine hfinal₄.hasArguments hlen ?_ howner₄
    rw [← hK₄]
    exact harguments

end

/-! ## The command line -/

section

variable {σ : Type} {F : FileLayer σ} {owned : σ → Nat → Prop} {P : Program σ}
  {process dir f command buf scommand stale : Nat} {table : Nat → Nat} {line w : List UInt8}
  {ws : List (List UInt8)}

/-- The line and the two arrays on the stack, which do not overlap. -/
structure Buffers (command length buf scommand : Nat) : Prop where
  command_end : command + length < 2 ^ 32
  buf_end : buf + 1024 ≤ 2 ^ 32
  scommand_end : scommand + 1025 ≤ 2 ^ 32
  scommand_ne : scommand ≠ 0
  command_buf : command + length < buf ∨ buf + 1024 ≤ command
  buf_scommand : buf + 1024 ≤ scommand ∨ scommand + 1025 ≤ buf

/-- The program with the copy of the line in `buf`. -/
def Program.copied (P : Program σ) (command buf : Nat) : Program σ :=
  { P with mem := strncpy P.mem buf command 1024 }

/-- Every allocation for the list is served, and so is system call 7. -/
def LineServed (F : FileLayer σ) (P : Program σ) (command buf scommand stale : Nat)
    (ws : List (List UInt8)) : Prop :=
  ∀ root P', pandoraParseCommand (P.copied command buf) buf 1024 scommand = some (root, P') →
    P'.starved = false ∧ P'.kernel.kmem.Sound ∧ CommandServed F P'.kernel root stale ws

/-- **Command lines reach the program as typed.** -/
theorem command_line_reaches_program (hF : F.Sound owned) (hR : F.Regular)
    (hc : Caller owned P.kernel process dir f table) (hsp : P.sp = 0)
    (hline : CString P.mem command line) (hlen : line.length ≤ 1023)
    (hbuffers : Buffers command line.length buf scommand) (hwords : words isSpace line = w :: ws)
    (hw : w.length < 105) (hs : LineServed F P command buf scommand stale (w :: ws)) :
    ∃ K', pandoraSystemRun F P command buf scommand stale = some (.entered K') ∧
      StartedWith P.kernel K' (w :: ws) := by
  have hcount : (w :: ws).length ≤ 1023 := by
    have := words_length_le isSpace line
    rw [hwords] at this
    omega
  have hne : w ≠ [] := by
    have hmem : w ∈ words isSpace line := by
      rw [hwords]
      exact List.mem_cons_self
    exact of_decide_eq_true (List.mem_filter.1 hmem).2
  obtain ⟨hcopy, -⟩ := strncpy_spec hline hbuffers.command_end hbuffers.buf_end (by decide)
    hbuffers.command_buf
  rw [List.take_of_length_le (by omega)] at hcopy
  have hbend := hbuffers.buf_end
  obtain ⟨root, P', hparse, hlater, hbuilt⟩ := pandoraParseCommand_spec (P := P.copied command buf)
    (show (1024 : Int) < 1025 by decide) hsp hcopy (by omega) (by omega) hbuffers.scommand_ne
    hbuffers.scommand_end (by have := hbuffers.buf_scommand; omega) hwords
    (by unfold argumentFuel; omega)
  obtain ⟨hstarved, -, hserved⟩ := hs root P' hparse
  obtain ⟨bs, hlist⟩ := hbuilt hc hstarved
  obtain ⟨b, hroot, -⟩ := hlist.first
  obtain ⟨K', hcall, hstarted⟩ := isr80hCommand7_spec hF hR hlist hne hw (by omega) hserved
  refine ⟨K', ?_, ?_⟩
  · have hroot0 : root ≠ 0 := by
      rw [hroot]
      exact blockAddr_ne_zero b
    unfold Program.copied at hparse
    unfold pandoraSystemRun
    dsimp only
    rw [hparse]
    dsimp only
    rw [if_neg hroot0]
    exact hcall
  · obtain ⟨slot, hslot, hempty, hrest⟩ := hstarted
    rw [hlater.processes] at hempty
    exact ⟨slot, hslot, hempty, hrest⟩

end

/-! ## A line that is served -/

section

variable {σ : Type} {K : Kernel σ} {process dir f size n t : Nat} {table : Nat → Nat}

/-- `process_malloc` where there is room. -/
theorem processMalloc_room (hroom : K.kmem.Room n) (hs : K.kmem.Sound)
    (hd : HeldDir K process dir f table) (ht : (K.processAt process).task = blockAddr t)
    (htlt : t < 25600)
    (hslot : ∃ i < maxProgramAllocations, ((K.processAt process).allocations i).ptr = 0)
    (h1 : 1 ≤ size) (h2 : size ≤ 4096) (hn : n + 1 ≤ 25600) :
    ∃ b i K', processMalloc K process size = (blockAddr b, K') ∧
      Malloced K K' process size dir f table b i ∧ K'.kmem.Room (n + 1) ∧ K'.kmem.Sound := by
  have hone := blocksFor_small h1 h2
  obtain ⟨c, hc, hz, -, hroom'⟩ := Kernel.served hroom h1 (by omega) (by omega)
  rw [hone] at hz hroom'
  have hrun : HasRun K.entries 25600 (blocksFor size) :=
    ⟨n, by omega, fun i hi => hroom.free (n + i) (by omega) (by omega)⟩
  obtain ⟨b, i, K', he, hm⟩ := processMalloc_spec hd h1 (by omega) hrun hslot
  refine ⟨b, i, K', he, hm, ?_⟩
  obtain ⟨j, -, hindex, -⟩ := processFindFreeAllocationIndex_of hslot
  obtain ⟨K₁, hK₁⟩ : ∃ K₁, { K with kmem := K.kmem.take c 1 size } = K₁ := ⟨_, rfl⟩
  rw [hK₁] at hz
  have hproc₁ : K₁.processAt = K.processAt := by rw [← hK₁]
  have hchunk := hd.chunkWindow.blockAddr
  rw [ht] at hchunk
  have hplaced : Placed K₁ process t (blockOf (K.queue.task (blockAddr t)).pageDirectory) := by
    rw [← hK₁]
    exact ⟨ht, htlt, hchunk.2.symm, hchunk.1⟩
  obtain ⟨m, hmap⟩ := hplaced.mapTo (blockAddr c) (blockAddr c)
    (pagingAlignAddress (Word.add (blockAddr c) size)) pagingUserWriteable
  unfold processMalloc at he
  rw [hz] at he
  dsimp only at he
  rw [if_neg (blockAddr_ne_zero c), hproc₁, hindex, if_neg (show ¬ (j : Int) < 0 by omega), hmap] at he
  split at he
  · exact absurd (Prod.mk.inj he).1.symm (blockAddr_ne_zero b)
  · rw [← (Prod.mk.inj he).2, ← hK₁]
    exact ⟨hroom'.mem m, (hs.take c 1 size).mem m⟩

/-- `pandora_parse_command` of one word, where there is room for its node. -/
theorem pandoraParseCommand_room {owned : σ → Nat → Prop} {P : Program σ} {command scommand : Nat}
    {max : Int} {l w : List UInt8} (hmax : max < 1025)
    (htokenizing : Tokenizing (strncpy P.mem scommand command 1025) P.sp scommand l)
    (hwords : words isSpace l = [w]) (hc : Caller owned P.kernel process dir f table)
    (hroom : P.kernel.kmem.Room n) (hs : P.kernel.kmem.Sound)
    (ht : P.kernel.queue.current = blockAddr t) (htlt : t < 25600)
    (hslot : ∃ i < maxProgramAllocations, ((P.kernel.processAt process).allocations i).ptr = 0)
    (hn : n + 1 ≤ 25600) :
    ∃ root P', pandoraParseCommand P command max scommand = some (root, P') ∧
      P'.starved = P.starved ∧ P'.kernel.kmem.Room (n + 1) ∧ P'.kernel.kmem.Sound ∧
      P'.kernel.queue = P.kernel.queue := by
  obtain ⟨P₀, hP₀⟩ : ∃ P₀, { P with mem := strncpy P.mem scommand command 1025 } = P₀ := ⟨_, rfl⟩
  have ht₀ : Tokenizing P₀.mem P₀.sp scommand l := by
    rw [← hP₀]
    exact htokenizing
  obtain ⟨token, P₁, htok, hkernel₁, hstarved₁, hp, -⟩ := Program.strtok_pending ht₀
  rw [← hP₀] at hkernel₁ hstarved₁
  rw [hwords] at hp
  unfold pandoraParseCommand
  rw [if_neg (by omega), hP₀]
  dsimp only
  rw [htok]
  dsimp only
  cases hp with
  | word _ r _ htoken _ _ hr hrest =>
    obtain ⟨b, i, K', hcall, hm, hroom', hs'⟩ := processMalloc_room hroom hs hc.held
      (hc.task.trans ht) htlt hslot (show 1 ≤ sizeofCommandArgument by decide) (by decide) hn
    obtain ⟨P₂, hP₂⟩ : ∃ P₂, { P₁ with
      kernel := K', starved := P₁.starved || blockAddr b == 0 } = P₂ := ⟨_, rfl⟩
    have hmalloc : P₁.pandoraMalloc sizeofCommandArgument = (blockAddr b, P₂) := by
      unfold Program.pandoraMalloc isr80hCommand4Malloc
      rw [hkernel₁, hc.owner, hcall, ← hP₂]
    rw [if_neg htoken, hmalloc]
    dsimp only
    rw [if_neg (blockAddr_ne_zero b)]
    obtain ⟨P₃, hP₃⟩ : ∃ P₃, P₂.setArgument (blockAddr b) token = P₃ := ⟨_, rfl⟩
    have hmem : P₃.mem = P₁.mem := by rw [← hP₃, ← hP₂]; rfl
    have hsp' : P₃.sp = P₁.sp := by rw [← hP₃, ← hP₂]; rfl
    rw [← hmem, ← hsp'] at hr
    obtain ⟨token', P₄, htok', hkernel₄, hstarved₄, hp', -⟩ := Program.strtok_pending hr
    rw [hrest] at hp'
    rw [hP₃, htok']
    dsimp only
    obtain ⟨fuel, hfuel⟩ : ∃ fuel, argumentFuel = fuel + 1 := ⟨2 ^ 32, by unfold argumentFuel; rfl⟩
    have hloop : pandoraParseCommand.loop argumentFuel (blockAddr b) token' P₄ = some P₄ := by
      cases hp' with
      | done h0 =>
        rw [hfuel]
        unfold pandoraParseCommand.loop
        rw [if_pos h0]
    rw [hloop]
    have hkernel : P₄.kernel = K'.withMem P₄.kernel.mem := by
      rw [hkernel₄, ← hP₃, ← hP₂]
      rfl
    refine ⟨_, P₄, rfl, ?_, ?_, ?_, ?_⟩
    · rw [hstarved₄, ← hP₃, ← hP₂, ← hstarved₁]
      have : (blockAddr b == 0) = false := beq_eq_false_iff_ne.2 (blockAddr_ne_zero b)
      change (P₁.starved || blockAddr b == 0) = P₁.starved
      rw [this, Bool.or_false]
    · rw [hkernel]
      exact hroom'.mem _
    · rw [hkernel]
      exact hs'.mem _
    · rw [hkernel]
      exact hm.queue_eq

/-- The allocations for one argument, where there is room. -/
theorem argumentsServed_room {root : Nat} (hd : HeldDir K process dir f table)
    (hroom : K.kmem.Room n) (hs : K.kmem.Sound) (ht : (K.processAt process).task = blockAddr t)
    (htlt : t < 25600) (hfresh : ∀ i, (K.processAt process).allocations i = {})
    (hn : n + 2 ≤ 25600) : ArgumentsServed K process root 1 := by
  have hfour : Word.mul 4 1 = 4 := Word.mul_of_lt (by decide)
  obtain ⟨b, i, K₁, he, hm, hroom₁, hs₁⟩ := processMalloc_room hroom hs hd ht htlt
    ⟨0, by decide, by rw [hfresh]⟩ (show 1 ≤ 4 by decide) (by decide) (by omega)
  have hslot : ∃ j < maxProgramAllocations, ((K₁.processAt process).allocations j).ptr = 0 := by
    have hrecord : ∀ j, j ≠ i → (K₁.processAt process).allocations j = {} := fun j hj => by
      rw [hm.state]
      unfold Process.setAllocation
      dsimp only
      rw [Function.update_self]
      dsimp only
      rw [Function.update_of_ne hj, hfresh]
    by_cases hi : i = 0
    · exact ⟨1, by decide, by rw [hrecord 1 (by omega)]⟩
    · exact ⟨0, by decide, by rw [hrecord 0 (by omega)]⟩
  obtain ⟨c, j, K₂, he₂, -, -, hs₂⟩ := processMalloc_room hroom₁ hs₁ (hm.heldDir hd (by decide))
    (hm.task_eq.trans ht) htlt hslot (show 1 ≤ 512 by decide) (by decide) (by omega)
  unfold ArgumentsServed MallocServed
  rw [hfour, he]
  refine ⟨⟨blockAddr_ne_zero b, hs₁⟩, ?_, trivial⟩
  unfold MallocServed
  rw [he₂]
  exact ⟨blockAddr_ne_zero c, hs₂⟩

end

/-- The kernel with one process, its task and its directory. -/
def shellKernel : Kernel Unit where
  kmem := {
    heap := {
      saddr := 0x01000000
      table := {
        entries := fun i => if i < 1028 then entryTaken ||| isFirst else entryFree
        total := 25600 } }
    mem := freshTaskKernel.kmem.mem }
  queue := {
    task := fun _ => { pageDirectory := blockAddr 1025, process := blockAddr 1027 }
    head := blockAddr 1026
    tail := blockAddr 1026
    current := blockAddr 1026 }
  processAt := fun _ => { task := blockAddr 1026 }
  elfFileAt := fun _ => {}
  processes := fun i => if i = 0 then blockAddr 1027 else 0
  currentProcess := blockAddr 1027
  files := ()

/-- The program has read the line `a`. -/
def shellProgram : Program Unit where
  kernel := shellKernel
  mem := fun x => if x = 0x3FD000 then 0x61 else 0
  sp := 0
  starved := false

theorem shellKernel_taken {i : Nat} (h : i < 1028) : ¬ Free (shellKernel.entries i) := by
  have : shellKernel.entries i = entryTaken ||| isFirst := if_pos h
  rw [this]
  decide

theorem shellKernel_room : shellKernel.kmem.Room 1028 where
  kernel := ⟨rfl, rfl⟩
  free := fun b hb _ => by
    have : shellKernel.kmem.heap.table.entries b = entryFree := if_neg (by omega)
    rw [this]
    exact free_entryFree
  denied := rfl

theorem shellKernel_caller :
    Caller noBlocks shellKernel (blockAddr 1027) 0x01000000 pagingUserWriteable
      (fun i => blockAddr (i + 1)) where
  held := {
    pageDir := freshTaskKernel_pageDir
    chunk := freshTaskKernel_chunk
    heap := ⟨rfl, rfl⟩
    chunkWindow := inWindow_blockAddr (b := 1025) (by decide)
    chunkTaken := shellKernel_taken (i := 1025) (by decide)
    dirTaken := shellKernel_taken (i := 0) (by decide)
    tableTaken := fun i hi => by
      have hblock : blockOf (blockAddr (i + 1)) = i + 1 := by
        unfold blockOf blockAddr
        omega
      rw [hblock]
      exact shellKernel_taken (by omega) }
  tidy := {
    kernel := ⟨rfl, rfl⟩
    clean := fun b _ hf => by
      by_cases hb : b < 1028
      · exact absurd hf (shellKernel_taken hb)
      · exact if_neg hb
    owned := fun _ h => absurd h id }
  task := rfl
  owner := rfl

/-- A small program. -/
def smallProgram : List UInt8 := paddedElf (List.replicate 16 0)

theorem smallProgram_length : smallProgram.length = 100 :=
  (oneSegment_length smallPhdr _).trans (by rw [List.length_replicate])

theorem smallProgram_regular : (wholeFile smallProgram).Regular :=
  wholeFile_regular (by rw [smallProgram_length]; decide)

/-- The line is in the memory of the program. -/
theorem shellProgram_line : CString shellProgram.mem 0x3FD000 [0x61] :=
  ⟨rfl, by decide, show shellProgram.mem 0x3FD001 = 0 from rfl⟩

theorem shellProgram_buffers : Buffers 0x3FD000 [(0x61 : UInt8)].length 0x3FD800 0x3FE000 where
  command_end := by decide
  buf_end := by decide
  scommand_end := by decide
  scommand_ne := by decide
  command_buf := by decide
  buf_scommand := by decide

/-- One word: its node, the program and its argument find room. -/
theorem shellProgram_served :
    LineServed (wholeFile smallProgram) shellProgram 0x3FD000 0x3FD800 0x3FE000 0 [[0x61]] := by
  intro root P' hparse
  have hb := shellProgram_buffers
  have hwords : words isSpace [0x61] = [[0x61]] := by decide
  obtain ⟨hcopy, -⟩ := strncpy_spec shellProgram_line hb.command_end hb.buf_end (by decide)
    hb.command_buf
  have hcaller : Caller noBlocks (shellProgram.copied 0x3FD000 0x3FD800).kernel (blockAddr 1027)
    0x01000000 pagingUserWriteable (fun i => blockAddr (i + 1)) := shellKernel_caller
  obtain ⟨root₁, P₁, hparse₁, hstarved, hroom, hs, hqueue⟩ := pandoraParseCommand_room
    (show (1024 : Int) < 1025 by decide)
    (tokenizing_line hcopy (by decide) hb.scommand_ne hb.scommand_end (by decide)) hwords hcaller
    shellKernel_room ⟨rfl, rfl⟩ rfl (show 1026 < 25600 by decide) ⟨0, by decide, rfl⟩ (by decide)
  obtain ⟨root₂, P₂, hparse₂, hlater, hbuilt⟩ := pandoraParseCommand_spec
    (show (1024 : Int) < 1025 by decide) (show (shellProgram.copied 0x3FD000 0x3FD800).sp = 0 from rfl)
    hcopy (by decide) (by decide) hb.scommand_ne hb.scommand_end (by decide) hwords
    (by unfold argumentFuel; decide)
  rw [hparse₁, Option.some.injEq, Prod.mk.injEq] at hparse hparse₂
  obtain ⟨rfl, rfl⟩ := hparse
  obtain ⟨rfl, rfl⟩ := hparse₂
  obtain ⟨bs, hlist⟩ := hbuilt hcaller (hstarved.trans rfl)
  refine ⟨hstarved.trans rfl, hs, ?_⟩
  -- the load
  have hslot : ∃ i < maxProcesses, P₁.kernel.processes i = 0 := ⟨1, by decide, by
    rw [hlater.processes]
    rfl⟩
  have hserved : ∃ child K₁, processLoad (wholeFile smallProgram) P₁.kernel (pathPrefix ++ [0x61]) 0 0 =
      (allOk, child, K₁) ∧ K₁.kmem.Sound ∧ K₁.kmem.Room (1028 + 1 + 1036) ∧
        ∃ b < 25600, K₁.queue.tail = blockAddr b :=
    processLoad_served hroom hs (by decide) (oneSegment_elfImage smallPhdr_words)
      (by rw [smallProgram_length]; decide) paddedElf_mapsAnywhere hslot
      (fun _ => ⟨1026, by decide, by rw [hqueue]; rfl⟩)
  obtain ⟨child, K₁, hload, hs₁, hroom₁, -⟩ := hserved
  have h₀ : Scope noBlocks _ P₁.kernel P₁.kernel fun _ : Role => none :=
    .init hlist.tidy (by simp) (by simp) fun _ j hj => absurd hj (inChunk_none j)
  have hchild : ∃ dir, ∃ table : Nat → Nat, HeldDir K₁ child dir pagingUserWriteable table ∧
      (∃ t < 25600, (K₁.processAt child).task = blockAddr t) ∧
        ∀ i, (K₁.processAt child).allocations i = {} := by
    obtain ⟨res, child', K', slot, obj, dir, table, hload', -, -, -, -, hentered, hlive, hscope⟩ :=
      h₀.processLoad (wholeFile_sound _) smallProgram_regular (by rw [hload]; exact Int.le_refl 0)
        (by rw [hload]; exact hs₁)
    rw [hload, Prod.mk.injEq, Prod.mk.injEq] at hload'
    obtain ⟨-, rfl, rfl⟩ := hload'
    obtain ⟨t, n, ht, htask⟩ := hlive.task
    exact ⟨dir, table, hlive.heldDir hscope, ⟨t, (hscope.pos ht).2, htask⟩, hentered.fresh⟩
  obtain ⟨dir, table, hheld, ⟨t, htlt, htask⟩, hfresh⟩ := hchild
  obtain ⟨current, hswitch⟩ :=
    processLoadSwitch_eq (wholeFile smallProgram) P₁.kernel (pathPrefix ++ [0x61]) 0 0
  rw [hload] at hswitch
  dsimp only at hswitch
  obtain ⟨K₂, hK₂⟩ : ∃ K₂, { K₁ with currentProcess := current } = K₂ := ⟨_, rfl⟩
  have hkmem₂ : K₂.kmem = K₁.kmem := by rw [← hK₂]
  rw [hK₂] at hswitch
  refine ⟨?_, ?_, ?_⟩
  · change 0 ≤ (processLoadSwitch (wholeFile smallProgram) P₁.kernel (pathPrefix ++ [0x61]) 0 0).1
    rw [hswitch]
    exact Int.le_refl 0
  · change Kmem.Sound
      (processLoadSwitch (wholeFile smallProgram) P₁.kernel (pathPrefix ++ [0x61]) 0 0).2.2.kmem
    rw [hswitch, hkmem₂]
    exact hs₁
  · change ArgumentsServed
      (processLoadSwitch (wholeFile smallProgram) P₁.kernel (pathPrefix ++ [0x61]) 0 0).2.2
      (processLoadSwitch (wholeFile smallProgram) P₁.kernel (pathPrefix ++ [0x61]) 0 0).2.1 root₁ 1
    rw [hswitch]
    exact argumentsServed_room (hheld.of_eq hkmem₂ (by rw [← hK₂]) (by rw [← hK₂]))
      (hkmem₂ ▸ hroom₁) (hkmem₂ ▸ hs₁) (by rw [← hK₂]; exact htask) htlt
      (fun i => by rw [← hK₂]; exact hfresh i) (by decide)

theorem command_line_reaches_program_one :
    ∃ K', pandoraSystemRun (wholeFile smallProgram) shellProgram 0x3FD000 0x3FD800 0x3FE000 0 =
        some (.entered K') ∧ StartedWith shellKernel K' [[0x61]] :=
  command_line_reaches_program (wholeFile_sound _) smallProgram_regular shellKernel_caller rfl
    shellProgram_line (by decide) shellProgram_buffers (by decide) (by decide) shellProgram_served

end Pandora
