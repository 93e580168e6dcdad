import Pandora.Keyboard.Buffer
import Pandora.Process.Isr80h
import Pandora.Stdlib.Readline

/-!
# The keyboard driver (`keyboard/pso2.c`, `isr80h/io.c`)

The interrupt handler decodes a scan code and pushes the character to the current process;
`isr80h_command2_getkey` pops from the owner of the current task. The two pointers are set by different
functions, so in a run (`ConsoleOp`) key presses and polls for several processes alternate in any order
with the switches. `typedFor` says what is typed for a process: the characters decoded while it is the
current one. A process whose own buffer is never full when a character comes reads exactly that
(`console_reads_typed`), whatever happens to the others, and so `pandora_terminal_readline` stores the
line that the keys say (`typed_line_is_read`).
-/

namespace Pandora

variable {σ : Type}

inductive KeyboardCapsLockState where
  | off
  | on
deriving DecidableEq, Repr

/-- `PS2_KEY_RELEASED` -/
def ps2KeyReleased : UInt8 := 0x80

/-- `PS2_KEYBOARD_CAPSLOCK` -/
def ps2KeyboardCapslock : UInt8 := 0x3A

def keyboardScanSetOne : List UInt8 :=
  [0x00, 0x1B, 0x31, 0x32, 0x33, 0x34, 0x35,
   0x36, 0x37, 0x38, 0x39, 0x30, 0x2D, 0x3D,
   0x08, 0x09, 0x51, 0x57, 0x45, 0x52, 0x54,
   0x59, 0x55, 0x49, 0x4F, 0x50, 0x5B, 0x5D,
   0x0D, 0x00, 0x41, 0x53, 0x44, 0x46, 0x47,
   0x48, 0x4A, 0x4B, 0x4C, 0x3B, 0x27, 0x60,
   0x00, 0x5C, 0x5A, 0x58, 0x43, 0x56, 0x42,
   0x4E, 0x4D, 0x2C, 0x2E, 0x2F, 0x00, 0x2A,
   0x00, 0x20, 0x00, 0x00, 0x00, 0x00,
   0x00, 0x00, 0x00, 0x00, 0x00, 0x00,
   0x00, 0x37, 0x38, 0x39, 0x2D, 0x34, 0x35,
   0x36, 0x2B, 0x31, 0x32, 0x33, 0x30, 0x2E]

/-- The test lets the length of the array through: that scan code reads the byte `past` it. -/
def pso2KeyboardScancodeToChar (past : UInt8) (capslock : KeyboardCapsLockState) (scancode : UInt8) :
    UInt8 :=
  if scancode.toNat > keyboardScanSetOne.length then 0
  else
    let c := keyboardScanSetOne.getD scancode.toNat past
    if capslock = .off ∧ 0x41 ≤ c ∧ c ≤ 0x5A then c + 32 else c

/-- `scancode` is what `insb` reads; the rogue byte behind it is dropped. -/
def pso2KeyboardHandleInterrupt (past : UInt8) (capslock : KeyboardCapsLockState) (K : Kernel σ)
    (scancode : UInt8) : KeyboardCapsLockState × Kernel σ :=
  if scancode &&& ps2KeyReleased ≠ 0 then (capslock, K)
  else
    let capslock :=
      if scancode = ps2KeyboardCapslock then (if capslock = .on then .off else .on) else capslock
    let c := pso2KeyboardScancodeToChar past capslock scancode
    (capslock, if c ≠ 0 then keyboardPush K c else K)

/-- What is left in `eax`: the character as an `int`. -/
def isr80hCommand2Getkey (K : Kernel σ) : Nat × Kernel σ :=
  let (c, K) := keyboardPop K
  (Word.ofInt c.toInt8.toInt, K)

/-! ## Runs -/

/-- The kernel and the driver, and what each process was answered so far. -/
structure Console (σ : Type) where
  kernel : Kernel σ
  capslock : KeyboardCapsLockState := .off
  polled : Nat → List UInt8 := fun _ => []

inductive ConsoleOp where
  | interrupt (scancode : UInt8)
  | getkey
  | processSwitch (process : Nat)
  | taskSwitch (task : Nat)
deriving DecidableEq

/-- The owner of the current task. -/
def Kernel.poller (K : Kernel σ) : Nat := (K.queue.task K.queue.current).process

/-- A program takes the answer for a `char`. -/
def ConsoleOp.step (past : UInt8) (s : Console σ) : ConsoleOp → Console σ
  | interrupt scancode =>
    let (capslock, K) := pso2KeyboardHandleInterrupt past s.capslock s.kernel scancode
    { s with kernel := K, capslock := capslock }
  | getkey =>
    let (val, K) := isr80hCommand2Getkey s.kernel
    let process := s.kernel.poller
    { s with
      kernel := K
      polled := Function.update s.polled process (s.polled process ++ [UInt8.ofNat val]) }
  | processSwitch process => { s with kernel := Pandora.processSwitch s.kernel process }
  | taskSwitch task => { s with kernel := Pandora.taskSwitch s.kernel task }

/-- The characters of the scan code: none or one, in upper case after an odd number of capslocks. -/
def struck (past : UInt8) (capslock : KeyboardCapsLockState) (scancode : UInt8) : List UInt8 :=
  if scancode &&& ps2KeyReleased ≠ 0 then []
  else [pso2KeyboardScancodeToChar past capslock scancode].filter (· ≠ 0)

def KeyboardCapsLockState.press (capslock : KeyboardCapsLockState) (scancode : UInt8) :
    KeyboardCapsLockState :=
  if scancode = ps2KeyboardCapslock then
    match capslock with
    | off => on
    | on => off
  else capslock

/-- What is typed for `p`: `focus` is the current process. -/
def typedFor (past : UInt8) (p : Nat) : (focus : Nat) → KeyboardCapsLockState → List ConsoleOp → List UInt8
  | _, _, [] => []
  | focus, capslock, .interrupt scancode :: ops =>
    (if focus = p then struck past (capslock.press scancode) scancode else []) ++
      typedFor past p focus (capslock.press scancode) ops
  | _, capslock, .processSwitch process :: ops => typedFor past p process capslock ops
  | focus, capslock, .getkey :: ops => typedFor past p focus capslock ops
  | focus, capslock, .taskSwitch _ :: ops => typedFor past p focus capslock ops

/-- The answers with a character. -/
def Console.read (s : Console σ) (p : Nat) : List UInt8 := (s.polled p).filter (· ≠ 0)

/-- How many characters the counters of a buffer say are pending. -/
def KeyboardBuffer.count (kb : KeyboardBuffer) : Nat := Word.sub kb.tail kb.head

/-- The buffer of `p` is not full when a character comes for it. -/
def ConsoleOp.Room (past : UInt8) (p : Nat) (s : Console σ) : ConsoleOp → Prop
  | interrupt scancode =>
    s.kernel.currentProcess = p → struck past (s.capslock.press scancode) scancode ≠ [] →
      (s.kernel.processAt p).keyboard.count < keyboardBufferSize
  | _ => True

instance (past : UInt8) (p : Nat) (s : Console σ) (o : ConsoleOp) : Decidable (o.Room past p s) := by
  cases o
  · exact inferInstanceAs (Decidable (_ → _ → _))
  all_goals exact inferInstanceAs (Decidable True)

/-! ## One key -/

section

variable {past c : UInt8} {capslock : KeyboardCapsLockState} {K : Kernel σ} {p : Nat} {q : List UInt8}
  {scancode : UInt8}

theorem ps2KeyboardCapslock_not_released : ps2KeyboardCapslock &&& ps2KeyReleased = 0 := by decide

/-- A released key changes nothing, and a pressed one pushes what it says to the current process. -/
theorem handleInterrupt_eq (past : UInt8) (capslock : KeyboardCapsLockState) (K : Kernel σ)
    (scancode : UInt8) :
    pso2KeyboardHandleInterrupt past capslock K scancode = (capslock.press scancode,
      (struck past (capslock.press scancode) scancode).foldl keyboardPush K) := by
  unfold pso2KeyboardHandleInterrupt struck
  by_cases hrel : scancode &&& ps2KeyReleased ≠ 0
  · have hcaps : scancode ≠ ps2KeyboardCapslock := by
      rintro rfl
      exact hrel ps2KeyboardCapslock_not_released
    simp [hrel, KeyboardCapsLockState.press, hcaps]
  · rw [if_neg hrel, if_neg hrel]
    have hpress : (if scancode = ps2KeyboardCapslock then
        (if capslock = .on then KeyboardCapsLockState.off else .on) else capslock) =
          capslock.press scancode := by
      unfold KeyboardCapsLockState.press
      cases capslock <;> simp
    dsimp only
    rw [hpress]
    by_cases hc : pso2KeyboardScancodeToChar past (capslock.press scancode) scancode = 0
    · simp [hc]
    · simp [hc]

theorem struck_cases (past : UInt8) (capslock : KeyboardCapsLockState) (scancode : UInt8) :
    struck past capslock scancode = [] ∨ ∃ c, c ≠ 0 ∧ struck past capslock scancode = [c] := by
  unfold struck
  split
  · exact .inl rfl
  · by_cases hc : pso2KeyboardScancodeToChar past capslock scancode = 0
    · exact .inl (by simp [hc])
    · exact .inr ⟨_, hc, by simp [hc]⟩

/-- The program gets the character back from `eax`. -/
theorem getkey_char (c : UInt8) : UInt8.ofNat (Word.ofInt c.toInt8.toInt) = c := by
  have h : ∀ b : BitVec 8, UInt8.ofNat ((b.toInt % 2 ^ 32).toNat) = ⟨b⟩ := by
    decide +kernel
  unfold Word.ofInt
  exact h c.toBitVec

/-- No other process is touched by a push. -/
theorem keyboardPush_other (hp : K.currentProcess ≠ p) (c : UInt8) :
    (keyboardPush K c).processAt p = K.processAt p := by
  unfold keyboardPush
  dsimp only
  split
  · rfl
  · exact Function.update_of_ne (Ne.symm hp) _ _

theorem keyboardPush_current (hp : K.currentProcess = p) (h0 : p ≠ 0) (hc : c ≠ 0)
    (h : (K.processAt p).keyboard.Pending q) (hq : q.length < keyboardBufferSize) :
    ((keyboardPush K c).processAt p).keyboard.Pending (q ++ [c]) := by
  subst hp
  unfold keyboardPush
  dsimp only
  rw [if_neg (not_or.2 ⟨h0, hc⟩), setProcess_processAt]
  exact h.push hc hq

theorem keyboardPush_currentProcess (K : Kernel σ) (c : UInt8) :
    (keyboardPush K c).currentProcess = K.currentProcess := by
  unfold keyboardPush
  dsimp only
  split <;> rfl

theorem keyboardPop_currentProcess (K : Kernel σ) :
    (keyboardPop K).2.currentProcess = K.currentProcess := by
  unfold keyboardPop
  dsimp only
  split
  · rfl
  split <;> rfl

/-- No other process is touched by a pop. -/
theorem keyboardPop_other (hp : K.queue.current = 0 ∨ K.poller ≠ p) :
    (keyboardPop K).2.processAt p = K.processAt p := by
  unfold keyboardPop
  dsimp only
  split
  · rfl
  rename_i hcur
  split
  · rfl
  · exact Function.update_of_ne (Ne.symm (hp.resolve_left hcur)) _ _

theorem keyboardPop_poller (hcur : K.queue.current ≠ 0) (hp : K.poller = p)
    (h : (K.processAt p).keyboard.Pending q) :
    (keyboardPop K).1 = q.getD 0 0 ∧
      ((keyboardPop K).2.processAt p).keyboard.Pending q.tail := by
  subst hp
  have hpop : keyboardPop K =
      if q.getD 0 0 = 0 then (0, K)
      else (q.getD 0 0, K.setProcess K.poller (keyboardTaken (K.processAt K.poller))) := by
    rw [← h.front]
    unfold keyboardPop keyboardTaken Kernel.poller
    rw [if_neg hcur]
  cases q with
  | nil =>
    rw [hpop]
    exact ⟨rfl, h⟩
  | cons c q =>
    have hc : c ≠ 0 := h.ring.full c List.mem_cons_self
    rw [hpop, List.getD_cons_zero, if_neg hc]
    refine ⟨rfl, ?_⟩
    rw [setProcess_processAt]
    exact h.pop

theorem KeyboardBuffer.Pending.count {kb : KeyboardBuffer} (h : kb.Pending q) : kb.count = q.length := by
  have hle := h.ring.le
  have hlt := h.lt
  unfold KeyboardBuffer.count keyboardBufferSize at *
  rw [Word.sub_eq, h.tail]
  omega

end

/-! ## One process among many -/

section

variable {past : UInt8} {s : Console σ} {p : Nat} {q : List UInt8} {o : ConsoleOp} {ops : List ConsoleOp}

/-- The current process after a step. -/
def ConsoleOp.focus (focus : Nat) : ConsoleOp → Nat
  | processSwitch process => process
  | _ => focus

/-- The capslock state after a step. -/
def ConsoleOp.caps (capslock : KeyboardCapsLockState) : ConsoleOp → KeyboardCapsLockState
  | interrupt scancode => capslock.press scancode
  | _ => capslock

/-- What one step types for `p`. -/
def ConsoleOp.types (past : UInt8) (p focus : Nat) (capslock : KeyboardCapsLockState) :
    ConsoleOp → List UInt8
  | interrupt scancode => if focus = p then struck past (capslock.press scancode) scancode else []
  | _ => []

theorem typedFor_cons (past : UInt8) (p focus : Nat) (capslock : KeyboardCapsLockState) (o : ConsoleOp)
    (ops : List ConsoleOp) :
    typedFor past p focus capslock (o :: ops) = o.types past p focus capslock ++
      typedFor past p (o.focus focus) (o.caps capslock) ops := by
  cases o <;> rfl

theorem foldl_keyboardPush_currentProcess (l : List UInt8) (K : Kernel σ) :
    (l.foldl keyboardPush K).currentProcess = K.currentProcess := by
  induction l generalizing K with
  | nil => rfl
  | cons c l ih => rw [List.foldl_cons, ih, keyboardPush_currentProcess]

theorem ConsoleOp.step_focus (past : UInt8) (s : Console σ) (o : ConsoleOp) :
    (o.step past s).kernel.currentProcess = o.focus s.kernel.currentProcess ∧
      (o.step past s).capslock = o.caps s.capslock := by
  cases o with
  | interrupt scancode =>
    simp only [ConsoleOp.step, handleInterrupt_eq]
    exact ⟨foldl_keyboardPush_currentProcess _ _, rfl⟩
  | getkey => exact ⟨keyboardPop_currentProcess _, rfl⟩
  | processSwitch process => exact ⟨rfl, rfl⟩
  | taskSwitch task => exact ⟨rfl, rfl⟩

/-- A key press appends to what is pending for the current process. -/
theorem Console.interrupt (h0 : p ≠ 0) (h : (s.kernel.processAt p).keyboard.Pending q)
    {scancode : UInt8} (hroom : (ConsoleOp.interrupt scancode).Room past p s) :
    (((ConsoleOp.interrupt scancode).step past s).kernel.processAt p).keyboard.Pending
      (q ++ (ConsoleOp.interrupt scancode).types past p s.kernel.currentProcess s.capslock) := by
  simp only [ConsoleOp.step, handleInterrupt_eq, ConsoleOp.types]
  by_cases hp : s.kernel.currentProcess = p
  · rw [if_pos hp]
    rcases struck_cases past (s.capslock.press scancode) scancode with hnone | ⟨c, hc, hone⟩
    · rw [hnone, List.append_nil]
      exact h
    · have hcount := hroom hp (by simp [hone])
      rw [h.count] at hcount
      rw [hone]
      exact keyboardPush_current hp h0 hc h hcount
  · rw [if_neg hp, List.append_nil]
    rcases struck_cases past (s.capslock.press scancode) scancode with hnone | ⟨c, -, hone⟩
    · rw [hnone]
      exact h
    · rw [hone, List.foldl_cons, List.foldl_nil, keyboardPush_other hp]
      exact h

/-- A poll takes the first character that is pending for its process. -/
theorem Console.getkey (past : UInt8) (h : (s.kernel.processAt p).keyboard.Pending q) : ∃ q',
    ((ConsoleOp.getkey.step past s).kernel.processAt p).keyboard.Pending q' ∧
      s.read p ++ q = (ConsoleOp.getkey.step past s).read p ++ q' := by
  have hstep : ConsoleOp.getkey.step past s = { s with
      kernel := (keyboardPop s.kernel).2
      polled := Function.update s.polled s.kernel.poller
        (s.polled s.kernel.poller ++ [(keyboardPop s.kernel).1]) } := by
    simp only [ConsoleOp.step, isr80hCommand2Getkey, getkey_char]
  rw [hstep]
  simp only [Console.read]
  by_cases hother : s.kernel.poller ≠ p
  · rw [keyboardPop_other (.inr hother), Function.update_of_ne (Ne.symm hother)]
    exact ⟨q, h, rfl⟩
  obtain rfl := not_not.1 hother
  rw [Function.update_self, List.filter_append]
  by_cases hcur : s.kernel.queue.current = 0
  · have hpop : keyboardPop s.kernel = (0, s.kernel) := by
      unfold keyboardPop
      rw [if_pos hcur]
    rw [hpop]
    exact ⟨q, h, by simp⟩
  obtain ⟨hfirst, hrest⟩ := keyboardPop_poller hcur rfl h
  rw [hfirst]
  refine ⟨q.tail, hrest, ?_⟩
  cases q with
  | nil => simp
  | cons c q =>
    have hc : c ≠ 0 := h.ring.full c List.mem_cons_self
    simp [hc]

/-- One step: what has been read and what is pending grow by what is typed. -/
theorem ConsoleOp.step_pending (h0 : p ≠ 0) (h : (s.kernel.processAt p).keyboard.Pending q)
    (hroom : o.Room past p s) : ∃ q', ((o.step past s).kernel.processAt p).keyboard.Pending q' ∧
      s.read p ++ q ++ o.types past p s.kernel.currentProcess s.capslock =
        (o.step past s).read p ++ q' := by
  cases o with
  | interrupt scancode =>
    refine ⟨_, Console.interrupt h0 h hroom, ?_⟩
    rw [List.append_assoc]
    rfl
  | getkey =>
    obtain ⟨q', hq', he⟩ := Console.getkey past h
    exact ⟨q', hq', by simpa [ConsoleOp.types] using he⟩
  | processSwitch process => exact ⟨q, h, by simp [ConsoleOp.types, ConsoleOp.step, Console.read]⟩
  | taskSwitch task => exact ⟨q, h, by simp [ConsoleOp.types, ConsoleOp.step, Console.read]⟩

theorem console_run (h0 : p ≠ 0) (h : (s.kernel.processAt p).keyboard.Pending q)
    (hs : Run.Steps (ConsoleOp.step past) (fun s o => o.Room past p s) s ops) :
    ∃ q', ((Run.exec (ConsoleOp.step past) s ops).kernel.processAt p).keyboard.Pending q' ∧
      s.read p ++ q ++ typedFor past p s.kernel.currentProcess s.capslock ops =
        (Run.exec (ConsoleOp.step past) s ops).read p ++ q' := by
  induction ops generalizing s q with
  | nil => exact ⟨q, h, by simp [typedFor]⟩
  | cons o ops ih =>
    obtain ⟨q₁, h₁, he₁⟩ := ConsoleOp.step_pending h0 h hs.1
    obtain ⟨q', h', he'⟩ := ih h₁ hs.2
    obtain ⟨hfocus, hcaps⟩ := o.step_focus past s
    refine ⟨q', h', ?_⟩
    rw [Run.exec_cons, ← he', ← he₁, typedFor_cons, hfocus, hcaps]
    simp only [List.append_assoc]

/-- A poll of `p` answers 0 exactly where nothing is pending. -/
theorem getkey_eq_zero (h : (s.kernel.processAt p).keyboard.Pending q)
    (hcur : s.kernel.queue.current ≠ 0) (hp : s.kernel.poller = p) :
    (isr80hCommand2Getkey s.kernel).1 = 0 ↔ q = [] := by
  have hfirst := (keyboardPop_poller hcur hp h).1
  have hval : (isr80hCommand2Getkey s.kernel).1 = Word.ofInt (q.getD 0 0).toInt8.toInt := by
    rw [← hfirst]
    rfl
  rw [hval]
  cases q with
  | nil => simp [Word.ofInt]
  | cons c q =>
    have hc : c ≠ 0 := h.ring.full c List.mem_cons_self
    rw [List.getD_cons_zero]
    refine iff_of_false (fun hz => hc ?_) (List.cons_ne_nil c q)
    rw [← getkey_char c, hz]
    rfl

/-- **Every process reads what was typed for it**, in order, each character once, however key presses,
polls and switches alternate; and it finds no key exactly when it has read all of it. -/
theorem console_reads_typed (h0 : p ≠ 0) (he : (s.kernel.processAt p).keyboard.Empty)
    (hnone : s.polled p = [])
    (hs : Run.Steps (ConsoleOp.step past) (fun s o => o.Room past p s) s ops) :
    let typed := typedFor past p s.kernel.currentProcess s.capslock ops
    let s' := Run.exec (ConsoleOp.step past) s ops
    s'.read p <+: typed ∧ (s'.kernel.queue.current ≠ 0 → s'.kernel.poller = p →
      ((isr80hCommand2Getkey s'.kernel).1 = 0 ↔ s'.read p = typed)) := by
  obtain ⟨q, hq, htyped⟩ := console_run h0 he.pending hs
  have hread : s.read p = [] := by simp [Console.read, hnone]
  rw [hread, List.nil_append, List.nil_append] at htyped
  refine ⟨⟨q, htyped.symm⟩, fun hcur hp => ?_⟩
  rw [getkey_eq_zero hq hcur hp, htyped]
  exact List.self_eq_append_right.symm

/-- **The line that is typed is the line that is read**: what is typed for `p` up to the carriage return,
edited by its backspaces, is what `pandora_terminal_readline` leaves in the array of `p`. -/
theorem typed_line_is_read {keys rest : List UInt8} {t : Typing} {out max : Nat} {w : Bool} (h0 : p ≠ 0)
    (he : (s.kernel.processAt p).keyboard.Empty) (hnone : s.polled p = [])
    (hs : Run.Steps (ConsoleOp.step past) (fun s o => o.Room past p s) s ops)
    (htyped : typedFor past p s.kernel.currentProcess s.capslock ops = keys ++ 13 :: rest)
    (h13 : 13 ∉ keys) (hread : keys.length < ((Run.exec (ConsoleOp.step past) s ops).read p).length)
    (hpolls : t.polls = (Run.exec (ConsoleOp.step past) s ops).polled p)
    (hfresh : t.memory.written = []) (hmax : 2 ≤ max) (hout : out + max ≤ 2 ^ 32)
    (hidle : idleBackspaces [] keys = 0) (hshort : ∀ l, l <+: keys → (edited l).length + 1 < max) :
    ReadsLine (pandoraTerminalReadline t out max w) out max keys := by
  obtain ⟨q, -, hrun⟩ := console_run h0 he.pending hs
  have hnothing : s.read p = [] := by simp [Console.read, hnone]
  rw [hnothing, List.nil_append, List.nil_append, htyped] at hrun
  -- the carriage return has been read
  obtain ⟨rest', hkeys⟩ : ∃ rest', t.polls.filter (· ≠ 0) = keys ++ 13 :: rest' := by
    have hprefix : keys ++ [13] <+: (Run.exec (ConsoleOp.step past) s ops).read p := by
      have hlong : keys ++ [13] <+: keys ++ 13 :: rest := ⟨rest, by simp⟩
      refine List.prefix_of_prefix_length_le hlong ⟨q, hrun.symm⟩ ?_
      rw [List.length_append]
      exact hread
    obtain ⟨rest', hrest⟩ := hprefix
    refine ⟨rest', ?_⟩
    rw [hpolls]
    simpa [Console.read] using hrest.symm
  obtain ⟨l, t', hline, htext, hwithin, hends⟩ := readline_spec (w := w) hmax hout hfresh hkeys h13
  have hedited : ∀ l, l <+: keys → l.foldl typeKey [] = edited l := by
    rintro l ⟨l', rfl⟩
    rcases typed_cases l with ⟨-, h⟩ | ⟨hodd, -⟩
    · exact h
    · refine absurd ?_ hodd
      have hle : idleBackspaces [] l = 0 := by
        have := idleBackspaces_append [] l l'
        omega
      rw [hle]
      exact Even.zero
  rcases hends with ⟨rfl, -⟩ | ⟨hl, hfull⟩
  · rw [hedited l (List.prefix_refl l)] at htext
    exact ⟨t', hline, htext, hwithin⟩
  · have := hshort l hl
    rw [hedited l hl] at hfull
    omega

end

/-! ## Two processes -/

/-- `a` is typed for one process, capslock and `B` for another, `D` and return for the first, which polls
three times while the second polls once. -/
def twoTypists : List ConsoleOp :=
  [.interrupt 0x1E, .processSwitch 3, .interrupt 0x3A, .interrupt 0xBA, .interrupt 0x30, .getkey,
    .processSwitch 2, .taskSwitch 4, .getkey, .taskSwitch 1, .interrupt 0x20, .interrupt 0x1C, .getkey,
    .getkey]

/-- The task at 4 is of process 3. -/
def twoTypistsConsole : Console Unit where
  kernel := { typingKernel (2 ^ 32 - 1) with
    queue := {
      task := fun t => { process := if t = 4 then 3 else 2 }
      head := 1
      tail := 1
      current := 1 } }

theorem twoTypists_room (p : Nat) (hp : p = 2 ∨ p = 3) :
    Run.Steps (ConsoleOp.step 0) (fun s o => o.Room 0 p s) twoTypistsConsole twoTypists := by
  rcases hp with rfl | rfl
  · decide +kernel
  · decide +kernel

theorem twoTypists_empty (p : Nat) : (twoTypistsConsole.kernel.processAt p).keyboard.Empty :=
  ⟨fun _ _ => rfl, rfl, show 2 ^ 32 - 1 < 2 ^ 32 by decide⟩

theorem twoTypists_typed :
    typedFor 0 2 twoTypistsConsole.kernel.currentProcess twoTypistsConsole.capslock twoTypists =
        [0x61, 0x44] ++ 13 :: [] ∧
      typedFor 0 3 twoTypistsConsole.kernel.currentProcess twoTypistsConsole.capslock twoTypists =
        [0x42] := by
  decide +kernel

/-- What the first process has read is the first part of what was typed for it, and the same for the
second. -/
theorem console_reads_typed_two :
    (Run.exec (ConsoleOp.step 0) twoTypistsConsole twoTypists).read 2 <+: [0x61, 0x44, 13] ∧
      (Run.exec (ConsoleOp.step 0) twoTypistsConsole twoTypists).read 3 <+: [0x42] := by
  obtain ⟨h₂, h₃⟩ := twoTypists_typed
  have hfirst := (console_reads_typed (p := 2) (by decide) (twoTypists_empty 2) rfl
    (twoTypists_room 2 (.inl rfl))).1
  have hsecond := (console_reads_typed (p := 3) (by decide) (twoTypists_empty 3) rfl
    (twoTypists_room 3 (.inr rfl))).1
  rw [h₂] at hfirst
  rw [h₃] at hsecond
  exact ⟨hfirst, hsecond⟩

theorem typed_line_is_read_two :
    ReadsLine (pandoraTerminalReadline
      ⟨(Run.exec (ConsoleOp.step 0) twoTypistsConsole twoTypists).polled 2, ⟨fun _ => 0, []⟩, []⟩ 0x3FE000
      (1024 : Nat) true) 0x3FE000 1024 [0x61, 0x44] := by
  have hread : [(0x61 : UInt8), 0x44].length <
      ((Run.exec (ConsoleOp.step 0) twoTypistsConsole twoTypists).read 2).length := by
    -- nothing is pending any more
    obtain ⟨q, hq, hrun⟩ := console_run (p := 2) (by decide) (twoTypists_empty 2).pending
      (twoTypists_room 2 (.inl rfl))
    have hcount : ((Run.exec (ConsoleOp.step 0) twoTypistsConsole twoTypists).kernel.processAt
        2).keyboard.count = 0 := by decide +kernel
    have hnone : q = [] := List.eq_nil_of_length_eq_zero (hq.count.symm.trans hcount)
    rw [twoTypists_typed.1, hnone] at hrun
    simp only [List.append_nil] at hrun
    rw [← hrun]
    decide
  have htyped : typedFor 0 2 twoTypistsConsole.kernel.currentProcess twoTypistsConsole.capslock
      twoTypists = [0x61, 0x44] ++ 13 :: [] := twoTypists_typed.1
  refine typed_line_is_read (p := 2) (by decide) (twoTypists_empty 2) rfl
    (twoTypists_room 2 (.inl rfl)) htyped (by decide) hread rfl rfl (by decide)
    (by decide) (by decide) fun l hl => ?_
  have hle := (edited_length_le l).trans hl.length_le
  rw [List.length_cons, List.length_singleton] at hle
  omega

end Pandora
