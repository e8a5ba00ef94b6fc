import Chip8.Proofs.CallReturn
import Chip8.Proofs.Decoding
import Chip8.Proofs.KeyWait

namespace Chip8

namespace Keypad

theorem isHeld_set (k l : Key) (held : Bool) (pad : Keypad) :
    (pad.set k held).isHeld l = if k = l then held else pad.isHeld l := by
  rw [isHeld, set, Fin.getElem_fin, Vector.getElem_set]
  simp only [Fin.ext_iff]
  rfl

theorem isHeld_new (k : Key) : ({} : Keypad).isHeld k = false := by
  simp [isHeld]

theorem lowest?_eq_none_iff (pad : Keypad) :
    pad.lowest? = none ↔ ∀ k, pad.isHeld k = false := by
  simp [lowest?]

theorem lowest?_eq_some_iff (pad : Keypad) (k : Key) :
    pad.lowest? = some k ↔ pad.isHeld k = true ∧ ∀ l < k, pad.isHeld l = false := by
  rw [lowest?, List.find?_eq_some_iff_getElem]
  constructor
  · rintro ⟨hheld, i, hi, rfl, hlower⟩
    refine ⟨hheld, fun l hl => ?_⟩
    have hlt : l.val < i := by simpa [Fin.lt_def] using hl
    simpa using hlower l.val hlt
  · rintro ⟨hheld, hlower⟩
    refine ⟨hheld, k.val, by simp, by simp, fun j hj => ?_⟩
    simpa using hlower ⟨j, by omega⟩ hj

theorem exists_lowest? {pad : Keypad} (h : ∃ k, pad.isHeld k = true) :
    ∃ k, pad.lowest? = some k := by
  rw [← Option.isSome_iff_exists, Option.isSome_iff_ne_none, Ne, lowest?_eq_none_iff]
  intro hfree
  obtain ⟨k, hk⟩ := h
  rw [hfree k] at hk
  contradiction

end Keypad

@[simp] theorem Instruction.keypad_effect (i : Instruction) (m : Machine) :
    (i.effect m).keypad = m.keypad := by
  cases i <;> rfl

namespace Machine

variable {m n p : Machine} {x : Reg}

theorem keypad_step (m : Machine) : m.step.2.keypad = m.keypad := by
  rcases step_cases m with ⟨-, hstep⟩ | ⟨fault, -, -, hstep⟩ | ⟨-, -, hstep⟩
  · rw [hstep]
  · rw [hstep]
  · rw [hstep]
    exact Instruction.keypad_effect m.instruction m.fetched

/-- A program is at the same point in both machines: all that it has done so far
is the same. The timers, the keys, the counters and what a host notes may differ. -/
structure SamePoint (m n : Machine) : Prop where
  config : n.config = m.config
  loaded : n.loaded = m.loaded
  memory : n.memory = m.memory
  stack : n.stack = m.stack
  pc : n.pc = m.pc
  index : n.index = m.index
  v : n.v = m.v
  pixels : n.display.pixels = m.display.pixels
  random : n.random = m.random

theorem SamePoint.refl (m : Machine) : m.SamePoint m :=
  ⟨rfl, rfl, rfl, rfl, rfl, rfl, rfl, rfl, rfl⟩

theorem SamePoint.trans (h : m.SamePoint n) (h' : n.SamePoint p) : m.SamePoint p where
  config := h'.config.trans h.config
  loaded := h'.loaded.trans h.loaded
  memory := h'.memory.trans h.memory
  stack := h'.stack.trans h.stack
  pc := h'.pc.trans h.pc
  index := h'.index.trans h.index
  v := h'.v.trans h.v
  pixels := h'.pixels.trans h.pixels
  random := h'.random.trans h.random

/-- The next instruction can be fetched and waits for a key to go into a register. -/
structure AtWait (x : Reg) (m : Machine) : Prop where
  loaded : m.loaded = true
  fetch : Memory.spanFault? m.memory.strict m.pc 2 = none
  instruction : m.instruction = .waitKey x

theorem atWait_of_nextWord {w : Word} (hloaded : m.loaded = true) (hword : m.nextWord = .ok w)
    (htop : w.top = Family.misc.nibble) (hkk : w.kk = 0x0A) : m.AtWait w.x := by
  obtain ⟨hspan, rfl⟩ := (m.nextWord_eq_ok_iff w).mp hword
  exact ⟨hloaded, hspan, (Instruction.decode_eq_waitKey_iff _ _).mpr ⟨htop, hkk, rfl⟩⟩

theorem AtWait.samePoint (h : m.AtWait x) (hn : m.SamePoint n) : n.AtWait x where
  loaded := hn.loaded.trans h.loaded
  fetch := by
    rw [hn.memory, hn.pc]
    exact h.fetch
  instruction := by
    rw [Machine.instruction, word, hn.memory, hn.pc]
    exact h.instruction

theorem AtWait.executed (h : m.AtWait x) :
    m.executed = { m with
      v := m.v.take x m.keypad.lowest?
      pc := if m.keypad.lowest?.isSome then m.pc + 2 else m.pc + 2 - 2
      waiting := m.keypad.lowest?.isNone } := by
  rw [Machine.executed, h.instruction]
  rfl

theorem AtWait.step_of_running (h : m.AtWait x) (hpaused : m.paused = false) :
    m.step = (.ok m.nextOutcome, m.stepped) := by
  apply step_of_no_fault
  · rw [running, h.loaded, hpaused]
    rfl
  · exact stepFault?_of_waitKey h.fetch h.instruction

theorem AtWait.step_of_free (h : m.AtWait x)
    (hfree : m.paused = false → ∀ k, m.keypad.isHeld k = false) :
    m.step.1 = .ok (if m.paused then .idle else .waitingForKey) ∧ m.SamePoint m.step.2 := by
  cases hpaused : m.paused with
  | true =>
      rw [step_of_idle (by rw [running, hpaused, Bool.not_true, Bool.and_false])]
      exact ⟨rfl, .refl m⟩
  | false =>
      have hnone : m.keypad.lowest? = none := (Keypad.lowest?_eq_none_iff _).mpr (hfree hpaused)
      have hwaiting : m.executed.waiting = true := by
        rw [h.executed, hnone]
        rfl
      rw [h.step_of_running hpaused, nextOutcome, if_pos hwaiting, (stepped_of_waiting hwaiting).2]
      exact ⟨rfl, rfl, rfl, rfl, rfl, rfl, rfl, rfl, rfl, rfl⟩

theorem AtWait.step_of_held (h : m.AtWait x) (hpaused : m.paused = false) {k : Key}
    (hk : m.keypad.lowest? = some k) :
    m.step.1 = .ok .executed ∧ m.step.2.v = m.v.set x (UInt8.ofNat k.val) ∧
      m.step.2.pc = m.pc + 2 := by
  rw [h.step_of_running hpaused, nextOutcome, stepped, h.executed, hk]
  exact ⟨rfl, rfl, rfl⟩

end Machine

namespace Command

variable {m : Machine} {x : Reg}

theorem samePoint_apply {c : Command} (m : Machine) (hc : c.KeepsCalls) (hstep : c ≠ step) :
    m.SamePoint (c.apply m).2 := by
  cases c with
  | step => exact absurd rfl hstep
  | load image => exact hc.elim
  | reset => exact hc.elim
  | stop => exact hc.elim
  | toggle =>
      rw [apply_toggle]
      exact ⟨rfl, rfl, rfl, rfl, rfl, rfl, rfl, rfl, rfl⟩
  | _ => exact ⟨rfl, rfl, rfl, rfl, rfl, rfl, rfl, rfl, rfl⟩

/-- No step of a history finds a key held, unless the machine is paused. -/
def Unanswered (history : List Command) (m : Machine) : Prop :=
  ∀ before, before ++ [step] <+: history → (run before m).2.paused = false →
    ∀ k, (run before m).2.keypad.isHeld k = false

theorem Unanswered.tail {c : Command} {rest : List Command} (h : Unanswered (c :: rest) m) :
    Unanswered rest (c.apply m).2 :=
  fun before hbefore => h (c :: before) (List.cons_prefix_cons.mpr ⟨rfl, hbefore⟩)

theorem Unanswered.of_prefix {first history : List Command} (h : Unanswered history m)
    (hfirst : first <+: history) : Unanswered first m :=
  fun before hbefore => h before (hbefore.trans hfirst)

/-- Unanswered, a program stays at its wait, whatever else a host does. -/
theorem samePoint_run {history : List Command} (h : m.AtWait x)
    (hkeep : ∀ c ∈ history, c.KeepsCalls) (hfree : Unanswered history m) :
    m.SamePoint (run history m).2 := by
  induction history generalizing m with
  | nil => exact .refl m
  | cons c rest ih =>
      have hfirst : m.SamePoint (c.apply m).2 := by
        by_cases hc : c = step
        · subst hc
          rw [apply_step]
          exact (h.step_of_free (hfree [] (by simp))).2
        · exact samePoint_apply m (hkeep c List.mem_cons_self) hc
      exact hfirst.trans
        (ih (h.samePoint hfirst) (fun d hd => hkeep d (List.mem_cons_of_mem _ hd)) hfree.tail)

theorem step_run_of_unanswered {history before : List Command} (h : m.AtWait x)
    (hkeep : ∀ c ∈ history, c.KeepsCalls) (hfree : Unanswered history m)
    (hbefore : before ++ [step] <+: history) :
    (run before m).2.step.1 = .ok (if (run before m).2.paused then .idle else .waitingForKey) := by
  have hpart : before <+: history := (List.prefix_append _ _).trans hbefore
  have hpoint := samePoint_run h (fun c hc => hkeep c (hpart.subset hc)) (hfree.of_prefix hpart)
  exact ((h.samePoint hpoint).step_of_free (hfree before hbefore)).1

/-- A command that says whether a key is held. -/
def Tells (k : Key) (held : Bool) (c : Command) : Prop :=
  ∃ byte, c = key byte held ∧ Key.ofByte byte = k

theorem tells_key (k : Key) (told held : Bool) (byte : UInt8) :
    (key byte held).Tells k told ↔ held = told ∧ Key.ofByte byte = k := by
  constructor
  · rintro ⟨b, h, hk⟩
    cases h
    exact ⟨rfl, hk⟩
  · rintro ⟨rfl, hk⟩
    exact ⟨byte, rfl, hk⟩

def SilentOn (k : Key) (history : List Command) : Prop :=
  ∀ c ∈ history, ∀ held, ¬ c.Tells k held

/-- The last that a history says about a key is that it is held. -/
def LeavesHeld (k : Key) (history : List Command) : Prop :=
  ∃ before c after, history = before ++ c :: after ∧ c.Tells k true ∧ SilentOn k after

theorem keypad_apply {c : Command} (m : Machine) (hc : ∀ byte held, c ≠ key byte held) :
    (c.apply m).2.keypad = m.keypad := by
  cases c with
  | key byte held => exact absurd rfl (hc byte held)
  | step => rw [apply_step, Machine.keypad_step]
  | load image =>
      rw [apply_load]
      split
      · rfl
      · rfl
  | toggle => rw [apply_toggle]
  | _ => rfl

theorem isHeld_apply (k : Key) (c : Command) (m : Machine) :
    (c.apply m).2.keypad.isHeld k = true ↔
      c.Tells k true ∨ m.keypad.isHeld k = true ∧ ∀ held, ¬ c.Tells k held := by
  cases c with
  | key byte held =>
      change (m.keypad.set (Key.ofByte byte) held).isHeld k = true ↔ _
      rw [Keypad.isHeld_set]
      by_cases hk : Key.ofByte byte = k
      · simp [tells_key, hk]
      · simp [tells_key, hk]
  | _ =>
      rw [keypad_apply m (by simp)]
      simp [Tells]

/-- A key is held if the last word about it says so. Without a word about it, it
is as it was. -/
theorem isHeld_run (k : Key) (history : List Command) (m : Machine) :
    (run history m).2.keypad.isHeld k = true ↔
      LeavesHeld k history ∨ m.keypad.isHeld k = true ∧ SilentOn k history :=
  run_mark_iff (P := fun m => m.keypad.isHeld k = true) (isHeld_apply k) history m

theorem free_run {history : List Command} (hfree : ∀ k, m.keypad.isHeld k = false)
    (hrelease : ∀ byte, key byte true ∉ history) (k : Key) :
    (run history m).2.keypad.isHeld k = false := by
  rw [← Bool.not_eq_true, isHeld_run]
  rintro (⟨before, c, after, rfl, ⟨byte, rfl, -⟩, -⟩ | ⟨hheld, -⟩)
  · exact hrelease byte (by simp)
  · rw [hfree k] at hheld
    contradiction

/-- A program at a wait for a key stays there, spinning, while no step finds a
key held, and the first one that does gives it the lowest key and lets it go on.
A key is held when the last word about it says so. Only at a wait is a machine
ever marked as waiting. -/
theorem wait_blocks_until_held :
    (∀ (m : Machine) (w : Word), m.loaded = true → m.nextWord = .ok w →
      w.top = Family.misc.nibble → w.kk = 0x0A → (∀ k, m.keypad.isHeld k = false) →
      (∀ history, (∀ c ∈ history, c.KeepsCalls) → (∀ byte, key byte true ∉ history) →
        m.SamePoint (run history m).2 ∧
        ∀ before, before ++ [step] <+: history → (run before m).2.step.1 =
          .ok (if (run before m).2.paused then .idle else .waitingForKey)) ∧
      (∀ history, (∀ c ∈ history, c.KeepsCalls) → Unanswered history m →
        let n := (run history m).2
        n.paused = false → (∃ k, n.keypad.isHeld k = true) →
        ∃ k, n.keypad.isHeld k = true ∧ (∀ lower < k, n.keypad.isHeld lower = false) ∧
          n.step.1 = .ok .executed ∧ n.step.2.v[w.x] = UInt8.ofNat k.val ∧
          (∀ y, y ≠ w.x → n.step.2.v[y] = m.v[y]) ∧ n.step.2.pc = m.pc + 2)) ∧
    (∀ config random history k,
      (run history { config, random }).2.keypad.isHeld k = true ↔ LeavesHeld k history) ∧
    (∀ m : Machine, m.Reachable → m.waiting = true →
      m.loaded = true ∧ ∃ w, m.nextWord = .ok w ∧ w.top = Family.misc.nibble ∧ w.kk = 0x0A) := by
  refine ⟨?_, ?_, ?_⟩
  · intro m w hloaded hword htop hkk hfree
    have hwait : m.AtWait w.x := Machine.atWait_of_nextWord hloaded hword htop hkk
    refine ⟨fun history hkeep hrelease => ?_, fun history hkeep hunanswered => ?_⟩
    · have hunanswered : Unanswered history m := fun before hbefore _ k =>
        free_run hfree (fun byte hmem =>
          hrelease byte (((List.prefix_append _ _).trans hbefore).subset hmem)) k
      exact ⟨samePoint_run hwait hkeep hunanswered,
        fun before hbefore => step_run_of_unanswered hwait hkeep hunanswered hbefore⟩
    · intro n hpaused hheld
      have hpoint : m.SamePoint n := samePoint_run hwait hkeep hunanswered
      obtain ⟨k, hk⟩ := Keypad.exists_lowest? hheld
      obtain ⟨hstep, hv, hpc⟩ := (hwait.samePoint hpoint).step_of_held hpaused hk
      obtain ⟨hkheld, hlower⟩ := (Keypad.lowest?_eq_some_iff _ _).mp hk
      refine ⟨k, hkheld, hlower, hstep, ?_, fun y hy => ?_, ?_⟩
      · rw [hv, Registers.getElem_set, if_pos rfl]
      · rw [hv, Registers.getElem_set, if_neg (Ne.symm hy), hpoint.v]
      · rw [hpc, hpoint.pc]
  · intro config random history k
    have hnew : ({ config, random } : Machine).keypad.isHeld k = false := Keypad.isHeld_new k
    rw [isHeld_run, hnew]
    simp
  · intro m hm hwaiting
    obtain ⟨hloaded, hspan, x, hx⟩ := hm.waitsAtWait hwaiting
    obtain ⟨htop, hkk, -⟩ := (Instruction.decode_eq_waitKey_iff _ _).mp hx
    exact ⟨hloaded, m.word, (m.nextWord_eq_ok_iff _).mpr ⟨hspan, rfl⟩, htop, hkk⟩

theorem run_pressed_in_pause (m : Machine) (byte : UInt8) :
    (run [step, pause, key byte true, resume] m).2.paused = false ∧
      (run [step, pause, key byte true, resume] m).2.keypad =
        m.keypad.set (Key.ofByte byte) true := by
  rw [run_cons, apply_step, run_cons, run_cons, run_cons, ← m.keypad_step]
  exact ⟨rfl, rfl⟩

theorem unanswered_pressed_in_pause {m : Machine} (hfree : ∀ k, m.keypad.isHeld k = false)
    (byte : UInt8) : Unanswered [step, pause, key byte true, resume] m := by
  intro before hbefore _
  cases before with
  | nil => exact hfree
  | cons c rest =>
      have hmem : step ∈ [pause, key byte true, resume] :=
        (List.cons_prefix_cons.mp hbefore).2.subset (by simp)
      simp at hmem

/-- A key pressed during a pause is taken by the first step after it. -/
theorem wait_blocks_until_held_pause :
    let m : Machine := Machine.starting #[0xF5, 0x0A] { config := {}, random := .ofSeed 0 }
    let n := (run [step, pause, key 0x17 true, resume] m).2
    n.step.1 = .ok .executed ∧ n.step.2.v[Word.x 0xF50A] = 7 ∧ n.step.2.pc = m.pc + 2 := by
  intro m n
  have hword : m.nextWord = .ok 0xF50A :=
    (m.nextWord_eq_ok_iff _).mpr ⟨Machine.spanFault?_starting _ _,
      (Machine.word_starting _ _ (by decide) rfl rfl).trans (by decide)⟩
  have hfree : ∀ k, m.keypad.isHeld k = false := Keypad.isHeld_new
  have hloaded : m.loaded = true := rfl
  -- From here on nothing is computed: the three facts are all that matters.
  clear_value m
  obtain ⟨hpaused, hkeypad⟩ := run_pressed_in_pause m 0x17
  have hheld : ∀ k, n.keypad.isHeld k = true ↔ Key.ofByte 0x17 = k := by
    intro k
    rw [hkeypad, Keypad.isHeld_set, hfree k]
    simp
  obtain ⟨k, hk, -, hstep, hv, -, hpc⟩ :=
    (wait_blocks_until_held.1 m 0xF50A hloaded hword (by decide) (by decide) hfree).2
      [step, pause, key 0x17 true, resume] (by simp [KeepsCalls])
      (unanswered_pressed_in_pause hfree 0x17) hpaused ⟨Key.ofByte 0x17, (hheld _).mpr rfl⟩
  rw [← (hheld k).mp hk] at hv
  exact ⟨hstep, hv, hpc⟩

end Command

end Chip8
