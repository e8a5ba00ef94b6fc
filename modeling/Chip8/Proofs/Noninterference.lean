import Chip8.Proofs.Lockstep

namespace Chip8

/-- A part of a machine that its program does not compute with: an input, which
it takes in by instructions of its own, or an output, which only a host looks at. -/
inductive Part where
  | delay | keypad | random
  | sound | dirty | statistics
  deriving DecidableEq

/-- What the instruction does depends on the part. A random byte that is masked
away is drawn, but makes no difference. -/
def Instruction.Reads (i : Instruction) : Part → Prop
  | .delay => ∃ x, i = readDelay x
  | .keypad => (∃ x, i = skip (.keyHeld x)) ∨ (∃ x, i = skip (.keyFree x)) ∨ ∃ x, i = waitKey x
  | .random => ∃ x mask, i = random x mask ∧ mask ≠ 0
  | .sound | .dirty | .statistics => False

theorem Instruction.not_reads_masked (x : Reg) (p : Part) : ¬ (random x 0).Reads p := by
  cases p with
  | random =>
      rintro ⟨y, mask, heq, hmask⟩
      cases heq
      exact hmask rfl
  | _ => simp [Reads]

/-- Two machines that are the same but for hidden parts. -/
structure Machine.AgreesBut (hidden : List Part) (m n : Machine) : Prop where
  rest : n = { m with
    display := { m.display with dirty := n.display.dirty }
    timers := n.timers
    keypad := n.keypad
    statistics := n.statistics
    random := n.random }
  delay : .delay ∉ hidden → n.timers.delay = m.timers.delay
  keypad : .keypad ∉ hidden → n.keypad = m.keypad
  random : .random ∉ hidden → n.random = m.random
  sound : .sound ∉ hidden → n.timers.sound = m.timers.sound
  dirty : .dirty ∉ hidden → n.display.dirty = m.display.dirty
  statistics : .statistics ∉ hidden → n.statistics = m.statistics

variable {hidden : List Part} {m n : Machine}

namespace Machine.AgreesBut

theorem refl (hidden : List Part) (m : Machine) : m.AgreesBut hidden m :=
  ⟨rfl, fun _ => rfl, fun _ => rfl, fun _ => rfl, fun _ => rfl, fun _ => rfl, fun _ => rfl⟩

theorem exists_eq (h : m.AgreesBut hidden n) : ∃ dirty timers keypad statistics random,
    n = { m with display := { m.display with dirty }, timers, keypad, statistics, random } :=
  ⟨_, _, _, _, _, h.rest⟩

end Machine.AgreesBut

namespace Instruction

/-- An instruction that reads no hidden part does the same to all the others,
whatever is in the hidden ones. -/
theorem agreesBut_effect {i : Instruction} (h : m.AgreesBut hidden n)
    (hi : ∀ p ∈ hidden, ¬ i.Reads p) : (i.effect m).AgreesBut hidden (i.effect n) := by
  obtain ⟨dirty, timers, keypad, statistics, random, rfl⟩ := h.exists_eq
  obtain ⟨-, hdelay, hkeypad, hrandom, hsound, hdirty, hstatistics⟩ := h
  -- The cases are the instructions that look at a part or set one; all others keep them all.
  cases i with
  | clearScreen => exact ⟨rfl, hdelay, hkeypad, hrandom, hsound, fun _ => rfl, hstatistics⟩
  | draw x y height => exact ⟨rfl, hdelay, hkeypad, hrandom, hsound, fun _ => rfl, hstatistics⟩
  | skip condition =>
      refine ⟨?_, hdelay, hkeypad, hrandom, hsound, hdirty, hstatistics⟩
      have hholds : condition.holds m.v keypad = condition.holds m.v m.keypad := by
        cases condition with
        | keyHeld x =>
            obtain rfl : keypad = m.keypad := hkeypad fun hmem => hi _ hmem (.inl ⟨x, rfl⟩)
            rfl
        | keyFree x =>
            obtain rfl : keypad = m.keypad :=
              hkeypad fun hmem => hi _ hmem (.inr (.inl ⟨x, rfl⟩))
            rfl
        | _ => rfl
      simp only [effect, hholds]
  | random x mask =>
      refine ⟨?_, hdelay, hkeypad, fun hmem => ?_, hsound, hdirty, hstatistics⟩
      · have hnext : random.next &&& mask = m.random.next &&& mask := by
          by_cases hmem : .random ∈ hidden
          · have hmask : mask = 0 :=
              Classical.byContradiction fun hne => hi _ hmem ⟨x, mask, rfl, hne⟩
            rw [hmask, UInt8.and_zero, UInt8.and_zero]
          · obtain rfl : random = m.random := hrandom hmem
            rfl
        simp only [effect, hnext]
      · exact congrArg RandomTape.advance (hrandom hmem)
  | readDelay x =>
      refine ⟨?_, hdelay, hkeypad, hrandom, hsound, hdirty, hstatistics⟩
      have hequal : timers.delay = m.timers.delay := hdelay fun hmem => hi _ hmem ⟨x, rfl⟩
      simp only [effect, hequal]
  | waitKey x =>
      refine ⟨?_, hdelay, hkeypad, hrandom, hsound, hdirty, hstatistics⟩
      have hequal : keypad = m.keypad := hkeypad fun hmem => hi _ hmem (.inr (.inr ⟨x, rfl⟩))
      simp only [effect, hequal]
  | setDelay x => exact ⟨rfl, fun _ => rfl, hkeypad, hrandom, hsound, hdirty, hstatistics⟩
  | setSound x => exact ⟨rfl, hdelay, hkeypad, hrandom, fun _ => rfl, hdirty, hstatistics⟩
  | unknown w =>
      exact ⟨rfl, hdelay, hkeypad, hrandom, hsound, hdirty,
        fun hmem => congrArg Statistics.recordIgnored (hstatistics hmem)⟩
  | _ => exact ⟨rfl, hdelay, hkeypad, hrandom, hsound, hdirty, hstatistics⟩

end Instruction

namespace Machine.AgreesBut

theorem instruction_eq (h : m.AgreesBut hidden n) : n.instruction = m.instruction := by
  obtain ⟨dirty, timers, keypad, statistics, random, rfl⟩ := h.exists_eq
  rfl

theorem word_eq (h : m.AgreesBut hidden n) : n.word = m.word := by
  obtain ⟨dirty, timers, keypad, statistics, random, rfl⟩ := h.exists_eq
  rfl

theorem running_eq (h : m.AgreesBut hidden n) : n.running = m.running := by
  rw [h.rest]
  rfl

theorem fetched (h : m.AgreesBut hidden n) : m.fetched.AgreesBut hidden n.fetched where
  rest := congrArg Machine.fetched h.rest
  delay := h.delay
  keypad := h.keypad
  random := h.random
  sound := h.sound
  dirty := h.dirty
  statistics := h.statistics

theorem stepFault?_eq (h : m.AgreesBut hidden n) : n.stepFault? = m.stepFault? := by
  have hfault : m.instruction.fault? n.fetched = m.instruction.fault? m.fetched := by
    rw [h.fetched.rest]
    exact Instruction.fault?_congr rfl rfl rfl rfl fun _ _ _ _ _ => rfl
  rw [stepFault?, stepFault?, h.instruction_eq, hfault, h.rest]

variable (hi : ∀ p ∈ hidden, ¬ m.instruction.Reads p)

include hi

theorem executed (h : m.AgreesBut hidden n) : m.executed.AgreesBut hidden n.executed := by
  rw [Machine.executed, Machine.executed, h.instruction_eq]
  exact Instruction.agreesBut_effect h.fetched hi

theorem waiting_executed_eq (h : m.AgreesBut hidden n) :
    n.executed.waiting = m.executed.waiting := by
  rw [(h.executed hi).rest]

theorem stepped (h : m.AgreesBut hidden n) : m.stepped.AgreesBut hidden n.stepped := by
  have he := h.executed hi
  refine ⟨?_, he.delay, he.keypad, he.random, he.sound, he.dirty, fun hvisible => ?_⟩
  · rw [Machine.stepped, he.rest]
    rfl
  · change n.nextStatistics = m.nextStatistics
    rw [nextStatistics, nextStatistics, he.statistics hvisible, h.waiting_executed_eq hi, h.word_eq]

end Machine.AgreesBut

namespace Command

/-- The command carries out no instruction that reads a hidden part. -/
def LeavesUnread (hidden : List Part) (c : Command) (m : Machine) : Prop :=
  ∀ i, c.executes? m = some i → ∀ p ∈ hidden, ¬ i.Reads p

theorem agreesBut_step (h : m.AgreesBut hidden n) (hc : step.LeavesUnread hidden m) :
    n.step.1 = m.step.1 ∧ m.step.2.AgreesBut hidden n.step.2 := by
  rcases Machine.step_cases_of_alike h.running_eq h.stepFault?_eq with
    ⟨hstep, hstep'⟩ | ⟨fault, hstep, hstep'⟩ | ⟨hexecutes, hstep, hstep'⟩
  · rw [hstep, hstep']
    exact ⟨rfl, h⟩
  · rw [hstep, hstep']
    exact ⟨rfl, congrArg (fun m : Machine => { m with waiting := false }) h.rest,
      h.delay, h.keypad, h.random, h.sound, h.dirty, h.statistics⟩
  · have hi := hc _ hexecutes
    rw [hstep, hstep', Machine.nextOutcome, Machine.nextOutcome, h.waiting_executed_eq hi]
    exact ⟨rfl, h.stepped hi⟩

theorem agreesBut_apply {c : Command} (h : m.AgreesBut hidden n) (hc : c.LeavesUnread hidden m) :
    (c.apply n).1 = (c.apply m).1 ∧ (c.apply m).2.AgreesBut hidden (c.apply n).2 := by
  obtain ⟨dirty, timers, keypad, statistics, random, rfl⟩ := h.exists_eq
  cases c with
  | step =>
      obtain ⟨hanswer, hnext⟩ := agreesBut_step h hc
      rw [apply_step, apply_step, hanswer]
      exact ⟨rfl, hnext⟩
  | load image =>
      rw [apply_load, apply_load]
      split
      · exact ⟨rfl, h⟩
      · exact ⟨rfl, rfl, fun _ => rfl, h.keypad, h.random, fun _ => rfl, fun _ => rfl,
          h.statistics⟩
  | tick =>
      exact ⟨rfl, rfl, fun hmem => congrArg Timers.countDown (h.delay hmem), h.keypad, h.random,
        fun hmem => congrArg Timers.countDown (h.sound hmem), h.dirty, h.statistics⟩
  | key k held =>
      exact ⟨rfl, rfl, h.delay, fun hmem => congrArg (Keypad.set (Key.ofByte k) held) (h.keypad hmem),
        h.random, h.sound, h.dirty, h.statistics⟩
  | reset =>
      exact ⟨rfl, rfl, fun _ => rfl, h.keypad, h.random, fun _ => rfl, fun _ => rfl, h.statistics⟩
  | stop =>
      exact ⟨rfl, rfl, fun _ => rfl, h.keypad, h.random, fun _ => rfl, fun _ => rfl, fun _ => rfl⟩
  | present =>
      exact ⟨rfl, rfl, h.delay, h.keypad, h.random, h.sound, fun _ => rfl, h.statistics⟩
  | toggle =>
      rw [apply_toggle, apply_toggle]
      exact ⟨rfl, rfl, h.delay, h.keypad, h.random, h.sound, h.dirty, h.statistics⟩
  | _ => exact ⟨rfl, rfl, h.delay, h.keypad, h.random, h.sound, h.dirty, h.statistics⟩

theorem agreesBut_run {history : List Command} (h : m.AgreesBut hidden n)
    (hhistory : Along (LeavesUnread hidden) history m) :
    (run history n).1 = (run history m).1 ∧ (run history m).2.AgreesBut hidden (run history n).2 :=
  run_lockstep (fun _ _ _ hc h => agreesBut_apply h hc) hhistory h

theorem leavesUnread_of_outputs (h : ∀ p ∈ hidden, p ∈ [.sound, .dirty, .statistics])
    (c : Command) (m : Machine) : c.LeavesUnread hidden m := by
  intro i _ p hp hreads
  have hout := h p hp
  cases p with
  | delay | keypad | random => simp at hout
  | sound | dirty | statistics => exact hreads

/-- A history in which `none` stands for a tick that was put in, read with these
ticks. -/
def withTicks (history : List (Option Command)) : List Command := history.map (·.getD tick)

/-- The history before the ticks were put in. -/
def withoutTicks (history : List (Option Command)) : List Command := history.filterMap id

/-- The answers less those to the ticks that were put in. -/
def ownAnswers (history : List (Option Command)) (answers : List Response) : List Response :=
  (history.zip answers).filterMap fun (c?, answer) => c?.map fun _ => answer

theorem agreesBut_tick (h : m.AgreesBut [.delay, .sound] n) :
    m.AgreesBut [.delay, .sound] (tick.apply n).2 := by
  obtain ⟨dirty, timers, keypad, statistics, random, rfl⟩ := h.exists_eq
  exact ⟨rfl, by simp, h.keypad, h.random, by simp, h.dirty, h.statistics⟩

theorem run_withTicks {history : List (Option Command)} (h : m.AgreesBut [.delay, .sound] n)
    (hhistory : Along (LeavesUnread [.delay, .sound]) (withoutTicks history) m) :
    ownAnswers history (run (withTicks history) n).1 = (run (withoutTicks history) m).1 ∧
      (run (withoutTicks history) m).2.AgreesBut [.delay, .sound]
        (run (withTicks history) n).2 := by
  -- Between the machines lies any number of ticks, so the relation carries the induction.
  induction history generalizing m n with
  | nil => exact ⟨rfl, h⟩
  | cons c? rest ih =>
      cases c? with
      | none => exact ih (agreesBut_tick h) hhistory
      | some c =>
          obtain ⟨hanswer, hnext⟩ := agreesBut_apply h hhistory.1
          obtain ⟨hanswers, hlast⟩ := ih hnext hhistory.2
          exact ⟨List.cons_eq_cons.mpr ⟨hanswer, hanswers⟩, hlast⟩

theorem eq_withTimers (h : m.AgreesBut [.delay, .sound] n) : n = { m with timers := n.timers } := by
  obtain ⟨dirty, timers, keypad, statistics, random, rfl⟩ := h.exists_eq
  obtain rfl : keypad = m.keypad := h.keypad (by decide)
  obtain rfl : random = m.random := h.random (by decide)
  obtain rfl : dirty = m.display.dirty := h.dirty (by decide)
  obtain rfl : statistics = m.statistics := h.statistics (by decide)
  rfl

/-- The outputs never feed back into a run, and an input makes a difference only
to the instructions that read it. So ticks put in anywhere make none, but to the
timers, as long as the delay timer is not read. -/
theorem hidden_parts_unobservable :
    (∀ (m n : Machine) (history : List Command), m.AgreesBut [.sound, .dirty, .statistics] n →
      (run history n).1 = (run history m).1 ∧
        (run history m).2.AgreesBut [.sound, .dirty, .statistics] (run history n).2) ∧
    (∀ (hidden : List Part) (m n : Machine) (history : List Command), m.AgreesBut hidden n →
      Along (LeavesUnread hidden) history m →
      (run history n).1 = (run history m).1 ∧
        (run history m).2.AgreesBut hidden (run history n).2) ∧
    (∀ (m : Machine) (history : List (Option Command)),
      Along (LeavesUnread [.delay]) (withoutTicks history) m →
      ownAnswers history (run (withTicks history) m).1 = (run (withoutTicks history) m).1 ∧
        ∃ timers, (run (withTicks history) m).2 =
          { (run (withoutTicks history) m).2 with timers }) := by
  refine ⟨fun m n history h => ?_, fun hidden m n history => agreesBut_run, ?_⟩
  · exact agreesBut_run h (along_of_forall (fun c _ m => leavesUnread_of_outputs (by simp) c m) m)
  · intro m history hhistory
    have hunread : Along (LeavesUnread [.delay, .sound]) (withoutTicks history) m := by
      apply hhistory.imp
      intro c m hc i hexecutes p hp
      rcases List.mem_cons.mp hp with rfl | hsound
      · exact hc i hexecutes .delay List.mem_cons_self
      · exact leavesUnread_of_outputs (by simp) c m i hexecutes p hsound
    obtain ⟨hanswers, hlast⟩ := run_withTicks (.refl _ m) hunread
    exact ⟨hanswers, _, eq_withTimers hlast⟩

/-- A random byte that is masked away, drawn from two tapes under two sounds. -/
theorem hidden_parts_unobservable_masked :
    let m : Machine := Machine.starting #[0xC0, 0x00] { config := {}, random := .ofSeed 0 }
    let n : Machine := { m with random := .ofSeed 1, timers := { sound := 9 } }
    (run [step] n).1 = (run [step] m).1 ∧
      (run [step] m).2.AgreesBut [.random, .sound] (run [step] n).2 ∧
      ∃ timers, (run [tick, step, tick] m).2 = { (run [step] m).2 with timers } := by
  intro m n
  have hexecutes : step.executes? m = some (.random 0 0) :=
    (executes?_starting (Machine.uniform_new {} (.ofSeed 0)) (by decide) rfl rfl).trans (by decide)
  have hunread : ∀ hidden, Along (LeavesUnread hidden) [step] m := by
    refine fun hidden => ⟨fun i hi p _ => ?_, trivial⟩
    rw [hexecutes, Option.some.injEq] at hi
    exact hi ▸ Instruction.not_reads_masked 0 p
  have hagree : m.AgreesBut [.random, .sound] n :=
    ⟨rfl, fun _ => rfl, fun _ => rfl, by simp, by simp, fun _ => rfl, fun _ => rfl⟩
  obtain ⟨-, hruns, hticks⟩ := hidden_parts_unobservable
  obtain ⟨hanswers, hlast⟩ := hruns [.random, .sound] m n [step] hagree (hunread _)
  obtain ⟨-, htimers⟩ := hticks m [none, some step, none] (hunread _)
  exact ⟨hanswers, hlast, htimers⟩

end Command

end Chip8
