import Chip8.Proofs.Counters
import Chip8.Proofs.Decoding
import Chip8.Proofs.KeyWait
import Chip8.Proofs.Strictness

namespace Chip8

/-- A step that carried out an instruction: its word, and whether it was left
waiting for a key. -/
structure CompletedStep where
  word : Word
  waited : Bool

/-- What the next step completes. A step that is idle or fails completes nothing. -/
def Machine.completedStep? (m : Machine) : Option CompletedStep :=
  match m.nextWord, m.step.1 with
  | .ok word, .ok .executed => some { word, waited := false }
  | .ok word, .ok .waitingForKey => some { word, waited := true }
  | _, _ => none

namespace Command

def enter (c : Command) (m : Machine) (steps : List CompletedStep) : List CompletedStep :=
  match c with
  | step => m.completedStep?.toList ++ steps
  | stop => []
  | _ => steps

/-- The steps that a history completes after its last stop, the latest first.
Without a stop in it they are put before `steps`. -/
def ledger (history : List Command) (m : Machine) (steps : List CompletedStep) :
    List CompletedStep :=
  match history with
  | [] => steps
  | c :: rest => ledger rest (c.apply m).2 (c.enter m steps)

def isStep : Command → Bool
  | step => true
  | _ => false

end Command

namespace Statistics

theorem foldl_add_set (counts : List Nat) (start i : Nat) (h : i < counts.length) :
    (counts.set i (counts[i] + 1)).foldl (· + ·) start = counts.foldl (· + ·) start + 1 := by
  induction counts generalizing start i with
  | nil => contradiction
  | cons n rest ih =>
      cases i with
      | zero =>
          have hstart : start + (n + 1) = 1 + (start + n) := by omega
          simp only [List.set_cons_zero, List.getElem_cons_zero, List.foldl_cons, hstart]
          rw [List.foldl_assoc, Nat.add_comm]
      | succ i => exact ih (start + n) i (Nat.lt_of_succ_lt_succ h)

theorem total_record (f : Family) (s : Statistics) : (s.record f).total = s.total + 1 := by
  have h := foldl_add_set s.executed.toList 0 f.nibble.val (by simp)
  rw [Vector.getElem_toList] at h
  simp only [total, record, ← Vector.foldl_toList, Vector.toList_set]
  exact h

/-- The counters say what `steps` holds. -/
structure Tallies (steps : List CompletedStep) (s : Statistics) : Prop where
  count : ∀ f : Family, s.count f = steps.countP (·.word.top = f.nibble)
  total : s.total = steps.length
  keyWaits : s.keyWaits = steps.countP (·.waited)
  ignored : s.ignored = steps.countP (·.word.unmatched)

theorem tallies_new : ({} : Statistics).Tallies [] where
  count f := by simp [Statistics.count]
  total := by decide
  keyWaits := rfl
  ignored := rfl

end Statistics

/-- A step that can be completed: only a wait for a key is left waiting, and a
strict machine passes over no word. -/
structure CompletedStep.Possible (strict : Bool) (e : CompletedStep) : Prop where
  waits : e.waited = true → ∃ x, Instruction.decode e.word = .waitKey x
  matched : strict = true → e.word.unmatched = false

namespace Machine

variable {strict : Bool} {m : Machine} {steps : List CompletedStep}

theorem completedStep?_of_idle (h : m.running = false) : m.completedStep? = none := by
  simp only [completedStep?, step_of_idle h]
  cases m.nextWord <;> rfl

theorem completedStep?_of_fault {fault : Fault} (hrun : m.running = true)
    (h : m.stepFault? = some fault) : m.completedStep? = none := by
  simp only [completedStep?, step_of_fault hrun h]
  cases m.nextWord <;> rfl

theorem completedStep?_of_no_fault (hrun : m.running = true) (h : m.stepFault? = none) :
    m.completedStep? = some { word := m.word, waited := m.executed.waiting } := by
  simp only [completedStep?, step_of_no_fault hrun h, nextWord_of_no_fault h, nextOutcome]
  cases m.executed.waiting <;> rfl

theorem possible_of_no_fault (hm : m.Uniform strict) (h : m.stepFault? = none) :
    CompletedStep.Possible strict { word := m.word, waited := m.executed.waiting } where
  waits hwaiting := (stepped_of_waiting hwaiting).1
  matched hstrict := by
    rw [stepFault?, Option.or_eq_none_iff] at h
    cases hw : m.word.unmatched with
    | false => rfl
    | true =>
        have hunknown : m.instruction = .unknown m.word :=
          (Instruction.decode_eq_unknown_iff _ _).mpr ⟨hw, rfl⟩
        have hconfig : m.fetched.config.strict = true := hm.config.trans hstrict
        rw [hunknown, Instruction.fault?, if_pos hconfig] at h
        exact absurd h.2 (Option.some_ne_none _)

theorem statistics_executed (m : Machine) :
    m.executed.statistics =
      if m.word.unmatched then m.statistics.recordIgnored else m.statistics := by
  cases hw : m.word.unmatched with
  | true =>
      have hunknown : m.instruction = .unknown m.word :=
        (Instruction.decode_eq_unknown_iff _ _).mpr ⟨hw, rfl⟩
      rw [executed, hunknown]
      rfl
  | false =>
      rw [executed]
      cases hi : m.instruction with
      | unknown w =>
          have hunmatched := ((Instruction.decode_eq_unknown_iff _ _).mp hi).1
          rw [hw] at hunmatched
          contradiction
      | _ => rfl

theorem total_nextStatistics (m : Machine) :
    m.nextStatistics.total = m.statistics.total + 1 := by
  rw [← Statistics.total_record (.ofWord m.word), nextStatistics, statistics_executed]
  cases m.word.unmatched <;> cases m.executed.waiting <;> rfl

theorem count_nextStatistics (m : Machine) (f : Family) :
    m.nextStatistics.count f =
      m.statistics.count f + if m.word.top = f.nibble then 1 else 0 := by
  have hrecord : m.nextStatistics.count f = (m.statistics.record (.ofWord m.word)).count f := by
    rw [nextStatistics, statistics_executed]
    cases m.word.unmatched <;> cases m.executed.waiting <;> rfl
  rw [hrecord, Statistics.count_record]
  by_cases hf : Family.ofWord m.word = f
  · rw [if_pos hf, if_pos ((Family.ofWord_eq_iff _ _).mp hf), hf]
  · rw [if_neg hf, if_neg (mt (Family.ofWord_eq_iff _ _).mpr hf), Nat.add_zero]

theorem keyWaits_nextStatistics (m : Machine) :
    m.nextStatistics.keyWaits =
      m.statistics.keyWaits + if m.executed.waiting then 1 else 0 := by
  rw [nextStatistics, statistics_executed]
  cases m.word.unmatched <;> cases m.executed.waiting <;> rfl

theorem ignored_nextStatistics (m : Machine) :
    m.nextStatistics.ignored =
      m.statistics.ignored + if m.word.unmatched then 1 else 0 := by
  rw [nextStatistics, statistics_executed]
  cases m.word.unmatched <;> cases m.executed.waiting <;> rfl

/-- The machine keeps the account of `steps`. -/
structure Accounts (strict : Bool) (steps : List CompletedStep) (m : Machine) : Prop where
  uniform : m.Uniform strict
  tallies : m.statistics.Tallies steps
  possible : ∀ e ∈ steps, e.Possible strict

theorem Accounts.stepped (h : m.Accounts strict steps) (hfault : m.stepFault? = none) :
    m.stepped.Accounts strict
      ({ word := m.word, waited := m.executed.waiting } :: steps) where
  uniform := h.uniform.stepped
  tallies :=
    { count := fun f => by
        rw [List.countP_cons, ← h.tallies.count]
        simp only [decide_eq_true_eq]
        exact count_nextStatistics m f
      total := (total_nextStatistics m).trans (congrArg (· + 1) h.tallies.total)
      keyWaits := by
        rw [List.countP_cons, ← h.tallies.keyWaits]
        exact keyWaits_nextStatistics m
      ignored := by
        rw [List.countP_cons, ← h.tallies.ignored]
        exact ignored_nextStatistics m }
  possible := by
    intro e he
    rcases List.mem_cons.mp he with rfl | he
    · exact possible_of_no_fault h.uniform hfault
    · exact h.possible e he

theorem Accounts.step (h : m.Accounts strict steps) :
    m.step.2.Accounts strict (m.completedStep?.toList ++ steps) := by
  rcases step_cases m with ⟨hidle, hstep⟩ | ⟨fault, hrun, hfault, hstep⟩ | ⟨hrun, hfault, hstep⟩
  · rw [hstep, completedStep?_of_idle hidle]
    exact h
  · rw [hstep, completedStep?_of_fault hrun hfault]
    exact ⟨⟨h.uniform.config, h.uniform.memory, h.uniform.stack⟩, h.tallies, h.possible⟩
  · rw [hstep, completedStep?_of_no_fault hrun hfault]
    exact h.stepped hfault

theorem Accounts.apply (c : Command) (h : m.Accounts strict steps) :
    (c.apply m).2.Accounts strict (c.enter m steps) := by
  have huniform : (c.apply m).2.Uniform strict := h.uniform.apply c
  cases c with
  | step =>
      rw [Command.apply_step]
      exact h.step
  | stop => exact ⟨huniform, Statistics.tallies_new, by simp [Command.enter]⟩
  | load image =>
      refine ⟨huniform, ?_, h.possible⟩
      rw [Command.apply_load]
      split
      · exact h.tallies
      · exact h.tallies
  | toggle =>
      refine ⟨huniform, ?_, h.possible⟩
      rw [Command.apply_toggle]
      exact h.tallies
  | _ => exact ⟨huniform, h.tallies, h.possible⟩

theorem Accounts.run (history : List Command) (h : m.Accounts strict steps) :
    (Command.run history m).2.Accounts strict (Command.ledger history m steps) := by
  induction history generalizing m steps with
  | nil => exact h
  | cons c rest ih => exact ih (h.apply c)

theorem accounts_new (config : Config) (random : RandomTape) :
    Accounts config.strict [] { config, random } where
  uniform := uniform_new config random
  tallies := Statistics.tallies_new
  possible := by simp

theorem Accounts.keyWaits_le_count (h : m.Accounts strict steps) :
    m.statistics.keyWaits ≤ m.statistics.count .misc := by
  rw [h.tallies.keyWaits, h.tallies.count]
  apply List.countP_mono_left
  intro e he hwaited
  -- Only a wait is left waiting, and each wait is of the one family.
  obtain ⟨x, hx⟩ := (h.possible e he).waits hwaited
  exact decide_eq_true ((Instruction.decode_eq_waitKey_iff _ _).mp hx).1

theorem Accounts.ignored_of_strict (h : m.Accounts strict steps) (hstrict : strict = true) :
    m.statistics.ignored = 0 := by
  rw [h.tallies.ignored, List.countP_eq_zero]
  intro e he
  rw [(h.possible e he).matched hstrict]
  exact Bool.false_ne_true

/-- No step both waits for a key and is passed over. -/
theorem Accounts.keyWaits_add_ignored_le (h : m.Accounts strict steps) :
    m.statistics.keyWaits + m.statistics.ignored ≤ m.statistics.total := by
  have hmatched : steps.countP (·.word.unmatched) ≤
      steps.countP (fun e => decide (¬ e.waited = true)) := by
    apply List.countP_mono_left
    intro e he hunmatched
    apply decide_eq_true
    intro hwaited
    obtain ⟨x, hx⟩ := (h.possible e he).waits hwaited
    rw [Instruction.unmatched_of_waitKey hx] at hunmatched
    contradiction
  rw [h.tallies.keyWaits, h.tallies.ignored, h.tallies.total,
    List.length_eq_countP_add_countP (·.waited)]
  exact Nat.add_le_add_left hmatched _

end Machine

namespace Command

theorem length_enter_le (c : Command) (m : Machine) (steps : List CompletedStep) :
    (c.enter m steps).length ≤ steps.length + if c.isStep then 1 else 0 := by
  cases c with
  | step =>
      have hone : m.completedStep?.toList.length ≤ 1 := by
        cases m.completedStep? <;> simp
      simp only [enter, isStep, if_true, List.length_append]
      omega
  | _ => simp [enter, isStep]

theorem length_ledger_le (history : List Command) (m : Machine) (steps : List CompletedStep) :
    (ledger history m steps).length ≤ steps.length + history.countP isStep := by
  induction history generalizing m steps with
  | nil => exact Nat.le_refl _
  | cons c rest ih =>
      have hrest := ih (c.apply m).2 (c.enter m steps)
      have hfirst := length_enter_le c m steps
      rw [ledger, List.countP_cons]
      omega

/-- The counters are an exact account of the steps completed since the last
stop, and with fewer steps than a 64-bit number can count, none goes round. -/
theorem statistics_run_eq_ledger (config : Config) (random : RandomTape)
    (history : List Command) :
    let s := (run history { config, random }).2.statistics
    let steps := ledger history { config, random } []
    (∀ f : Family, s.count f = steps.countP (·.word.top = f.nibble)) ∧
    s.total = steps.length ∧
    s.keyWaits = steps.countP (·.waited) ∧
    s.keyWaits ≤ s.count .misc ∧
    s.ignored = steps.countP (·.word.unmatched) ∧
    (config.strict = true → s.ignored = 0) ∧
    s.keyWaits + s.ignored ≤ s.total ∧
    (history.countP isStep < UInt64.size → s.Below UInt64.size ∧ s.total < UInt64.size) := by
  intro s steps
  have h : (run history { config, random }).2.Accounts config.strict steps :=
    (Machine.accounts_new config random).run history
  refine ⟨h.tallies.count, h.tallies.total, h.tallies.keyWaits, h.keyWaits_le_count,
    h.tallies.ignored, h.ignored_of_strict, h.keyWaits_add_ignored_le, ?_⟩
  intro hfew
  have hlength : steps.length ≤ history.countP isStep := by
    simpa using length_ledger_le history { config, random } []
  have htotal : s.total < UInt64.size := by
    rw [h.tallies.total]
    omega
  have hboth : s.keyWaits + s.ignored ≤ s.total := h.keyWaits_add_ignored_le
  refine ⟨⟨fun f => ?_, by omega, by omega⟩, htotal⟩
  calc s.count f = steps.countP (·.word.top = f.nibble) := h.tallies.count f
    _ ≤ steps.length := List.countP_le_length
    _ = s.total := h.tallies.total.symm
    _ < UInt64.size := htotal

theorem completedStep?_starting_wait (m : Machine) (h : m.keypad.lowest? = none) :
    (m.starting #[0xF0, 0x0A]).completedStep? = some { word := 0xF00A, waited := true } := by
  have hword : (m.starting #[0xF0, 0x0A]).word = 0xF00A :=
    (Machine.word_starting _ m (by decide) rfl rfl).trans (by decide)
  have hwait : (m.starting #[0xF0, 0x0A]).instruction = .waitKey 0 := by
    rw [Machine.instruction, hword]
    decide
  have hfault := Machine.stepFault?_of_waitKey (Machine.spanFault?_starting _ m) hwait
  have hwaiting : (m.starting #[0xF0, 0x0A]).executed.waiting = true := by
    rw [Machine.executed, hwait]
    change (false || m.keypad.lowest?.isNone) = true
    rw [h]
    rfl
  rw [Machine.completedStep?_of_no_fault rfl hfault, hword, hwaiting]

/-- A strict machine that waits for a key has counted one instruction and one wait. -/
theorem statistics_run_eq_ledger_wait :
    let config : Config := { strict := true }
    let s := (run [.load #[0xF0, 0x0A], .step] { config, random := .ofSeed 0 }).2.statistics
    s.total = 1 ∧ s.keyWaits = 1 ∧ s.ignored = 0 ∧ s.Below UInt64.size := by
  intro config s
  have hledger : ledger [.load #[0xF0, 0x0A], .step] { config, random := .ofSeed 0 } [] =
      [{ word := 0xF00A, waited := true }] := by
    simp only [ledger, enter, apply_load]
    rw [if_neg (by decide), completedStep?_starting_wait _ (by decide)]
    rfl
  obtain ⟨-, htotal, hkeyWaits, -, -, hstrict, -, hfew⟩ :=
    statistics_run_eq_ledger config (.ofSeed 0) [.load #[0xF0, 0x0A], .step]
  rw [hledger] at htotal hkeyWaits
  have hsteps : [.load #[0xF0, 0x0A], .step].countP isStep < UInt64.size :=
    show 1 < 18446744073709551616 by omega
  exact ⟨htotal, hkeyWaits, hstrict rfl, (hfew hsteps).1⟩

end Command

end Chip8
