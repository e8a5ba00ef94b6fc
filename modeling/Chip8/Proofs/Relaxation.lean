import Chip8.Proofs.Strictness

namespace Chip8

namespace Memory

def relaxed (m : Memory) : Memory := { m with strict := false }

theorem relaxed_store (address : UInt16) (bytes : List UInt8) (m : Memory) :
    (m.store address bytes).relaxed = m.relaxed.store address bytes := by
  induction bytes generalizing address m with
  | nil => rfl
  | cons byte rest ih => exact ih (address + 1) (m.put address byte)

@[simp] theorem bytesAt_relaxed (address : UInt16) (length : Nat) (m : Memory) :
    m.relaxed.bytesAt address length = m.bytesAt address length := by
  induction length generalizing address with
  | zero => rfl
  | succ length ih =>
      simp only [bytesAt, ih]
      rfl

end Memory

def CallStack.relaxed (s : CallStack) : CallStack := { s with strict := false }

/-- The machine with its three checks turned off. -/
def Machine.relaxed (m : Machine) : Machine :=
  { m with
    config := { m.config with strict := false }
    memory := m.memory.relaxed
    stack := m.stack.relaxed }

theorem Machine.relaxed_uniform (m : Machine) : m.relaxed.Uniform false where
  config := rfl
  memory := rfl
  stack := rfl

/-- What an instruction does has nothing to do with the checks. -/
theorem Instruction.effect_relaxed (i : Instruction) (m : Machine) :
    i.effect m.relaxed = (i.effect m).relaxed := by
  cases i with
  | draw x y height =>
      have htargets : m.relaxed.spriteTargets x y height = m.spriteTargets x y height :=
        congrArg (Framebuffer.targets m.config.sprite m.v[x] m.v[y])
          (Memory.bytesAt_relaxed m.index height.val m.memory)
      rw [effect, effect, htargets]
      rfl
  | storeDecimal x =>
      rw [effect, effect]
      simp only [Machine.relaxed, Memory.relaxed_store]
  | storeRegisters x =>
      rw [effect, effect]
      simp only [Machine.relaxed, Memory.relaxed_store]
  | loadRegisters x =>
      rw [effect, effect]
      simp only [Machine.relaxed, Memory.bytesAt_relaxed]
  | _ => rfl

namespace Machine

theorem executed_relaxed (m : Machine) : m.relaxed.executed = m.executed.relaxed :=
  Instruction.effect_relaxed m.instruction m.fetched

theorem stepped_relaxed (m : Machine) : m.relaxed.stepped = m.stepped.relaxed := by
  simp only [stepped, nextStatistics, executed_relaxed]
  rfl

theorem nextOutcome_relaxed (m : Machine) : m.relaxed.nextOutcome = m.nextOutcome := by
  simp only [nextOutcome, executed_relaxed]
  rfl

/-- A step that passes every check does the same without the checks. -/
theorem step_relaxed {m : Machine} {outcome : Outcome} (h : m.step.1 = .ok outcome) :
    m.relaxed.step = (.ok outcome, m.step.2.relaxed) := by
  rcases step_cases m with ⟨hidle, hstep⟩ | ⟨fault, -, -, hstep⟩ | ⟨hrun, -, hstep⟩
  · rw [hstep] at h ⊢
    rw [step_of_idle (m := m.relaxed) hidle, ← h]
  · rw [hstep] at h
    contradiction
  · rw [hstep] at h ⊢
    rw [step_of_no_fault (m := m.relaxed) hrun (stepFault?_of_loose m.relaxed_uniform),
      nextOutcome_relaxed, stepped_relaxed, ← h]

end Machine

namespace Command

theorem apply_relaxed (c : Command) (m : Machine)
    (h : ∀ fault, (c.apply m).1 ≠ .failed fault) :
    c.apply m.relaxed = ((c.apply m).1, (c.apply m).2.relaxed) := by
  cases c with
  | load image =>
      rw [apply_load, apply_load]
      split
      · rfl
      · simp only [Machine.starting, Machine.reset, Machine.relaxed, Memory.relaxed_store]
        rfl
  | step =>
      rw [apply_step, apply_step]
      rw [apply_step] at h
      cases hstep : m.step.1 with
      | error fault =>
          rw [hstep] at h
          exact absurd rfl (h fault)
      | ok outcome => rw [Machine.step_relaxed hstep]
  | toggle =>
      rw [apply_toggle, apply_toggle]
      rfl
  | _ => rfl

/-- As long as no step fails, a machine answers a whole history in the same way
without its checks, and ends up the same. -/
theorem run_relaxed (history : List Command) (m : Machine)
    (h : ∀ fault, .failed fault ∉ (run history m).1) :
    run history m.relaxed = ((run history m).1, (run history m).2.relaxed) := by
  induction history generalizing m with
  | nil => rfl
  | cons c rest ih =>
      simp only [run_cons, List.mem_cons, not_or] at h
      have hfirst := apply_relaxed c m fun fault hfault => (h fault).1 hfault.symm
      have hrest := ih (c.apply m).2 fun fault => (h fault).2
      simp only [run_cons, hfirst, hrest]

/-- Of two new machines that differ in strictness only, the loose one follows the
strict one for as long as that does not fail: it gives the same answers, and it
differs in the three checks only. -/
theorem run_loose_of_strict (shift : ShiftMode) (sprite : SpriteMode) (random : RandomTape)
    (history : List Command)
    (h : ∀ fault, .failed fault ∉
      (run history { config := { strict := true, shift, sprite }, random }).1) :
    run history { config := { strict := false, shift, sprite }, random } =
      ((run history { config := { strict := true, shift, sprite }, random }).1,
        (run history { config := { strict := true, shift, sprite }, random }).2.relaxed) :=
  run_relaxed history { config := { strict := true, shift, sprite }, random } h

theorem run_lone_call (m : Machine) :
    (run [.load #[0x22, 0x00], .step] m).1 = [.done, .stepped .executed] := by
  have hcall : (m.starting #[0x22, 0x00]).instruction = .call 0x200 :=
    (Machine.instruction_starting _ m (by decide) rfl rfl).trans (by decide)
  have hfault : (m.starting #[0x22, 0x00]).stepFault? = none := by
    rw [Machine.stepFault?, Machine.spanFault?_starting, hcall, Option.none_or,
      Instruction.fault?, CallStack.pushFault?]
    exact if_neg fun h => absurd h.2 (show ¬ CallStack.depth ≤ (0 : UInt16).toNat by decide)
  have houtcome : (m.starting #[0x22, 0x00]).nextOutcome = .executed := by
    rw [Machine.nextOutcome, Machine.executed, hcall]
    rfl
  simp only [run_cons, run_nil, apply_load, apply_step]
  rw [if_neg (by decide), Machine.step_of_no_fault rfl hfault, houtcome]
  rfl

theorem run_loose_of_strict_lone_call :
    let strict : Machine := { config := { strict := true }, random := .ofSeed 0 }
    let loose : Machine := { config := { strict := false }, random := .ofSeed 0 }
    let history := [.load #[0x22, 0x00], .step]
    (run history strict).1 = [.done, .stepped .executed] ∧
      run history loose = ((run history strict).1, (run history strict).2.relaxed) := by
  have hanswers := run_lone_call { config := { strict := true }, random := .ofSeed 0 }
  refine ⟨hanswers, run_loose_of_strict _ _ _ _ fun fault hmem => ?_⟩
  rw [hanswers] at hmem
  simp at hmem

end Command

end Chip8
