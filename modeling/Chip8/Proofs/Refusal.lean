import Chip8.Proofs.KeyWait

namespace Chip8.Machine

/-- A step that ends in a fault leaves no trace: the whole machine is as it was
before. -/
theorem step_refused_unchanged {m : Machine} (hm : m.Reachable) {fault : Fault}
    (h : m.step.1 = .error fault) : m.step.2 = m := by
  rcases step_cases m with ⟨-, hstep⟩ | ⟨f, -, hfault, hstep⟩ | ⟨-, -, hstep⟩
  · rw [hstep]
  · have hawake : m.waiting = false := by
      -- A machine that waits could not have failed.
      cases hwaiting : m.waiting with
      | false => rfl
      | true =>
          obtain ⟨-, hspan, x, hx⟩ := hm.waitsAtWait hwaiting
          rw [stepFault?_of_waitKey hspan hx] at hfault
          contradiction
    rw [hstep, ← hawake]
  · rw [hstep] at h
    contradiction

theorem stepFault?_of_lone_ret {m : Machine} (h : m.stack.strict = true) :
    (m.starting #[0x00, 0xEE]).stepFault? = some .stackUnderflow := by
  have hret : (m.starting #[0x00, 0xEE]).instruction = .ret :=
    (instruction_starting _ m (by decide) rfl rfl).trans (by decide)
  rw [stepFault?, spanFault?_starting, hret, Option.none_or, Instruction.fault?,
    CallStack.popFault?]
  exact if_pos ⟨h, .inl rfl⟩

/-- A strict machine refuses a return without a call, and stays as it was. -/
theorem step_refused_unchanged_lone_ret :
    let m := (Command.run [.load #[0x00, 0xEE]]
      { config := { strict := true }, random := .ofSeed 0 }).2
    m.step.1 = .error .stackUnderflow ∧ m.step.2 = m := by
  intro m
  have hm : m = Machine.starting #[0x00, 0xEE]
      { config := { strict := true }, random := .ofSeed 0 } :=
    Command.run_load _ _ (by decide)
  have hstep : m.step.1 = .error .stackUnderflow := by
    rw [hm, step_of_fault rfl (stepFault?_of_lone_ret rfl)]
  exact ⟨hstep, step_refused_unchanged ⟨_, _, _, rfl⟩ hstep⟩

end Chip8.Machine
