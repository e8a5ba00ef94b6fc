import Chip8.Proofs.History

namespace Chip8

/-- Every part of the machine is as strict as `strict` says. -/
structure Machine.Uniform (strict : Bool) (m : Machine) : Prop where
  config : m.config.strict = strict
  memory : m.memory.strict = strict
  stack : m.stack.strict = strict

namespace Instruction

@[simp] theorem config_effect (i : Instruction) (m : Machine) :
    (i.effect m).config = m.config := by
  cases i <;> rfl

@[simp] theorem memoryStrict_effect (i : Instruction) (m : Machine) :
    (i.effect m).memory.strict = m.memory.strict := by
  cases i with
  | storeDecimal x => exact Memory.strict_store _ _ _
  | storeRegisters x => exact Memory.strict_store _ _ _
  | _ => rfl

@[simp] theorem stackStrict_effect (i : Instruction) (m : Machine) :
    (i.effect m).stack.strict = m.stack.strict := by
  cases i <;> rfl

/-- A machine without checks carries out every instruction. -/
theorem fault?_of_loose (i : Instruction) {m : Machine} (hm : m.Uniform false) :
    i.fault? m = none := by
  obtain ⟨hconfig, hmemory, hstack⟩ := hm
  cases i <;>
    simp [fault?, CallStack.pushFault?, CallStack.popFault?, Framebuffer.drawFault?, hconfig,
      hmemory, hstack]

end Instruction

namespace Machine

variable {strict : Bool} {m : Machine}

theorem uniform_new (config : Config) (random : RandomTape) :
    Uniform config.strict { config, random } where
  config := rfl
  memory := rfl
  stack := rfl

theorem stepFault?_of_loose (hm : m.Uniform false) : m.stepFault? = none := by
  rw [stepFault?, hm.memory, Memory.spanFault?_loose, Option.none_or]
  exact Instruction.fault?_of_loose _ ⟨hm.config, hm.memory, hm.stack⟩

theorem Uniform.stepped (hm : m.Uniform strict) : m.stepped.Uniform strict where
  config := (congrArg Config.strict (Instruction.config_effect _ _)).trans hm.config
  memory := (Instruction.memoryStrict_effect _ _).trans hm.memory
  stack := (Instruction.stackStrict_effect _ _).trans hm.stack

theorem Uniform.step (hm : m.Uniform strict) : m.step.2.Uniform strict := by
  rcases step_cases m with ⟨-, hstep⟩ | ⟨fault, -, -, hstep⟩ | ⟨-, -, hstep⟩
  · rw [hstep]
    exact hm
  · rw [hstep]
    exact ⟨hm.config, hm.memory, hm.stack⟩
  · rw [hstep]
    exact hm.stepped

theorem Uniform.starting (hm : m.Uniform strict) (image : Image) :
    (m.starting image).Uniform strict where
  config := hm.config
  memory := (Memory.strict_store _ _ _).trans hm.memory
  stack := hm.stack

theorem Uniform.apply (c : Command) (hm : m.Uniform strict) : (c.apply m).2.Uniform strict := by
  obtain ⟨hconfig, hmemory, hstack⟩ := hm
  cases c with
  | load image =>
      rw [Command.apply_load]
      split
      · exact ⟨hconfig, hmemory, hstack⟩
      · exact Uniform.starting ⟨hconfig, hmemory, hstack⟩ image
  | step =>
      rw [Command.apply_step]
      exact Uniform.step ⟨hconfig, hmemory, hstack⟩
  | toggle =>
      rw [Command.apply_toggle]
      exact ⟨hconfig, hmemory, hstack⟩
  | _ => exact ⟨hconfig, hmemory, hstack⟩

/-- The three places that say whether a machine is strict never disagree. -/
theorem Reachable.uniform (hm : m.Reachable) : m.Uniform m.config.strict := by
  obtain ⟨config, random, history, rfl⟩ := hm
  have h : (Command.run history { config, random }).2.Uniform config.strict :=
    Command.run_preserves (fun c _ => Uniform.apply c) history (uniform_new config random)
  rw [h.config]
  exact h

end Machine

end Chip8
