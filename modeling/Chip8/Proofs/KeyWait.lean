import Chip8.Proofs.History

namespace Chip8

/-- Only a wait that finds no key puts a machine to waiting, and it goes back to
the same instruction. -/
theorem Instruction.effect_of_waiting {i : Instruction} {m : Machine} (hm : m.waiting = false)
    (h : (i.effect m).waiting = true) :
    ∃ x, i = .waitKey x ∧ i.effect m = { m with pc := m.pc - 2, waiting := true } := by
  cases i with
  | waitKey x =>
      refine ⟨x, rfl, ?_⟩
      rw [effect] at h ⊢
      cases hkey : m.keypad.lowest? with
      | some key => simp [hkey, hm] at h
      | none => simp [hm, Registers.take]
  | _ => simp [effect, hm] at h

namespace Machine

/-- A machine that waits has a program, and it is at an instruction that can be
fetched and waits for a key. -/
def WaitsAtWait (m : Machine) : Prop :=
  m.waiting = true →
    m.loaded = true ∧ Memory.spanFault? m.memory.strict m.pc 2 = none ∧
      ∃ x, m.instruction = .waitKey x

theorem waitsAtWait_of_not_waiting {m : Machine} (h : m.waiting = false) : m.WaitsAtWait := by
  intro hwaiting
  rw [h] at hwaiting
  contradiction

/-- A step that ends up waiting leaves the machine as it was, but for the
statistics and the waiting itself. -/
theorem stepped_of_waiting {m : Machine} (h : m.stepped.waiting = true) :
    (∃ x, m.instruction = .waitKey x) ∧
      m.stepped = { m with statistics := m.nextStatistics, waiting := true } := by
  obtain ⟨x, hx, heffect⟩ := Instruction.effect_of_waiting (m := m.fetched) rfl h
  refine ⟨⟨x, hx⟩, ?_⟩
  have hpc : m.pc + 2 - 2 = m.pc := by
    apply UInt16.toNat_inj.mp
    have : (2 : UInt16).toNat = 2 := rfl
    have := m.pc.toNat_lt
    simp only [UInt16.toNat_sub, UInt16.toNat_add]
    omega
  rw [stepped, executed, heffect, fetched, hpc]

theorem waitsAtWait_step {m : Machine} (hm : m.WaitsAtWait) : m.step.2.WaitsAtWait := by
  rcases step_cases m with ⟨-, hstep⟩ | ⟨fault, -, -, hstep⟩ | ⟨hrun, hfault, hstep⟩
  · simpa only [hstep] using hm
  · simp only [hstep]
    exact waitsAtWait_of_not_waiting rfl
  · simp only [hstep]
    intro hwaiting
    obtain ⟨hwait, hstepped⟩ := stepped_of_waiting hwaiting
    rw [running, Bool.and_eq_true] at hrun
    rw [stepFault?, Option.or_eq_none_iff] at hfault
    rw [hstepped]
    exact ⟨hrun.1, hfault.1, hwait⟩

theorem waitsAtWait_apply (c : Command) (m : Machine) (hm : m.WaitsAtWait) :
    (c.apply m).2.WaitsAtWait := by
  cases c with
  | load image =>
      rw [Command.apply_load]
      split
      · exact hm
      · exact waitsAtWait_of_not_waiting rfl
  | step =>
      rw [Command.apply_step]
      exact waitsAtWait_step hm
  | toggle =>
      rw [Command.apply_toggle]
      exact hm
  | reset => exact waitsAtWait_of_not_waiting rfl
  | stop => exact waitsAtWait_of_not_waiting rfl
  | tick => exact hm
  | key k held => exact hm
  | pause => exact hm
  | resume => exact hm
  | present => exact hm

theorem Reachable.waitsAtWait {m : Machine} (hm : m.Reachable) : m.WaitsAtWait :=
  hm.invariant (fun _ _ => waitsAtWait_of_not_waiting rfl) waitsAtWait_apply

/-- A machine at a wait that it can fetch has no fault ahead. -/
theorem stepFault?_of_waitKey {m : Machine} {x : Reg}
    (hspan : Memory.spanFault? m.memory.strict m.pc 2 = none)
    (hx : m.instruction = .waitKey x) : m.stepFault? = none := by
  rw [stepFault?, hspan, hx, Option.none_or, Instruction.fault?]

/-- A fault leaves no trace on a machine that only waits at a wait. -/
theorem WaitsAtWait.step_of_fault {m : Machine} {fault : Fault} (hm : m.WaitsAtWait)
    (hrun : m.running = true) (h : m.stepFault? = some fault) : m.step = (.error fault, m) := by
  have hawake : m.waiting = false := by
    cases hwaiting : m.waiting with
    | false => rfl
    | true =>
        obtain ⟨-, hspan, x, hx⟩ := hm hwaiting
        rw [stepFault?_of_waitKey hspan hx] at h
        contradiction
  rw [Machine.step_of_fault hrun h, ← hawake]

end Machine

end Chip8
