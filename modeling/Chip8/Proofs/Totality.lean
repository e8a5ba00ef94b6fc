import Chip8.Proofs.CheckedExecution
import Chip8.Proofs.Strictness

namespace Chip8.Machine

/-- The machine with other bytes in memory. -/
def withBytes (bytes : Vector UInt8 4096) (m : Machine) : Machine :=
  { m with memory := { m.memory with bytes } }

theorem statistics_withBytes (bytes : Vector UInt8 4096) (m : Machine) :
    (m.withBytes bytes).statistics = m.statistics := rfl

/-- A loose machine never fails, whatever is in its memory, and none of the
checks of a checked step catches anything while the counters have room. -/
theorem step_total_of_loose {m : Machine} (hm : m.Reachable) (hloose : m.config.strict = false)
    (bytes : Vector UInt8 4096) :
    ∃ outcome, (m.withBytes bytes).step.1 = .ok outcome ∧
      ((m.withBytes bytes).step.2.statistics.Below UInt64.size →
        Checked.step (m.withBytes bytes) = .ok (outcome, (m.withBytes bytes).step.2)) := by
  have huniform : (m.withBytes bytes).Uniform false := by
    obtain ⟨hconfig, hmemory, hstack⟩ := hm.uniform
    rw [hloose] at hmemory hstack
    exact ⟨hloose, hmemory, hstack⟩
  obtain ⟨outcome, hstep⟩ : ∃ outcome, (m.withBytes bytes).step.1 = .ok outcome := by
    rcases step_cases (m.withBytes bytes) with ⟨-, h⟩ | ⟨f, -, hfault, -⟩ | ⟨-, -, h⟩
    · exact ⟨.idle, by rw [h]⟩
    · rw [stepFault?_of_loose huniform] at hfault
      contradiction
    · exact ⟨_, by rw [h]⟩
  refine ⟨outcome, hstep, fun hcounters => ?_⟩
  rw [Checked.step_eq hcounters, Checked.result_of_ok hstep]

/-- Memory full of sprite instructions does not trip a loose machine. -/
theorem step_total_of_loose_sprites :
    let m : Machine := (Command.run [.load #[]] { config := {}, random := .ofSeed 0 }).2
    let sprites := m.withBytes (Vector.replicate 4096 0xDF)
    ∃ outcome, Checked.step sprites = .ok (outcome, sprites.step.2) := by
  intro m sprites
  have hm : m = Machine.starting #[] { config := {}, random := .ofSeed 0 } :=
    Command.run_load _ _ (by decide)
  have hloose : m.config.strict = false := by
    rw [hm]
    rfl
  have hcounters : sprites.statistics.Below 1 := by
    rw [statistics_withBytes, hm]
    exact Statistics.below_new
  have hroom : sprites.step.2.statistics.Below UInt64.size := by
    have hsize : UInt64.size = 18446744073709551616 := rfl
    exact (below_step hcounters).mono (by omega)
  obtain ⟨outcome, -, hchecked⟩ :=
    step_total_of_loose (m := m) ⟨_, _, _, rfl⟩ hloose (Vector.replicate 4096 0xDF)
  exact ⟨outcome, hchecked hroom⟩

end Chip8.Machine
