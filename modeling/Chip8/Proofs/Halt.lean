import Chip8.Proofs.KeyBlock
import Chip8.Proofs.Refusal

namespace Chip8

variable {m n : Machine} {fault : Fault}

/-- Whether an instruction is refused does not depend on timers, keys or counters. -/
theorem Instruction.fault?_of_samePoint (i : Instruction) (h : m.SamePoint n) :
    i.fault? n = i.fault? m := by
  refine fault?_congr (congrArg Config.strict h.config) (congrArg Memory.strict h.memory) h.stack
    h.index fun x y height _ _ => ?_
  simp only [Machine.spriteTargets, h.config, h.memory, h.index, h.v]

namespace Machine

theorem SamePoint.fetched (h : m.SamePoint n) : m.fetched.SamePoint n.fetched where
  config := h.config
  loaded := h.loaded
  memory := h.memory
  stack := h.stack
  pc := congrArg (· + 2) h.pc
  index := h.index
  v := h.v
  pixels := h.pixels
  random := h.random

theorem SamePoint.stepFault?_eq (h : m.SamePoint n) : n.stepFault? = m.stepFault? := by
  have hword : n.word = m.word := by
    rw [word, word, h.memory, h.pc]
  rw [stepFault?, stepFault?, instruction, instruction, hword, h.memory, h.pc,
    Instruction.fault?_of_samePoint _ h.fetched]

/-- A program is in memory, and its next instruction will be refused. -/
structure HaltsWith (fault : Fault) (m : Machine) : Prop where
  loaded : m.loaded = true
  refused : m.stepFault? = some fault

theorem haltsWith_of_step (h : m.step.1 = .error fault) :
    m.HaltsWith fault ∧ m.step.2 = { m with waiting := false } := by
  rcases step_cases m with ⟨-, hstep⟩ | ⟨f, hrun, hfault, hstep⟩ | ⟨-, -, hstep⟩
  · rw [hstep] at h
    contradiction
  · rw [hstep, Except.error.injEq] at h
    rw [running, Bool.and_eq_true] at hrun
    rw [hstep, ← h]
    exact ⟨⟨hrun.1, hfault⟩, rfl⟩
  · rw [hstep] at h
    contradiction

theorem HaltsWith.samePoint (hm : m.HaltsWith fault) (h : m.SamePoint n) :
    n.HaltsWith fault where
  loaded := h.loaded.trans hm.loaded
  refused := h.stepFault?_eq.trans hm.refused

theorem samePoint_awake (m : Machine) : m.SamePoint { m with waiting := false } :=
  ⟨rfl, rfl, rfl, rfl, rfl, rfl, rfl, rfl, rfl⟩

theorem HaltsWith.step (hm : m.HaltsWith fault) :
    m.step.1 = (if m.paused then .ok .idle else .error fault) ∧
      m.SamePoint m.step.2 ∧ m.step.2.statistics = m.statistics := by
  cases hpaused : m.paused with
  | true =>
      rw [step_of_idle (by rw [running, hpaused, Bool.not_true, Bool.and_false])]
      exact ⟨rfl, .refl m, rfl⟩
  | false =>
      rw [step_of_fault (by rw [running, hm.loaded, hpaused, Bool.not_false, Bool.and_true])
        hm.refused]
      exact ⟨rfl, m.samePoint_awake, rfl⟩

end Machine

namespace Command

/-- A load that succeeds, a reset or a stop. -/
def EndsHalt : Command → Prop
  | load image => image.size ≤ Image.capacity
  | reset | stop => True
  | _ => False

theorem haltsWith_apply {c : Command} (hm : m.HaltsWith fault) (hc : ¬ c.EndsHalt) :
    m.SamePoint (c.apply m).2 ∧ (c.apply m).2.statistics = m.statistics := by
  cases c with
  | load image =>
      rw [apply_load_of_lt m (Nat.not_le.mp hc)]
      exact ⟨.refl m, rfl⟩
  | step =>
      rw [apply_step]
      exact hm.step.2
  | reset => exact absurd trivial hc
  | stop => exact absurd trivial hc
  | toggle => exact ⟨samePoint_apply m trivial nofun, by rw [apply_toggle]⟩
  | _ => exact ⟨samePoint_apply m trivial nofun, rfl⟩

theorem haltsWith_run {history : List Command} (hm : m.HaltsWith fault)
    (hhistory : ∀ c ∈ history, ¬ c.EndsHalt) :
    m.SamePoint (run history m).2 ∧ (run history m).2.statistics = m.statistics := by
  induction history generalizing m with
  | nil => exact ⟨.refl m, rfl⟩
  | cons c rest ih =>
      obtain ⟨hpoint, hcounts⟩ := haltsWith_apply hm (hhistory c List.mem_cons_self)
      obtain ⟨hpoint', hcounts'⟩ :=
        ih (hm.samePoint hpoint) fun d hd => hhistory d (List.mem_cons_of_mem c hd)
      exact ⟨hpoint.trans hpoint', hcounts'.trans hcounts⟩

/-- A halt is permanent. Once a step has failed, the machine stays where it
failed, counters included, and every later step fails in the same way unless a
pause leaves it idle, until a load succeeds or the machine is reset or stopped. -/
theorem halt_permanent (hfault : m.step.1 = .error fault) :
    (∀ history : List Command, (∀ c ∈ history, ¬ c.EndsHalt) →
      let n := (run history m.step.2).2
      m.SamePoint n ∧ n.statistics = m.statistics ∧
        n.step.1 = if n.paused then .ok .idle else .error fault) ∧
    (∀ history : List Command,
      let n := (run history m.step.2).2
      n.paused = false → n.step.1 ≠ .error fault → ∃ c ∈ history, c.EndsHalt) := by
  obtain ⟨hm, hnext⟩ := Machine.haltsWith_of_step hfault
  have hfirst : m.SamePoint m.step.2 := by
    rw [hnext]
    exact m.samePoint_awake
  have hlasts : ∀ history : List Command, (∀ c ∈ history, ¬ c.EndsHalt) →
      let n := (run history m.step.2).2
      m.SamePoint n ∧ n.statistics = m.statistics ∧
        n.step.1 = if n.paused then .ok .idle else .error fault := by
    intro history hhistory n
    obtain ⟨hpoint, hcounts⟩ := haltsWith_run (hm.samePoint hfirst) hhistory
    have hn : m.SamePoint n := hfirst.trans hpoint
    refine ⟨hn, ?_, (hm.samePoint hn).step.1⟩
    rw [hcounts, hnext]
  refine ⟨hlasts, ?_⟩
  intro history n hpaused hstep
  apply Classical.byContradiction
  intro hnone
  obtain ⟨-, -, hagain⟩ := hlasts history fun c hc hends => hnone ⟨c, hc, hends⟩
  rw [if_neg (by simpa using hpaused)] at hagain
  exact hstep hagain

theorem paused_run_resume (history : List Command) (m : Machine) :
    (run (history ++ [resume]) m).2.paused = false := by
  rw [run_append]
  rfl

/-- A return without a call is refused again after a pause, a tick, a key and a
program that does not fit. -/
theorem halt_permanent_lone_ret :
    let m : Machine := Machine.starting #[0x00, 0xEE]
      { config := { strict := true }, random := .ofSeed 0 }
    let history := [pause, step, tick, load (Array.replicate 3585 0), key 5 true]
    m.step.1 = .error .stackUnderflow ∧
      (run (history ++ [resume]) m.step.2).2.step.1 = .error .stackUnderflow := by
  intro m history
  have hfault : m.step.1 = .error .stackUnderflow := by
    rw [Machine.step_of_fault rfl (Machine.stepFault?_of_lone_ret rfl)]
  have hlarge : Image.capacity < (Array.replicate 3585 (0 : UInt8)).size := by
    rw [Array.size_replicate]
    decide
  have hhistory : ∀ c ∈ history ++ [resume], ¬ c.EndsHalt := by
    simpa [history, EndsHalt] using hlarge
  obtain ⟨-, -, hagain⟩ := (halt_permanent hfault).1 (history ++ [resume]) hhistory
  rw [paused_run_resume] at hagain
  exact ⟨hfault, hagain⟩

end Command

end Chip8
