import Chip8.Machine.Step
import Chip8.Proofs.Effect

namespace Chip8.Machine

/-- The word that the next step carries out, if it can be fetched. -/
def word (m : Machine) : Word :=
  Word.ofBytes m.memory[Address.ofWord m.pc] m.memory[Address.ofWord (m.pc + 1)]

/-- The instruction that the next step carries out. -/
def instruction (m : Machine) : Instruction := .decode m.word

/-- The machine that the next instruction finds: awake, with the program counter
behind the word. -/
def fetched (m : Machine) : Machine := { m with waiting := false, pc := m.pc + 2 }

def stepFault? (m : Machine) : Option Fault :=
  (Memory.spanFault? m.memory.strict m.pc 2).or (m.instruction.fault? m.fetched)

/-- The machine after the next instruction, which is not counted yet. -/
def executed (m : Machine) : Machine := m.instruction.effect m.fetched

def nextStatistics (m : Machine) : Statistics :=
  let s := m.executed.statistics.record (.ofWord m.word)
  if m.executed.waiting then s.recordKeyWait else s

/-- The machine after the next step, if it does not end in a fault. -/
def stepped (m : Machine) : Machine := { m.executed with statistics := m.nextStatistics }

def nextOutcome (m : Machine) : Outcome :=
  if m.executed.waiting then .waitingForKey else .executed

theorem running_iff (m : Machine) : m.running = true ↔ m.loaded = true ∧ m.paused = false := by
  rw [running, Bool.and_eq_true, Bool.not_eq_true']

theorem nextWord_eq_ok_iff (m : Machine) (w : Word) :
    m.nextWord = .ok w ↔ Memory.spanFault? m.memory.strict m.pc 2 = none ∧ m.word = w := by
  have hread : m.nextWord = Fault.guard (Memory.spanFault? m.memory.strict m.pc 2) m.word :=
    Memory.readWord_eq_guard m.pc m.memory
  rw [hread, Fault.guard_eq_ok_iff]

theorem nextWord_of_no_fault {m : Machine} (h : m.stepFault? = none) :
    m.nextWord = .ok m.word := by
  rw [stepFault?, Option.or_eq_none_iff] at h
  exact (m.nextWord_eq_ok_iff _).mpr ⟨h.1, rfl⟩

theorem run_fetch (m : Machine) :
    fetch.run { m with waiting := false } =
      Fault.settle (Memory.spanFault? m.memory.strict m.pc 2) { m with waiting := false } m.word
        m.fetched := by
  simp only [fetch, nextWord, Memory.readWord_eq_guard, EStateM.run_bind, EStateM.run_get,
    Action.run_ofExcept_guard]
  cases Memory.spanFault? m.memory.strict m.pc 2 <;> rfl

theorem run_dispatch_of_fault {m : Machine} {fault : Fault} (h : m.stepFault? = some fault) :
    ∃ next, dispatch.run { m with waiting := false } = .error fault next ∧
      { next with pc := m.pc } = { m with waiting := false } := by
  have hexecute := run_execute (.decode m.word) m.fetched
  rw [stepFault?, instruction] at h
  simp only [dispatch, EStateM.run_bind, run_fetch]
  cases hspan : Memory.spanFault? m.memory.strict m.pc 2 with
  | some f =>
      rw [hspan, Option.some_or, Option.some.injEq] at h
      exact ⟨{ m with waiting := false }, by simp only [Fault.settle, h], rfl⟩
  | none =>
      rw [hspan, Option.none_or] at h
      rw [h] at hexecute
      exact ⟨m.fetched, by simp only [Fault.settle, hexecute], rfl⟩

theorem run_dispatch {m : Machine} (h : m.stepFault? = none) :
    dispatch.run { m with waiting := false } = .ok m.word m.executed := by
  have hexecute := run_execute (.decode m.word) m.fetched
  rw [stepFault?, instruction, Option.or_eq_none_iff] at h
  rw [h.2] at hexecute
  simp only [dispatch, EStateM.run_bind, run_fetch, h.1, Fault.settle, hexecute,
    EStateM.run_pure, executed, instruction]

theorem step_of_idle {m : Machine} (h : m.running = false) : m.step = (.ok .idle, m) := by
  simp [step, h]

/-- A step that ends in a fault changes nothing, but that the machine no longer
counts as waiting. -/
theorem step_of_fault {m : Machine} {fault : Fault} (hrun : m.running = true)
    (h : m.stepFault? = some fault) : m.step = (.error fault, { m with waiting := false }) := by
  obtain ⟨next, hdispatch, hnext⟩ := run_dispatch_of_fault h
  simp only [step, hrun, if_true, hdispatch, hnext]

theorem step_of_no_fault {m : Machine} (hrun : m.running = true) (h : m.stepFault? = none) :
    m.step = (.ok m.nextOutcome, m.stepped) := by
  simp only [step, hrun, if_true, run_dispatch h, count, nextOutcome, stepped, nextStatistics]
  by_cases hwaiting : m.executed.waiting = true
  · simp only [hwaiting, if_true]
  · simp only [hwaiting, if_false, Bool.false_eq_true]

/-- All that a step can do: nothing, fail, or carry out an instruction. -/
theorem step_cases (m : Machine) :
    (m.running = false ∧ m.step = (.ok .idle, m)) ∨
    (∃ fault, m.running = true ∧ m.stepFault? = some fault ∧
      m.step = (.error fault, { m with waiting := false })) ∨
    (m.running = true ∧ m.stepFault? = none ∧ m.step = (.ok m.nextOutcome, m.stepped)) := by
  cases hrun : m.running with
  | false => exact .inl ⟨rfl, step_of_idle hrun⟩
  | true =>
      cases hfault : m.stepFault? with
      | some fault => exact .inr (.inl ⟨fault, rfl, rfl, step_of_fault hrun hfault⟩)
      | none => exact .inr (.inr ⟨rfl, rfl, step_of_no_fault hrun hfault⟩)

end Chip8.Machine
