import Chip8.Proofs.FrameRun
import Chip8.Proofs.Halt
import Chip8.Proofs.Lockstep
import Mathlib.Data.List.Induction

namespace Chip8

inductive Timer where
  | delay | sound

def Timers.value (t : Timer) (s : Timers) : UInt8 :=
  match t with
  | .delay => s.delay
  | .sound => s.sound

/-- The register that an instruction copies to a timer. -/
def Instruction.timerSource? (t : Timer) (i : Instruction) : Option Reg :=
  match t, i with
  | .delay, setDelay x => some x
  | .sound, setSound x => some x
  | _, _ => none

theorem Timers.toNat_value_tick (t : Timer) (s : Timers) :
    (s.tick.value t).toNat = (s.value t).toNat - 1 := by
  have hcount : ∀ n : UInt8, (countDown n).toNat = n.toNat - 1 := by
    intro n
    have hone : (1 : UInt8).toNat = 1 := rfl
    have hlt := n.toNat_lt
    rw [countDown]
    split
    · rename_i hzero
      rw [hzero]
      rfl
    · rename_i hzero
      have hpos : n.toNat ≠ 0 := fun h => hzero (UInt8.toNat_inj.mp h)
      rw [UInt8.toNat_sub]
      omega
  cases t <;> exact hcount _

theorem Instruction.timer_effect (t : Timer) (i : Instruction) (m : Machine) :
    (i.effect m).timers.value t = ((i.timerSource? t).map (m.v[·])).getD (m.timers.value t) := by
  cases t <;> cases i <;> rfl

namespace Command

/-- The value that a command copies to a timer, if it carries out an instruction
that does so. -/
def stores? (t : Timer) (c : Command) (m : Machine) : Option UInt8 :=
  (c.executes? m).bind fun i => (i.timerSource? t).map (m.v[·])

/-- A command after which a timer still runs down from the value that it had. -/
def Leaves (t : Timer) (c : Command) (m : Machine) : Prop :=
  ¬ c.EndsHalt ∧ c.stores? t m = none

def isTick : Command → Bool
  | tick => true
  | _ => false

/-- The last value that a history copies to a timer is `v`, with `k` ticks and no
successful load, reset or stop behind it. -/
def LastStored (t : Timer) (history : List Command) (m : Machine) (v : UInt8) (k : Nat) : Prop :=
  ∃ before after, history = before ++ step :: after ∧
    step.stores? t (run before m).2 = some v ∧
    Along (Leaves t) after (run (before ++ [step]) m).2 ∧ k = after.countP isTick

/-- After a history a timer has run down by `k` ticks from `v`, which is zero if the
history has copied nothing to it since the machine was last started over. -/
def RunsFrom (t : Timer) (history : List Command) (m : Machine) (v : UInt8) (k : Nat) : Prop :=
  LastStored t history m v k ∨ v = 0 ∧ ∀ w j, ¬ LastStored t history m w j

variable {t : Timer} {c : Command} {m : Machine}

theorem exists_runsFrom (t : Timer) (history : List Command) (m : Machine) :
    ∃ v k, RunsFrom t history m v k := by
  by_cases h : ∃ v k, LastStored t history m v k
  · obtain ⟨v, k, hstored⟩ := h
    exact ⟨v, k, .inl hstored⟩
  · exact ⟨0, 0, .inr ⟨rfl, fun w j hstored => h ⟨w, j, hstored⟩⟩⟩

theorem eq_step_of_stores? {v : UInt8} (h : c.stores? t m = some v) : c = step := by
  cases c with
  | step => rfl
  | _ => contradiction

theorem value_step (t : Timer) (m : Machine) :
    m.step.2.timers.value t = (step.stores? t m).getD (m.timers.value t) := by
  rw [stores?]
  rcases m.step_cases with ⟨-, hstep⟩ | ⟨fault, -, -, hstep⟩ | ⟨hrun, hfault, hstep⟩
  · simp only [executes?, hstep, Option.bind_none, Option.getD_none]
  · simp only [executes?, hstep, Option.bind_none, Option.getD_none]
  · rw [executes?_of_no_fault hrun hfault, Option.bind_some, hstep]
    exact Instruction.timer_effect t m.instruction m.fetched

theorem value_apply_of_restart (t : Timer) (hc : c.EndsHalt) (m : Machine) :
    (c.apply m).2.timers.value t = 0 := by
  cases c with
  | load image =>
      rw [apply_load_of_le m hc]
      cases t <;> rfl
  | reset | stop => cases t <;> rfl
  | step | tick | key | pause | resume | toggle | present => exact hc.elim

/-- Only a start, a copy and a tick change a timer. -/
theorem value_apply_of_leaves (hc : c.Leaves t m) :
    ((c.apply m).2.timers.value t).toNat =
      (m.timers.value t).toNat - if c.isTick then 1 else 0 := by
  cases c with
  | step =>
      rw [apply_step, value_step, hc.2]
      rfl
  | load image =>
      rw [apply_load_of_lt m (Nat.not_le.mp hc.1)]
      rfl
  | tick => exact Timers.toNat_value_tick t m.timers
  | toggle =>
      rw [apply_toggle]
      rfl
  | reset | stop => exact absurd trivial hc.1
  | key | pause | resume | present => rfl

theorem value_run_of_leaves {history : List Command} (h : Along (Leaves t) history m) :
    ((run history m).2.timers.value t).toNat =
      (m.timers.value t).toNat - history.countP isTick := by
  induction history generalizing m with
  | nil => rfl
  | cons c rest ih =>
      rw [run_cons, ih h.2, value_apply_of_leaves h.1, List.countP_cons, Nat.sub_sub,
        Nat.add_comm]

theorem value_of_lastStored {history : List Command} {v : UInt8} {k : Nat}
    (h : LastStored t history m v k) :
    ((run history m).2.timers.value t).toNat = v.toNat - k := by
  obtain ⟨before, after, rfl, hstores, hafter, rfl⟩ := h
  have hstored : (run (before ++ [step]) m).2.timers.value t = v := by
    rw [run_append, run_cons, run_nil, apply_step, value_step, hstores, Option.getD_some]
  have hsplit : before ++ step :: after = (before ++ [step]) ++ after := by simp
  rw [hsplit, run_append, value_run_of_leaves hafter, hstored]

theorem LastStored.concat {history : List Command} {v : UInt8} {k : Nat}
    (h : LastStored t history m v k) (hc : c.Leaves t (run history m).2) :
    LastStored t (history ++ [c]) m v (k + [c].countP isTick) := by
  obtain ⟨before, after, rfl, hstores, hafter, rfl⟩ := h
  have hlast : c.Leaves t (run after (run (before ++ [step]) m).2).2 := by
    have hsplit : before ++ step :: after = (before ++ [step]) ++ after := by simp
    rw [hsplit, run_append] at hc
    exact hc
  exact ⟨before, after ++ [c], by simp, hstores,
    (along_append _ _ _).mpr ⟨hafter, hlast, trivial⟩, List.countP_append.symm⟩

theorem value_of_not_lastStored {history : List Command} (hm : m.timers.value t = 0)
    (h : ∀ v k, ¬ LastStored t history m v k) : (run history m).2.timers.value t = 0 := by
  -- The last command decides whether anything before it still counts.
  induction history using List.reverseRecOn with
  | nil => exact hm
  | append_singleton before c ih =>
      have hlast : (run (before ++ [c]) m).2 = (c.apply (run before m).2).2 := by
        rw [run_append]
        rfl
      rw [hlast]
      by_cases hrestart : c.EndsHalt
      · exact value_apply_of_restart t hrestart _
      · cases hstores : c.stores? t (run before m).2 with
        | some v =>
            obtain rfl := eq_step_of_stores? hstores
            exact absurd ⟨before, [], rfl, hstores, trivial, rfl⟩ (h v 0)
        | none =>
            have hleaves : c.Leaves t (run before m).2 := ⟨hrestart, hstores⟩
            have hzero := ih fun v k hstored => h _ _ (hstored.concat hleaves)
            apply UInt8.toNat_inj.mp
            rw [value_apply_of_leaves hleaves, hzero]
            exact Nat.zero_sub _

theorem value_of_runsFrom {history : List Command} {v : UInt8} {k : Nat}
    (hm : m.timers.value t = 0) (h : RunsFrom t history m v k) :
    ((run history m).2.timers.value t).toNat = v.toNat - k := by
  rcases h with hstored | ⟨rfl, hnone⟩
  · exact value_of_lastStored hstored
  · rw [value_of_not_lastStored hm hnone]
    exact (Nat.zero_sub k).symm

end Command

namespace Session

open Command

/-- A frame ends with one tick, unless it ends with a fault and has none. -/
theorem exists_run_frame (s : Session) :
    ∃ k ≤ s.schedule.stepsPerFrame,
      (∀ fault, s.frame.1 = .error fault →
        s.frame.2.machine = (Command.run (List.replicate k .step) s.machine).2) ∧
      ∀ summary, s.frame.1 = .ok summary →
        s.frame.2.machine = (Command.run (List.replicate k .step ++ [.tick]) s.machine).2 := by
  obtain ⟨k, hk, hframe⟩ := s.frame_eq_afterSteps
  have hsteps := machine_afterSteps k s
  refine ⟨k, hk, ?_, ?_⟩
  · intro fault hfault
    rcases hframe with ⟨fault', hframe⟩ | ⟨summary, hframe⟩
    · rw [hframe]
      exact hsteps
    · rw [hframe] at hfault
      contradiction
  · intro summary hsummary
    rcases hframe with ⟨fault, hframe⟩ | ⟨summary', hframe⟩
    · rw [hframe] at hsummary
      contradiction
    · obtain ⟨journal, hend⟩ := (s.afterSteps k).endFrame_eq
      rw [hframe, hend, run_append, ← hsteps]
      rfl

end Session

namespace Command

/-- A timer runs down by one each tick from the value that was last copied to it, as
far as zero, and nothing but a copy, a tick and a new start changes it. The sound
lasts as long as its timer runs. A frame has one tick behind its steps, or none if
it fails. -/
theorem timers_count_down (config : Config) (random : RandomTape) (history : List Command) :
    let new : Machine := { config, random }
    let m := (run history new).2
    (∀ t, ∃ v k, RunsFrom t history new v k) ∧
    (∀ t v k, RunsFrom t history new v k → (m.timers.value t).toNat = v.toNat - k) ∧
    (∀ v k, RunsFrom .sound history new v k → (m.timers.toneActive = true ↔ k < v.toNat)) ∧
    (∀ x v k, RunsFrom .delay history new v k → step.executes? m = some (.readDelay x) →
      m.step.2.v[x].toNat = v.toNat - k) ∧
    (∀ t, ((tick.apply m).2.timers.value t).toNat = (m.timers.value t).toNat - 1) ∧
    (∀ t (c : Command), c ≠ tick → c.Leaves t m →
      (c.apply m).2.timers.value t = m.timers.value t) ∧
    (∀ schedule journal, let s : Session := { machine := m, schedule, journal }
      ∃ k ≤ schedule.stepsPerFrame,
        (∀ fault, s.frame.1 = .error fault →
          s.frame.2.machine = (run (history ++ List.replicate k step) new).2) ∧
        ∀ summary, s.frame.1 = .ok summary →
          s.frame.2.machine = (run (history ++ (List.replicate k step ++ [tick])) new).2) := by
  intro new m
  have hnew : ∀ t, new.timers.value t = 0 := fun t => by cases t <;> rfl
  have hvalue : ∀ t v k, RunsFrom t history new v k →
      (m.timers.value t).toNat = v.toNat - k := fun t v k => value_of_runsFrom (hnew t)
  refine ⟨fun t => exists_runsFrom t history new, hvalue, ?_, ?_, ?_, ?_, ?_⟩
  · intro v k hsound
    have hruns : (m.timers.sound).toNat = v.toNat - k := hvalue .sound v k hsound
    rw [Timers.toneActive, decide_eq_true_eq, UInt8.lt_iff_toNat_lt, hruns]
    exact Nat.sub_pos_iff_lt
  · intro x v k hdelay hexecutes
    obtain ⟨hi, hstep⟩ := step_of_executes? hexecutes
    rw [hstep, Machine.stepped, Machine.executed, hi]
    have hread : (m.v.set x m.timers.delay)[x] = m.timers.delay :=
      (Registers.getElem_set x x _ _).trans (if_pos rfl)
    exact (congrArg UInt8.toNat hread).trans (hvalue .delay v k hdelay)
  · exact fun t => Timers.toNat_value_tick t m.timers
  · intro t c hc hleaves
    have hno : c.isTick = false := by
      cases c with
      | tick => exact absurd rfl hc
      | _ => rfl
    apply UInt8.toNat_inj.mp
    rw [value_apply_of_leaves hleaves, hno]
    rfl
  · intro schedule journal s
    obtain ⟨k, hk, hfails, hends⟩ := s.exists_run_frame
    refine ⟨k, hk, fun fault h => ?_, fun summary h => ?_⟩
    · simp only [hfails fault h, run_append history, s, m]
    · simp only [hends summary h, run_append history, s, m]

theorem stores?_five (config : Config) (random : RandomTape) :
    step.stores? .sound
      (run [load #[0x61, 0x05, 0xF1, 0x18], step] { config, random }).2 = some 0x05 := by
  obtain ⟨statistics, hrun⟩ := run_loadImm #[0x61, 0x05, 0xF1, 0x18] 1 0x05
    { config, random } (by decide) rfl rfl (by decide)
  generalize (run [load #[0x61, 0x05, 0xF1, 0x18], step] { config, random }).2 = m at hrun
  have hmemory : m.memory =
      (Machine.starting #[0x61, 0x05, 0xF1, 0x18] { config, random }).memory :=
    (congrArg Machine.memory hrun :)
  have hpc : m.pc = 0x202 := congrArg Machine.pc hrun
  have hat : m.pc.toNat = 0x200 + 2 := congrArg UInt16.toNat hpc
  have hrunning : m.running = true := congrArg Machine.running hrun
  have hv : m.v[(1 : Reg)] = 0x05 := (congrArg (·.v[(1 : Reg)]) hrun :)
  have hword : m.word = 0xF118 :=
    (Machine.word_of_image (by decide) rfl rfl hmemory hat).trans (by decide)
  have hi : m.instruction = .setSound 1 := by
    rw [Machine.instruction, hword]
    decide
  have hfault : m.stepFault? = none := by
    rw [Machine.stepFault?, hpc, hi]
    cases m.memory.strict <;> rfl
  rw [stores?, executes?_of_no_fault hrunning hfault, hi, ← hv]
  rfl

/-- A sound timer set to five, two ticks later. -/
theorem timers_count_down_two_ticks :
    let m := (run [load #[0x61, 0x05, 0xF1, 0x18], step, step, tick, tick]
      { config := {}, random := .ofSeed 0 }).2
    (m.timers.value .sound).toNat = 3 ∧ m.timers.toneActive = true := by
  have htick : ∀ m, tick.Leaves .sound m := fun m => ⟨nofun, rfl⟩
  have hruns : RunsFrom .sound [load #[0x61, 0x05, 0xF1, 0x18], step, step, tick, tick]
      { config := {}, random := .ofSeed 0 } 0x05 2 :=
    .inl ⟨[load #[0x61, 0x05, 0xF1, 0x18], step], [tick, tick], rfl, stores?_five _ _,
      ⟨htick _, htick _, trivial⟩, rfl⟩
  obtain ⟨-, hvalue, hsound, -⟩ := timers_count_down {} (.ofSeed 0)
    [load #[0x61, 0x05, 0xF1, 0x18], step, step, tick, tick]
  exact ⟨hvalue .sound 0x05 2 hruns, (hsound 0x05 2 hruns).mpr (by decide)⟩

end Command

end Chip8
