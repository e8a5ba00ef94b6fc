import Chip8.Proofs.Ledger
import Chip8.Proofs.Refusal
import Chip8.Session

namespace Chip8

namespace Command

/-- No step of a history fails. -/
def Succeeds (history : List Command) (m : Machine) : Prop :=
  ∀ fault, .failed fault ∉ (run history m).1

variable {m : Machine}

theorem succeeds_append (first second : List Command) (m : Machine) :
    Succeeds (first ++ second) m ↔ Succeeds first m ∧ Succeeds second (run first m).2 := by
  simp only [Succeeds, run_append, List.mem_append, not_or, forall_and]

theorem succeeds_singleton (c : Command) (m : Machine) :
    Succeeds [c] m ↔ ∀ fault, (c.apply m).1 ≠ .failed fault := by
  simp only [Succeeds, run_cons, run_nil, List.mem_singleton, ne_comm, Ne]

theorem not_succeeds_step {fault : Fault} (h : m.step.1 = .error fault) :
    ¬ Succeeds [step] m := by
  rw [succeeds_singleton, apply_step, h]
  intro hsucceeds
  exact hsucceeds fault rfl

end Command

namespace Schedule

open Command

/-- What the machine goes through in a frame. -/
def frameCommands (stepsPerFrame : Nat) : List Command :=
  List.replicate stepsPerFrame step ++ [tick, present]

def commands (stepsPerFrame frames : Nat) : List Command :=
  (List.replicate frames (frameCommands stepsPerFrame)).flatten

theorem commands_succ (stepsPerFrame frames : Nat) :
    commands stepsPerFrame (frames + 1) =
      frameCommands stepsPerFrame ++ commands stepsPerFrame frames := by
  rw [commands, List.replicate_succ, List.flatten_cons, commands]

theorem commands_add (stepsPerFrame first second : Nat) :
    commands stepsPerFrame (first + second) =
      commands stepsPerFrame first ++ commands stepsPerFrame second := by
  rw [commands, ← List.replicate_append_replicate, List.flatten_append, commands, commands]

theorem commands_split {stepsPerFrame frames q r : Nat} (hq : q < frames)
    (hr : r < stepsPerFrame) :
    ∃ rest, commands stepsPerFrame frames =
      commands stepsPerFrame q ++ List.replicate r step ++ [step] ++ rest := by
  obtain ⟨k, rfl⟩ : ∃ k, frames = q + (k + 1) := ⟨frames - q - 1, by omega⟩
  obtain ⟨l, rfl⟩ : ∃ l, stepsPerFrame = r + (l + 1) := ⟨stepsPerFrame - r - 1, by omega⟩
  refine ⟨List.replicate l step ++ [tick, present] ++ commands (r + (l + 1)) k, ?_⟩
  rw [commands_add, commands_succ, frameCommands, ← List.replicate_append_replicate,
    List.replicate_succ]
  simp only [List.append_assoc, List.cons_append, List.nil_append]

/-- The schedule after a number of frames that a machine goes through. -/
def heard (schedule : Schedule) (stepsPerFrame frames : Nat) (m : Machine) : Schedule :=
  match frames with
  | 0 => schedule
  | k + 1 =>
      { schedule with
        toneActive := (run (commands stepsPerFrame (k + 1)) m).2.timers.toneActive }

theorem stepsPerFrame_heard (schedule : Schedule) (stepsPerFrame frames : Nat) (m : Machine) :
    (schedule.heard stepsPerFrame frames m).stepsPerFrame = schedule.stepsPerFrame := by
  cases frames <;> rfl

theorem heard_succ (schedule : Schedule) (stepsPerFrame frames : Nat) (m : Machine) :
    (schedule.heard stepsPerFrame 1 m).heard stepsPerFrame frames
        (run (frameCommands stepsPerFrame) m).2 =
      schedule.heard stepsPerFrame (frames + 1) m := by
  cases frames with
  | zero => rfl
  | succ k => simp only [heard, commands_succ _ (k + 1), run_append]

end Schedule

namespace Machine

variable {m : Machine}

/-- A running machine on which a fault leaves no trace. -/
structure Ready (m : Machine) : Prop where
  running : m.running = true
  waits : m.WaitsAtWait

theorem running_effect (i : Instruction) (m : Machine) : (i.effect m).running = m.running := by
  cases i <;> rfl

theorem Ready.step_cases (hm : m.Ready) :
    (∃ fault, m.step = (.error fault, m)) ∨
      (m.step = (.ok m.nextOutcome, m.stepped) ∧ m.stepped.Ready) := by
  cases hfault : m.stepFault? with
  | some fault => exact .inl ⟨fault, hm.waits.step_of_fault hm.running hfault⟩
  | none =>
      have hstep := step_of_no_fault hm.running hfault
      have hwaits := waitsAtWait_step hm.waits
      rw [hstep] at hwaits
      exact .inr ⟨hstep, (running_effect m.instruction m.fetched).trans hm.running, hwaits⟩

end Machine

namespace FrameSummary

def count (waited : Bool) (summary : FrameSummary) : FrameSummary :=
  if waited then { summary with keyWaits := summary.keyWaits + 1 }
  else { summary with executed := summary.executed + 1 }

theorem executed_add_keyWaits_count (waited : Bool) (summary : FrameSummary) :
    (summary.count waited).executed + (summary.count waited).keyWaits =
      summary.executed + summary.keyWaits + 1 := by
  cases waited <;> simp only [count, if_true, if_false, Bool.false_eq_true] <;> omega

theorem keyWaits_count (waited : Bool) (summary : FrameSummary) :
    (summary.count waited).keyWaits = summary.keyWaits + if waited then 1 else 0 := by
  cases waited <;> rfl

/-- The summary of `n` steps says by how much they raised the counters. -/
structure Counts (summary : FrameSummary) (n : Nat) (before after : Statistics) : Prop where
  steps : summary.executed + summary.keyWaits = n
  total : after.total = before.total + (summary.executed + summary.keyWaits)
  keyWaits : after.keyWaits = before.keyWaits + summary.keyWaits

end FrameSummary

namespace Session

open Command Schedule

/-- The session `t` is what `s` becomes when its machine carries out a history in
which no step fails, and its schedule becomes `schedule`. -/
structure Reaches (history : List Command) (schedule : Schedule) (s t : Session) : Prop where
  succeeds : Succeeds history s.machine
  machine : t.machine = (Command.run history s.machine).2
  schedule : t.schedule = schedule

variable {s t u : Session} {first second : List Command} {before after : Schedule}

theorem Reaches.trans (h : s.Reaches first before t) (h' : t.Reaches second after u) :
    s.Reaches (first ++ second) after u where
  succeeds := (succeeds_append _ _ _).mpr ⟨h.succeeds, h.machine ▸ h'.succeeds⟩
  machine := by rw [run_append, h'.machine, h.machine]
  schedule := h'.schedule

theorem Reaches.refl (s : Session) : s.Reaches [] s.schedule s :=
  ⟨fun fault => by simp, rfl, rfl⟩

theorem reaches_step {outcome : Outcome} {next : Machine} (h : s.machine.step = (.ok outcome, next))
    (journal : Journal) :
    s.Reaches [.step] s.schedule { s with machine := next, journal } where
  succeeds := by
    rw [succeeds_singleton, apply_step, h]
    intro fault
    exact Response.noConfusion
  machine := by rw [run_cons, run_nil, apply_step, h]
  schedule := rfl

theorem step_eq (s : Session) :
    ∃ journal, s.step = (s.machine.step.1, { s with machine := s.machine.step.2, journal }) :=
  ⟨_, rfl⟩

/-- The session after `k` steps, whatever comes of them. -/
def afterSteps (k : Nat) (s : Session) : Session :=
  match k with
  | 0 => s
  | k + 1 => s.step.2.afterSteps k

/-- What a step preserves, any number of steps preserves. -/
theorem afterSteps_preserves {P : Session → Prop} (hstep : ∀ t : Session, P t → P t.step.2)
    (k : Nat) (h : P s) : P (s.afterSteps k) := by
  induction k generalizing s with
  | zero => exact h
  | succ k ih => exact ih (hstep s h)

theorem machine_afterSteps (k : Nat) (s : Session) :
    (s.afterSteps k).machine = (Command.run (List.replicate k .step) s.machine).2 := by
  induction k generalizing s with
  | zero => rfl
  | succ k ih =>
      rw [afterSteps, ih, List.replicate_succ, run_cons, apply_step]
      rfl

theorem exists_steps_eq (n : Nat) (summary : FrameSummary) (s : Session) :
    ∃ k ≤ n, (s.steps n summary).2 = s.afterSteps k := by
  induction n generalizing s summary with
  | zero => exact ⟨0, Nat.le_refl 0, rfl⟩
  | succ n ih =>
      have hmore : ∀ summary, ∃ k ≤ n + 1,
          (s.step.2.steps n summary).2 = s.afterSteps k := by
        intro summary
        obtain ⟨k, hk, hsteps⟩ := ih summary s.step.2
        exact ⟨k + 1, Nat.succ_le_succ hk, hsteps⟩
      rcases hstep : s.step with ⟨fault | outcome, t⟩
      · -- A fault or an idle step is the last of the frame, and it has been made.
        exact ⟨1, by omega, by simp only [steps, afterSteps, hstep]⟩
      · rw [hstep] at hmore
        cases outcome with
        | idle => exact ⟨1, by omega, by simp only [steps, afterSteps, hstep]⟩
        | executed =>
            simp only [steps, hstep]
            exact hmore _
        | waitingForKey =>
            simp only [steps, hstep]
            exact hmore _

/-- A frame is some steps, and its end behind them unless it fails. -/
theorem frame_eq_afterSteps (s : Session) :
    ∃ k ≤ s.schedule.stepsPerFrame,
      (∃ fault, s.frame = (.error fault, s.afterSteps k)) ∨
      ∃ summary, s.frame = (.ok summary, (s.afterSteps k).endFrame) := by
  obtain ⟨k, hk, hsteps⟩ := exists_steps_eq s.schedule.stepsPerFrame {} s
  refine ⟨k, hk, ?_⟩
  rw [frame]
  rcases hresult : s.steps s.schedule.stepsPerFrame {} with ⟨fault | summary, t⟩
  · rw [hresult] at hsteps
    exact .inl ⟨fault, congrArg _ hsteps⟩
  · rw [hresult] at hsteps
    exact .inr ⟨summary, congrArg (fun u : Session => (_, u.endFrame)) hsteps⟩

theorem steps_of_fault {fault : Fault} (n : Nat) (summary : FrameSummary)
    (h : s.machine.step = (.error fault, s.machine)) :
    ∃ journal, s.steps (n + 1) summary = (.error fault, { s with journal }) := by
  obtain ⟨journal, hstep⟩ := s.step_eq
  exact ⟨journal, by simp only [steps, hstep, h]⟩

theorem steps_of_no_fault (n : Nat) (summary : FrameSummary)
    (h : s.machine.step = (.ok s.machine.nextOutcome, s.machine.stepped)) :
    ∃ journal, s.steps (n + 1) summary =
      { s with machine := s.machine.stepped, journal }.steps n
        (summary.count s.machine.executed.waiting) := by
  obtain ⟨journal, hstep⟩ := s.step_eq
  refine ⟨journal, ?_⟩
  simp only [steps, hstep, h, Machine.nextOutcome]
  cases s.machine.executed.waiting <;> rfl

/-- What the steps of a frame come to on a machine that is ready: all succeed, and
the summary counts them, or one fails and ends the frame. -/
theorem steps_cases (n : Nat) (summary : FrameSummary) (hs : s.machine.Ready) :
    (∃ total t, s.steps n summary = (.ok total, t) ∧ t.machine.Ready ∧
      s.Reaches (List.replicate n .step) s.schedule t ∧
      total.executed + total.keyWaits = summary.executed + summary.keyWaits + n ∧
      t.machine.statistics.total = s.machine.statistics.total + n ∧
      t.machine.statistics.keyWaits + summary.keyWaits =
        s.machine.statistics.keyWaits + total.keyWaits) ∨
    (∃ r fault t, r < n ∧ s.steps n summary = (.error fault, t) ∧
      s.Reaches (List.replicate r .step) s.schedule t ∧
      t.machine.step = (.error fault, t.machine)) := by
  induction n generalizing s summary with
  | zero => exact .inl ⟨summary, s, rfl, hs, .refl s, rfl, rfl, rfl⟩
  | succ n ih =>
      rcases hs.step_cases with ⟨fault, hfault⟩ | ⟨hok, hready⟩
      · obtain ⟨journal, hsteps⟩ := steps_of_fault n summary hfault
        exact .inr ⟨0, fault, _, Nat.succ_pos n, hsteps, ⟨(Reaches.refl s).succeeds, rfl, rfl⟩,
          hfault⟩
      · obtain ⟨journal, hsteps⟩ := steps_of_no_fault n summary hok
        have hfirst : s.Reaches [.step] s.schedule
            { s with machine := s.machine.stepped, journal } := reaches_step hok journal
        rw [hsteps]
        rcases ih (s := { s with machine := s.machine.stepped, journal })
            (summary.count s.machine.executed.waiting) hready with
          ⟨total, t, ht, htready, hreaches, hsum, htotal, hkeyWaits⟩ |
          ⟨r, fault, t, hr, ht, hreaches, hfails⟩
        · refine .inl ⟨total, t, ht, htready, hfirst.trans hreaches, ?_, ?_, ?_⟩
          · rw [hsum, FrameSummary.executed_add_keyWaits_count]
            omega
          · rw [htotal, Machine.stepped, Machine.total_nextStatistics]
            omega
          · have hcount := summary.keyWaits_count s.machine.executed.waiting
            have hstatistics := s.machine.keyWaits_nextStatistics
            simp only [Machine.stepped] at hkeyWaits
            omega
        · exact .inr ⟨r + 1, fault, t, Nat.succ_lt_succ hr, ht, hfirst.trans hreaches, hfails⟩

theorem endFrame_eq (s : Session) :
    ∃ journal, s.endFrame =
      { machine := s.machine.tick
        schedule := { s.schedule with toneActive := s.machine.tick.timers.toneActive }
        journal } := by
  rw [endFrame]
  split
  next hsame => exact ⟨s.journal, by rw [hsame]⟩
  next => exact ⟨_, rfl⟩

theorem Reaches.endFrame {n : Nat} (h : s.Reaches (List.replicate n .step) s.schedule t) :
    s.Reaches (frameCommands n) (s.schedule.heard n 1 s.machine) t.endFrame.present := by
  obtain ⟨journal, hend⟩ := t.endFrame_eq
  have hlast : t.Reaches [.tick, .present]
      { t.schedule with toneActive := t.machine.tick.timers.toneActive } t.endFrame.present := by
    rw [hend]
    exact ⟨fun fault => by simp [run_cons, Command.apply], rfl, rfl⟩
  have hheard : s.schedule.heard n 1 s.machine =
      { t.schedule with toneActive := t.machine.tick.timers.toneActive } := by
    rw [h.schedule, h.machine, heard, commands_succ, frameCommands]
    simp only [run_append]
    rfl
  rw [hheard]
  exact h.trans hlast

theorem frame_cases (hs : s.machine.Ready) :
    (∃ summary t, s.frame = (.ok summary, t) ∧ t.present.machine.Ready ∧
      s.Reaches (frameCommands s.schedule.stepsPerFrame)
        (s.schedule.heard s.schedule.stepsPerFrame 1 s.machine) t.present ∧
      summary.Counts s.schedule.stepsPerFrame s.machine.statistics t.machine.statistics) ∨
    (∃ r fault t, r < s.schedule.stepsPerFrame ∧ s.frame = (.error fault, t) ∧
      s.Reaches (List.replicate r .step) s.schedule t ∧
      t.machine.step = (.error fault, t.machine)) := by
  rcases steps_cases s.schedule.stepsPerFrame {} hs with
    ⟨summary, u, hu, hready, hreaches, hsum, htotal, hkeyWaits⟩ |
    ⟨r, fault, t, hr, ht, hreaches, hfails⟩
  · have hframe : s.frame = (.ok summary, u.endFrame) := by rw [frame, hu]
    have hsteps : summary.executed + summary.keyWaits = s.schedule.stepsPerFrame := by
      simpa using hsum
    refine .inl ⟨summary, u.endFrame, hframe, ?_, hreaches.endFrame, ?_⟩
    · obtain ⟨journal, hend⟩ := u.endFrame_eq
      rw [hend]
      exact ⟨hready.running, hready.waits⟩
    · obtain ⟨journal, hend⟩ := u.endFrame_eq
      rw [hend]
      exact ⟨hsteps, htotal.trans (congrArg _ hsteps.symm), hkeyWaits⟩
  · exact .inr ⟨r, fault, t, hr, by rw [frame, ht], hreaches, hfails⟩

/-- What a run comes to on a machine that is ready: it has all its frames, or the
first step to fail ends it. -/
theorem runFrom_cases (n done : Nat) (hs : s.machine.Ready) :
    (∃ t, s.runFrom n done = (.ok (done + n), t) ∧ t.machine.Ready ∧
      s.Reaches (commands s.schedule.stepsPerFrame n)
        (s.schedule.heard s.schedule.stepsPerFrame n s.machine) t) ∨
    (∃ q r fault t, q < n ∧ r < s.schedule.stepsPerFrame ∧
      s.runFrom n done = (.error fault, t) ∧
      s.Reaches (commands s.schedule.stepsPerFrame q ++ List.replicate r .step)
        (s.schedule.heard s.schedule.stepsPerFrame q s.machine) t ∧
      t.machine.step = (.error fault, t.machine)) := by
  induction n generalizing s done with
  | zero => exact .inl ⟨s, rfl, hs, .refl s⟩
  | succ n ih =>
      rcases frame_cases hs with ⟨summary, u, hu, hready, hfirst, -⟩ |
        ⟨r, fault, t, hr, ht, hreaches, hfails⟩
      · have hrun : s.runFrom (n + 1) done = u.present.runFrom n (done + 1) := by
          simp only [runFrom, hu, hready.running, if_true]
        have hsteps : u.present.schedule.stepsPerFrame = s.schedule.stepsPerFrame := by
          rw [hfirst.schedule, stepsPerFrame_heard]
        -- The rest of the run starts with what the first frame left of the tone.
        have hheard (k : Nat) : u.present.schedule.heard s.schedule.stepsPerFrame k
            u.present.machine = s.schedule.heard s.schedule.stepsPerFrame (k + 1) s.machine := by
          rw [hfirst.schedule, hfirst.machine, heard_succ]
        rw [hrun]
        rcases ih (done + 1) hready with ⟨t, ht, htready, hrest⟩ |
          ⟨q, r, fault, t, hq, hr, ht, hrest, hfails⟩
        · rw [hsteps, hheard] at hrest
          refine .inl ⟨t, ?_, htready, ?_⟩
          · rw [ht, Nat.add_assoc, Nat.add_comm 1]
          · rw [commands_succ]
            exact hfirst.trans hrest
        · rw [hsteps, hheard] at hrest
          refine .inr ⟨q + 1, r, fault, t, Nat.succ_lt_succ hq, hsteps ▸ hr, ht, ?_, hfails⟩
          rw [commands_succ, List.append_assoc]
          exact hfirst.trans hrest
      · refine .inr ⟨0, r, fault, t, Nat.succ_pos n, hr, ?_, hreaches, hfails⟩
        simp only [runFrom, ht]

theorem run_of_ready (frames : Nat) (hs : s.machine.Ready) :
    ((s.run frames).1 = .ok frames ↔
      Succeeds (commands s.schedule.stepsPerFrame frames) s.machine) ∧
    (Succeeds (commands s.schedule.stepsPerFrame frames) s.machine →
      (s.run frames).2.machine.Ready ∧
      s.Reaches (commands s.schedule.stepsPerFrame frames)
        (s.schedule.heard s.schedule.stepsPerFrame frames s.machine) (s.run frames).2) ∧
    (¬ Succeeds (commands s.schedule.stepsPerFrame frames) s.machine →
      ∃ q r fault, q < frames ∧ r < s.schedule.stepsPerFrame ∧
        (s.run frames).1 = .error fault ∧
        s.Reaches (commands s.schedule.stepsPerFrame q ++ List.replicate r .step)
          (s.schedule.heard s.schedule.stepsPerFrame q s.machine) (s.run frames).2 ∧
        (s.run frames).2.machine.step = (.error fault, (s.run frames).2.machine)) := by
  rcases runFrom_cases frames 0 hs with ⟨t, ht, hready, hreaches⟩ |
    ⟨q, r, fault, t, hq, hr, ht, hreaches, hfails⟩
  · rw [Nat.zero_add] at ht
    rw [run, ht]
    exact ⟨iff_of_true rfl hreaches.succeeds, fun _ => ⟨hready, hreaches⟩,
      fun hfails => absurd hreaches.succeeds hfails⟩
  · -- The commands go through the step that ended the run.
    have hbroken : ¬ Succeeds (commands s.schedule.stepsPerFrame frames) s.machine := by
      obtain ⟨rest, hsplit⟩ := commands_split hq hr
      rw [hsplit, succeeds_append, succeeds_append, ← hreaches.machine]
      exact fun h => not_succeeds_step (congrArg Prod.fst hfails) h.1.2
    rw [run, ht]
    exact ⟨iff_of_false (fun h => nomatch h) hbroken, fun h => absurd h hbroken,
      fun _ => ⟨q, r, fault, hq, hr, rfl, hreaches, hfails⟩⟩

theorem runFrom_add_done (n k done : Nat) (s : Session) :
    s.runFrom n (k + done) = ((s.runFrom n done).1.map (k + ·), (s.runFrom n done).2) := by
  induction n generalizing done s with
  | zero => rfl
  | succ n ih =>
      rcases hframe : s.frame with ⟨fault | summary, t⟩
      · simp only [runFrom, hframe]
        rfl
      · simp only [runFrom, hframe, Nat.add_assoc]
        split
        · exact ih (done + 1) t.present
        · rfl

/-- A run of `first` frames, and, if it has no fault, one of `second` frames after it. -/
def runBoth (first second : Nat) (s : Session) : Except Fault Nat × Session :=
  match s.run first with
  | (.error fault, t) => (.error fault, t)
  | (.ok k, t) => ((t.run second).1.map (k + ·), (t.run second).2)

theorem runFrom_add (first second done : Nat) (hs : s.machine.Ready) :
    s.runFrom (first + second) done =
      match s.runFrom first done with
      | (.error fault, t) => (.error fault, t)
      | (.ok k, t) => t.runFrom second k := by
  induction first generalizing s done with
  | zero => rw [Nat.zero_add, runFrom]
  | succ first ih =>
      rw [Nat.succ_add, runFrom, runFrom]
      rcases frame_cases hs with ⟨summary, u, hu, hready, -, -⟩ | ⟨r, fault, t, -, ht, -, -⟩
      · simp only [hu, hready.running, if_true]
        exact ih (done + 1) hready
      · simp only [ht]

theorem run_add (first second : Nat) (hs : s.machine.Ready) :
    s.run (first + second) = s.runBoth first second := by
  rw [run, runFrom_add first second 0 hs, runBoth, run]
  rcases s.runFrom first 0 with ⟨fault | k, t⟩
  · rfl
  · exact runFrom_add_done second k 0 t

theorem steps_of_idle (n : Nat) (summary : FrameSummary) (h : s.machine.running = false) :
    ∃ journal, s.steps n summary = (.ok summary, { s with journal }) := by
  cases n with
  | zero => exact ⟨s.journal, rfl⟩
  | succ n =>
      obtain ⟨journal, hstep⟩ := s.step_eq
      refine ⟨journal, ?_⟩
      simp only [steps, hstep, Machine.step_of_idle h]

theorem frame_of_idle (h : s.machine.running = false) :
    ∃ t, s.frame = (.ok {}, t) ∧ t.present.machine.running = false ∧
      s.Reaches (frameCommands 0) (s.schedule.heard 0 1 s.machine) t.present := by
  obtain ⟨journal, hsteps⟩ := steps_of_idle s.schedule.stepsPerFrame {} h
  have hnothing : s.Reaches (List.replicate 0 .step) s.schedule { s with journal } :=
    ⟨(Reaches.refl s).succeeds, rfl, rfl⟩
  refine ⟨_, by rw [frame, hsteps], ?_, hnothing.endFrame⟩
  rw [hnothing.endFrame.machine]
  exact h

theorem run_of_idle (frames : Nat) (h : s.machine.running = false) :
    (s.run frames).1 = .ok (min frames 1) ∧
    s.Reaches (commands 0 (min frames 1)) (s.schedule.heard 0 (min frames 1) s.machine)
      (s.run frames).2 := by
  cases frames with
  | zero => exact ⟨rfl, .refl s⟩
  | succ n =>
      obtain ⟨t, hframe, hidle, hreaches⟩ := frame_of_idle h
      have hrun : s.run (n + 1) = (.ok 1, t.present) := by
        simp only [run, runFrom, hframe, hidle, Bool.false_eq_true, if_false]
      have hone : min (n + 1) 1 = 1 := by omega
      rw [hrun, hone]
      exact ⟨rfl, hreaches⟩

theorem counts_frame_of_run {q : Nat} {summary : FrameSummary} (hs : s.machine.Ready)
    (hq : (s.run q).1 = .ok q) (hframe : (s.run q).2.frame = (.ok summary, t)) :
    summary.Counts s.schedule.stepsPerFrame (s.run q).2.machine.statistics
      t.machine.statistics := by
  obtain ⟨hok, hdone, -⟩ := run_of_ready q hs
  obtain ⟨hready, hreaches⟩ := hdone (hok.mp hq)
  have hsteps : (s.run q).2.schedule.stepsPerFrame = s.schedule.stepsPerFrame := by
    rw [hreaches.schedule, stepsPerFrame_heard]
  rcases frame_cases hready with ⟨total, u, hu, -, -, hcounts⟩ | ⟨r, fault, u, -, hu, -, -⟩
  · rw [hframe, Prod.mk.injEq, Except.ok.injEq] at hu
    rw [hu.1, hu.2, ← hsteps]
    exact hcounts
  · rw [hframe, Prod.mk.injEq] at hu
    exact absurd hu.1 (fun h => nomatch h)

/-- A run of frames is what its commands are, one after the other. On a running
machine it has all its frames just when all their steps succeed, and otherwise ends
at the first that fails, which leaves no trace, nor does its frame end. On a machine
that is paused or has no program, one frame without steps is all there is. -/
theorem run_eq_commands {m : Machine} (hm : m.Reachable) (instructionsPerSecond : UInt32)
    (toneActive : Bool) (journal : Journal) (frames : Nat) :
    let n := max (instructionsPerSecond.toNat / 60) 1
    let schedule := { Schedule.ofRate instructionsPerSecond with toneActive }
    let s : Session := { machine := m, schedule, journal }
    (m.running = true →
      ((s.run frames).1 = .ok frames ↔ Succeeds (commands n frames) m) ∧
      (Succeeds (commands n frames) m →
        s.Reaches (commands n frames) (schedule.heard n frames m) (s.run frames).2) ∧
      (¬ Succeeds (commands n frames) m →
        ∃ q r fault, q < frames ∧ r < n ∧ (s.run frames).1 = .error fault ∧
          s.Reaches (commands n q ++ List.replicate r .step) (schedule.heard n q m)
            (s.run frames).2 ∧
          (s.run frames).2.machine.step = (.error fault, (s.run frames).2.machine)) ∧
      (∀ more, s.run (frames + more) = s.runBoth frames more) ∧
      (∀ q summary t, (s.run q).1 = .ok q → (s.run q).2.frame = (.ok summary, t) →
        summary.Counts n (s.run q).2.machine.statistics t.machine.statistics)) ∧
    (m.running = false →
      (s.run frames).1 = .ok (min frames 1) ∧
      s.Reaches (commands 0 (min frames 1)) (schedule.heard 0 (min frames 1) m)
        (s.run frames).2 ∧
      s.frame.1 = .ok {}) := by
  intro n schedule s
  constructor
  · intro hrunning
    have hs : s.machine.Ready := ⟨hrunning, hm.waitsAtWait⟩
    obtain ⟨hok, hdone, hbroken⟩ := run_of_ready frames hs
    exact ⟨hok, fun h => (hdone h).2, hbroken, fun more => run_add frames more hs,
      fun q summary t hq hframe => counts_frame_of_run hs hq hframe⟩
  · intro hidle
    obtain ⟨hframes, hreaches⟩ := run_of_idle (s := s) frames hidle
    obtain ⟨t, hframe, -, -⟩ := frame_of_idle (s := s) hidle
    exact ⟨hframes, hreaches, congrArg Prod.fst hframe⟩

/-- A strict machine that starts with a return has no frame at all and stays as it
was, and a new machine has one frame of ten. -/
theorem run_eq_commands_lone_ret :
    let new : Machine := { config := { strict := true }, random := .ofSeed 0 }
    let m := new.starting #[0x00, 0xEE]
    let schedule := { Schedule.ofRate 600 with toneActive := false }
    let s : Session := { machine := m, schedule }
    ((s.run 5).1 = .error .stackUnderflow ∧ (s.run 5).2.machine = m) ∧
    (run 10 { machine := new, schedule }).1 = .ok 1 := by
  intro new m schedule s
  have hnew : new.Reachable := ⟨_, _, [], rfl⟩
  have hm : m.Reachable := ⟨_, _, _, (run_load #[0x00, 0xEE] new (by decide)).symm⟩
  have hrunning : m.running = true := rfl
  have hstep : m.step = (.error .stackUnderflow, m) :=
    hm.waitsAtWait.step_of_fault hrunning (Machine.stepFault?_of_lone_ret rfl)
  have hfirst (history : List Command) : ¬ Succeeds (.step :: history) m := by
    intro h
    exact not_succeeds_step (congrArg Prod.fst hstep) ((succeeds_append [.step] history m).mp h).1
  have hidle := (run_eq_commands hnew 600 false {} 10).2 rfl
  refine ⟨?_, hidle.1⟩
  have hbroken : ¬ Succeeds (commands 10 5) m := hfirst _
  obtain ⟨q, r, fault, -, -, hfault, hreaches, hfails⟩ :=
    ((run_eq_commands hm 600 false {} 5).1 hrunning).2.2.1 hbroken
  -- The very first step fails, so that nothing can stand before the one that does.
  cases q with
  | succ q => exact absurd hreaches.succeeds (hfirst _)
  | zero =>
      cases r with
      | succ r => exact absurd hreaches.succeeds (hfirst _)
      | zero =>
          have hmachine : (s.run 5).2.machine = m := hreaches.machine
          have hsame : (s.run 5).2.machine.step = (.error fault, (s.run 5).2.machine) := hfails
          rw [hmachine, hstep, Prod.mk.injEq, Except.error.injEq] at hsame
          exact ⟨hfault.trans (congrArg Except.error hsame.1.symm), hmachine⟩

end Session

end Chip8
