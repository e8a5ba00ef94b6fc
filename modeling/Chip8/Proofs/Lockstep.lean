import Chip8.Proofs.CallReturn

namespace Chip8

/-- Two machines that run and fail alike make steps of the same kind. -/
theorem Machine.step_cases_of_alike {m n : Machine} (hrun : n.running = m.running)
    (hfault : n.stepFault? = m.stepFault?) :
    (m.step = (.ok .idle, m) ∧ n.step = (.ok .idle, n)) ∨
    (∃ fault, m.step = (.error fault, { m with waiting := false }) ∧
      n.step = (.error fault, { n with waiting := false })) ∨
    (Command.step.executes? m = some m.instruction ∧ m.step = (.ok m.nextOutcome, m.stepped) ∧
      n.step = (.ok n.nextOutcome, n.stepped)) := by
  rcases step_cases m with ⟨hm, hstep⟩ | ⟨fault, hm, hf, hstep⟩ | ⟨hm, hf, hstep⟩
  · exact .inl ⟨hstep, step_of_idle (hrun.trans hm)⟩
  · exact .inr (.inl ⟨fault, hstep, step_of_fault (hrun.trans hm) (hfault.trans hf)⟩)
  · exact .inr (.inr ⟨Command.executes?_of_no_fault hm hf, hstep,
      step_of_no_fault (hrun.trans hm) (hfault.trans hf)⟩)

namespace Command

/-- Each command of a history meets a condition on it and the machine it finds. -/
def Along (allowed : Command → Machine → Prop) (history : List Command) (m : Machine) : Prop :=
  match history with
  | [] => True
  | c :: rest => allowed c m ∧ Along allowed rest (c.apply m).2

theorem Along.imp {allowed permitted : Command → Machine → Prop} {history : List Command}
    {m : Machine} (h : Along allowed history m) (himp : ∀ c m, allowed c m → permitted c m) :
    Along permitted history m := by
  induction history generalizing m with
  | nil => trivial
  | cons c rest ih => exact ⟨himp c m h.1, ih h.2⟩

theorem along_of_forall {allowed : Command → Machine → Prop} {history : List Command}
    (h : ∀ c ∈ history, ∀ m, allowed c m) (m : Machine) : Along allowed history m := by
  induction history generalizing m with
  | nil => trivial
  | cons c rest ih =>
      exact ⟨h c List.mem_cons_self m,
        ih (fun d hd => h d (List.mem_cons_of_mem c hd)) (c.apply m).2⟩

theorem along_append {allowed : Command → Machine → Prop} (first second : List Command)
    (m : Machine) : Along allowed (first ++ second) m ↔
      Along allowed first m ∧ Along allowed second (run first m).2 := by
  induction first generalizing m with
  | nil => simp [Along]
  | cons c rest ih => simp only [List.cons_append, Along, run_cons, ih, and_assoc]

/-- Related machines that answer each allowed command alike and stay related do
so for a whole history. -/
theorem run_lockstep {allowed : Command → Machine → Prop} {R : Machine → Machine → Prop}
    (hstep : ∀ (c : Command) m n, allowed c m → R m n →
      (c.apply n).1 = (c.apply m).1 ∧ R (c.apply m).2 (c.apply n).2)
    {history : List Command} {m n : Machine} (hallowed : Along allowed history m) (h : R m n) :
    (run history n).1 = (run history m).1 ∧ R (run history m).2 (run history n).2 := by
  induction history generalizing m n with
  | nil => exact ⟨rfl, h⟩
  | cons c rest ih =>
      obtain ⟨hanswer, hnext⟩ := hstep c m n hallowed.1 h
      obtain ⟨hanswers, hlast⟩ := ih hallowed.2 hnext
      rw [run_cons, run_cons, hanswer, hanswers]
      exact ⟨rfl, hlast⟩

/-- Two machines answer a history alike and are related after it. -/
def Together (R : Machine → Machine → Prop) (history : List Command) (m n : Machine) : Prop :=
  (run history n).1 = (run history m).1 ∧ R (run history m).2 (run history n).2

/-- Two machines can part only at a command that is `apart` on the first of them. -/
def PartOnlyAt (apart : Command → Machine → Prop) (R : Machine → Machine → Prop)
    (m n : Machine) : Prop :=
  ∀ before c, Together R before m n → ¬ Together R (before ++ [c]) m n →
    apart c (run before m).2

theorem partOnlyAt_of_step {apart : Command → Machine → Prop} {R : Machine → Machine → Prop}
    (hstep : ∀ (c : Command) m n, ¬ apart c m → R m n →
      (c.apply n).1 = (c.apply m).1 ∧ R (c.apply m).2 (c.apply n).2) (m n : Machine) :
    PartOnlyAt apart R m n := by
  rintro before c ⟨hanswers, hlast⟩ hparted
  apply Classical.byContradiction
  intro hapart
  obtain ⟨hanswer, hnext⟩ := hstep c _ _ hapart hlast
  apply hparted
  rw [Together, run_append, run_append, run_cons, run_cons, hanswers, hanswer]
  exact ⟨rfl, hnext⟩

theorem PartOnlyAt.imp {apart parted : Command → Machine → Prop}
    {R : Machine → Machine → Prop} {m n : Machine} (h : PartOnlyAt apart R m n)
    (himp : ∀ before c, apart c (run before m).2 → parted c (run before m).2) :
    PartOnlyAt parted R m n :=
  fun before c hbefore hparted => himp before c (h before c hbefore hparted)

end Command

end Chip8
