import Chip8.Proofs.Decoding
import Chip8.Proofs.History
import Chip8.Session

namespace Chip8

theorem Instruction.display_effect (i : Instruction) (m : Machine) :
    (i.effect m).display = m.display ∨ (i.effect m).display.dirty = true := by
  cases i with
  | clearScreen => exact .inr rfl
  | draw x y height => exact .inr rfl
  | _ => exact .inl rfl

/-- The words that clear the display or draw on it mark it, whatever they find. -/
theorem Instruction.dirty_effect_decode {w : Word} (m : Machine)
    (h : w = 0x00E0 ∨ w.top = Family.draw.nibble) :
    ((decode w).effect m).display.dirty = true := by
  rcases h with rfl | hdraw
  · have hclear : decode 0x00E0 = clearScreen := by decide
    rw [hclear]
    rfl
  · have hdecode : decode w = draw w.x w.y w.n := by
      simp only [decode, (Family.ofWord_eq_iff _ _).mpr hdraw]
    rw [hdecode]
    rfl

namespace Machine

theorem display_step (m : Machine) :
    m.step.2.display = m.display ∨ m.step.2.display.dirty = true := by
  rcases step_cases m with ⟨-, hstep⟩ | ⟨fault, -, -, hstep⟩ | ⟨-, -, hstep⟩
  · rw [hstep]
    exact .inl rfl
  · rw [hstep]
    exact .inl rfl
  · rw [hstep]
    exact Instruction.display_effect m.instruction m.fetched

theorem dirty_step {m : Machine} {w : Word} (hword : m.nextWord = .ok w)
    (hstep : m.step.1 = .ok .executed) (hw : w = 0x00E0 ∨ w.top = Family.draw.nibble) :
    m.step.2.display.dirty = true := by
  rcases step_cases m with ⟨-, h⟩ | ⟨fault, -, -, h⟩ | ⟨-, hfault, h⟩
  · rw [h, Except.ok.injEq] at hstep
    contradiction
  · rw [h] at hstep
    contradiction
  · rw [nextWord_of_no_fault hfault, Except.ok.injEq] at hword
    subst hword
    rw [h]
    exact Instruction.dirty_effect_decode m.fetched hw

theorem dirty_load {m next : Machine} {image : Image} (h : m.load image = .ok next) :
    next.display.dirty = true := by
  rw [load_eq] at h
  split at h
  · contradiction
  · rw [← Except.ok.inj h]
    rfl

end Machine

namespace Command

/-- Only an acknowledgement takes the mark off the display, and nothing else
changes the display without leaving the mark. -/
theorem display_apply {c : Command} (m : Machine) (hc : c ≠ present) :
    (c.apply m).2.display = m.display ∨ (c.apply m).2.display.dirty = true := by
  cases c with
  | present => exact absurd rfl hc
  | load image =>
      rw [apply_load]
      split
      · exact .inl rfl
      · exact .inr rfl
  | step =>
      rw [apply_step]
      exact m.display_step
  | toggle =>
      rw [apply_toggle]
      exact .inl rfl
  | reset => exact .inr rfl
  | stop => exact .inr rfl
  | _ => exact .inl rfl

theorem display_run_of_clean {history : List Command} {m : Machine}
    (hpresent : present ∉ history) (hclean : (run history m).2.display.dirty = false)
    {before : List Command} (hbefore : before <+: history) :
    (run before m).2.display = m.display := by
  induction history generalizing m before with
  | nil =>
      rw [List.prefix_nil.mp hbefore]
      rfl
  | cons c rest ih =>
      rw [List.mem_cons, not_or] at hpresent
      -- The mark stays once it is there, so that it was not there after `c` either.
      have hlast : (run rest (c.apply m).2).2.display = (c.apply m).2.display :=
        ih hpresent.2 hclean (List.prefix_refl rest)
      have hfirst : (c.apply m).2.display = m.display := by
        rcases display_apply m (Ne.symm hpresent.1) with hsame | hdirty
        · exact hsame
        · rw [run_cons, hlast, hdirty] at hclean
          contradiction
      rcases List.prefix_cons_iff.mp hbefore with rfl | ⟨rest', rfl, hrest'⟩
      · rfl
      · rw [run_cons]
        exact (ih hpresent.2 hclean hrest').trans hfirst

end Command

/-- A screen, and the machine whose pixels it shows. -/
structure Screen where
  machine : Machine
  shown : Vector UInt8 2048

inductive ScreenEvent where
  | command (c : Command)
  /-- Look at the mark of the display, and show the pixels if it is there. -/
  | refresh

namespace Screen

def refresh (s : Screen) : Screen :=
  if s.machine.display.dirty then
    { machine := s.machine.present, shown := s.machine.display.pixels }
  else s

def apply (e : ScreenEvent) (s : Screen) : Screen :=
  match e with
  | .command c => { s with machine := (c.apply s.machine).2 }
  | .refresh => s.refresh

def run (events : List ScreenEvent) (s : Screen) : Screen :=
  match events with
  | [] => s
  | e :: rest => run rest (s.apply e)

/-- What is shown is out of date only with a mark that says so. -/
def Sound (s : Screen) : Prop :=
  s.machine.display.dirty = false → s.shown = s.machine.display.pixels

variable {s : Screen}

theorem Sound.refresh (h : s.Sound) : s.refresh.shown = s.refresh.machine.display.pixels := by
  rw [Screen.refresh]
  cases hdirty : s.machine.display.dirty with
  | true => rfl
  | false => exact h hdirty

theorem Sound.apply {e : ScreenEvent} (h : s.Sound) (he : e ≠ .command .present) :
    (s.apply e).Sound := by
  cases e with
  | refresh => exact fun _ => h.refresh
  | command c =>
      intro hclean
      have hc : c ≠ .present := fun heq => he (congrArg ScreenEvent.command heq)
      rcases Command.display_apply s.machine hc with hsame | hdirty
      · rw [Screen.apply, hsame] at hclean ⊢
        exact h hclean
      · rw [Screen.apply, hdirty] at hclean
        contradiction

theorem Sound.run {events : List ScreenEvent} (h : s.Sound)
    (hevents : .command .present ∉ events) : (s.run events).Sound := by
  induction events generalizing s with
  | nil => exact h
  | cons e rest ih =>
      rw [List.mem_cons, not_or] at hevents
      exact ih (h.apply (Ne.symm hevents.1)) hevents.2

end Screen

namespace Session

/-- A run ends behind an acknowledgement, unless it has no frame. -/
theorem clean_runFrom {n done k : Nat} {s t : Session} (h : s.runFrom n done = (.ok k, t)) :
    (k = done ∧ t = s) ∨ t.machine.display.dirty = false := by
  induction n generalizing done s with
  | zero =>
      rw [runFrom, Prod.mk.injEq, Except.ok.injEq] at h
      exact .inl ⟨h.1.symm, h.2.symm⟩
  | succ n ih =>
      rcases hframe : s.frame with ⟨fault | summary, u⟩
      · simp only [runFrom, hframe, Prod.mk.injEq] at h
        exact absurd h.1 (by simp)
      · simp only [runFrom, hframe] at h
        split at h
        · rcases ih h with ⟨-, rfl⟩ | hclean
          · exact .inr rfl
          · exact .inr hclean
        · rw [Prod.mk.injEq] at h
          rw [← h.2]
          exact .inr rfl

theorem clean_run {frames k : Nat} {s t : Session} (h : s.run frames = (.ok k, t))
    (hk : 0 < k) : t.machine.display.dirty = false := by
  rcases clean_runFrom h with ⟨rfl, -⟩ | hclean
  · contradiction
  · exact hclean

end Session

/-- The mark of the display is sound. While it is off, no command has changed a
pixel since the last acknowledgement; whatever can change one leaves it on; so
that a screen which looks at it is up to date after every look. A run of frames
leaves it off. -/
theorem Machine.unmarked_display_unchanged (m : Machine) :
    (∀ history, .present ∉ history → (Command.run history m.present).2.display.dirty = false →
      ∀ before, before <+: history →
        (Command.run before m.present).2.display.pixels = m.display.pixels) ∧
    (∀ w, m.nextWord = .ok w → m.step.1 = .ok .executed →
      w = 0x00E0 ∨ w.top = Family.draw.nibble → m.step.2.display.dirty = true) ∧
    (∀ image next, m.load image = .ok next → next.display.dirty = true) ∧
    m.reset.display.dirty = true ∧
    m.stop.display.dirty = true ∧
    (∀ shown events, (m.display.dirty = false → shown = m.display.pixels) →
      .command .present ∉ events →
      let s := (Screen.run events { machine := m, shown }).refresh
      s.shown = s.machine.display.pixels) ∧
    (∀ schedule journal frames k t,
      Session.run frames { machine := m, schedule, journal } = (.ok k, t) → 0 < k →
      t.machine.display.dirty = false) := by
  refine ⟨?_, ?_, ?_, rfl, rfl, ?_, ?_⟩
  · intro history hpresent hclean before hbefore
    rw [Command.display_run_of_clean hpresent hclean hbefore]
    rfl
  · intro w hword hstep hw
    exact dirty_step hword hstep hw
  · intro image next h
    exact dirty_load h
  · intro shown events hshown hevents
    have hsound : Screen.Sound { machine := m, shown } := hshown
    exact (hsound.run hevents).refresh
  · intro schedule journal frames k t hrun hk
    exact Session.clean_run hrun hk

/-- A tick and a key leave an acknowledged display alone, and a program that
clears it marks it, although no pixel was lit. -/
theorem Machine.unmarked_display_unchanged_clear :
    let m : Machine := Machine.starting #[0x00, 0xE0] { config := {}, random := .ofSeed 0 }
    (∀ before, before <+: [.tick, .key 5 true] →
      (Command.run before m.present).2.display.pixels = m.display.pixels) ∧
    m.present.step.2.display.dirty = true := by
  intro m
  have hspan : Memory.spanFault? m.memory.strict m.pc 2 = none := spanFault?_starting _ _
  have hword : m.word = 0x00E0 := (word_starting _ _ (by decide) rfl rfl).trans (by decide)
  have hclear : m.present.instruction = .clearScreen := by
    change Instruction.decode m.word = .clearScreen
    rw [hword]
    decide
  have hfault : m.present.stepFault? = none := by
    rw [stepFault?, hclear, Instruction.fault?, Option.or_none]
    exact hspan
  have hnext : m.present.nextWord = .ok 0x00E0 := (nextWord_eq_ok_iff _ _).mpr ⟨hspan, hword⟩
  have hstep : m.present.step.1 = .ok .executed := by
    rw [step_of_no_fault rfl hfault, nextOutcome, executed, hclear]
    rfl
  constructor
  · intro before hbefore
    exact (unmarked_display_unchanged m).1 [.tick, .key 5 true] (by simp) rfl before hbefore
  · exact (unmarked_display_unchanged m.present).2.1 0x00E0 hnext hstep (.inl rfl)

end Chip8
