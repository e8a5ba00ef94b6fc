import Chip8.Machine.Command
import Chip8.Proofs.Journaling
import Mathlib.Data.List.Destutter

namespace Chip8

def Entry.tone? : Entry → Option Bool
  | tone active => some active
  | _ => none

/-- What the entries of a journal say about the tone, in order. -/
def Journal.tones (j : Journal) : List Bool := j.entries.toList.filterMap Entry.tone?

/-- What a host does next: a command to the machine at hand, a frame with it, or
putting another machine in its place. -/
inductive HostEvent where
  | command (c : Command)
  | frame
  | switch (m : Machine)

namespace HostEvent

def apply (e : HostEvent) (s : Session) : Session :=
  match e with
  | command c => { s with machine := (c.apply s.machine).2 }
  | frame => s.frame.2
  | switch m => { s with machine := m }

def run (events : List HostEvent) (s : Session) : Session :=
  events.foldl (fun s e => e.apply s) s

/-- Whether the sound timer runs after the tick of a frame, if the event is a frame
that does not fail. -/
def sample? (e : HostEvent) (s : Session) : Option Bool :=
  match e with
  | frame =>
      match s.frame with
      | (.error _, _) => none
      | (.ok _, t) => some t.machine.timers.toneActive
  | _ => none

def samples (events : List HostEvent) (s : Session) : List Bool :=
  match events with
  | [] => []
  | e :: rest => (e.sample? s).toList ++ samples rest (e.apply s)

end HostEvent

namespace Session

theorem timers_endFrame (s : Session) : s.endFrame.machine.timers = s.machine.tick.timers := by
  rw [endFrame]
  split <;> rfl

/-- The end of a frame reports the tone if it is not as it was last reported. -/
theorem tones_endFrame {s : Session} (hinfo : s.journal.keeps .info = true) :
    s.endFrame.journal.tones =
      s.journal.tones ++
        [s.endFrame.machine.timers.toneActive].filter (· ≠ s.schedule.toneActive) := by
  rw [timers_endFrame, journal_endFrame, List.filter_cons, List.filter_nil]
  by_cases hsame : s.machine.tick.timers.toneActive = s.schedule.toneActive
  · simp [hsame]
  · have hnote : (s.journal.note (.tone s.machine.tick.timers.toneActive)).entries.toList =
        s.journal.entries.toList ++ [.tone s.machine.tick.timers.toneActive] := by
      rw [Journal.entries_note, List.filter_cons, List.filter_nil]
      exact if_pos hinfo ▸ rfl
    simp [hsame, Journal.tones, hnote, Entry.tone?]

theorem toneActive_endFrame (s : Session) :
    s.endFrame.schedule.toneActive = s.endFrame.machine.timers.toneActive := by
  rw [endFrame]
  split
  · rename_i hsame
    exact hsame.symm
  · rfl

theorem schedule_afterSteps (k : Nat) (s : Session) :
    (s.afterSteps k).schedule = s.schedule :=
  afterSteps_preserves (P := fun t => t.schedule = s.schedule) (fun _ h => h) k rfl

theorem tones_afterSteps (k : Nat) (s : Session) :
    (s.afterSteps k).journal.tones = s.journal.tones := by
  apply (s.extends_afterSteps k).filterMap_eq
  intro e he
  cases e with
  | tone => exact he.elim
  | _ => rfl

end Session

namespace HostEvent

theorem level_apply (e : HostEvent) (s : Session) :
    (e.apply s).journal.level = s.journal.level := by
  cases e with
  | frame => exact s.extends_frame.level
  | command | switch => rfl

theorem toneActive_apply (e : HostEvent) (s : Session) :
    (e.apply s).schedule.toneActive = (e.sample? s).getD s.schedule.toneActive := by
  cases e with
  | command | switch => rfl
  | frame =>
      rw [apply, sample?]
      obtain ⟨k, -, ⟨fault, hframe⟩ | ⟨summary, hframe⟩⟩ := s.frame_eq_afterSteps
      · rw [hframe]
        exact congrArg Schedule.toneActive (Session.schedule_afterSteps k s)
      · rw [hframe]
        exact (s.afterSteps k).toneActive_endFrame

theorem tones_apply (e : HostEvent) {s : Session} (hinfo : s.journal.keeps .info = true) :
    (e.apply s).journal.tones =
      s.journal.tones ++ (e.sample? s).toList.filter (· ≠ s.schedule.toneActive) := by
  cases e with
  | command | switch => exact (List.append_nil _).symm
  | frame =>
      rw [apply, sample?]
      obtain ⟨k, -, ⟨fault, hframe⟩ | ⟨summary, hframe⟩⟩ := s.frame_eq_afterSteps
      · rw [hframe]
        exact (Session.tones_afterSteps k s).trans (List.append_nil _).symm
      · have hkeeps : (s.afterSteps k).journal.keeps .info = true :=
          (Journal.keeps_congr (s.extends_afterSteps k).level _).trans hinfo
        simp only [hframe]
        rw [Session.tones_endFrame hkeeps, Session.tones_afterSteps, Session.schedule_afterSteps]
        rfl

theorem exists_destutter'_eq_cons (first : Bool) (l : List Bool) :
    ∃ rest, l.destutter' (· ≠ ·) first = first :: rest := by
  induction l with
  | nil => exact ⟨[], rfl⟩
  | cons next l ih =>
      rw [List.destutter'_cons]
      split
      · exact ⟨_, rfl⟩
      · exact ih

theorem run_cons (e : HostEvent) (rest : List HostEvent) (s : Session) :
    run (e :: rest) s = run rest (e.apply s) := rfl

theorem level_run (events : List HostEvent) (s : Session) :
    (run events s).journal.level = s.journal.level := by
  induction events generalizing s with
  | nil => rfl
  | cons e rest ih => rw [run_cons, ih, level_apply]

theorem toneActive_run (events : List HostEvent) (s : Session) :
    (run events s).schedule.toneActive = (samples events s).getLastD s.schedule.toneActive := by
  induction events generalizing s with
  | nil => rfl
  | cons e rest ih =>
      rw [run_cons, ih, toneActive_apply, samples]
      cases e.sample? s with
      | none => rfl
      | some active => exact (List.getLastD_cons ..).symm

/-- The tone is reported when it has changed, first from what it was at the start. -/
theorem tones_run (events : List HostEvent) {s : Session} (hinfo : s.journal.keeps .info = true) :
    (run events s).journal.tones =
      s.journal.tones ++
        ((s.schedule.toneActive :: samples events s).destutter (· ≠ ·)).tail := by
  induction events generalizing s with
  | nil => exact (List.append_nil _).symm
  | cons e rest ih =>
      have hkeeps : (e.apply s).journal.keeps .info = true :=
        (Journal.keeps_congr (e.level_apply s) _).trans hinfo
      rw [run_cons, ih hkeeps, tones_apply e hinfo, toneActive_apply, samples, List.append_assoc]
      congr 1
      -- The later samples are compared with this one, if it is one.
      cases e.sample? s with
      | none => rfl
      | some active =>
          by_cases hsame : active = s.schedule.toneActive
          · simp [hsame, List.destutter_cons']
          · obtain ⟨rest', hrest⟩ := exists_destutter'_eq_cons active (samples rest (e.apply s))
            simp [hsame, List.destutter_cons', Ne.symm hsame, hrest]

/-- In a row of answers none of which is the one before it, every second one is
the same. -/
theorem getElem?_of_isChain_ne {first : Bool} {l : List Bool}
    (h : (first :: l).IsChain (· ≠ ·)) {i : Nat} {b : Bool} (hi : l[i]? = some b) :
    b ≠ first ↔ i % 2 = 0 := by
  induction l generalizing first i with
  | nil => contradiction
  | cons next rest ih =>
      obtain ⟨hne, hrest⟩ := List.isChain_cons_cons.mp h
      cases i with
      | zero =>
          rw [List.getElem?_cons_zero, Option.some.injEq] at hi
          exact iff_of_true (hi ▸ hne.symm) rfl
      | succ k =>
          rw [List.getElem?_cons_succ] at hi
          have hnext : b ≠ next ↔ k % 2 = 0 := ih hrest hi
          have hother : b ≠ first ↔ ¬ b ≠ next := by
            revert hne
            cases b <;> cases first <;> cases next <;> decide
          rw [hother, hnext]
          omega

/-- A host reports the tone when a frame leaves it other than the last one did, and at
no other time. -/
theorem tones_eq_changes (m : Machine) (instructionsPerSecond : UInt32) (journal : Journal)
    (hinfo : journal.keeps .info = true) (events : List HostEvent) :
    let new : Session := { machine := m, schedule := .ofRate instructionsPerSecond, journal }
    let s := run events new
    ∃ reported, s.journal.tones = journal.tones ++ reported ∧
      reported = ((false :: samples events new).destutter (· ≠ ·)).tail ∧
      (∀ i active, reported[i]? = some active → (active = true ↔ i % 2 = 0)) ∧
      s.schedule.toneActive = (samples events new).getLastD false ∧
      (∀ e : HostEvent, ∃ more, (e.apply s).journal.tones = s.journal.tones ++ more ∧
        more.length ≤ 1) ∧
      (∀ fault, s.frame.1 = .error fault →
        s.frame.2.journal.tones = s.journal.tones ∧
        s.frame.2.schedule.toneActive = s.schedule.toneActive) := by
  intro new s
  have hkeeps : s.journal.keeps .info = true :=
    (Journal.keeps_congr (level_run events new) _).trans hinfo
  have hreported : s.journal.tones =
      journal.tones ++ ((false :: samples events new).destutter (· ≠ ·)).tail :=
    tones_run events hinfo
  refine ⟨_, hreported, rfl, ?_, toneActive_run events new, ?_, ?_⟩
  · intro i active hi
    have hchain := List.isChain_destutter' (· ≠ ·) (samples events new) false
    obtain ⟨rest, hrest⟩ := exists_destutter'_eq_cons false (samples events new)
    rw [List.destutter_cons', hrest] at hi
    rw [hrest] at hchain
    rw [← getElem?_of_isChain_ne hchain hi, Bool.ne_false_iff]
  · intro e
    refine ⟨_, e.tones_apply hkeeps, ?_⟩
    exact Nat.le_trans (List.length_filter_le ..) Option.length_toList_le
  · intro fault hfault
    obtain ⟨k, -, ⟨_, hframe⟩ | ⟨summary, hframe⟩⟩ := s.frame_eq_afterSteps
    · rw [hframe]
      exact ⟨Session.tones_afterSteps k s,
        congrArg Schedule.toneActive (Session.schedule_afterSteps k s)⟩
    · rw [hframe] at hfault
      contradiction

/-- A sound timer of two sounds after one frame and is silent after the next. -/
theorem tones_eq_changes_two_frames :
    let m : Machine :=
      { config := {}, random := .ofSeed 0, loaded := true, paused := true
        timers := { sound := 2 } }
    let new : Session :=
      { machine := m, schedule := .ofRate 60, journal := { level := some .info } }
    (run [frame, frame] new).journal.tones = [true, false] := by
  intro m new
  obtain ⟨reported, htones, hreported, -⟩ :=
    tones_eq_changes m 60 { level := some .info } rfl [frame, frame]
  have hsamples : samples [frame, frame] new = [true, false] := by decide
  rw [hsamples] at hreported
  rw [htones, hreported]
  decide

end HostEvent

end Chip8
