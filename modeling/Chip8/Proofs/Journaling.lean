import Chip8.Proofs.FrameRun

namespace Chip8

/-- An entry about a single step. -/
def Entry.OfStep : Entry → Prop
  | dispatched _ | ignoring _ => True
  | _ => False

/-- An entry about a step or about the tone. -/
def Entry.OfFrame : Entry → Prop
  | dispatched _ | ignoring _ | tone _ => True
  | _ => False

theorem Entry.OfStep.ofFrame {e : Entry} (h : e.OfStep) : e.OfFrame := by
  cases e with
  | dispatched | ignoring => trivial
  | _ => exact h.elim

namespace Journal

/-- The journal `k` is `j` with entries of one kind behind it. -/
structure Extends (P : Entry → Prop) (j k : Journal) : Prop where
  level : k.level = j.level
  entries : ∃ es, k.entries.toList = j.entries.toList ++ es ∧ ∀ e ∈ es, P e

variable {P Q : Entry → Prop} {i j k : Journal}

theorem Extends.refl (P : Entry → Prop) (j : Journal) : j.Extends P j :=
  ⟨rfl, [], (List.append_nil _).symm, nofun⟩

theorem Extends.trans (h : i.Extends P j) (h' : j.Extends P k) : i.Extends P k := by
  obtain ⟨es, hes, hP⟩ := h.entries
  obtain ⟨es', hes', hP'⟩ := h'.entries
  refine ⟨h'.level.trans h.level, es ++ es', ?_, ?_⟩
  · rw [hes', hes, List.append_assoc]
  · intro e he
    exact (List.mem_append.mp he).elim (hP e) (hP' e)

theorem Extends.imp (h : j.Extends P k) (hPQ : ∀ e, P e → Q e) : j.Extends Q k := by
  obtain ⟨es, hes, hP⟩ := h.entries
  exact ⟨h.level, es, hes, fun e he => hPQ e (hP e he)⟩

/-- A selection of entries does not see those that were added if it takes none of
their kind. -/
theorem Extends.filterMap_eq {α : Type} {f : Entry → Option α} (h : j.Extends P k)
    (hf : ∀ e, P e → f e = none) :
    k.entries.toList.filterMap f = j.entries.toList.filterMap f := by
  obtain ⟨es, hes, hP⟩ := h.entries
  have hnone : es.filterMap f = [] :=
    List.filterMap_eq_nil_iff.mpr fun e he => hf e (hP e he)
  rw [hes, List.filterMap_append, hnone, List.append_nil]

theorem level_note (e : Entry) (j : Journal) : (j.note e).level = j.level := by
  rw [note]
  split <;> rfl

theorem keeps_congr (h : k.level = j.level) (l : Level) : k.keeps l = j.keeps l := by
  rw [keeps, keeps, h]

theorem entries_note (e : Entry) (j : Journal) :
    (j.note e).entries.toList =
      j.entries.toList ++ [e].filter fun e => j.keeps e.level := by
  rw [note, List.filter_cons, List.filter_nil]
  by_cases hkeeps : j.keeps e.level = true
  · simp only [hkeeps, if_true, Array.toList_push]
  · simp only [hkeeps, if_false, List.append_nil, Bool.false_eq_true]

theorem level_noteAll (es : List Entry) (j : Journal) : (j.noteAll es).level = j.level := by
  induction es generalizing j with
  | nil => rfl
  | cons e rest ih => exact (ih (j.note e)).trans (level_note e j)

theorem entries_noteAll (es : List Entry) (j : Journal) :
    (j.noteAll es).entries.toList =
      j.entries.toList ++ es.filter fun e => j.keeps e.level := by
  induction es generalizing j with
  | nil => exact (List.append_nil _).symm
  | cons e rest ih =>
      have hsame : ∀ l, (j.note e).keeps l = j.keeps l := keeps_congr (level_note e j)
      change ((j.note e).noteAll rest).entries.toList = _
      simp only [ih, hsame]
      rw [entries_note, List.append_assoc, ← List.filter_append, List.singleton_append]

theorem extends_noteAll {es : List Entry} (hes : ∀ e ∈ es, P e) (j : Journal) :
    j.Extends P (j.noteAll es) :=
  ⟨level_noteAll es j, _, entries_noteAll es j, fun e he => hes e (List.mem_filter.mp he).1⟩

theorem extends_note {e : Entry} (he : P e) (j : Journal) : j.Extends P (j.note e) := by
  have hall : ∀ e' ∈ [e], P e' := fun e' he' => List.mem_singleton.mp he' ▸ he
  exact extends_noteAll hall j

end Journal

theorem Machine.ofStep_of_mem_stepEntries {e : Entry} (m : Machine) (he : e ∈ m.stepEntries) :
    e.OfStep := by
  rw [stepEntries] at he
  split at he
  · split at he
    · contradiction
    · rename_i w _
      have hcases : e = .dispatched w ∨ e = .ignoring w := by
        split at he
        · split at he
          · exact .inl (List.mem_singleton.mp he)
          · rcases List.mem_cons.mp he with hfirst | hsecond
            · exact .inl hfirst
            · exact .inr (List.mem_singleton.mp hsecond)
        · exact .inl (List.mem_singleton.mp he)
      rcases hcases with rfl | rfl <;> trivial
  · contradiction

namespace Session

theorem extends_step (s : Session) : s.journal.Extends Entry.OfStep s.step.2.journal := by
  change s.journal.Extends Entry.OfStep
    (if s.journal.keeps .trace then s.journal.noteAll s.machine.stepEntries else s.journal)
  split
  · exact Journal.extends_noteAll (fun e he => s.machine.ofStep_of_mem_stepEntries he) s.journal
  · exact .refl _ s.journal

theorem extends_afterSteps (k : Nat) (s : Session) :
    s.journal.Extends Entry.OfStep (s.afterSteps k).journal :=
  afterSteps_preserves (P := fun t => s.journal.Extends Entry.OfStep t.journal)
    (fun t h => h.trans t.extends_step) k (.refl _ s.journal)

theorem journal_endFrame (s : Session) :
    s.endFrame.journal =
      if s.machine.tick.timers.toneActive = s.schedule.toneActive then s.journal
      else s.journal.note (.tone s.machine.tick.timers.toneActive) := by
  rw [endFrame]
  split <;> rfl

theorem extends_endFrame (s : Session) :
    s.journal.Extends Entry.OfFrame s.endFrame.journal := by
  rw [journal_endFrame]
  split
  · exact .refl _ s.journal
  · exact Journal.extends_note trivial s.journal

theorem extends_frame (s : Session) : s.journal.Extends Entry.OfFrame s.frame.2.journal := by
  obtain ⟨k, -, hframe⟩ := s.frame_eq_afterSteps
  have hsteps := (s.extends_afterSteps k).imp fun _ => Entry.OfStep.ofFrame
  rcases hframe with ⟨fault, hframe⟩ | ⟨summary, hframe⟩
  · rw [hframe]
    exact hsteps
  · rw [hframe]
    exact hsteps.trans (s.afterSteps k).extends_endFrame

/-- A run notes down nothing but what its steps do and when the tone changes. -/
theorem extends_runFrom (n done : Nat) (s : Session) :
    s.journal.Extends Entry.OfFrame (s.runFrom n done).2.journal := by
  induction n generalizing s done with
  | zero => exact .refl _ s.journal
  | succ n ih =>
      have hfirst := s.extends_frame
      rw [runFrom]
      rcases hframe : s.frame with ⟨fault | summary, t⟩
      · rw [hframe] at hfirst
        exact hfirst
      · rw [hframe] at hfirst
        dsimp only
        split
        · exact hfirst.trans (ih (done + 1) t.present)
        · exact hfirst

end Session

end Chip8
