import Chip8.Proofs.History

namespace Chip8

namespace Statistics

/-- Every counter is below a bound. -/
structure Below (bound : Nat) (s : Statistics) : Prop where
  executed : ∀ f : Family, s.count f < bound
  keyWaits : s.keyWaits < bound
  ignored : s.ignored < bound

variable {bound : Nat} {s : Statistics}

theorem below_new : ({} : Statistics).Below 1 where
  executed f := by
    rw [count]
    simp
  keyWaits := Nat.zero_lt_one
  ignored := Nat.zero_lt_one

theorem Below.mono {larger : Nat} (h : s.Below bound) (hle : bound ≤ larger) :
    s.Below larger where
  executed f := Nat.lt_of_lt_of_le (h.executed f) hle
  keyWaits := Nat.lt_of_lt_of_le h.keyWaits hle
  ignored := Nat.lt_of_lt_of_le h.ignored hle

theorem count_record (f g : Family) (s : Statistics) :
    (s.record f).count g = if f = g then s.count f + 1 else s.count g := by
  have hiff : f.nibble.val = g.nibble.val ↔ f = g := by
    rw [← Fin.ext_iff]
    refine ⟨fun h => ?_, congrArg Family.nibble⟩
    rw [← Family.ofNibble_nibble f, h, Family.ofNibble_nibble]
  rw [count, record, Fin.getElem_fin, Vector.getElem_set]
  simp only [hiff]
  rfl

theorem count_record_le (f g : Family) (s : Statistics) :
    (s.record f).count g ≤ s.count g + 1 := by
  rw [count_record]
  split
  · rename_i h
    subst h
    exact Nat.le_refl _
  · exact Nat.le_succ _

end Statistics

/-- An instruction counts itself only when it is passed over. -/
theorem Instruction.statistics_effect (i : Instruction) (m : Machine) :
    (i.effect m).statistics = m.statistics ∨
      (i.effect m).statistics = m.statistics.recordIgnored := by
  cases i with
  | unknown w => exact .inr rfl
  | _ => exact .inl rfl

namespace Machine

variable {bound : Nat} {m : Machine}

/-- A step adds at most one to each counter. -/
theorem below_nextStatistics (h : m.statistics.Below bound) :
    m.nextStatistics.Below (bound + 1) := by
  have hexecuted : m.executed.statistics = m.statistics ∨
      m.executed.statistics = m.statistics.recordIgnored :=
    Instruction.statistics_effect m.instruction m.fetched
  have hcount : ∀ f, m.executed.statistics.count f < bound := fun f => by
    rcases hexecuted with hsame | hignored
    · rw [hsame]
      exact h.executed f
    · rw [hignored]
      exact h.executed f
  have hkeyWaits : m.executed.statistics.keyWaits < bound := by
    rcases hexecuted with hsame | hignored
    · rw [hsame]
      exact h.keyWaits
    · rw [hignored]
      exact h.keyWaits
  have hignored : m.executed.statistics.ignored < bound + 1 := by
    rcases hexecuted with hsame | hignored
    · rw [hsame]
      exact Nat.lt_succ_of_lt h.ignored
    · rw [hignored]
      exact Nat.succ_lt_succ h.ignored
  have hrecord : ∀ f, (m.executed.statistics.record (.ofWord m.word)).count f < bound + 1 :=
    fun f => Nat.lt_of_le_of_lt (Statistics.count_record_le _ f _) (Nat.succ_lt_succ (hcount f))
  rw [nextStatistics]
  by_cases hwaiting : m.executed.waiting = true
  · rw [if_pos hwaiting]
    exact ⟨hrecord, Nat.succ_lt_succ hkeyWaits, hignored⟩
  · rw [if_neg hwaiting]
    exact ⟨hrecord, Nat.lt_succ_of_lt hkeyWaits, hignored⟩

theorem below_step (h : m.statistics.Below bound) : m.step.2.statistics.Below (bound + 1) := by
  rcases step_cases m with ⟨-, hstep⟩ | ⟨fault, -, -, hstep⟩ | ⟨-, -, hstep⟩
  · rw [hstep]
    exact h.mono (Nat.le_succ bound)
  · rw [hstep]
    exact h.mono (Nat.le_succ bound)
  · rw [hstep]
    exact below_nextStatistics h

end Machine

end Chip8
