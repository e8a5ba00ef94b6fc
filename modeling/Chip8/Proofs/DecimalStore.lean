import Chip8.Proofs.Footprint

namespace Chip8.Machine

/-- The decimal digits of a register have been stored from the index on, hundreds
first, and the program counter has moved on. Nothing else has changed but what the
machine keeps about its run. -/
structure DecimalStored (m : Machine) (x : Reg) (h t u : UInt8) (n : Machine) : Prop where
  digits : h.toNat ≤ 9 ∧ t.toNat ≤ 9 ∧ u.toNat ≤ 9
  value : 100 * h.toNat + 10 * t.toNat + u.toNat = m.v[x].toNat
  hundreds : ∀ a : Address, a.val = m.index.toNat % 4096 → n.memory[a] = h
  tens : ∀ a : Address, a.val = (m.index.toNat + 1) % 4096 → n.memory[a] = t
  ones : ∀ a : Address, a.val = (m.index.toNat + 2) % 4096 → n.memory[a] = u
  others : ∀ a : Address, (∀ j < 3, a.val ≠ (m.index.toNat + j) % 4096) →
    n.memory[a] = m.memory[a]
  strict : n.memory.strict = m.memory.strict
  rest : n = { m with
    pc := m.pc + 2, memory := n.memory, waiting := false, statistics := n.statistics }

theorem toNat_decimalDigits (b : UInt8) :
    ((b / 100).toNat ≤ 9 ∧ (b / 10 % 10).toNat ≤ 9 ∧ (b % 10).toNat ≤ 9) ∧
      100 * (b / 100).toNat + 10 * (b / 10 % 10).toNat + (b % 10).toNat = b.toNat := by
  have hlt := b.toNat_lt
  have hten : (10 : UInt8).toNat = 10 := rfl
  have hhundred : (100 : UInt8).toNat = 100 := rfl
  simp only [UInt8.toNat_div, UInt8.toNat_mod, hten, hhundred]
  omega

variable {m n : Machine} {x : Reg}

theorem decimalStored_stepped (hi : m.instruction = .storeDecimal x) :
    m.DecimalStored x (m.v[x] / 100) (m.v[x] / 10 % 10) (m.v[x] % 10) m.stepped := by
  have hmemory : m.stepped.memory = m.memory.store m.index (decimalDigits m.v[x]) := by
    rw [stepped, executed, hi]
    rfl
  have hlen : (decimalDigits m.v[x]).length ≤ 4096 := by
    change 3 ≤ 4096
    decide
  obtain ⟨hdigits, hvalue⟩ := toNat_decimalDigits m.v[x]
  refine ⟨hdigits, hvalue, ?_, ?_, ?_, ?_, ?_, ?_⟩
  · intro a ha
    rw [hmemory]
    exact Memory.getElem_store_of_lt (k := 0) m.memory hlen rfl ha
  · intro a ha
    rw [hmemory]
    exact Memory.getElem_store_of_lt (k := 1) m.memory hlen rfl ha
  · intro a ha
    rw [hmemory]
    exact Memory.getElem_store_of_lt (k := 2) m.memory hlen rfl ha
  · intro a ha
    rw [hmemory]
    exact Memory.getElem_store_of_ne m.memory hlen ha
  · rw [hmemory, Memory.strict_store]
  · rw [stepped, executed, hi]
    rfl

/-- A step that loads three registers, where it is accepted, finds in them what is in
the three cells. -/
theorem step_of_load_three (hrun : m.running = true) (hword : m.nextWord = .ok 0xF265)
    (haccepts : m.Accepts 2) :
    ∃ n, m.step = (.ok .executed, n) ∧
      ∀ j ≤ (2 : Reg), ∀ a : Address, a.val = (m.index.toNat + j.val) % 4096 →
        n.v[j] = m.memory[a] := by
  obtain ⟨hspan, hw⟩ := (m.nextWord_eq_ok_iff _).mp hword
  have hi : m.instruction = .loadRegisters 2 := by
    rw [instruction, hw]
    decide
  have hfault : m.stepFault? = none := by
    rw [stepFault?, hspan, Option.none_or, hi]
    exact spanFault?_eq_none_iff_accepts.mpr haccepts
  have hexecuted : m.executed = (Instruction.loadRegisters 2).effect m.fetched := by
    rw [executed, hi]
  refine ⟨m.stepped, ?_, ?_⟩
  · rw [step_of_no_fault hrun hfault, nextOutcome, hexecuted]
    rfl
  · rw [stepped, hexecuted]
    exact (loaded_effect m.fetched 2).registers

/-- The decimal digits of a register are stored exactly when the machine accepts it,
one in each of three cells, which may go round the end of memory. The next
instruction finds them there, if it loads three registers from the same index. -/
theorem decimal_stored_and_loaded {w : Word} (hrun : m.loaded = true ∧ m.paused = false)
    (hword : m.nextWord = .ok w) (hw : w.top.val = 0xF ∧ w.kk = 0x33) :
    ((∃ outcome n, m.step = (.ok outcome, n)) ↔
      (m.memory.strict = true → m.index.toNat + 2 ≤ 0xFFF)) ∧
    ∀ outcome n, m.step = (.ok outcome, n) →
      outcome = .executed ∧ ∃ h t u, m.DecimalStored w.x h t u n ∧
        ∀ later : Machine, later.memory = n.memory → later.index = n.index →
          later.loaded = true ∧ later.paused = false → later.nextWord = .ok 0xF265 →
          ∃ k, later.step = (.ok .executed, k) ∧
            k.v[(0 : Reg)] = h ∧ k.v[(1 : Reg)] = t ∧ k.v[(2 : Reg)] = u := by
  have hrunning : m.running = true := m.running_iff.mpr hrun
  obtain ⟨hspan, rfl⟩ := (m.nextWord_eq_ok_iff w).mp hword
  have hi : m.instruction = .storeDecimal m.word.x :=
    (Instruction.decode_eq_iff_of_misc rfl _).mpr ⟨Fin.ext hw.1, hw.2, rfl⟩
  have hfault : m.stepFault? = none ↔ m.Accepts 2 := by
    rw [stepFault?, hspan, Option.none_or, hi]
    exact spanFault?_eq_none_iff_accepts (m := m) (x := 2)
  constructor
  · change (∃ outcome n, m.step = (.ok outcome, n)) ↔ m.Accepts 2
    rw [← hfault]
    constructor
    · rintro ⟨outcome, n, hstep⟩
      exact ((step_eq_ok_iff hrunning).mp hstep).1
    · intro hnone
      exact ⟨_, _, step_of_no_fault hrunning hnone⟩
  · intro outcome n hstep
    obtain ⟨hnone, rfl, rfl⟩ := (step_eq_ok_iff hrunning).mp hstep
    have hstored := decimalStored_stepped hi
    refine ⟨?_, _, _, _, hstored, ?_⟩
    · rw [nextOutcome, executed, hi]
      rfl
    · intro later hmemory hindex hlater hnext
      have hsame : m.stepped.index = m.index := by rw [hstored.rest]
      have haccepts : later.Accepts 2 := by
        rw [Accepts, hmemory, hstored.strict, hindex, hsame]
        exact hfault.mp hnone
      obtain ⟨k, hstep', hloaded⟩ :=
        step_of_load_three (later.running_iff.mpr hlater) hnext haccepts
      rw [hmemory, hindex, hsame] at hloaded
      have hcell : ∀ j : Reg, ∃ a : Address, a.val = (m.index.toNat + j.val) % 4096 :=
        fun j => ⟨⟨_, Nat.mod_lt _ (by decide)⟩, rfl⟩
      refine ⟨k, hstep', ?_, ?_, ?_⟩
      · obtain ⟨a, ha⟩ := hcell 0
        exact (hloaded 0 (by decide) a ha).trans (hstored.hundreds a ha)
      · obtain ⟨a, ha⟩ := hcell 1
        exact (hloaded 1 (by decide) a ha).trans (hstored.tens a ha)
      · obtain ⟨a, ha⟩ := hcell 2
        exact (hloaded 2 (by decide) a ha).trans (hstored.ones a ha)

/-- The digits of 123 go round the end of memory and come back. -/
theorem decimal_stored_and_loaded_last_cell :
    let m : Machine := { Machine.starting #[0xF7, 0x33, 0xF2, 0x65]
      { config := {}, random := .ofSeed 0 } with index := 0xFFF, v := Registers.zero.set 7 123 }
    ∃ n, m.step = (.ok .executed, n) ∧ n.memory[(0xFFF : Address)] = 1 ∧
      n.memory[(0 : Address)] = 2 ∧ n.memory[(1 : Address)] = 3 ∧
      ∃ k, n.step = (.ok .executed, k) ∧
        k.v[(0 : Reg)] = 1 ∧ k.v[(1 : Reg)] = 2 ∧ k.v[(2 : Reg)] = 3 := by
  intro m
  have hmemory : m.memory = (Machine.starting #[0xF7, 0x33, 0xF2, 0x65]
      { config := {}, random := .ofSeed 0 }).memory := rfl
  have hword : m.word = 0xF733 :=
    (word_of_image (k := 0) (by decide) rfl rfl hmemory rfl).trans (by decide)
  have hloose : m.memory.strict = false := rfl
  have hnext : m.nextWord = .ok 0xF733 := by
    rw [nextWord_of_no_fault (stepFault?_of_loose ⟨rfl, rfl, rfl⟩), hword]
  obtain ⟨haccepts, hstored⟩ :=
    decimal_stored_and_loaded (m := m) ⟨rfl, rfl⟩ hnext ⟨by decide, by decide⟩
  obtain ⟨outcome, n, hstep⟩ := haccepts.mpr fun hstrict => absurd hstrict (by rw [hloose]; decide)
  obtain ⟨rfl, h, t, u, hn, hload⟩ := hstored outcome n hstep
  obtain ⟨rfl, rfl, rfl⟩ : h = 1 ∧ t = 2 ∧ u = 3 := by
    have hvalue : m.v[Word.x 0xF733].toNat = 123 := by decide
    have hdigits := hn.digits
    have hsum := hn.value.trans hvalue
    simp only [← UInt8.toNat_inj, show (1 : UInt8).toNat = 1 from rfl,
      show (2 : UInt8).toNat = 2 from rfl, show (3 : UInt8).toNat = 3 from rfl]
    omega
  have hkept : ∀ (k : Nat) (a : Address), a.val = 0x200 + k → 0 < k → k < 4 →
      n.memory[a] = m.memory[a] := by
    intro k a ha hpos hk
    have hindex : m.index.toNat = 0xFFF := rfl
    apply hn.others
    intro j hj
    omega
  have hpc : n.pc = 0x202 := by
    rw [hn.rest]
    rfl
  have hnextWord : n.nextWord = .ok 0xF265 := by
    refine (n.nextWord_eq_ok_iff _).mpr ⟨?_, ?_⟩
    · rw [hn.strict, hloose, Memory.spanFault?_loose]
    · rw [word, hpc, hkept 2 _ rfl (by decide) (by decide), hkept 3 _ rfl (by decide) (by decide),
        hmemory, getElem_starting_of_image (k := 2) _ (by decide) rfl rfl,
        getElem_starting_of_image (k := 3) _ (by decide) rfl rfl]
      decide
  refine ⟨n, hstep, hn.hundreds _ (by decide), hn.tens _ (by decide), hn.ones _ (by decide), ?_⟩
  exact hload n rfl rfl (by rw [hn.rest]; exact ⟨rfl, rfl⟩) hnextWord

end Chip8.Machine
