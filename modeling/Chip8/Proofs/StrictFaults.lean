import Chip8.Proofs.Bounds
import Chip8.Proofs.Decoding
import Chip8.Proofs.SpritePixels

namespace Chip8

/-- The fault of a span that goes past the end of memory names its start, or the
first address past the end. -/
theorem Memory.spanFault?_eq_some_iff (address : UInt16) (length : Nat) (fault : Fault) :
    spanFault? true address length = some fault ↔
      0 < length ∧ 0xFFF < address.toNat + length - 1 ∧
        ∃ a : UInt16, a.toNat = max address.toNat 0x1000 ∧ fault = .addressOutOfRange a := by
  have hend : (0x1000 : UInt16).toNat = 0x1000 := rfl
  have hnamed : ∀ a : UInt16, a = (if 0xFFF < address.toNat then address else 0x1000) ↔
      a.toNat = max address.toNat 0x1000 := by
    intro a
    rw [← UInt16.toNat_inj]
    split <;> omega
  rw [spanFault?_eq]
  constructor
  · intro h
    split at h
    · rename_i hspan
      rw [Option.some.injEq] at h
      exact ⟨hspan.2.1, hspan.2.2, _, (hnamed _).mp rfl, h.symm⟩
    · contradiction
  · rintro ⟨hpos, hlast, a, ha, rfl⟩
    rw [if_pos ⟨rfl, hpos, hlast⟩, ← (hnamed a).mpr ha]

namespace Machine

/-- Pixel `i` lies under a set bit of the sprite that the next instruction draws,
with columns that spill into the next row. -/
def UnderSprite (m : Machine) (i : Nat) : Prop :=
  ∃ (down across : Nat) (a : Address), down < m.word.n.val ∧ across < 8 ∧
    a.val = m.index.toNat + down ∧ m.memory[a].toNat.testBit (7 - across) = true ∧
    i = m.v[m.word.x].toNat + across + 64 * (m.v[m.word.y].toNat + down)

/-- All rows of the sprite that the next instruction draws are in memory. -/
def RowsInMemory (m : Machine) : Prop :=
  m.word.n.val = 0 ∨ m.index.toNat + m.word.n.val - 1 ≤ 0xFFF

/-- What a strict machine refuses as its next step, and with which fault. Behind
the first two cases, the next word is in memory. -/
inductive Refuses (m : Machine) : Fault → Prop where
  | pastEnd (hpc : 0xFFF < m.pc.toNat) : m.Refuses (.addressOutOfRange m.pc)
  | lastByte (hpc : m.pc.toNat = 0xFFF) : m.Refuses (.addressOutOfRange 0x1000)
  | call (hpc : m.pc.toNat < 0xFFF) (hw : m.word.top.val = 0x2) (hsp : 16 ≤ m.stack.sp.toNat) :
      m.Refuses (.stackOverflow m.stack.sp)
  | ret (hpc : m.pc.toNat < 0xFFF) (hw : m.word = 0x00EE) (hsp : m.stack.sp = 0) :
      m.Refuses .stackUnderflow
  | rows (hpc : m.pc.toNat < 0xFFF) (hw : m.word.top.val = 0xD) (hrows : ¬ m.RowsInMemory)
      {a : UInt16} (ha : a.toNat = max m.index.toNat 0x1000) : m.Refuses (.addressOutOfRange a)
  | pixel (hpc : m.pc.toNat < 0xFFF) (hw : m.word.top.val = 0xD) (hrows : m.RowsInMemory)
      (hmode : m.config.sprite = .linear) {i : Nat}
      (hi : IsLeast {j | 2048 ≤ j ∧ m.UnderSprite j} i) : m.Refuses (.pixelOutOfRange i)
  | decimal (hpc : m.pc.toNat < 0xFFF) (hw : m.word.top.val = 0xF) (hkk : m.word.kk = 0x33)
      (hspan : 0xFFF < m.index.toNat + 2) {a : UInt16} (ha : a.toNat = max m.index.toNat 0x1000) :
      m.Refuses (.addressOutOfRange a)
  | registers (hpc : m.pc.toNat < 0xFFF) (hw : m.word.top.val = 0xF)
      (hkk : m.word.kk = 0x55 ∨ m.word.kk = 0x65)
      (hspan : 0xFFF < m.index.toNat + m.word.x.val) {a : UInt16}
      (ha : a.toNat = max m.index.toNat 0x1000) : m.Refuses (.addressOutOfRange a)
  | unmatched (hpc : m.pc.toNat < 0xFFF) (hw : m.word.unmatched = true) :
      m.Refuses (.unknownInstruction m.word)

variable {m : Machine} {fault : Fault}

theorem fetchFault_of_pc (hm : m.memory.strict = true) (hpc : m.pc.toNat < 0xFFF) :
    Memory.spanFault? m.memory.strict m.pc 2 = none := by
  rw [hm, Memory.spanFault?_eq, if_neg (by omega)]

theorem fetchFault_iff (hm : m.memory.strict = true) (hpc : ¬ m.pc.toNat < 0xFFF) :
    Memory.spanFault? m.memory.strict m.pc 2 = some fault ↔ m.Refuses fault := by
  rw [hm, Memory.spanFault?_eq_some_iff]
  constructor
  · rintro ⟨-, -, a, ha, rfl⟩
    by_cases hlast : m.pc.toNat = 0xFFF
    · have hnext : a = 0x1000 := by
        apply UInt16.toNat_inj.mp
        have hend : (0x1000 : UInt16).toNat = 0x1000 := rfl
        omega
      rw [hnext]
      exact .lastByte hlast
    · have hsame : a = m.pc := by
        apply UInt16.toNat_inj.mp
        omega
      rw [hsame]
      exact .pastEnd (by omega)
  · intro h
    cases h with
    | pastEnd => exact ⟨by omega, by omega, m.pc, by omega, rfl⟩
    | lastByte hlast =>
        have hend : (0x1000 : UInt16).toNat = 0x1000 := rfl
        exact ⟨by omega, by omega, 0x1000, by omega, rfl⟩
    | _ => contradiction

theorem spanFault?_rows_iff :
    Memory.spanFault? true m.index m.word.n.val = some fault ↔
      ¬ m.RowsInMemory ∧
        ∃ a : UInt16, a.toNat = max m.index.toNat 0x1000 ∧ fault = .addressOutOfRange a := by
  rw [Memory.spanFault?_eq_some_iff, ← and_assoc]
  apply and_congr_left'
  rw [RowsInMemory]
  omega

theorem spanFault?_rows_eq_none_iff :
    Memory.spanFault? true m.index m.word.n.val = none ↔ m.RowsInMemory := by
  rw [Memory.spanFault?_eq, RowsInMemory]
  simp only [true_and, ite_eq_right_iff, reduceCtorEq, imp_false]
  omega

theorem underSprite_iff (hrows : m.RowsInMemory) (hmode : m.config.sprite = .linear) (i : Nat) :
    m.UnderSprite i ↔ i ∈ m.spriteTargets m.word.x m.word.y m.word.n := by
  rw [spriteTargets, hmode, Framebuffer.mem_targets_iff]
  simp only [Memory.getElem?_bytesAt, SpriteMode.target]
  -- The rows lie in memory, so that no address of a row goes round its end.
  have haddress : ∀ down < m.word.n.val,
      (Address.ofWord (m.index + UInt16.ofNat down)).val = m.index.toNat + down := by
    intro down hdown
    rw [Memory.val_ofWord_add]
    have hn := m.word.n.isLt
    rcases hrows with hzero | hlast
    · omega
    · omega
  constructor
  · rintro ⟨down, across, a, hdown, hacross, ha, hbit, rfl⟩
    have hsame : Address.ofWord (m.index + UInt16.ofNat down) = a :=
      Fin.ext ((haddress down hdown).trans ha.symm)
    refine ⟨down, across, m.memory[a], ?_, hacross, hbit, by omega⟩
    rw [if_pos hdown, hsame]
  · rintro ⟨down, across, row, hrow, hacross, hbit, rfl⟩
    split at hrow
    · rename_i hdown
      rw [Option.some.injEq] at hrow
      subst hrow
      exact ⟨down, across, _, hdown, hacross, haddress down hdown, hbit, by omega⟩
    · contradiction

/-- A sprite is refused for a row that is not in memory, or else, with columns that
spill, for its first pixel that is off the display. -/
theorem fault?_draw_iff (hm : m.Bounded) :
    (Instruction.draw m.word.x m.word.y m.word.n).fault? m.fetched = some fault ↔
      (¬ m.RowsInMemory ∧
        ∃ a : UInt16, a.toNat = max m.index.toNat 0x1000 ∧ fault = .addressOutOfRange a) ∨
      (m.RowsInMemory ∧ m.config.sprite = .linear ∧
        ∃ i, IsLeast {j | 2048 ≤ j ∧ m.UnderSprite j} i ∧ fault = .pixelOutOfRange i) := by
  have hfault : (Instruction.draw m.word.x m.word.y m.word.n).fault? m.fetched =
      (Memory.spanFault? true m.index m.word.n.val).or
        (Framebuffer.drawFault? true (m.spriteTargets m.word.x m.word.y m.word.n)) := by
    simp only [Instruction.fault?, fetched, hm.memory, hm.config]
    rfl
  rw [hfault, Option.or_eq_some_iff, spanFault?_rows_iff, spanFault?_rows_eq_none_iff]
  refine or_congr_right (and_congr_right fun hrows => ?_)
  cases hmode : m.config.sprite with
  | wrap => simp [spriteTargets, hmode, Framebuffer.drawFault?_wrap]
  | linear =>
      simp only [underSprite_iff hrows hmode, true_and]
      rw [spriteTargets, hmode]
      exact Framebuffer.drawFault?_linear_eq_some_iff _ _ _ fault

theorem Bounded.fault?_eq_some_iff (hm : m.Bounded) (hpc : m.pc.toNat < 0xFFF) :
    m.instruction.fault? m.fetched = some fault ↔ m.Refuses fault := by
  have hmemory : m.fetched.memory.strict = true := hm.memory
  have hconfig : m.fetched.config.strict = true := hm.config
  constructor
  · intro h
    cases hi : m.instruction with
    | call target =>
        rw [hi] at h
        obtain ⟨hfull, rfl⟩ := (CallStack.pushFault?_eq_some_iff hm.stack.strict).mp h
        have htop := ((Instruction.decode_eq_call_iff _ _).mp hi).1
        exact .call hpc (congrArg Fin.val htop) hfull
    | ret =>
        rw [hi] at h
        obtain ⟨hempty, rfl⟩ := (CallStack.popFault?_eq_some_iff hm.stack.strict hm.stack.sp).mp h
        exact .ret hpc ((Instruction.decode_eq_ret_iff _).mp hi) hempty
    | draw x y height =>
        obtain ⟨htop, rfl, rfl, rfl⟩ := (Instruction.decode_eq_draw_iff _ _ _ _).mp hi
        rw [hi, fault?_draw_iff hm] at h
        rcases h with ⟨hrows, a, ha, rfl⟩ | ⟨hrows, hmode, i, hi, rfl⟩
        · exact .rows hpc (congrArg Fin.val htop) hrows ha
        · exact .pixel hpc (congrArg Fin.val htop) hrows hmode hi
    | storeDecimal x =>
        rw [hi, Instruction.fault?, hmemory, Memory.spanFault?_eq_some_iff] at h
        obtain ⟨htop, hkk, -⟩ := (Instruction.decode_eq_iff_of_misc rfl _).mp hi
        obtain ⟨-, hspan, a, ha, rfl⟩ := h
        exact .decimal hpc (congrArg Fin.val htop) hkk hspan ha
    | storeRegisters x =>
        rw [hi, Instruction.fault?, hmemory, Memory.spanFault?_eq_some_iff] at h
        obtain ⟨htop, hkk, rfl⟩ := (Instruction.decode_eq_iff_of_misc rfl _).mp hi
        obtain ⟨-, hspan, a, ha, rfl⟩ := h
        exact .registers hpc (congrArg Fin.val htop) (.inl hkk) hspan ha
    | loadRegisters x =>
        rw [hi, Instruction.fault?, hmemory, Memory.spanFault?_eq_some_iff] at h
        obtain ⟨htop, hkk, rfl⟩ := (Instruction.decode_eq_iff_of_misc rfl _).mp hi
        obtain ⟨-, hspan, a, ha, rfl⟩ := h
        exact .registers hpc (congrArg Fin.val htop) (.inr hkk) hspan ha
    | unknown w =>
        obtain ⟨hunmatched, rfl⟩ := (Instruction.decode_eq_unknown_iff _ _).mp hi
        rw [hi, Instruction.fault?, if_pos hconfig, Option.some.injEq] at h
        rw [← h]
        exact .unmatched hpc hunmatched
    | _ =>
        rw [hi, Instruction.fault?] at h
        contradiction
  · intro h
    cases h with
    | pastEnd hpast => omega
    | lastByte hlast => omega
    | call _ hw hsp =>
        have hi : m.instruction = .call m.word.nnn :=
          (Instruction.decode_eq_call_iff _ _).mpr ⟨Fin.ext hw, rfl⟩
        rw [hi]
        exact (CallStack.pushFault?_eq_some_iff hm.stack.strict).mpr ⟨hsp, rfl⟩
    | ret _ hw hsp =>
        have hi : m.instruction = .ret := (Instruction.decode_eq_ret_iff _).mpr hw
        rw [hi]
        exact (CallStack.popFault?_eq_some_iff hm.stack.strict hm.stack.sp).mpr ⟨hsp, rfl⟩
    | rows _ hw hrows ha =>
        have hi : m.instruction = .draw m.word.x m.word.y m.word.n :=
          (Instruction.decode_eq_draw_iff _ _ _ _).mpr ⟨Fin.ext hw, rfl, rfl, rfl⟩
        rw [hi, fault?_draw_iff hm]
        exact .inl ⟨hrows, _, ha, rfl⟩
    | pixel _ hw hrows hmode hleast =>
        have hi : m.instruction = .draw m.word.x m.word.y m.word.n :=
          (Instruction.decode_eq_draw_iff _ _ _ _).mpr ⟨Fin.ext hw, rfl, rfl, rfl⟩
        rw [hi, fault?_draw_iff hm]
        exact .inr ⟨hrows, hmode, _, hleast, rfl⟩
    | decimal _ hw hkk hspan ha =>
        have hi : m.instruction = .storeDecimal m.word.x :=
          (Instruction.decode_eq_iff_of_misc rfl _).mpr ⟨Fin.ext hw, hkk, rfl⟩
        rw [hi, Instruction.fault?, hmemory, Memory.spanFault?_eq_some_iff]
        exact ⟨by omega, hspan, _, ha, rfl⟩
    | registers _ hw hkk hspan ha =>
        have hfault : m.instruction.fault? m.fetched =
            Memory.spanFault? m.fetched.memory.strict m.index (m.word.x.val + 1) := by
          rcases hkk with hstore | hload
          · have hi : m.instruction = .storeRegisters m.word.x :=
              (Instruction.decode_eq_iff_of_misc rfl _).mpr ⟨Fin.ext hw, hstore, rfl⟩
            rw [hi]
            rfl
          · have hi : m.instruction = .loadRegisters m.word.x :=
              (Instruction.decode_eq_iff_of_misc rfl _).mpr ⟨Fin.ext hw, hload, rfl⟩
            rw [hi]
            rfl
        rw [hfault, hmemory, Memory.spanFault?_eq_some_iff]
        exact ⟨Nat.succ_pos _, hspan, _, ha, rfl⟩
    | unmatched _ hunmatched =>
        have hi : m.instruction = .unknown m.word :=
          (Instruction.decode_eq_unknown_iff _ _).mpr ⟨hunmatched, rfl⟩
        rw [hi, Instruction.fault?, if_pos hconfig]

theorem Bounded.stepFault?_eq_some_iff (hm : m.Bounded) :
    m.stepFault? = some fault ↔ m.Refuses fault := by
  rw [stepFault?]
  by_cases hpc : m.pc.toNat < 0xFFF
  · rw [fetchFault_of_pc hm.memory hpc, Option.none_or, hm.fault?_eq_some_iff hpc]
  · have hfetch : Memory.spanFault? m.memory.strict m.pc 2 ≠ none := by
      rw [hm.memory, Memory.spanFault?_eq, if_pos ⟨rfl, by omega, by omega⟩]
      exact Option.some_ne_none _
    rw [Option.or_eq_some_iff, fetchFault_iff hm.memory hpc]
    exact or_iff_left fun h => hfetch h.1

theorem Reachable.bounded (hm : m.Reachable) (hstrict : m.config.strict = true) : m.Bounded := by
  obtain ⟨config, random, history, rfl⟩ := hm
  have huniform : (Command.run history { config, random }).2.Uniform config.strict :=
    Command.run_preserves (fun c _ => Uniform.apply c) history (uniform_new config random)
  exact Command.run_preserves (fun c _ => Bounded.apply c) history
    (bounded_new config random (huniform.config.symm.trans hstrict))

/-- A strict machine that runs refuses its next step just for the reasons listed,
each with its own fault, and carries out every other step. -/
theorem strict_step_error_iff (hm : m.Reachable) (hstrict : m.config.strict = true)
    (hrun : m.loaded = true ∧ m.paused = false) :
    (∀ fault, m.step.1 = .error fault ↔ m.Refuses fault) ∧
    ((∀ fault, ¬ m.Refuses fault) → ∃ outcome, outcome ≠ .idle ∧ m.step.1 = .ok outcome) ∧
    (m.pc.toNat < 0xFFF → m.word.top.val = 0xD → m.config.sprite = .wrap → m.RowsInMemory →
      ∃ outcome, outcome ≠ .idle ∧ m.step.1 = .ok outcome) := by
  have hbounded : m.Bounded := hm.bounded hstrict
  have hrunning : m.running = true := m.running_iff.mpr hrun
  have herror : ∀ fault, m.step.1 = .error fault ↔ m.Refuses fault := by
    intro fault
    rw [← hbounded.stepFault?_eq_some_iff]
    cases hfault : m.stepFault? with
    | some f =>
        rw [step_of_fault hrunning hfault, Except.error.injEq, Option.some.injEq]
    | none =>
        rw [step_of_no_fault hrunning hfault]
        simp only [reduceCtorEq]
  have hcarried : (∀ fault, ¬ m.Refuses fault) →
      ∃ outcome, outcome ≠ .idle ∧ m.step.1 = .ok outcome := by
    intro hnone
    have hfault : m.stepFault? = none := by
      rw [Option.eq_none_iff_forall_ne_some]
      exact fun fault h => hnone fault (hbounded.stepFault?_eq_some_iff.mp h)
    refine ⟨m.nextOutcome, ?_, congrArg Prod.fst (step_of_no_fault hrunning hfault)⟩
    rw [nextOutcome]
    split <;> exact Outcome.noConfusion
  refine ⟨herror, hcarried, fun hpc hw hmode hrows => hcarried fun fault hrefuses => ?_⟩
  -- None of the reasons fits a sprite that is in memory and wraps.
  have hi : m.instruction = .draw m.word.x m.word.y m.word.n :=
    (Instruction.decode_eq_draw_iff _ _ _ _).mpr ⟨Fin.ext hw, rfl, rfl, rfl⟩
  have hfault := (hbounded.fault?_eq_some_iff hpc).mpr hrefuses
  rw [hi, fault?_draw_iff hbounded] at hfault
  rcases hfault with ⟨hmissing, -⟩ | ⟨-, hlinear, -⟩
  · exact hmissing hrows
  · rw [hmode] at hlinear
    contradiction

/-- A glyph whose second row would lie below the last row of the display. -/
theorem strict_step_error_iff_low_glyph :
    let config : Config := { strict := true }
    let m := (Command.run [.load #[0x61, 0x1F, 0xD0, 0x12], .step]
      { config, random := .ofSeed 0 }).2
    m.step.1 = .error (.pixelOutOfRange 2048) := by
  intro config m
  have hm : m.Reachable := ⟨config, .ofSeed 0, _, rfl⟩
  obtain ⟨statistics, hrun⟩ := Command.run_loadImm #[0x61, 0x1F, 0xD0, 0x12] 1 0x1F
    { config, random := .ofSeed 0 } (by decide) rfl rfl (by decide)
  have hmemory : m.memory = (starting #[0x61, 0x1F, 0xD0, 0x12]
      { config, random := .ofSeed 0 }).memory := (congrArg Machine.memory hrun :)
  have hpc : m.pc = 0x202 := congrArg Machine.pc hrun
  have hat : m.pc.toNat = 0x200 + 2 := congrArg UInt16.toNat hpc
  have hindex : m.index = 0 := congrArg Machine.index hrun
  have hv : m.v = Registers.zero.set 1 0x1F := congrArg Machine.v hrun
  have hword : m.word = 0xD012 :=
    (word_of_image (by decide) rfl rfl hmemory hat).trans (by decide)
  have hrow : m.memory[Address.ofWord 1] = 0x90 := by
    -- The program ends before memory has been gone round.
    have hbehind : Memory.offset Address.reset.toWord (Address.ofWord 1) = 3585 := by decide
    rw [hmemory, getElem_starting _ _ _ (by decide), hbehind, List.getD_eq_getElem?_getD,
      List.getElem?_eq_none (by decide), Option.getD_none]
    exact Vector.getElem_ofFn (by decide)
  have hunder : m.UnderSprite 2048 := by
    refine ⟨1, 0, Address.ofWord 1, ?_, by omega, ?_, ?_, ?_⟩
    · rw [hword]
      decide
    · rw [hindex]
      decide
    · rw [hrow]
      decide
    · rw [hword, hv]
      decide
  have hrows : m.RowsInMemory := by
    rw [RowsInMemory, hword, hindex]
    decide
  have hinMemory : m.pc.toNat < 0xFFF := by
    rw [hpc]
    decide
  have hdraw : m.word.top.val = 0xD := by
    rw [hword]
    decide
  have hstrict : m.config.strict = true := congrArg (·.config.strict) hrun
  have hrunning : m.loaded = true ∧ m.paused = false :=
    ⟨congrArg Machine.loaded hrun, congrArg Machine.paused hrun⟩
  have hmode : m.config.sprite = .linear := congrArg (·.config.sprite) hrun
  obtain ⟨herror, -, -⟩ := strict_step_error_iff hm hstrict hrunning
  exact (herror _).mpr
    (.pixel hinMemory hdraw hrows hmode ⟨⟨Nat.le_refl 2048, hunder⟩, fun j hj => hj.1⟩)

end Machine

end Chip8
