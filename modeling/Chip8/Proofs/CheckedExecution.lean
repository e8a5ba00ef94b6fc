import Chip8.Proofs.CheckedAccess
import Chip8.Proofs.Counters

namespace Chip8.Checked

section Machine

variable (x y : Reg) (m : Machine)

theorem push_eq (value : UInt16) (s : CallStack) :
    push value s = Trap.guard s.pushFault? (s.pushed value) := by
  have hreplace : replace s.entries (s.sp.toNat % CallStack.depth) value =
      .ok (s.entries.set (CallStack.slot s.sp) value) :=
    replace_val s.entries (CallStack.slot s.sp) value
  rw [push, CallStack.pushFault?, hreplace]
  split <;> rfl

theorem pop_eq (s : CallStack) : pop s = Trap.guard s.popFault? (s.top, s.popped) := by
  have hitem : item s.entries ((s.sp - 1).toNat % CallStack.depth) = .ok s.top :=
    item_val s.entries (CallStack.slot (s.sp - 1))
  rw [pop, CallStack.popFault?, hitem]
  split <;> rfl

theorem isHeld_eq (key : UInt8) (keypad : Keypad) :
    isHeld key keypad = .ok (keypad.isHeld (Key.ofByte key)) := by
  have hlow : (key &&& 0xF).toNat = (Key.ofByte key).val := by
    rw [UInt8.toNat_and]
    exact Nat.and_two_pow_sub_one_eq_mod key.toNat 4
  rw [isHeld, hlow, item_val]
  rfl

@[simp] theorem withReg_ofNat (byte : UInt8) :
    withReg (UInt8.ofNat x.val) byte m = .ok { m with v := m.v.set x byte } := by
  rw [withReg, setReg_ofNat]
  rfl

theorem ignore_eq (w : Word) (h : (Instruction.unknown w).fault? m = none →
      ((Instruction.unknown w).effect m).statistics.ignored < UInt64.size) :
    ignore w m =
      Trap.guard ((Instruction.unknown w).fault? m) ((Instruction.unknown w).effect m) := by
  rw [Instruction.fault?] at h ⊢
  rw [ignore]
  cases hs : m.config.strict with
  | true => rfl
  | false =>
      rw [hs] at h
      have hignored : m.statistics.ignored + 1 < UInt64.size := h rfl
      rw [fit_of_lt hignored]
      rfl

theorem draw_eq (height : Fin 16) :
    draw (UInt8.ofNat x.val) (UInt8.ofNat y.val) (UInt8.ofNat height.val) m =
      Trap.guard ((Instruction.draw x y height).fault? m)
        ((Instruction.draw x y height).effect m) := by
  have hheight : (UInt8.ofNat height.val).toNat = height.val := toNat_reg height
  have hrows : (m.memory.bytesAt m.index height.val).length ≤ 15 := by
    rw [Memory.length_bytesAt]
    omega
  rw [draw, reg_ofNat, reg_ofNat, ok_bind, ok_bind, readRows_eq _ _ _ (by omega), hheight,
    Instruction.fault?]
  cases Memory.spanFault? m.memory.strict m.index height.val with
  | some f => rfl
  | none =>
      change (drawSprite m.config.strict m.config.sprite m.v[x] m.v[y] _ m.display >>= _) = _
      rw [drawSprite_eq _ _ _ _ _ hrows, Option.none_or, Machine.spriteTargets]
      cases Framebuffer.drawFault? m.config.strict (Framebuffer.targets m.config.sprite
        m.v[x] m.v[y] (m.memory.bytesAt m.index height.val)) with
      | some f => rfl
      | none =>
          simp only [Trap.guard, ok_bind, setFlag_eq]
          rfl

theorem waitKey_eq :
    waitKey (UInt8.ofNat x.val) m = .ok ((Instruction.waitKey x).effect m) := by
  rw [waitKey, Instruction.effect]
  cases m.keypad.lowest? with
  | some key =>
      simp only [withReg_ofNat, Option.isNone_some, Bool.or_false]
      rfl
  | none =>
      simp only [Option.isNone_none, Bool.or_true]
      rfl

theorem skipIf_eq (holds : Bool) :
    skipIf holds m = { m with pc := if holds then m.pc + 2 else m.pc } := by
  cases holds <;> rfl

theorem storeDecimal_eq :
    storeDecimal (UInt8.ofNat x.val) m =
      Trap.guard ((Instruction.storeDecimal x).fault? m)
        ((Instruction.storeDecimal x).effect m) := by
  have hthird : m.index + 2 = m.index + 1 + 1 := by
    rw [UInt16.add_assoc]
    rfl
  rw [storeDecimal, reg_ofNat, ok_bind, checkSpan_eq, Instruction.fault?, hthird]
  change (Trap.guard (Memory.spanFault? m.memory.strict m.index 3) () >>= _) = _
  cases h : Memory.spanFault? m.memory.strict m.index 3 with
  | some f => rfl
  | none =>
      simp only [Memory.spanFault?, Option.or_eq_none_iff] at h
      simp only [Trap.guard, ok_bind, write_eq, Memory.strict_put, h]
      rfl

theorem storeEach_eq (registers : List Reg)
    (h : Memory.spanFault? m.memory.strict m.index registers.length = none) :
    storeEach (registers.map Fin.val) m =
      .ok { m with
        memory := m.memory.store m.index (registers.map (m.v[·]))
        index := m.index + UInt16.ofNat registers.length } := by
  induction registers generalizing m with
  | nil =>
      have hzero : m.index + UInt16.ofNat 0 = m.index := by simp
      simp only [List.length_nil, List.map_nil, hzero]
      rfl
  | cons x rest ih =>
      rw [List.length_cons, Memory.spanFault?, Option.or_eq_none_iff] at h
      rw [List.map_cons, storeEach, reg_ofNat, ok_bind, write_eq, h.1]
      change storeEach (rest.map Fin.val) _ = _
      rw [ih _ h.2]
      simp only [Machine.index_add_succ, List.length_cons, List.map_cons, Memory.store]

theorem loadEach_eq (registers : List Reg)
    (h : Memory.spanFault? m.memory.strict m.index registers.length = none) :
    loadEach (registers.map Fin.val) m =
      .ok { m with
        v := m.v.load registers (m.memory.bytesAt m.index registers.length)
        index := m.index + UInt16.ofNat registers.length } := by
  induction registers generalizing m with
  | nil =>
      have hzero : m.index + UInt16.ofNat 0 = m.index := by simp
      simp only [List.length_nil, hzero]
      rfl
  | cons x rest ih =>
      rw [List.length_cons, Memory.spanFault?, Option.or_eq_none_iff] at h
      rw [List.map_cons, loadEach, read_eq, h.1]
      change (setReg (UInt8.ofNat x.val) _ m.v >>= _) = _
      rw [setReg_ofNat, ok_bind, ih _ h.2]
      simp only [Machine.index_add_succ, List.length_cons, Memory.bytesAt, Registers.load]

theorem map_upTo : (Registers.upTo x).map Fin.val = List.range (x.val + 1) := by
  revert x
  decide

theorem transfer_eq {each : List Nat → Machine → Except Trap Machine} {after : Machine}
    (h : Memory.spanFault? m.memory.strict m.index (x.val + 1) = none →
      each ((Registers.upTo x).map Fin.val) m = .ok after) :
    transfer each (UInt8.ofNat x.val) m =
      Trap.guard (Memory.spanFault? m.memory.strict m.index (x.val + 1)) after := by
  have hsize : UInt16.size = 65536 := rfl
  have hlength : (UInt16.ofNat (x.val + 1)).toNat = x.val + 1 := by
    rw [UInt16.toNat_ofNat']
    omega
  rw [map_upTo] at h
  rw [transfer, toNat_reg, fit_of_lt (by omega), ok_bind, checkSpan_eq, hlength]
  cases hspan : Memory.spanFault? m.memory.strict m.index (x.val + 1) with
  | some f => rfl
  | none => exact h hspan

theorem storeRegisters_eq :
    transfer storeEach (UInt8.ofNat x.val) m =
      Trap.guard ((Instruction.storeRegisters x).fault? m)
        ((Instruction.storeRegisters x).effect m) := by
  refine transfer_eq x m fun h => ?_
  rw [← Registers.length_upTo x] at h
  rw [storeEach_eq m _ h, Registers.length_upTo]
  rfl

theorem loadRegisters_eq :
    transfer loadEach (UInt8.ofNat x.val) m =
      Trap.guard ((Instruction.loadRegisters x).fault? m)
        ((Instruction.loadRegisters x).effect m) := by
  refine transfer_eq x m fun h => ?_
  rw [← Registers.length_upTo x] at h
  rw [loadEach_eq m _ h, Registers.length_upTo]
  rfl

theorem fit_glyph (b : UInt8) :
    fit UInt16.size (b.toNat * Font.glyphHeight.toNat) =
      .ok (b.toUInt16 * Font.glyphHeight).toNat := by
  have hb := b.toNat_lt
  have hsize : UInt16.size = 65536 := rfl
  have hheight : Font.glyphHeight.toNat = 5 := rfl
  have hproduct : (b.toUInt16 * Font.glyphHeight).toNat = b.toNat * Font.glyphHeight.toNat := by
    rw [UInt16.toNat_mul, UInt8.toNat_toUInt16, hheight]
    omega
  rw [hproduct, hheight]
  exact fit_of_lt (by omega)

theorem fit_jumpOffset (base : Address) (b : UInt8) :
    fit UInt16.size (base.toWord.toNat + b.toNat) =
      .ok (base.toWord + b.toUInt16).toNat := by
  have hbase := base.isLt
  have hb := b.toNat_lt
  have hsize : UInt16.size = 65536 := rfl
  have hword := base.toNat_toWord
  have hsum : (base.toWord + b.toUInt16).toNat = base.toWord.toNat + b.toNat := by
    rw [UInt16.toNat_add, UInt8.toNat_toUInt16]
    omega
  rw [hsum]
  exact fit_of_lt (by omega)

theorem fit_addIndex (index : UInt16) (b : UInt8) :
    fit UInt32.size (index.toNat + b.toNat) = .ok (index.toNat + b.toNat) := by
  have hindex := index.toNat_lt
  have hb := b.toNat_lt
  have hsize : UInt32.size = 4294967296 := rfl
  exact fit_of_lt (by omega)

end Machine

section Step

variable {w : Word} {m : Machine}

theorem misc_ofWord (hfamily : Family.ofWord w = .misc)
    (h : (Instruction.decode w).fault? m = none →
      ((Instruction.decode w).effect m).statistics.ignored < UInt64.size) :
    misc (Fields.ofWord w) m =
      Trap.guard ((Instruction.decode w).fault? m) ((Instruction.decode w).effect m) := by
  simp only [Instruction.decode, hfamily] at h ⊢
  simp only [misc, x_ofWord, kk_ofWord]
  by_cases h07 : w.kk = 0x07
  · simp only [if_pos h07]
    exact withReg_ofNat w.x m _
  simp only [if_neg h07] at h ⊢
  by_cases h0A : w.kk = 0x0A
  · simp only [if_pos h0A]
    exact waitKey_eq w.x m
  simp only [if_neg h0A] at h ⊢
  by_cases h15 : w.kk = 0x15
  · simp only [if_pos h15, reg_ofNat]
    rfl
  simp only [if_neg h15] at h ⊢
  by_cases h18 : w.kk = 0x18
  · simp only [if_pos h18, reg_ofNat]
    rfl
  simp only [if_neg h18] at h ⊢
  by_cases h1E : w.kk = 0x1E
  · simp only [if_pos h1E, reg_ofNat, ok_bind, fit_addIndex, setFlag_eq]
    rfl
  simp only [if_neg h1E] at h ⊢
  by_cases h29 : w.kk = 0x29
  · simp only [if_pos h29, reg_ofNat, ok_bind, fit_glyph, UInt16.ofNat_toNat]
    rfl
  simp only [if_neg h29] at h ⊢
  by_cases h33 : w.kk = 0x33
  · simp only [if_pos h33]
    exact storeDecimal_eq w.x m
  simp only [if_neg h33] at h ⊢
  by_cases h55 : w.kk = 0x55
  · simp only [if_pos h55]
    exact storeRegisters_eq w.x m
  simp only [if_neg h55] at h ⊢
  by_cases h65 : w.kk = 0x65
  · simp only [if_pos h65]
    exact loadRegisters_eq w.x m
  simp only [if_neg h65] at h ⊢
  exact ignore_eq m w h

theorem execute_ofWord (h : (Instruction.decode w).fault? m = none →
      ((Instruction.decode w).effect m).statistics.ignored < UInt64.size) :
    execute (Fields.ofWord w) m =
      Trap.guard ((Instruction.decode w).fault? m) ((Instruction.decode w).effect m) := by
  rw [execute, family_ofWord]
  cases hfamily : Family.ofWord w with
  | misc => exact misc_ofWord hfamily h
  | sys =>
      have h0E0 : (0x0E0 : UInt16).toNat = 0x0E0 := rfl
      have h0EE : (0x0EE : UInt16).toNat = 0x0EE := rfl
      simp only [Instruction.decode, hfamily] at h ⊢
      simp only [nnn_ofWord, toWord_eq_iff, h0E0, h0EE]
      by_cases hclear : w.nnn.val = 0x0E0
      · simp only [if_pos hclear]
        rfl
      simp only [if_neg hclear] at h ⊢
      by_cases hret : w.nnn.val = 0x0EE
      · simp only [if_pos hret, pop_eq, Instruction.fault?]
        cases m.stack.popFault? <;> rfl
      simp only [if_neg hret] at h ⊢
      exact ignore_eq m w h
  | alu =>
      simp only [Instruction.decode, hfamily] at h ⊢
      simp only [x_ofWord, y_ofWord, n_ofWord, operation?_ofNat]
      cases hop : Arithmetic.ofNibble? w.n with
      | some op =>
          simp only [arith_eq]
          rfl
      | none =>
          rw [hop] at h
          exact ignore_eq m w h
  | keySkip =>
      simp only [Instruction.decode, hfamily] at h ⊢
      simp only [x_ofWord, kk_ofWord, reg_ofNat, ok_bind, isHeld_eq]
      by_cases hheld : w.kk = 0x9E
      · simp only [if_pos hheld, skipIf_eq]
        rfl
      simp only [if_neg hheld] at h ⊢
      by_cases hfree : w.kk = 0xA1
      · simp only [if_pos hfree, skipIf_eq]
        rfl
      simp only [if_neg hfree] at h ⊢
      exact ignore_eq m w h
  | call =>
      simp only [Instruction.decode, hfamily]
      simp only [push_eq, nnn_ofWord, Instruction.fault?]
      cases m.stack.pushFault? <;> rfl
  | draw =>
      simp only [Instruction.decode, hfamily]
      simp only [x_ofWord, y_ofWord, n_ofWord]
      exact draw_eq w.x w.y m w.n
  | jumpOffset =>
      simp only [Instruction.decode, hfamily]
      have hfirst : reg 0 m.v = .ok m.v[Reg.first] := reg_ofNat Reg.first m.v
      simp only [nnn_ofWord, hfirst, ok_bind, fit_jumpOffset, UInt16.ofNat_toNat]
      rfl
  | _ =>
      simp only [Instruction.decode, hfamily, x_ofWord, y_ofWord, kk_ofWord, nnn_ofWord,
        reg_ofNat, ok_bind, withReg_ofNat, skipIf_eq]
      rfl

theorem record_eq (f : Family) (s : Statistics) (h : (s.record f).count f < UInt64.size) :
    record f s = .ok (s.record f) := by
  have hcount : (s.record f).count f = s.executed[f.nibble] + 1 := Vector.getElem_set_self _
  rw [hcount] at h
  rw [record, item_val, ok_bind, fit_of_lt h, ok_bind, replace_val]
  rfl

theorem recordKeyWait_eq (s : Statistics) (h : s.recordKeyWait.keyWaits < UInt64.size) :
    recordKeyWait s = .ok s.recordKeyWait := by
  have hwaits : s.keyWaits + 1 < UInt64.size := h
  rw [recordKeyWait, fit_of_lt hwaits]
  rfl

end Step

theorem finish_eq {m : Machine} (h : m.nextStatistics.Below UInt64.size) :
    finish (.ofWord m.word) m.executed = .ok (m.nextOutcome, m.stepped) := by
  rw [finish, Machine.nextOutcome, Machine.stepped]
  rw [Machine.nextStatistics] at h ⊢
  by_cases hwaiting : m.executed.waiting = true
  · simp only [hwaiting, if_true] at h ⊢
    rw [record_eq _ _ (h.executed _), ok_bind, recordKeyWait_eq _ h.keyWaits]
    rfl
  · simp only [hwaiting, if_false, Bool.false_eq_true] at h ⊢
    rw [record_eq _ _ (h.executed _)]
    rfl

theorem ignored_nextStatistics (m : Machine) :
    m.nextStatistics.ignored = m.executed.statistics.ignored := by
  rw [Machine.nextStatistics]
  by_cases hwaiting : m.executed.waiting = true
  · rw [if_pos hwaiting]
    rfl
  · rw [if_neg hwaiting]
    rfl

theorem cycle_of_fault {m : Machine} {f : Fault} (h : m.stepFault? = some f) :
    cycle m = .error (.fault f) := by
  rw [Machine.stepFault?, Machine.instruction] at h
  rw [cycle, readWord_eq]
  cases hspan : Memory.spanFault? m.memory.strict m.pc 2 with
  | some g =>
      rw [hspan, Option.some_or, Option.some.injEq] at h
      rw [h]
      rfl
  | none =>
      rw [hspan, Option.none_or] at h
      have hexecute : execute (Fields.ofWord m.word) m.fetched = .error (.fault f) := by
        rw [execute_ofWord fun hnone => absurd (h.symm.trans hnone) (Option.some_ne_none f), h]
        rfl
      change (execute (Fields.ofWord m.word) m.fetched >>= _) = _
      rw [hexecute]
      rfl

theorem cycle_of_no_fault {m : Machine} (h : m.stepFault? = none)
    (hfits : m.nextStatistics.Below UInt64.size) :
    cycle m = .ok (m.nextOutcome, m.stepped) := by
  have hignored := hfits.ignored
  rw [ignored_nextStatistics] at hignored
  rw [Machine.stepFault?, Option.or_eq_none_iff] at h
  have hexecute : execute (Fields.ofWord m.word) m.fetched = .ok m.executed := by
    have hinstruction : (Instruction.decode m.word).fault? m.fetched = none := h.2
    rw [execute_ofWord fun _ => hignored, hinstruction]
    rfl
  rw [cycle, readWord_eq, h.1]
  change (execute (Fields.ofWord m.word) m.fetched >>= _) = _
  rw [hexecute, ok_bind, family_ofWord]
  exact finish_eq hfits

theorem step_eq_ite (m : Machine) : step m = if m.running then cycle m else .ok (.idle, m) := by
  rw [step, Machine.running]
  cases m.loaded <;> cases m.paused <;> rfl

/-- The result of a step, without the machine after a fault. -/
def result (r : Except Fault Outcome × Machine) : Except Trap (Outcome × Machine) :=
  match r with
  | (.error f, _) => .error (.fault f)
  | (.ok outcome, m) => .ok (outcome, m)

theorem result_of_ok {r : Except Fault Outcome × Machine} {outcome : Outcome}
    (h : r.1 = .ok outcome) : result r = .ok (outcome, r.2) := by
  obtain ⟨first, m⟩ := r
  change first = .ok outcome at h
  rw [h]
  rfl

/-- The checks of indices and arithmetic never catch anything, so the checked
step is the step. -/
theorem step_eq {m : Machine} (h : m.step.2.statistics.Below UInt64.size) :
    step m = result m.step := by
  rw [step_eq_ite]
  rcases m.step_cases with ⟨hidle, hstep⟩ | ⟨f, hrun, hfault, hstep⟩ | ⟨hrun, hfault, hstep⟩
  · rw [hstep, hidle]
    rfl
  · rw [hstep, hrun, if_pos rfl, cycle_of_fault hfault]
    rfl
  · rw [hstep] at h ⊢
    rw [hrun, if_pos rfl, cycle_of_no_fault hfault h]
    rfl

end Chip8.Checked
