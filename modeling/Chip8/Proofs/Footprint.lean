import Chip8.Proofs.BulkTransfer
import Chip8.Proofs.Counters
import Chip8.Proofs.KeyBlock
import Chip8.Proofs.Strictness

namespace Chip8

/-- A place in a machine in which something can be kept. -/
inductive Place where
  | cell (a : Address)
  | display
  | reg (r : Reg)
  | index
  | sp
  | slot (k : Slot)
  | delay
  | sound
  | random
  | keypad
  | config
  | memoryChecks
  | stackChecks
  | loaded
  | paused

/-- The two machines have the same in a place. -/
def Machine.SameAt (p : Place) (m n : Machine) : Prop :=
  match p with
  | .cell a => n.memory[a] = m.memory[a]
  | .display => n.display = m.display
  | .reg r => n.v[r] = m.v[r]
  | .index => n.index = m.index
  | .sp => n.stack.sp = m.stack.sp
  | .slot k => n.stack[k] = m.stack[k]
  | .delay => n.timers.delay = m.timers.delay
  | .sound => n.timers.sound = m.timers.sound
  | .random => n.random = m.random
  | .keypad => n.keypad = m.keypad
  | .config => n.config = m.config
  | .memoryChecks => n.memory.strict = m.memory.strict
  | .stackChecks => n.stack.strict = m.stack.strict
  | .loaded => n.loaded = m.loaded
  | .paused => n.paused = m.paused

/-- The places that a word names as those it writes, by its nibbles. -/
def Word.Names (w : Word) (m : Machine) : Place → Prop
  | .cell a => w.top.val = 0xF ∧
      ((w.kk = 0x33 ∧ ∃ j < 3, a.val = (m.index.toNat + j) % 4096) ∨
        (w.kk = 0x55 ∧ ∃ j ≤ w.x.val, a.val = (m.index.toNat + j) % 4096))
  | .display => w = 0x00E0 ∨ w.top.val = 0xD
  | .reg r =>
      (r = w.x ∧ (w.top.val ∈ [0x6, 0x7, 0xC] ∨
        (w.top.val = 0x8 ∧ w.n.val ∈ [0x0, 0x1, 0x2, 0x3, 0x4, 0x5, 0x6, 0x7, 0xE]) ∨
        (w.top.val = 0xF ∧ w.kk ∈ [0x07, 0x0A]))) ∨
      (r ≤ w.x ∧ w.top.val = 0xF ∧ w.kk = 0x65) ∨
      (r = Reg.flag ∧ ((w.top.val = 0x8 ∧ w.n.val ∈ [0x4, 0x5, 0x6, 0x7, 0xE]) ∨
        (w.top.val = 0xF ∧ w.kk = 0x1E) ∨ w.top.val = 0xD))
  | .index => w.top.val = 0xA ∨ (w.top.val = 0xF ∧ w.kk ∈ [0x1E, 0x29, 0x55, 0x65])
  | .sp => w.top.val = 0x2 ∨ w = 0x00EE
  | .slot k => w.top.val = 0x2 ∧ k.val = m.stack.sp.toNat % 16
  | .delay => w.top.val = 0xF ∧ w.kk = 0x15
  | .sound => w.top.val = 0xF ∧ w.kk = 0x18
  | .random => w.top.val = 0xC
  | .keypad | .config | .memoryChecks | .stackChecks | .loaded | .paused => False

/-- The operation writes the flag before its result. -/
def Arithmetic.setsFlag : Arithmetic → Bool
  | copy | or | and | xor => false
  | add | sub | shiftRight | subFrom | shiftLeft => true

namespace Instruction

open Machine

/-- The places that an instruction writes. -/
def Writes (i : Instruction) (m : Machine) (p : Place) : Prop :=
  match i, p with
  | clearScreen, .display => True
  | ret, .sp => True
  | call _, .sp => True
  | call _, .slot k => k = CallStack.slot m.stack.sp
  | loadImm x _, .reg r => r = x
  | addImm x _, .reg r => r = x
  | arith op x _, .reg r => r = x ∨ (op.setsFlag = true ∧ r = .flag)
  | loadIndex _, .index => True
  | random x _, .reg r => r = x
  | random _ _, .random => True
  | draw _ _ _, .display => True
  | draw _ _ _, .reg r => r = .flag
  | readDelay x, .reg r => r = x
  | waitKey x, .reg r => r = x
  | setDelay _, .delay => True
  | setSound _, .sound => True
  | addIndex _, .index => True
  | addIndex _, .reg r => r = .flag
  | loadGlyph _, .index => True
  | storeDecimal _, .cell a => ∃ j < 3, a.val = (m.index.toNat + j) % 4096
  | storeRegisters x, .cell a => ∃ j ≤ x.val, a.val = (m.index.toNat + j) % 4096
  | storeRegisters _, .index => True
  | loadRegisters x, .reg r => r ≤ x
  | loadRegisters _, .index => True
  | _, _ => False

end Instruction

theorem Registers.getElem_set_of_ne {x r : Reg} (h : r ≠ x) (byte : UInt8) (v : Registers) :
    (v.set x byte)[r] = v[r] := by
  rw [getElem_set, if_neg (Ne.symm h)]

theorem Arithmetic.getElem_apply_of_ne {op : Arithmetic} {x r : Reg} (hx : r ≠ x)
    (hflag : op.setsFlag = true → r ≠ .flag) (mode : ShiftMode) (y : Reg) (v : Registers) :
    (op.apply mode x y v)[r] = v[r] := by
  cases op with
  | copy | or | and | xor => exact Registers.getElem_set_of_ne hx _ v
  | add | sub | shiftRight | subFrom | shiftLeft =>
      exact (Registers.getElem_set_of_ne hx _ _).trans
        (Registers.getElem_set_of_ne (hflag rfl) _ v)

namespace Instruction

open Machine

/-- An instruction changes nothing but the places that it writes. -/
theorem sameAt_effect {i : Instruction} {m : Machine} {p : Place} (h : ¬ i.Writes m p) :
    SameAt p m (i.effect m) := by
  cases i with
  | jump _ | skip _ | jumpOffset _ | unknown _ => cases p <;> rfl
  | clearScreen | ret | loadIndex | setDelay | setSound | loadGlyph =>
      cases p <;> first | exact absurd trivial h | rfl
  | loadImm | addImm | readDelay =>
      cases p with
      | reg r => exact Registers.getElem_set_of_ne h _ m.v
      | _ => rfl
  | random | draw | addIndex =>
      cases p with
      | reg r => exact Registers.getElem_set_of_ne h _ m.v
      | random | display | index => first | exact absurd trivial h | rfl
      | _ => rfl
  | call target =>
      cases p with
      | sp => exact absurd trivial h
      | slot k =>
          exact (CallStack.getElem_put _ k m.pc m.stack).trans (if_neg (Ne.symm h))
      | _ => rfl
  | arith op x y =>
      cases p with
      | reg r =>
          obtain ⟨hx, hflag⟩ := not_or.mp h
          exact Arithmetic.getElem_apply_of_ne hx (fun hop hr => hflag ⟨hop, hr⟩) _ y m.v
      | _ => rfl
  | waitKey x =>
      cases p with
      | reg r =>
          change (m.v.take x m.keypad.lowest?)[r] = m.v[r]
          cases m.keypad.lowest? with
          | some key => exact Registers.getElem_set_of_ne h _ m.v
          | none => rfl
      | _ => rfl
  | storeDecimal x =>
      cases p with
      | cell a =>
          have hlen : (decimalDigits m.v[x]).length ≤ 4096 := by
            change 3 ≤ 4096
            decide
          apply Memory.getElem_store_of_ne m.memory hlen
          intro j hj ha
          exact h ⟨j, hj, ha⟩
      | memoryChecks => exact Memory.strict_store _ _ _
      | _ => rfl
  | storeRegisters x =>
      cases p with
      | cell a => exact (stored_effect m x).others a fun j hj ha => h ⟨j.val, hj, ha⟩
      | index => exact absurd trivial h
      | memoryChecks => exact Memory.strict_store _ _ _
      | _ => rfl
  | loadRegisters x =>
      cases p with
      | reg r => exact (loaded_effect m x).above r (Fin.not_le.mp h)
      | index => exact absurd trivial h
      | _ => rfl

end Instruction

/-- The nibbles of the operations, and of those that write the flag. -/
theorem Arithmetic.mem_of_ofNibble? {n : Fin 16} {op : Arithmetic} (h : ofNibble? n = some op) :
    n.val ∈ [0x0, 0x1, 0x2, 0x3, 0x4, 0x5, 0x6, 0x7, 0xE] ∧
      (op.setsFlag = true → n.val ∈ [0x4, 0x5, 0x6, 0x7, 0xE]) := by
  revert n
  cases op <;> decide

namespace Word

variable {w : Word} {m : Machine} {p : Place}

/-- The places that an instruction writes are those that its word names. -/
theorem names_of_writes (h : (Instruction.decode w).Writes m p) : w.Names m p := by
  generalize hi : Instruction.decode w = i at h
  have htop : w.top.val = i.family.nibble.val := congrArg Fin.val (Instruction.top_of_decode hi)
  cases i with
  | clearScreen =>
      cases p with
      | display => exact .inl ((Instruction.decode_eq_clearScreen_iff w).mp hi)
      | _ => exact h.elim
  | ret =>
      cases p with
      | sp => exact .inr ((Instruction.decode_eq_ret_iff w).mp hi)
      | _ => exact h.elim
  | call target =>
      cases p with
      | sp => exact .inl htop
      | slot k => exact ⟨htop, congrArg Fin.val h⟩
      | _ => exact h.elim
  | loadImm x byte =>
      obtain ⟨-, ⟨⟩⟩ := (Instruction.decode_eq_iff_of_family rfl).mp hi
      have hw : w.top.val = 0x6 := htop
      cases p with
      | reg r => exact .inl ⟨h, .inl (by rw [hw]; decide)⟩
      | _ => exact h.elim
  | addImm x byte =>
      obtain ⟨-, ⟨⟩⟩ := (Instruction.decode_eq_iff_of_family rfl).mp hi
      have hw : w.top.val = 0x7 := htop
      cases p with
      | reg r => exact .inl ⟨h, .inl (by rw [hw]; decide)⟩
      | _ => exact h.elim
  | random x byte =>
      obtain ⟨-, ⟨⟩⟩ := (Instruction.decode_eq_iff_of_family rfl).mp hi
      have hw : w.top.val = 0xC := htop
      cases p with
      | reg r => exact .inl ⟨h, .inl (by rw [hw]; decide)⟩
      | random => exact htop
      | _ => exact h.elim
  | arith op x y =>
      obtain ⟨-, hop, rfl, rfl⟩ := (Instruction.decode_eq_arith_iff w op x y).mp hi
      obtain ⟨hn, hflag⟩ := Arithmetic.mem_of_ofNibble? hop
      cases p with
      | reg r =>
          rcases h with hx | ⟨hsets, hr⟩
          · exact .inl ⟨hx, .inr (.inl ⟨htop, hn⟩)⟩
          · exact .inr (.inr ⟨hr, .inl ⟨htop, hflag hsets⟩⟩)
      | _ => exact h.elim
  | loadIndex target =>
      cases p with
      | index => exact .inl htop
      | _ => exact h.elim
  | draw x y height =>
      cases p with
      | display => exact .inr htop
      | reg r => exact .inr (.inr ⟨h, .inr (.inr htop)⟩)
      | _ => exact h.elim
  | readDelay x | waitKey x =>
      obtain ⟨-, hkk, rfl⟩ := (Instruction.decode_eq_iff_of_misc rfl w).mp hi
      cases p with
      | reg r => exact .inl ⟨h, .inr (.inr ⟨htop, by rw [hkk]; decide⟩)⟩
      | _ => exact h.elim
  | setDelay x =>
      obtain ⟨-, hkk, rfl⟩ := (Instruction.decode_eq_iff_of_misc rfl w).mp hi
      cases p with
      | delay => exact ⟨htop, hkk⟩
      | _ => exact h.elim
  | setSound x =>
      obtain ⟨-, hkk, rfl⟩ := (Instruction.decode_eq_iff_of_misc rfl w).mp hi
      cases p with
      | sound => exact ⟨htop, hkk⟩
      | _ => exact h.elim
  | addIndex x =>
      obtain ⟨-, hkk, rfl⟩ := (Instruction.decode_eq_iff_of_misc rfl w).mp hi
      cases p with
      | index => exact .inr ⟨htop, by rw [hkk]; decide⟩
      | reg r => exact .inr (.inr ⟨h, .inr (.inl ⟨htop, hkk⟩)⟩)
      | _ => exact h.elim
  | loadGlyph x =>
      obtain ⟨-, hkk, rfl⟩ := (Instruction.decode_eq_iff_of_misc rfl w).mp hi
      cases p with
      | index => exact .inr ⟨htop, by rw [hkk]; decide⟩
      | _ => exact h.elim
  | storeDecimal x =>
      obtain ⟨-, hkk, rfl⟩ := (Instruction.decode_eq_iff_of_misc rfl w).mp hi
      cases p with
      | cell a => exact ⟨htop, .inl ⟨hkk, h⟩⟩
      | _ => exact h.elim
  | storeRegisters x =>
      obtain ⟨-, hkk, rfl⟩ := (Instruction.decode_eq_iff_of_misc rfl w).mp hi
      cases p with
      | cell a => exact ⟨htop, .inr ⟨hkk, h⟩⟩
      | index => exact .inr ⟨htop, by rw [hkk]; decide⟩
      | _ => exact h.elim
  | loadRegisters x =>
      obtain ⟨-, hkk, rfl⟩ := (Instruction.decode_eq_iff_of_misc rfl w).mp hi
      cases p with
      | reg r => exact .inr (.inl ⟨h, htop, hkk⟩)
      | index => exact .inr ⟨htop, by rw [hkk]; decide⟩
      | _ => exact h.elim
  | jump _ | skip _ | jumpOffset _ | unknown _ => cases p <;> exact h.elim

/-- A skip whose condition holds. -/
inductive Skips (w : Word) (m : Machine) : Prop where
  | eqImm (hw : w.top.val = 0x3) (h : m.v[w.x] = w.kk)
  | neImm (hw : w.top.val = 0x4) (h : m.v[w.x] ≠ w.kk)
  | eqReg (hw : w.top.val = 0x5) (h : m.v[w.x] = m.v[w.y])
  | neReg (hw : w.top.val = 0x9) (h : m.v[w.x] ≠ m.v[w.y])
  | keyHeld (hw : w.top.val = 0xE ∧ w.kk = 0x9E)
      (h : m.keypad.isHeld (Key.ofByte m.v[w.x]) = true)
  | keyFree (hw : w.top.val = 0xE ∧ w.kk = 0xA1)
      (h : m.keypad.isHeld (Key.ofByte m.v[w.x]) = false)

/-- A wait that finds no key held. -/
def Stalls (w : Word) (m : Machine) : Prop :=
  w.top.val = 0xF ∧ w.kk = 0x0A ∧ ∀ key, m.keypad.isHeld key = false

/-- A jump, a call or a return. -/
def Jumps (w : Word) : Prop := w.top.val ∈ [0x1, 0x2, 0xB] ∨ w = 0x00EE

theorem skips_iff (w : Word) (m : Machine) :
    w.Skips m ↔ ∃ c, Instruction.decode w = .skip c ∧ c.holds m.v m.keypad = true := by
  constructor
  · intro h
    cases h with
    | eqImm hw h =>
        refine ⟨.eqImm w.x w.kk, ?_, beq_iff_eq.mpr h⟩
        exact (Instruction.decode_eq_iff_of_family rfl).mpr ⟨Fin.ext hw, rfl⟩
    | neImm hw h =>
        refine ⟨.neImm w.x w.kk, ?_, bne_iff_ne.mpr h⟩
        exact (Instruction.decode_eq_iff_of_family rfl).mpr ⟨Fin.ext hw, rfl⟩
    | eqReg hw h =>
        refine ⟨.eqReg w.x w.y, ?_, beq_iff_eq.mpr h⟩
        exact (Instruction.decode_eq_iff_of_family rfl).mpr ⟨Fin.ext hw, rfl⟩
    | neReg hw h =>
        refine ⟨.neReg w.x w.y, ?_, bne_iff_ne.mpr h⟩
        exact (Instruction.decode_eq_iff_of_family rfl).mpr ⟨Fin.ext hw, rfl⟩
    | keyHeld hw h =>
        have hi := (Instruction.decode_eq_keyHeld_iff w w.x).mpr ⟨Fin.ext hw.1, hw.2, rfl⟩
        exact ⟨.keyHeld w.x, hi, h⟩
    | keyFree hw h =>
        have hi := (Instruction.decode_eq_keyFree_iff w w.x).mpr ⟨Fin.ext hw.1, hw.2, rfl⟩
        exact ⟨.keyFree w.x, hi, (Bool.not_eq_true' _).mpr h⟩
  · rintro ⟨c, hi, hc⟩
    have htop : w.top.val = (Instruction.skip c).family.nibble.val :=
      congrArg Fin.val (Instruction.top_of_decode hi)
    cases c with
    | eqImm x byte =>
        obtain ⟨-, ⟨⟩⟩ := (Instruction.decode_eq_iff_of_family rfl).mp hi
        exact .eqImm htop (beq_iff_eq.mp hc)
    | neImm x byte =>
        obtain ⟨-, ⟨⟩⟩ := (Instruction.decode_eq_iff_of_family rfl).mp hi
        exact .neImm htop (bne_iff_ne.mp hc)
    | eqReg x y =>
        obtain ⟨-, ⟨⟩⟩ := (Instruction.decode_eq_iff_of_family rfl).mp hi
        exact .eqReg htop (beq_iff_eq.mp hc)
    | neReg x y =>
        obtain ⟨-, ⟨⟩⟩ := (Instruction.decode_eq_iff_of_family rfl).mp hi
        exact .neReg htop (bne_iff_ne.mp hc)
    | keyHeld x =>
        obtain ⟨-, hkk, rfl⟩ := (Instruction.decode_eq_keyHeld_iff w x).mp hi
        exact .keyHeld ⟨htop, hkk⟩ hc
    | keyFree x =>
        obtain ⟨-, hkk, rfl⟩ := (Instruction.decode_eq_keyFree_iff w x).mp hi
        exact .keyFree ⟨htop, hkk⟩ ((Bool.not_eq_true' _).mp hc)

theorem stalls_iff (w : Word) (m : Machine) :
    w.Stalls m ↔ ∃ x, Instruction.decode w = .waitKey x ∧ m.keypad.lowest? = none := by
  rw [Stalls, ← Keypad.lowest?_eq_none_iff]
  constructor
  · rintro ⟨hw, hkk, hfree⟩
    exact ⟨w.x, (Instruction.decode_eq_waitKey_iff _ _).mpr ⟨Fin.ext hw, hkk, rfl⟩, hfree⟩
  · rintro ⟨x, hi, hfree⟩
    obtain ⟨hw, hkk, -⟩ := (Instruction.decode_eq_waitKey_iff _ _).mp hi
    exact ⟨congrArg Fin.val hw, hkk, hfree⟩

theorem jumps_of_decode {i : Instruction} (hi : Instruction.decode w = i)
    (h : i.family = .jump ∨ i.family = .call ∨ i.family = .jumpOffset) : w.Jumps := by
  left
  rw [Instruction.top_of_decode hi]
  rcases h with hf | hf | hf <;>
  · rw [hf]
    decide

end Word

namespace Machine

variable {m n : Machine} {w : Word} {outcome : Outcome}

/-- The program counter behind a word that is no jump, no call and no return. -/
theorem pc_executed (h : ¬ m.word.Jumps) :
    (m.word.Skips m → m.executed.pc = m.pc + 4) ∧ (m.word.Stalls m → m.executed.pc = m.pc) ∧
      (¬ m.word.Skips m → ¬ m.word.Stalls m → m.executed.pc = m.pc + 2) := by
  rw [Word.skips_iff, Word.stalls_iff, executed, instruction]
  cases hi : Instruction.decode m.word with
  | skip c =>
      have hpc : ((Instruction.skip c).effect m.fetched).pc =
          if c.holds m.v m.keypad then m.pc + 2 + 2 else m.pc + 2 := rfl
      refine ⟨?_, ?_, ?_⟩
      · rintro ⟨d, hd, hholds⟩
        obtain rfl := Instruction.skip.inj hd
        rw [hpc, if_pos hholds, UInt16.add_assoc]
        rfl
      · rintro ⟨x, hx, -⟩
        contradiction
      · intro hskips _
        rw [hpc, if_neg fun hholds => hskips ⟨c, rfl, hholds⟩]
  | waitKey x =>
      have hpc : ((Instruction.waitKey x).effect m.fetched).pc =
          if m.keypad.lowest?.isSome then m.pc + 2 else m.pc + 2 - 2 := rfl
      refine ⟨?_, ?_, ?_⟩
      · rintro ⟨c, hc, -⟩
        contradiction
      · rintro ⟨_, -, hfree⟩
        rw [hpc, hfree]
        exact UInt16.add_sub_cancel _ _
      · intro _ hstalls
        have hheld : m.keypad.lowest?.isSome = true :=
          Option.isSome_iff_ne_none.mpr fun hfree => hstalls ⟨x, rfl, hfree⟩
        rw [hpc, if_pos hheld]
  | ret => exact absurd (.inr ((Instruction.decode_eq_ret_iff _).mp hi)) h
  | jump target => exact absurd (Word.jumps_of_decode hi (.inl rfl)) h
  | call target => exact absurd (Word.jumps_of_decode hi (.inr (.inl rfl))) h
  | jumpOffset base => exact absurd (Word.jumps_of_decode hi (.inr (.inr rfl))) h
  | _ =>
      refine ⟨?_, ?_, fun _ _ => rfl⟩
      · rintro ⟨c, hc, -⟩
        contradiction
      · rintro ⟨x, hx, -⟩
        contradiction

theorem waiting_executed_iff (m : Machine) :
    m.executed.waiting = true ↔ m.word.Stalls m := by
  rw [Word.stalls_iff, executed, instruction]
  cases Instruction.decode m.word with
  | waitKey x => simp [Instruction.effect, fetched]
  | _ => simp [Instruction.effect, fetched]

theorem nextOutcome_eq_waitingForKey_iff (m : Machine) :
    m.nextOutcome = .waitingForKey ↔ m.word.Stalls m := by
  rw [nextOutcome, ← waiting_executed_iff]
  split <;> simp [*]

theorem sameAt_stepped {p : Place} (h : ¬ m.word.Names m p) : SameAt p m m.stepped := by
  have hwrites : ¬ m.instruction.Writes m.fetched p := fun hw => h (Word.names_of_writes hw)
  have hsame := Instruction.sameAt_effect hwrites
  cases p <;> exact hsame

theorem stepped_of_unmatched (h : m.word.unmatched = true) :
    m.stepped = { m with
      pc := m.pc + 2
      waiting := false
      statistics := m.statistics.recordIgnored.record (.ofWord m.word) } := by
  have hi : m.instruction = .unknown m.word :=
    (Instruction.decode_eq_unknown_iff _ _).mpr ⟨h, rfl⟩
  rw [stepped, nextStatistics, executed, hi]
  rfl

theorem step_eq_ok_iff (hrun : m.running = true) :
    m.step = (.ok outcome, n) ↔
      m.stepFault? = none ∧ outcome = m.nextOutcome ∧ n = m.stepped := by
  cases hfault : m.stepFault? with
  | some fault => simp [step_of_fault hrun hfault]
  | none =>
      rw [step_of_no_fault hrun hfault]
      simp [eq_comm]

/-- A step that is carried out changes nothing but what its word names, apart from
the counters and the mark that it waits for a key. -/
theorem step_changes_only_named (hrun : m.loaded = true ∧ m.paused = false)
    (hword : m.nextWord = .ok w) (hstep : m.step = (.ok outcome, n)) :
    (∀ p, ¬ SameAt p m n → w.Names m p) ∧
    (¬ w.Jumps →
      (w.Skips m → n.pc = m.pc + 4) ∧ (w.Stalls m → n.pc = m.pc) ∧
        (¬ w.Skips m → ¬ w.Stalls m → n.pc = m.pc + 2)) ∧
    (outcome = .waitingForKey ↔ w.Stalls m) ∧
    (w.unmatched = true →
      n = { m with pc := m.pc + 2, waiting := false, statistics := n.statistics } ∧
      (m.Reachable → m.waiting = false) ∧
      n.statistics.ignored = m.statistics.ignored + 1 ∧
      n.statistics.keyWaits = m.statistics.keyWaits ∧
      ∀ f : Family, n.statistics.count f =
        m.statistics.count f + if f.nibble = w.top then 1 else 0) := by
  have hrunning : m.running = true := m.running_iff.mpr hrun
  obtain ⟨hspan, rfl⟩ := (m.nextWord_eq_ok_iff w).mp hword
  obtain ⟨hfault, rfl, rfl⟩ := (step_eq_ok_iff hrunning).mp hstep
  refine ⟨?_, pc_executed, m.nextOutcome_eq_waitingForKey_iff, ?_⟩
  · intro p hp
    exact Classical.byContradiction fun hnames => hp (sameAt_stepped hnames)
  · intro hunmatched
    rw [stepped_of_unmatched hunmatched]
    refine ⟨rfl, ?_, rfl, rfl, ?_⟩
    · intro hm
      cases hwaiting : m.waiting with
      | false => rfl
      | true =>
          obtain ⟨-, -, x, hx⟩ := hm.waitsAtWait hwaiting
          rw [Instruction.unmatched_of_waitKey hx] at hunmatched
          contradiction
    · intro f
      have hfamily : Family.ofWord m.word = f ↔ f.nibble = m.word.top :=
        (Family.ofWord_eq_iff _ _).trans eq_comm
      rw [Statistics.count_record]
      simp only [hfamily]
      split
      · rename_i hf
        rw [hfamily.mpr hf]
        rfl
      · rfl

/-- A store of two registers at the last cell changes that cell, the first one and
the index. -/
theorem step_changes_only_named_last_cell :
    let m : Machine :=
      { Machine.starting #[0xF1, 0x55] { config := {}, random := .ofSeed 0 } with index := 0xFFF }
    ∃ n, m.step = (.ok .executed, n) ∧ n.pc = m.pc + 2 ∧ n.v = m.v ∧
      ∀ a : Address, a ≠ 0 → a ≠ 0xFFF → n.memory[a] = m.memory[a] := by
  intro m
  have hmemory : m.memory = (Machine.starting #[0xF1, 0x55]
      { config := {}, random := .ofSeed 0 }).memory := rfl
  have hword : m.word = 0xF155 :=
    (word_of_image (k := 0) (by decide) rfl rfl hmemory rfl).trans (by decide)
  have hstore : m.instruction = .storeRegisters 1 := by
    rw [instruction, hword]
    decide
  have hfault : m.stepFault? = none := stepFault?_of_loose ⟨rfl, rfl, rfl⟩
  have hnext : m.nextWord = .ok 0xF155 := by rw [nextWord_of_no_fault hfault, hword]
  have hstep : m.step = (.ok .executed, m.stepped) := by
    rw [step_of_no_fault rfl hfault, nextOutcome, executed, hstore]
    rfl
  obtain ⟨hsame, hpc, -⟩ := step_changes_only_named ⟨rfl, rfl⟩ hnext hstep
  have hjumps : ¬ Word.Jumps 0xF155 := by
    rintro (h | h) <;> exact absurd h (by decide)
  have hskips : ¬ Word.Skips 0xF155 m := by
    rintro (⟨hw, -⟩ | ⟨hw, -⟩ | ⟨hw, -⟩ | ⟨hw, -⟩ | ⟨⟨hw, -⟩, -⟩ | ⟨⟨hw, -⟩, -⟩) <;>
      exact absurd hw (by decide)
  have hstalls : ¬ Word.Stalls 0xF155 m := fun h => absurd h.2.1 (by decide)
  refine ⟨m.stepped, hstep, (hpc hjumps).2.2 hskips hstalls, ?_, ?_⟩
  · apply Registers.ext
    intro r
    refine Classical.byContradiction fun hdiffers => ?_
    rcases hsame (.reg r) hdiffers with ⟨-, h | h | h⟩ | ⟨-, h⟩ | ⟨-, h | h | h⟩ <;>
      exact absurd h (by decide)
  · intro a hfirst hlast
    refine Classical.byContradiction fun hdiffers => ?_
    rcases hsame (.cell a) hdiffers with ⟨-, ⟨h, -⟩ | ⟨-, j, hj, ha⟩⟩
    · exact absurd h (by decide)
    · have hx : (Word.x 0xF155).val = 1 := by decide
      have hindex : m.index.toNat = 0xFFF := rfl
      rw [hx] at hj
      rw [hindex] at ha
      rcases Nat.le_one_iff_eq_zero_or_eq_one.mp hj with rfl | rfl
      · exact hlast (Fin.ext ha)
      · exact hfirst (Fin.ext ha)

end Machine

end Chip8
