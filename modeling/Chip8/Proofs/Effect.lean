import Chip8.Machine.Execute
import Chip8.Proofs.Span

namespace Chip8

namespace CallStack

def pushFault? (s : CallStack) : Option Fault :=
  if s.strict ∧ depth ≤ s.sp.toNat then some (.stackOverflow s.sp) else none

def popFault? (s : CallStack) : Option Fault :=
  if s.strict ∧ (s.sp = 0 ∨ depth < s.sp.toNat) then some .stackUnderflow else none

def pushed (value : UInt16) (s : CallStack) : CallStack :=
  { s.put (slot s.sp) value with sp := s.sp + 1 }

def top (s : CallStack) : UInt16 := s[slot (s.sp - 1)]

/-- The stack with the last call closed. Its return address stays in its slot. -/
def popped (s : CallStack) : CallStack := { s with sp := s.sp - 1 }

theorem getElem_put (k l : Slot) (value : UInt16) (s : CallStack) :
    (s.put k value)[l] = if k = l then value else s[l] := by
  change (s.entries.set k value)[l.val] = if k = l then value else s.entries[l.val]
  rw [Vector.getElem_set]
  simp only [Fin.ext_iff]

theorem run_push (value : UInt16) (s : CallStack) :
    (push value).run s = Fault.settle s.pushFault? s () (s.pushed value) := by
  simp only [push, pushFault?, EStateM.run_bind, EStateM.run_get]
  split <;> rfl

theorem run_pop (s : CallStack) :
    pop.run s = Fault.settle s.popFault? s s.top s.popped := by
  simp only [pop, popFault?, EStateM.run_bind, EStateM.run_get]
  split <;> rfl

end CallStack

namespace Framebuffer

/-- The fault of a sprite with a set bit past the last pixel. -/
def drawFault? (strict : Bool) (targets : List Nat) : Option Fault :=
  if strict then (targets.find? (size ≤ ·)).map .pixelOutOfRange else none

/-- Whether flipping pixels one after the other meets a lit one. -/
def hits (targets : List Nat) (fb : Framebuffer) : Bool := (flipAll targets false fb.pixels).1

def flipped (targets : List Nat) (fb : Framebuffer) : Framebuffer :=
  { pixels := (flipAll targets false fb.pixels).2, dirty := true }

theorem run_draw (strict : Bool) (mode : SpriteMode) (x y : UInt8) (rows : List UInt8)
    (fb : Framebuffer) :
    (draw strict mode x y rows).run fb =
      Fault.settle (drawFault? strict (targets mode x y rows)) fb
        (fb.hits (targets mode x y rows)) (fb.flipped (targets mode x y rows)) := by
  cases strict with
  | false => rfl
  | true =>
      simp only [draw, drawFault?, if_true]
      cases (targets mode x y rows).find? (size ≤ ·) <;> rfl

end Framebuffer

namespace Registers

def load (registers : List Reg) (bytes : List UInt8) (v : Registers) : Registers :=
  match registers, bytes with
  | x :: registers, byte :: bytes => load registers bytes (v.set x byte)
  | _, _ => v

/-- Put a key into a register, if there is one. -/
def take (x : Reg) (key? : Option Key) (v : Registers) : Registers :=
  match key? with
  | some key => v.set x (UInt8.ofNat key.val)
  | none => v

@[simp] theorem length_upTo (x : Reg) : (upTo x).length = x.val + 1 := by
  have := x.isLt
  simp only [upTo, List.length_take, List.length_finRange]
  omega

end Registers

namespace Machine

variable {α : Type}

/-- The pixels under the set bits of the sprite at the index register. -/
def spriteTargets (x y : Reg) (height : Fin 16) (m : Machine) : List Nat :=
  Framebuffer.targets m.config.sprite m.v[x] m.v[y] (m.memory.bytesAt m.index height.val)

theorem run_onMemory (act : Action Memory α) (m : Machine) (fault? : Option Fault) (a : α)
    (after : Memory) (h : act.run m.memory = Fault.settle fault? m.memory a after) :
    (onMemory act).run m = Fault.settle fault? m a { m with memory := after } :=
  Action.run_on h rfl

theorem run_onStack (act : Action CallStack α) (m : Machine) (fault? : Option Fault) (a : α)
    (after : CallStack) (h : act.run m.stack = Fault.settle fault? m.stack a after) :
    (onStack act).run m = Fault.settle fault? m a { m with stack := after } :=
  Action.run_on h rfl

theorem run_onDisplay (act : Action Framebuffer α) (m : Machine) (fault? : Option Fault) (a : α)
    (after : Framebuffer) (h : act.run m.display = Fault.settle fault? m.display a after) :
    (onDisplay act).run m = Fault.settle fault? m a { m with display := after } :=
  Action.run_on h rfl

end Machine

namespace Instruction

open Machine

/-- The fault with which a machine refuses an instruction. -/
def fault? (i : Instruction) (m : Machine) : Option Fault :=
  match i with
  | call _ => m.stack.pushFault?
  | ret => m.stack.popFault?
  | draw x y height =>
      (Memory.spanFault? m.memory.strict m.index height.val).or
        (Framebuffer.drawFault? m.config.strict (m.spriteTargets x y height))
  | storeDecimal _ => Memory.spanFault? m.memory.strict m.index 3
  | storeRegisters x => Memory.spanFault? m.memory.strict m.index (x.val + 1)
  | loadRegisters x => Memory.spanFault? m.memory.strict m.index (x.val + 1)
  | unknown w => if m.config.strict then some (.unknownInstruction w) else none
  | clearScreen | jump _ | skip _ | loadImm _ _ | addImm _ _ | arith _ _ _ | loadIndex _
  | jumpOffset _ | random _ _ | readDelay _ | waitKey _ | setDelay _ | setSound _
  | addIndex _ | loadGlyph _ => none

/-- The machine after an instruction that it does not refuse. -/
def effect (i : Instruction) (m : Machine) : Machine :=
  match i with
  | clearScreen => { m with display := .clear }
  | ret => { m with stack := m.stack.popped, pc := m.stack.top }
  | jump target => { m with pc := target.toWord }
  | call target => { m with stack := m.stack.pushed m.pc, pc := target.toWord }
  | skip condition =>
      { m with pc := if condition.holds m.v m.keypad then m.pc + 2 else m.pc }
  | loadImm x byte => { m with v := m.v.set x byte }
  | addImm x byte => { m with v := m.v.set x (m.v[x] + byte) }
  | arith op x y => { m with v := op.apply m.config.shift x y m.v }
  | loadIndex target => { m with index := target.toWord }
  | jumpOffset base => { m with pc := base.toWord + m.v[Reg.first].toUInt16 }
  | random x mask =>
      { m with v := m.v.set x (m.random.next &&& mask), random := m.random.advance }
  | draw x y height =>
      { m with
        display := m.display.flipped (m.spriteTargets x y height)
        v := m.v.setFlag (m.display.hits (m.spriteTargets x y height)) }
  | readDelay x => { m with v := m.v.set x m.timers.delay }
  | waitKey x =>
      { m with
        v := m.v.take x m.keypad.lowest?
        pc := if m.keypad.lowest?.isSome then m.pc else m.pc - 2
        waiting := m.waiting || m.keypad.lowest?.isNone }
  | setDelay x => { m with timers := { m.timers with delay := m.v[x] } }
  | setSound x => { m with timers := { m.timers with sound := m.v[x] } }
  | addIndex x =>
      let v := m.v.setFlag (0xFFF < m.index.toNat + m.v[x].toNat)
      { m with v, index := m.index + v[x].toUInt16 }
  | loadGlyph x => { m with index := m.v[x].toUInt16 * Font.glyphHeight }
  | storeDecimal x => { m with memory := m.memory.store m.index (decimalDigits m.v[x]) }
  | storeRegisters x =>
      { m with
        memory := m.memory.store m.index ((Registers.upTo x).map (m.v[·]))
        index := m.index + UInt16.ofNat (x.val + 1) }
  | loadRegisters x =>
      { m with
        v := m.v.load (Registers.upTo x) (m.memory.bytesAt m.index (x.val + 1))
        index := m.index + UInt16.ofNat (x.val + 1) }
  | unknown _ => { m with statistics := m.statistics.recordIgnored }

/-- Whether an instruction is refused depends on nothing but the checks, the
stack, and the addresses and pixels that it is about. -/
theorem fault?_congr {i : Instruction} {m n : Machine}
    (hstrict : n.config.strict = m.config.strict)
    (hmemory : n.memory.strict = m.memory.strict) (hstack : n.stack = m.stack)
    (hindex : n.index = m.index)
    (hdraw : ∀ x y height, i = draw x y height →
      Memory.spanFault? m.memory.strict m.index height.val = none →
      n.spriteTargets x y height = m.spriteTargets x y height) : i.fault? n = i.fault? m := by
  cases i with
  | draw x y height =>
      rw [fault?, fault?, hstrict, hmemory, hindex]
      cases hspan : Memory.spanFault? m.memory.strict m.index height.val with
      | some fault => simp only [Option.some_or]
      | none => rw [hdraw x y height rfl hspan]
  | _ => simp only [fault?, hstrict, hmemory, hstack, hindex]

end Instruction

namespace Machine

open Memory Registers

theorem run_writeBytes (address : UInt16) (bytes : List UInt8) (m : Machine)
    (h : spanFault? m.memory.strict address bytes.length = none) :
    (writeBytes address bytes).run m =
      .ok () { m with memory := m.memory.store address bytes } := by
  induction bytes generalizing address m with
  | nil => rfl
  | cons byte rest ih =>
      rw [List.length_cons, spanFault?, Option.or_eq_none_iff] at h
      have hwrite := run_onMemory _ m _ _ _ (run_write address byte m.memory)
      rw [h.1] at hwrite
      simp only [writeBytes, EStateM.run_bind, hwrite, Fault.settle]
      exact ih (address + 1) { m with memory := m.memory.put address byte } h.2

theorem index_add_succ (index : UInt16) (n : Nat) :
    index + 1 + UInt16.ofNat n = index + UInt16.ofNat (n + 1) := by
  apply UInt16.toNat_inj.mp
  simp only [UInt16.toNat_add, UInt16.toNat_ofNat']
  have : (1 : UInt16).toNat = 1 := rfl
  omega

/-- Registers that fit in an accepted span are all stored. -/
theorem run_storeEach (registers : List Reg) (m : Machine)
    (h : spanFault? m.memory.strict m.index registers.length = none) :
    (storeEach registers).run m =
      .ok () { m with
        memory := m.memory.store m.index (registers.map (m.v[·]))
        index := m.index + UInt16.ofNat registers.length } := by
  induction registers generalizing m with
  | nil =>
      have : m.index + UInt16.ofNat 0 = m.index := by simp
      simp only [List.length_nil, List.map_nil, this]
      rfl
  | cons x rest ih =>
      rw [List.length_cons, spanFault?, Option.or_eq_none_iff] at h
      have hwrite := run_onMemory _ m _ _ _ (run_write m.index m.v[x] m.memory)
      rw [h.1] at hwrite
      simp only [storeEach, moveIndex, EStateM.run_bind, EStateM.run_get, hwrite, Fault.settle,
        EStateM.run_modify]
      rw [ih _ h.2]
      simp only [index_add_succ, List.length_cons, List.map_cons, store]

theorem run_loadEach (registers : List Reg) (m : Machine)
    (h : spanFault? m.memory.strict m.index registers.length = none) :
    (loadEach registers).run m =
      .ok () { m with
        v := m.v.load registers (m.memory.bytesAt m.index registers.length)
        index := m.index + UInt16.ofNat registers.length } := by
  induction registers generalizing m with
  | nil =>
      have : m.index + UInt16.ofNat 0 = m.index := by simp
      simp only [List.length_nil, this]
      rfl
  | cons x rest ih =>
      rw [List.length_cons, spanFault?, Option.or_eq_none_iff] at h
      simp only [loadEach, moveIndex, setReg, EStateM.run_bind, EStateM.run_get,
        read_eq_guard, h.1, Action.run_ofExcept_guard, Fault.settle, EStateM.run_modify]
      rw [ih _ h.2]
      simp only [index_add_succ, List.length_cons, bytesAt, Registers.load]

theorem run_draw (x y : Reg) (height : Fin 16) (m : Machine) :
    (draw x y height).run m = Fault.settle ((Instruction.draw x y height).fault? m) m ()
      ((Instruction.draw x y height).effect m) := by
  have hdraw := run_onDisplay _ m _ _ _ (Framebuffer.run_draw m.config.strict m.config.sprite
    m.v[x] m.v[y] (m.memory.bytesAt m.index height.val) m.display)
  simp only [draw, EStateM.run_bind, EStateM.run_get, readBytes_eq_guard,
    Action.run_ofExcept_guard, Instruction.fault?, Instruction.effect]
  cases spanFault? m.memory.strict m.index height.val with
  | some fault => simp only [Fault.settle, Option.some_or]
  | none =>
      simp only [Fault.settle, hdraw, Option.none_or, spriteTargets]
      cases Framebuffer.drawFault? m.config.strict (Framebuffer.targets m.config.sprite
        m.v[x] m.v[y] (m.memory.bytesAt m.index height.val)) with
      | some fault => simp only
      | none => simp only [EStateM.run_modify]

/-- An instruction is refused before it changes anything, or it is carried out
to its end. -/
theorem run_execute (i : Instruction) (m : Machine) :
    (execute i).run m = Fault.settle (i.fault? m) m () (i.effect m) := by
  cases i with
  | draw x y height => exact run_draw x y height m
  | call target =>
      have hpush := run_onStack _ m _ _ _ (CallStack.run_push m.pc m.stack)
      simp only [execute, call, jump, EStateM.run_bind, EStateM.run_get, hpush,
        Instruction.fault?]
      cases m.stack.pushFault? <;>
        simp only [Fault.settle, EStateM.run_modify, Instruction.effect]
  | ret =>
      have hpop := run_onStack _ m _ _ _ (CallStack.run_pop m.stack)
      simp only [execute, ret, jump, EStateM.run_bind, hpop, Instruction.fault?]
      cases m.stack.popFault? <;>
        simp only [Fault.settle, EStateM.run_modify, Instruction.effect]
  | waitKey x =>
      simp only [execute, waitKey, EStateM.run_bind, EStateM.run_get, Instruction.fault?,
        Instruction.effect, Fault.settle]
      cases m.keypad.lowest? with
      | some key =>
          simp only [Option.isNone_some, Bool.or_false]
          rfl
      | none =>
          simp only [Option.isNone_none, Bool.or_true]
          rfl
  | storeDecimal x =>
      simp only [execute, storeDecimal, EStateM.run_bind, EStateM.run_get, checkSpan_eq_guard,
        Action.run_ofExcept_guard, Instruction.fault?]
      cases h : spanFault? m.memory.strict m.index 3 with
      | some fault => simp only [Fault.settle]
      | none =>
          simp only [Fault.settle]
          exact run_writeBytes m.index (decimalDigits m.v[x]) m h
  | storeRegisters x =>
      simp only [execute, storeRegisters, EStateM.run_bind, EStateM.run_get, checkSpan_eq_guard,
        Action.run_ofExcept_guard, Instruction.fault?]
      cases h : spanFault? m.memory.strict m.index (x.val + 1) with
      | some fault => simp only [Fault.settle]
      | none =>
          rw [← length_upTo x] at h
          simp only [Fault.settle, run_storeEach (upTo x) m h, length_upTo, Instruction.effect]
  | loadRegisters x =>
      simp only [execute, loadRegisters, EStateM.run_bind, EStateM.run_get, checkSpan_eq_guard,
        Action.run_ofExcept_guard, Instruction.fault?]
      cases h : spanFault? m.memory.strict m.index (x.val + 1) with
      | some fault => simp only [Fault.settle]
      | none =>
          rw [← length_upTo x] at h
          simp only [Fault.settle, run_loadEach (upTo x) m h, length_upTo, Instruction.effect]
  | unknown w =>
      simp only [execute, ignore, EStateM.run_bind, EStateM.run_get, Instruction.fault?,
        Instruction.effect]
      cases m.config.strict <;> rfl
  | skip condition =>
      simp only [execute, EStateM.run_modify, Instruction.fault?, Fault.settle,
        Instruction.effect]
      cases condition.holds m.v m.keypad <;> rfl
  | _ =>
      simp only [Instruction.fault?, Fault.settle]
      rfl

end Machine

theorem Memory.getElem?_bytesAt (address : UInt16) (length : Nat) (m : Memory) (k : Nat) :
    (m.bytesAt address length)[k]? =
      if k < length then some m[Address.ofWord (address + UInt16.ofNat k)] else none := by
  induction length generalizing address k with
  | zero => rfl
  | succ length ih =>
      cases k with
      | zero =>
          have hfirst : address + UInt16.ofNat 0 = address := by simp
          rw [bytesAt, List.getElem?_cons_zero, hfirst, if_pos (Nat.succ_pos length)]
      | succ k =>
          rw [bytesAt, List.getElem?_cons_succ, ih, Machine.index_add_succ]
          simp only [Nat.succ_lt_succ_iff]

end Chip8
