import Chip8.Machine.State

namespace Chip8

def Condition.holds (c : Condition) (v : Registers) (keypad : Keypad) : Bool :=
  match c with
  | eqImm x byte => v[x] == byte
  | neImm x byte => v[x] != byte
  | eqReg x y => v[x] == v[y]
  | neReg x y => v[x] != v[y]
  | keyHeld x => keypad.isHeld (Key.ofByte v[x])
  | keyFree x => !keypad.isHeld (Key.ofByte v[x])

namespace Machine

variable {α : Type}

def onMemory (act : Action Memory α) : Action Machine α :=
  act.on memory fun memory m => { m with memory }

def onStack (act : Action CallStack α) : Action Machine α :=
  act.on stack fun stack m => { m with stack }

def onDisplay (act : Action Framebuffer α) : Action Machine α :=
  act.on display fun display m => { m with display }

def jump (target : UInt16) : Action Machine Unit :=
  modify fun m => { m with pc := target }

def setReg (x : Reg) (byte : UInt8) : Action Machine Unit :=
  modify fun m => { m with v := m.v.set x byte }

/-- Open a call: keep the program counter and go to the target. -/
def call (target : Address) : Action Machine Unit := do
  let m ← get
  onStack (CallStack.push m.pc)
  jump target.toWord

def ret : Action Machine Unit := do
  let target ← onStack CallStack.pop
  jump target

/-- Draw the sprite at the index register with its corner at the coordinates in
two registers, and set the flag if it hit a lit pixel. -/
def draw (x y : Reg) (height : Fin 16) : Action Machine Unit := do
  let m ← get
  let rows ← Action.ofExcept (m.memory.readBytes m.index height.val)
  let hit ← onDisplay (Framebuffer.draw m.config.strict m.config.sprite m.v[x] m.v[y] rows)
  modify fun m => { m with v := m.v.setFlag hit }

/-- Take the lowest held key. With none held, go back to the same instruction
and wait. -/
def waitKey (x : Reg) : Action Machine Unit := do
  let m ← get
  match m.keypad.lowest? with
  | some key => setReg x (UInt8.ofNat key.val)
  | none => set { m with pc := m.pc - 2, waiting := true }

/-- The decimal digits of a byte, hundreds first. -/
def decimalDigits (b : UInt8) : List UInt8 := [b / 100, b / 10 % 10, b % 10]

def writeBytes (address : UInt16) (bytes : List UInt8) : Action Machine Unit :=
  match bytes with
  | [] => pure ()
  | byte :: rest => do
      onMemory (Memory.write address byte)
      writeBytes (address + 1) rest

def storeDecimal (x : Reg) : Action Machine Unit := do
  let m ← get
  Action.ofExcept (m.memory.checkSpan m.index 3)
  writeBytes m.index (decimalDigits m.v[x])

def moveIndex : Action Machine Unit :=
  modify fun m => { m with index := m.index + 1 }

/-- Store registers at the index register, which moves past each. -/
def storeEach (registers : List Reg) : Action Machine Unit :=
  match registers with
  | [] => pure ()
  | x :: rest => do
      let m ← get
      onMemory (Memory.write m.index m.v[x])
      moveIndex
      storeEach rest

def storeRegisters (x : Reg) : Action Machine Unit := do
  let m ← get
  Action.ofExcept (m.memory.checkSpan m.index (x.val + 1))
  storeEach (Registers.upTo x)

/-- Load registers from the index register, which moves past each. -/
def loadEach (registers : List Reg) : Action Machine Unit :=
  match registers with
  | [] => pure ()
  | x :: rest => do
      let m ← get
      let byte ← Action.ofExcept (m.memory.read m.index)
      setReg x byte
      moveIndex
      loadEach rest

def loadRegisters (x : Reg) : Action Machine Unit := do
  let m ← get
  Action.ofExcept (m.memory.checkSpan m.index (x.val + 1))
  loadEach (Registers.upTo x)

/-- Pass over a word that names no operation, unless the machine is strict. -/
def ignore (w : Word) : Action Machine Unit := do
  let m ← get
  if m.config.strict then throw (.unknownInstruction w)
  else set { m with statistics := m.statistics.recordIgnored }

/-- Carry out an instruction, with the program counter already behind it. -/
def execute (i : Instruction) : Action Machine Unit :=
  match i with
  | .clearScreen => modify fun m => { m with display := .clear }
  | .ret => ret
  | .jump target => jump target.toWord
  | .call target => call target
  | .skip condition => modify fun m =>
      if condition.holds m.v m.keypad then { m with pc := m.pc + 2 } else m
  | .loadImm x byte => setReg x byte
  | .addImm x byte => modify fun m => { m with v := m.v.set x (m.v[x] + byte) }
  | .arith op x y => modify fun m => { m with v := op.apply m.config.shift x y m.v }
  | .loadIndex target => modify fun m => { m with index := target.toWord }
  | .jumpOffset base => modify fun m =>
      { m with pc := base.toWord + m.v[Reg.first].toUInt16 }
  | .random x mask => modify fun m =>
      { m with v := m.v.set x (m.random.next &&& mask), random := m.random.advance }
  | .draw x y height => draw x y height
  | .readDelay x => modify fun m => { m with v := m.v.set x m.timers.delay }
  | .waitKey x => waitKey x
  | .setDelay x => modify fun m => { m with timers := { m.timers with delay := m.v[x] } }
  | .setSound x => modify fun m => { m with timers := { m.timers with sound := m.v[x] } }
  | .addIndex x => modify fun m =>
      let v := m.v.setFlag (0xFFF < m.index.toNat + m.v[x].toNat)
      { m with v, index := m.index + v[x].toUInt16 }
  | .loadGlyph x => modify fun m => { m with index := m.v[x].toUInt16 * Font.glyphHeight }
  | .storeDecimal x => storeDecimal x
  | .storeRegisters x => storeRegisters x
  | .loadRegisters x => loadRegisters x
  | .unknown w => ignore w

end Machine

end Chip8
