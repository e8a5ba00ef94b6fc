import Chip8.Machine.Step

/-!
The step once more, with a check wherever an index or a sum, difference or
product could go wrong. Only what is meant to go round is left unchecked: the
program counter, the index register and the stack pointer, addresses inside a
span, and the arithmetic of the registers.
-/

namespace Chip8.Checked

/-- Why a checked operation has no result. -/
inductive Trap where
  | fault (fault : Fault)
  /-- An index that is not below the length. -/
  | index (i length : Nat)
  /-- A number that its type does not have. -/
  | overflow

section Primitives

variable {α : Type} {length : Nat}

def item (v : Vector α length) (i : Nat) : Except Trap α :=
  if h : i < length then .ok v[i] else .error (.index i length)

def replace (v : Vector α length) (i : Nat) (a : α) : Except Trap (Vector α length) :=
  if h : i < length then .ok (v.set i a) else .error (.index i length)

def slice (v : Vector α length) (count : Nat) : Except Trap (List α) :=
  if count ≤ length then .ok (v.toList.take count) else .error (.index count length)

/-- A sum or a product in a type with `size` values. -/
def fit (size value : Nat) : Except Trap Nat :=
  if value < size then .ok value else .error .overflow

/-- A difference in a type without negative values. -/
def less (a b : Nat) : Except Trap Nat :=
  if b ≤ a then .ok (a - b) else .error .overflow

end Primitives

/-- The fields of an instruction word, in bytes and words that could hold more. -/
structure Fields where
  word : Word
  family : Family
  x : UInt8
  y : UInt8
  n : UInt8
  kk : UInt8
  nnn : UInt16

def Fields.ofWord (w : Word) : Fields where
  word := w
  family := (Family.ofByte? (w >>> 12).toUInt8).getD .sys
  x := ((w >>> 8) &&& 0xF).toUInt8
  y := ((w >>> 4) &&& 0xF).toUInt8
  n := (w &&& 0xF).toUInt8
  kk := (w &&& 0xFF).toUInt8
  nnn := w &&& 0xFFF

section Memory

def resolve (address : UInt16) (m : Memory) : Except Trap Nat :=
  if m.strict ∧ 0xFFF < address.toNat then .error (.fault (.addressOutOfRange address))
  else .ok (address &&& 0xFFF).toNat

def read (address : UInt16) (m : Memory) : Except Trap UInt8 := do
  let i ← resolve address m
  item m.bytes i

def write (address : UInt16) (byte : UInt8) (m : Memory) : Except Trap Memory := do
  let i ← resolve address m
  let bytes ← replace m.bytes i byte
  return { m with bytes }

def readWord (address : UInt16) (m : Memory) : Except Trap Word := do
  let high ← read address m
  let low ← read (address + 1) m
  return (high.toUInt16 <<< 8) ||| low.toUInt16

def checkSpan (address length : UInt16) (m : Memory) : Except Trap Unit :=
  if m.strict = false ∨ length = 0 then .ok ()
  else do
    let stop ← fit UInt32.size (address.toNat + length.toNat)
    let last ← less stop 1
    if 0xFFF < last then
      throw (.fault (.addressOutOfRange (UInt16.ofNat (max address.toNat 0x1000))))

/-- Copy `count` rows of a sprite into a buffer, from the row numbered `row` on. -/
def fillRows (address : UInt16) (m : Memory) (row count : Nat) (rows : Vector UInt8 15) :
    Except Trap (Vector UInt8 15) :=
  match count with
  | 0 => .ok rows
  | count + 1 => do
      let byte ← read (address + UInt16.ofNat row) m
      let rows ← replace rows row byte
      fillRows address m (row + 1) count rows

def readRows (address : UInt16) (height : UInt8) (m : Memory) : Except Trap (List UInt8) := do
  let rows ← fillRows address m 0 (min height.toNat 15) (Vector.replicate 15 0)
  slice rows height.toNat

end Memory

section Sprites

/-- Whether a column of a sprite row is set, by a mask shifted to the column. -/
def bit (row : UInt8) (column : Nat) : Except Trap Bool := do
  let column ← fit 8 column
  return row &&& (0x80 >>> UInt8.ofNat column) != 0

def target (mode : SpriteMode) (x y : UInt8) (down across : Nat) : Except Trap Nat := do
  let px ← fit USize.size (x.toNat + across)
  let py ← fit USize.size (y.toNat + down)
  match mode with
  | .linear =>
      let line ← fit USize.size (py * Framebuffer.width)
      fit USize.size (px + line)
  | .wrap =>
      let line ← fit USize.size (py % Framebuffer.height * Framebuffer.width)
      fit USize.size (px % Framebuffer.width + line)

/-- The pixels under the set bits of a row, from a list of its columns. -/
def rowTargets (mode : SpriteMode) (x y : UInt8) (row : UInt8) (down : Nat) :
    List Nat → Except Trap (List Nat)
  | [] => .ok []
  | across :: rest => do
      if ← bit row across then
        let i ← target mode x y down across
        let later ← rowTargets mode x y row down rest
        return i :: later
      else rowTargets mode x y row down rest

def targets (mode : SpriteMode) (x y : UInt8) : List (UInt8 × Nat) → Except Trap (List Nat)
  | [] => .ok []
  | (row, down) :: rest => do
      let here ← rowTargets mode x y row down (List.range 8)
      let below ← targets mode x y rest
      return here ++ below

def drawSprite (strict : Bool) (mode : SpriteMode) (x y : UInt8) (rows : List UInt8)
    (fb : Framebuffer) : Except Trap (Bool × Framebuffer) := do
  let targets ← targets mode x y rows.zipIdx
  match if strict then targets.find? (Framebuffer.size ≤ ·) else none with
  | some i => throw (.fault (.pixelOutOfRange i))
  | none =>
      let (hit, pixels) := Framebuffer.flipAll targets false fb.pixels
      return (hit, { pixels, dirty := true })

end Sprites

section Registers

def reg (x : UInt8) (v : Registers) : Except Trap UInt8 := item v.values x.toNat

def setReg (x byte : UInt8) (v : Registers) : Except Trap Registers := do
  let values ← replace v.values x.toNat byte
  return ⟨values⟩

def setFlag (flag : Bool) (v : Registers) : Except Trap Registers :=
  setReg 0xF (if flag then 1 else 0) v

/-- The operation of a byte, of which only the values of a nibble have one. -/
def operation? (n : UInt8) : Option Arithmetic :=
  if h : n.toNat < 16 then Arithmetic.ofNibble? ⟨n.toNat, h⟩ else none

def arith (op : Arithmetic) (mode : ShiftMode) (x y : UInt8) (v : Registers) :
    Except Trap Registers :=
  match op with
  | .copy => do setReg x (← reg y v) v
  | .or => do setReg x ((← reg x v) ||| (← reg y v)) v
  | .and => do setReg x ((← reg x v) &&& (← reg y v)) v
  | .xor => do setReg x ((← reg x v) ^^^ (← reg y v)) v
  | .add => do
      let sum ← fit UInt16.size ((← reg x v).toNat + (← reg y v).toNat)
      let v ← setFlag (0xFF < sum) v
      setReg x ((← reg x v) + (← reg y v)) v
  | .sub => do
      let v ← setFlag ((← reg y v) < (← reg x v)) v
      setReg x ((← reg x v) - (← reg y v)) v
  | .shiftRight => do
      let v ← setFlag ((← reg (mode.rightSource x y) v) &&& 1 = 1) v
      setReg x ((← reg (mode.rightSource x y) v) >>> 1) v
  | .subFrom => do
      let v ← setFlag ((← reg x v) < (← reg y v)) v
      setReg x ((← reg y v) - (← reg x v)) v
  | .shiftLeft => do
      let v ← setFlag ((← reg (mode.leftSource x y) v) >>> 7 = 1) v
      setReg x ((← reg (mode.leftSource x y) v) <<< 1) v

end Registers

section Machine

def jumpTo (target : UInt16) (m : Machine) : Machine := { m with pc := target }

def skipIf (condition : Bool) (m : Machine) : Machine :=
  if condition then { m with pc := m.pc + 2 } else m

def isHeld (key : UInt8) (keypad : Keypad) : Except Trap Bool :=
  item keypad.held (key &&& 0xF).toNat

def withReg (x byte : UInt8) (m : Machine) : Except Trap Machine := do
  let v ← setReg x byte m.v
  return { m with v }

def push (value : UInt16) (s : CallStack) : Except Trap CallStack :=
  if s.strict ∧ CallStack.depth ≤ s.sp.toNat then .error (.fault (.stackOverflow s.sp))
  else do
    let entries ← replace s.entries (s.sp.toNat % CallStack.depth) value
    return { s with entries, sp := s.sp + 1 }

def pop (s : CallStack) : Except Trap (UInt16 × CallStack) :=
  if s.strict ∧ (s.sp = 0 ∨ CallStack.depth < s.sp.toNat) then .error (.fault .stackUnderflow)
  else do
    let target ← item s.entries ((s.sp - 1).toNat % CallStack.depth)
    return (target, { s with sp := s.sp - 1 })

def ignore (w : Word) (m : Machine) : Except Trap Machine :=
  if m.config.strict then .error (.fault (.unknownInstruction w))
  else do
    let ignored ← fit UInt64.size (m.statistics.ignored + 1)
    return { m with statistics := { m.statistics with ignored } }

def draw (x y height : UInt8) (m : Machine) : Except Trap Machine := do
  let x ← reg x m.v
  let y ← reg y m.v
  let rows ← readRows m.index height m.memory
  let (hit, display) ← drawSprite m.config.strict m.config.sprite x y rows m.display
  let v ← setFlag hit m.v
  return { m with display, v }

def waitKey (x : UInt8) (m : Machine) : Except Trap Machine :=
  match m.keypad.lowest? with
  | some key => withReg x (UInt8.ofNat key.val) m
  | none => .ok { m with pc := m.pc - 2, waiting := true }

def storeDecimal (x : UInt8) (m : Machine) : Except Trap Machine := do
  let value ← reg x m.v
  checkSpan m.index 3 m.memory
  let memory ← write m.index (value / 100) m.memory
  let memory ← write (m.index + 1) (value / 10 % 10) memory
  let memory ← write (m.index + 2) (value % 10) memory
  return { m with memory }

def storeEach (registers : List Nat) (m : Machine) : Except Trap Machine :=
  match registers with
  | [] => .ok m
  | x :: rest => do
      let value ← reg (UInt8.ofNat x) m.v
      let memory ← write m.index value m.memory
      storeEach rest { m with memory, index := m.index + 1 }

def loadEach (registers : List Nat) (m : Machine) : Except Trap Machine :=
  match registers with
  | [] => .ok m
  | x :: rest => do
      let value ← read m.index m.memory
      let v ← setReg (UInt8.ofNat x) value m.v
      loadEach rest { m with v, index := m.index + 1 }

/-- Check the span of registers 0 to `x`, then go through their numbers. -/
def transfer (each : List Nat → Machine → Except Trap Machine) (x : UInt8) (m : Machine) :
    Except Trap Machine := do
  let length ← fit UInt16.size (x.toNat + 1)
  checkSpan m.index (UInt16.ofNat length) m.memory
  each (List.range (x.toNat + 1)) m

def misc (f : Fields) (m : Machine) : Except Trap Machine :=
  if f.kk = 0x07 then withReg f.x m.timers.delay m
  else if f.kk = 0x0A then waitKey f.x m
  else if f.kk = 0x15 then do
    return { m with timers := { m.timers with delay := ← reg f.x m.v } }
  else if f.kk = 0x18 then do
    return { m with timers := { m.timers with sound := ← reg f.x m.v } }
  else if f.kk = 0x1E then do
    let sum ← fit UInt32.size (m.index.toNat + (← reg f.x m.v).toNat)
    let v ← setFlag (0xFFF < sum) m.v
    return { m with v, index := m.index + (← reg f.x v).toUInt16 }
  else if f.kk = 0x29 then do
    let index ← fit UInt16.size ((← reg f.x m.v).toNat * Font.glyphHeight.toNat)
    return { m with index := UInt16.ofNat index }
  else if f.kk = 0x33 then storeDecimal f.x m
  else if f.kk = 0x55 then transfer storeEach f.x m
  else if f.kk = 0x65 then transfer loadEach f.x m
  else ignore f.word m

def execute (f : Fields) (m : Machine) : Except Trap Machine :=
  match f.family with
  | .sys =>
      if f.nnn = 0x0E0 then .ok { m with display := .clear }
      else if f.nnn = 0x0EE then do
        let (target, stack) ← pop m.stack
        return jumpTo target { m with stack }
      else ignore f.word m
  | .jump => .ok (jumpTo f.nnn m)
  | .call => do
      let stack ← push m.pc m.stack
      return jumpTo f.nnn { m with stack }
  | .skipEqImm => do return skipIf ((← reg f.x m.v) == f.kk) m
  | .skipNeImm => do return skipIf ((← reg f.x m.v) != f.kk) m
  | .skipEqReg => do return skipIf ((← reg f.x m.v) == (← reg f.y m.v)) m
  | .loadImm => withReg f.x f.kk m
  | .addImm => do withReg f.x ((← reg f.x m.v) + f.kk) m
  | .alu =>
      match operation? f.n with
      | some op => do
          let v ← arith op m.config.shift f.x f.y m.v
          return { m with v }
      | none => ignore f.word m
  | .skipNeReg => do return skipIf ((← reg f.x m.v) != (← reg f.y m.v)) m
  | .loadIndex => .ok { m with index := f.nnn }
  | .jumpOffset => do
      let target ← fit UInt16.size (f.nnn.toNat + (← reg 0 m.v).toNat)
      return jumpTo (UInt16.ofNat target) m
  | .random => do
      withReg f.x (m.random.next &&& f.kk) { m with random := m.random.advance }
  | .draw => draw f.x f.y f.n m
  | .keySkip => do
      let held ← isHeld (← reg f.x m.v) m.keypad
      if f.kk = 0x9E then return skipIf held m
      else if f.kk = 0xA1 then return skipIf (!held) m
      else ignore f.word m
  | .misc => misc f m

def record (family : Family) (s : Statistics) : Except Trap Statistics := do
  let nibble := family.nibble.val
  let count ← fit UInt64.size ((← item s.executed nibble) + 1)
  return { s with executed := ← replace s.executed nibble count }

def recordKeyWait (s : Statistics) : Except Trap Statistics := do
  return { s with keyWaits := ← fit UInt64.size (s.keyWaits + 1) }

def finish (family : Family) (m : Machine) : Except Trap (Outcome × Machine) := do
  let statistics ← record family m.statistics
  if m.waiting then
    let statistics ← recordKeyWait statistics
    return (.waitingForKey, { m with statistics })
  else
    return (.executed, { m with statistics })

def cycle (m : Machine) : Except Trap (Outcome × Machine) := do
  let w ← readWord m.pc m.memory
  let next ← execute (Fields.ofWord w) { m with waiting := false, pc := m.pc + 2 }
  finish (Fields.ofWord w).family next

/-- One step, with every index and every sum, difference and product checked. -/
def step (m : Machine) : Except Trap (Outcome × Machine) :=
  if !m.loaded || m.paused then .ok (.idle, m) else cycle m

end Machine

end Chip8.Checked
