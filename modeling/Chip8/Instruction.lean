import Chip8.Family

namespace Chip8

inductive Arithmetic where
  | copy | or | and | xor
  | add
  /-- The first register less the second. -/
  | sub
  | shiftRight
  /-- The second register less the first. -/
  | subFrom
  | shiftLeft
  deriving DecidableEq

/-- The operation of a low nibble; six nibbles have none. -/
def Arithmetic.ofNibble? : Fin 16 → Option Arithmetic
  | 0x0 => some copy
  | 0x1 => some or
  | 0x2 => some and
  | 0x3 => some xor
  | 0x4 => some add
  | 0x5 => some sub
  | 0x6 => some shiftRight
  | 0x7 => some subFrom
  | 0xE => some shiftLeft
  | _ => none

/-- When a skip instruction passes over the next one. -/
inductive Condition where
  | eqImm (x : Reg) (byte : UInt8)
  | neImm (x : Reg) (byte : UInt8)
  | eqReg (x y : Reg)
  | neReg (x y : Reg)
  | keyHeld (x : Reg)
  | keyFree (x : Reg)
  deriving DecidableEq

/-- What an instruction word asks of the machine. -/
inductive Instruction where
  | clearScreen
  | ret
  | jump (target : Address)
  | call (target : Address)
  | skip (condition : Condition)
  | loadImm (x : Reg) (byte : UInt8)
  | addImm (x : Reg) (byte : UInt8)
  | arith (op : Arithmetic) (x y : Reg)
  | loadIndex (target : Address)
  /-- Jump to `base` plus register 0. -/
  | jumpOffset (base : Address)
  | random (x : Reg) (mask : UInt8)
  | draw (x y : Reg) (height : Fin 16)
  | readDelay (x : Reg)
  | waitKey (x : Reg)
  | setDelay (x : Reg)
  | setSound (x : Reg)
  | addIndex (x : Reg)
  /-- Point the index at the glyph of a register. -/
  | loadGlyph (x : Reg)
  | storeDecimal (x : Reg)
  /-- Store registers 0 to `x`. -/
  | storeRegisters (x : Reg)
  /-- Load registers 0 to `x`. -/
  | loadRegisters (x : Reg)
  /-- A word that names no operation. -/
  | unknown (word : Word)
  deriving DecidableEq

namespace Instruction

/-- The instruction of a word. The skips between two registers do not look at
the low nibble. -/
def decode (w : Word) : Instruction :=
  match Family.ofWord w with
  | .sys =>
      if w.nnn.val = 0x0E0 then clearScreen
      else if w.nnn.val = 0x0EE then ret
      else unknown w
  | .jump => jump w.nnn
  | .call => call w.nnn
  | .skipEqImm => skip (.eqImm w.x w.kk)
  | .skipNeImm => skip (.neImm w.x w.kk)
  | .skipEqReg => skip (.eqReg w.x w.y)
  | .loadImm => loadImm w.x w.kk
  | .addImm => addImm w.x w.kk
  | .alu =>
      match Arithmetic.ofNibble? w.n with
      | some op => arith op w.x w.y
      | none => unknown w
  | .skipNeReg => skip (.neReg w.x w.y)
  | .loadIndex => loadIndex w.nnn
  | .jumpOffset => jumpOffset w.nnn
  | .random => random w.x w.kk
  | .draw => draw w.x w.y w.n
  | .keySkip =>
      if w.kk = 0x9E then skip (.keyHeld w.x)
      else if w.kk = 0xA1 then skip (.keyFree w.x)
      else unknown w
  | .misc =>
      if w.kk = 0x07 then readDelay w.x
      else if w.kk = 0x0A then waitKey w.x
      else if w.kk = 0x15 then setDelay w.x
      else if w.kk = 0x18 then setSound w.x
      else if w.kk = 0x1E then addIndex w.x
      else if w.kk = 0x29 then loadGlyph w.x
      else if w.kk = 0x33 then storeDecimal w.x
      else if w.kk = 0x55 then storeRegisters w.x
      else if w.kk = 0x65 then loadRegisters w.x
      else unknown w

end Instruction

end Chip8
