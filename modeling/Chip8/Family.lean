import Chip8.Word

namespace Chip8

/-- The families of instructions, one for each high nibble of a word. -/
inductive Family where
  | sys | jump | call | skipEqImm | skipNeImm | skipEqReg | loadImm | addImm
  | alu | skipNeReg | loadIndex | jumpOffset | random | draw | keySkip | misc
  deriving DecidableEq

namespace Family

def all : List Family :=
  [sys, jump, call, skipEqImm, skipNeImm, skipEqReg, loadImm, addImm,
    alu, skipNeReg, loadIndex, jumpOffset, random, draw, keySkip, misc]

def nibble : Family → Fin 16
  | sys => ⟨0x0, by decide⟩
  | jump => ⟨0x1, by decide⟩
  | call => ⟨0x2, by decide⟩
  | skipEqImm => ⟨0x3, by decide⟩
  | skipNeImm => ⟨0x4, by decide⟩
  | skipEqReg => ⟨0x5, by decide⟩
  | loadImm => ⟨0x6, by decide⟩
  | addImm => ⟨0x7, by decide⟩
  | alu => ⟨0x8, by decide⟩
  | skipNeReg => ⟨0x9, by decide⟩
  | loadIndex => ⟨0xA, by decide⟩
  | jumpOffset => ⟨0xB, by decide⟩
  | random => ⟨0xC, by decide⟩
  | draw => ⟨0xD, by decide⟩
  | keySkip => ⟨0xE, by decide⟩
  | misc => ⟨0xF, by decide⟩

def ofNibble (k : Fin 16) : Family := all.get k

theorem nibble_ofNibble (k : Fin 16) : (ofNibble k).nibble = k := by
  revert k
  decide

theorem ofNibble_nibble (f : Family) : ofNibble f.nibble = f := by
  cases f <;> rfl

/-- The family of a byte, which only the values of a nibble have. -/
def ofByte? (b : UInt8) : Option Family :=
  if h : b.toNat < 16 then some (ofNibble ⟨b.toNat, h⟩) else none

def noFamilyMessage (b : UInt8) : String :=
  s!"No discriminant in enum `Opcode` matches the value `{b.toNat}`"

def ofWord (w : Word) : Family := ofNibble w.top

def name : Family → String
  | sys => "Sys"
  | jump => "Jump"
  | call => "Call"
  | skipEqImm => "SkipEqImm"
  | skipNeImm => "SkipNeImm"
  | skipEqReg => "SkipEqReg"
  | loadImm => "LoadImm"
  | addImm => "AddImm"
  | alu => "Alu"
  | skipNeReg => "SkipNeReg"
  | loadIndex => "LoadIndex"
  | jumpOffset => "JumpOffset"
  | random => "Random"
  | draw => "Draw"
  | keySkip => "KeySkip"
  | misc => "Misc"

end Family

end Chip8
