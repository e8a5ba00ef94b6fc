import Chip8.Hex
import Chip8.Word

namespace Chip8

/-- Why a strict machine refuses an instruction. -/
inductive Fault where
  | addressOutOfRange (address : UInt16)
  | stackOverflow (depth : UInt16)
  | stackUnderflow
  | unknownInstruction (word : Word)
  | pixelOutOfRange (index : Nat)
  deriving DecidableEq

def Fault.message : Fault → String
  | addressOutOfRange a => s!"address {Hex.literal 4 a.toNat} is outside the address space"
  | stackOverflow d => s!"call stack exhausted at depth {d.toNat}"
  | stackUnderflow => "return with an empty call stack"
  | unknownInstruction w => s!"unknown instruction {Hex.literal 4 w.toNat}"
  | pixelOutOfRange i => s!"sprite pixel {i} lies outside the framebuffer"

end Chip8
