import Chip8.Keypad
import Chip8.Text.Numeral
import Chip8.Text.Quoted

namespace Chip8

inductive KeyError where
  | notByte (text : String) (cause : Text.NumeralError)
  | noSuchKey (text : String)
  deriving DecidableEq

def KeyError.message : KeyError → String
  | notByte text cause => s!"invalid key {Text.quoted text}: {cause.message}"
  | noSuchKey text => s!"key {Text.quoted text} is not in 0-f"

namespace Key

/-- The text behind any number of leading marks `0x`. -/
def unmarked : List Char → List Char
  | '0' :: 'x' :: rest => unmarked rest
  | text => text

/-- The key of a hexadecimal numeral, which may be marked. -/
def parse (text : String) : Except KeyError Key :=
  match Text.Numeral.natural 16 255 (unmarked text.toList) with
  | .error cause => .error (.notByte text cause)
  | .ok n => if h : n < 16 then .ok ⟨n, h⟩ else .error (.noSuchKey text)

def toByte (key : Key) : UInt8 := UInt8.ofNat key.val

end Key

end Chip8
