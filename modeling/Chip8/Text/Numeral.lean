namespace Chip8.Text

/-- Why a text is not the numeral of a number in range. -/
inductive NumeralError where
  | empty
  | invalidDigit
  | tooLarge
  | tooSmall
  deriving DecidableEq

def NumeralError.message : NumeralError → String
  | empty => "cannot parse integer from empty string"
  | invalidDigit => "invalid digit found in string"
  | tooLarge => "number too large to fit in target type"
  | tooSmall => "number too small to fit in target type"

namespace Numeral

def digit? (radix : Nat) (c : Char) : Option Nat :=
  let value? :=
    if '0' ≤ c ∧ c ≤ '9' then some (c.toNat - '0'.toNat)
    else if 'a' ≤ c ∧ c ≤ 'f' then some (c.toNat - 'a'.toNat + 10)
    else if 'A' ≤ c ∧ c ≤ 'F' then some (c.toNat - 'A'.toNat + 10)
    else none
  value?.filter (· < radix)

/-- Read digits behind those that make up `value`, up to `limit`. The first
character that is no digit, or that leads past the limit, decides the error. -/
def digits (radix limit : Nat) (beyond : NumeralError) (value : Nat) :
    List Char → Except NumeralError Nat
  | [] => .ok value
  | c :: rest =>
    match digit? radix c with
    | none => .error .invalidDigit
    | some d =>
      let value := value * radix + d
      if value ≤ limit then digits radix limit beyond value rest else .error beyond

/-- Read digits of which there has to be one behind a sign. -/
def signed (radix limit : Nat) (beyond : NumeralError) (rest : List Char) :
    Except NumeralError Nat :=
  if rest.isEmpty then .error .invalidDigit else digits radix limit beyond 0 rest

/-- A number from zero up to `limit`, which may have a plus sign. -/
def natural (radix limit : Nat) : List Char → Except NumeralError Nat
  | [] => .error .empty
  | '+' :: rest => signed radix limit .tooLarge rest
  | text => digits radix limit .tooLarge 0 text

/-- Half the number of words of 64 bits: as many signed words are below zero. -/
def half : Nat := UInt64.size / 2

/-- A decimal number of 64 bits with a sign, which may be written out. -/
def integer : List Char → Except NumeralError Int
  | [] => .error .empty
  | '-' :: rest => (signed 10 half .tooSmall rest).map fun n => -(n : Int)
  | '+' :: rest => (signed 10 (half - 1) .tooLarge rest).map Int.ofNat
  | text => (digits 10 (half - 1) .tooLarge 0 text).map Int.ofNat

end Numeral

end Chip8.Text
