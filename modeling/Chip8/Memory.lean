import Chip8.Action
import Chip8.Font
import Chip8.ProgramFile

namespace Chip8

structure Memory where
  bytes : Vector UInt8 4096
  /-- Refuse addresses past the last byte, rather than start again at the first. -/
  strict : Bool

namespace Memory

instance : GetElem Memory Address UInt8 fun _ _ => True where
  getElem m a _ := m.bytes[a]

/-- Memory as delivered: the font at address 0 and zeros behind it. -/
def factory (strict : Bool) : Memory :=
  { bytes := Vector.ofFn fun a => if h : a.val < 80 then Font.bytes[a.val] else 0
    strict }

def clear (m : Memory) : Memory := { m with bytes := Vector.replicate 4096 0 }

def put (address : UInt16) (byte : UInt8) (m : Memory) : Memory :=
  { m with bytes := m.bytes.set (Address.ofWord address) byte }

def store (address : UInt16) (bytes : List UInt8) (m : Memory) : Memory :=
  match bytes with
  | [] => m
  | byte :: rest => (m.put address byte).store (address + 1) rest

/-- Copy a program to the reset address, if it fits. -/
def load (image : Image) (m : Memory) : Except LoadError Memory :=
  if Image.capacity < image.size then .error (.imageTooLarge image.size)
  else .ok (m.store Address.reset.toWord image.toList)

/-- The byte that a 16-bit address names: memory repeats every 4096 bytes, and
strict memory refuses the repetitions. -/
def resolve (address : UInt16) (m : Memory) : Except Fault Address :=
  if m.strict ∧ 0xFFF < address.toNat then .error (.addressOutOfRange address)
  else .ok (Address.ofWord address)

def read (address : UInt16) (m : Memory) : Except Fault UInt8 :=
  match m.resolve address with
  | .error fault => .error fault
  | .ok a => .ok m[a]

def write (address : UInt16) (byte : UInt8) : Action Memory Unit := do
  let m ← get
  let a ← Action.ofExcept (m.resolve address)
  set { m with bytes := m.bytes.set a byte }

/-- The word at an address, high byte first. -/
def readWord (address : UInt16) (m : Memory) : Except Fault Word := do
  let high ← m.read address
  let low ← m.read (address + 1)
  return Word.ofBytes high low

/-- The bytes at `length` successive addresses, read one after the other. -/
def readBytes (address : UInt16) (length : Nat) (m : Memory) : Except Fault (List UInt8) :=
  match length with
  | 0 => .ok []
  | length + 1 => do
      let byte ← m.read address
      let rest ← m.readBytes (address + 1) length
      return byte :: rest

/-- Whether `length` successive addresses are all accepted. The fault names the
first that is not. -/
def checkSpan (address : UInt16) (length : Nat) (m : Memory) : Except Fault Unit :=
  if m.strict ∧ 0 < length ∧ 0xFFF < address.toNat + length - 1 then
    .error (.addressOutOfRange (if 0xFFF < address.toNat then address else 0x1000))
  else .ok ()

end Memory

end Chip8
