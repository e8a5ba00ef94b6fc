namespace Chip8

abbrev Word := UInt16

/-- The number of one of the sixteen general registers. -/
abbrev Reg := Fin 16

abbrev Address := Fin 4096

/-- The register that doubles as carry, borrow and collision flag. -/
def Reg.flag : Reg := Fin.last 15

theorem Reg.count_pos : 0 < 16 := by decide

def Reg.first : Reg := ⟨0, Reg.count_pos⟩

namespace Word

/-- The high nibble, which selects the family of an instruction. -/
def top (w : Word) : Fin 16 := ⟨w.toNat / 4096, by have := w.toNat_lt; omega⟩

def x (w : Word) : Reg := ⟨w.toNat / 256 % 16, by omega⟩

def y (w : Word) : Reg := ⟨w.toNat / 16 % 16, by omega⟩

def n (w : Word) : Fin 16 := ⟨w.toNat % 16, by omega⟩

def kk (w : Word) : UInt8 := w.toUInt8

/-- The low twelve bits, an address. -/
def nnn (w : Word) : Address := ⟨w.toNat % 4096, by omega⟩

/-- The word whose high byte is `high` and whose low byte is `low`. -/
def ofBytes (high low : UInt8) : Word := (high.toUInt16 <<< 8) ||| low.toUInt16

end Word

namespace Address

/-- Where programs are loaded and start. -/
def reset : Address := 0x200

/-- The low twelve bits of a word. -/
def ofWord (w : UInt16) : Address := ⟨w.toNat % 4096, by omega⟩

/-- An address as a word, for the wider program counter and index register. -/
def toWord (a : Address) : UInt16 := UInt16.ofNat a.val

theorem toNat_toWord (a : Address) : a.toWord.toNat = a.val := by
  rw [toWord, UInt16.toNat_ofNat']
  omega

end Address

end Chip8
