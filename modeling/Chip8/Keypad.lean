namespace Chip8

/-- The number of a key of the hexadecimal keypad. -/
abbrev Key := Fin 16

/-- The key that the low nibble of a byte selects. -/
def Key.ofByte (b : UInt8) : Key := ⟨b.toNat % 16, by omega⟩

structure Keypad where
  held : Vector Bool 16 := Vector.replicate 16 false

namespace Keypad

def set (key : Key) (held : Bool) (k : Keypad) : Keypad :=
  ⟨k.held.set key held⟩

def isHeld (key : Key) (k : Keypad) : Bool := k.held[key]

def heldKeys (k : Keypad) : List Key :=
  (List.finRange 16).filter fun key => k.isHeld key

def lowest? (k : Keypad) : Option Key :=
  (List.finRange 16).find? fun key => k.isHeld key

end Keypad

end Chip8
