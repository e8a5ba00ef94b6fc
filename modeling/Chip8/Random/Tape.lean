import Chip8.Random.ChaCha
import Chip8.Random.Seed

namespace Chip8

/-- An endless sequence of bytes, read from front to back. -/
structure RandomTape where
  bytes : Nat → UInt8
  drawn : Nat := 0

namespace RandomTape

/-- The tape of a seed: the low bytes of the words of its key stream. -/
def ofSeed (seed : UInt64) : RandomTape :=
  let key := Random.keyOfSeed seed
  { bytes := fun i => (Random.ChaCha.word key i).toUInt8 }

def next (t : RandomTape) : UInt8 := t.bytes t.drawn

def advance (t : RandomTape) : RandomTape := { t with drawn := t.drawn + 1 }

end RandomTape

end Chip8
