import Chip8.Family

namespace Chip8

structure Statistics where
  /-- Executed instructions, by the nibble of their family. -/
  executed : Vector Nat 16 := Vector.replicate 16 0
  /-- Steps that found no key to wait for. -/
  keyWaits : Nat := 0
  /-- Unknown instructions that were passed over. -/
  ignored : Nat := 0

namespace Statistics

def record (f : Family) (s : Statistics) : Statistics :=
  { s with executed := s.executed.set f.nibble (s.executed[f.nibble] + 1) }

def recordKeyWait (s : Statistics) : Statistics :=
  { s with keyWaits := s.keyWaits + 1 }

def recordIgnored (s : Statistics) : Statistics :=
  { s with ignored := s.ignored + 1 }

def count (f : Family) (s : Statistics) : Nat := s.executed[f.nibble]

def total (s : Statistics) : Nat := s.executed.foldl (· + ·) 0

end Statistics

end Chip8
