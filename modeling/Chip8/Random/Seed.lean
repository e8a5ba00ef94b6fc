namespace Chip8.Random

/-- The state of the permuted congruential generator that spreads a seed. -/
abbrev Pcg32 := UInt64

namespace Pcg32

def advance (s : Pcg32) : Pcg32 :=
  s * 6364136223846793005 + 11634580027462260723

/-- The output of a state: its high bits, folded and turned. -/
def output (s : Pcg32) : UInt32 :=
  let folded := (((s >>> 18) ^^^ s) >>> 27).toUInt32
  let turn := (s >>> 59).toUInt32
  (folded >>> turn) ||| (folded <<< ((32 - turn) % 32))

def after (s : Pcg32) : Nat → Pcg32
  | 0 => s
  | n + 1 => (s.after n).advance

end Pcg32

/-- The eight key words that a seed stands for. -/
def keyOfSeed (seed : UInt64) : Vector UInt32 8 :=
  Vector.ofFn fun i => (Pcg32.after seed (i.val + 1)).output

end Chip8.Random
