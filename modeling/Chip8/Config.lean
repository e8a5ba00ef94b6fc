namespace Chip8

/-- The register that the two shift instructions read, a point on which
machines of the family differ. -/
inductive ShiftMode where
  /-- A right shift reads the first register, a left shift the second. -/
  | reference
  /-- Both shifts read the first register. -/
  | vxOnly
  /-- Both shifts read the second register. -/
  | vyOnly
  deriving DecidableEq

inductive SpriteMode where
  /-- Columns past the right edge spill into the next row, and pixels past the
  last row are off the display. -/
  | linear
  /-- Both coordinates wrap around the edges. -/
  | wrap
  deriving DecidableEq

structure Config where
  /-- Report exhausted stacks, addresses and pixels out of range and unknown
  instructions, rather than wrap, drop or ignore them. -/
  strict : Bool := false
  shift : ShiftMode := .reference
  sprite : SpriteMode := .linear
  deriving DecidableEq

namespace ShiftMode

def all : List ShiftMode := [.reference, .vxOnly, .vyOnly]

def name : ShiftMode → String
  | .reference => "reference"
  | .vxOnly => "vx-only"
  | .vyOnly => "vy-only"

def label : ShiftMode → String
  | .reference => "Reference"
  | .vxOnly => "VxOnly"
  | .vyOnly => "VyOnly"

def ofName? (s : String) : Option ShiftMode :=
  all.find? (·.name == s)

end ShiftMode

namespace SpriteMode

def all : List SpriteMode := [.linear, .wrap]

def name : SpriteMode → String
  | .linear => "linear"
  | .wrap => "wrap"

def label : SpriteMode → String
  | .linear => "Linear"
  | .wrap => "Wrap"

def ofName? (s : String) : Option SpriteMode :=
  all.find? (·.name == s)

end SpriteMode

def unknownModeMessage : String := "Matching variant not found"

end Chip8
