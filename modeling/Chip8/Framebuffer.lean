import Chip8.Action
import Chip8.Config

namespace Chip8

/-- The monochrome display, its pixels row by row, a byte of 0 or 1 for each,
and whether it changed since it was last presented. -/
structure Framebuffer where
  pixels : Vector UInt8 2048 := Vector.replicate 2048 0
  dirty : Bool := true

/-- The pixel index of column `x` and row `y`, which may be off the display. -/
def SpriteMode.target (mode : SpriteMode) (x y : Nat) : Nat :=
  match mode with
  | linear => x + y * 64
  | wrap => x % 64 + y % 32 * 64

structure OffScreen where
  x : Nat
  y : Nat
  deriving DecidableEq

def OffScreen.message (e : OffScreen) : String :=
  s!"pixel ({e.x}, {e.y}) is off-screen"

namespace Framebuffer

def width : Nat := 64

def height : Nat := 32

def size : Nat := width * height

def clear : Framebuffer := {}

def present (fb : Framebuffer) : Framebuffer := { fb with dirty := false }

/-- The columns of the set bits of a sprite row, leftmost bit first. -/
def litColumns (row : UInt8) : List Nat :=
  (List.range 8).filter fun column => row.toNat.testBit (7 - column)

/-- The pixel indices of the set bits of a sprite at `(x, y)`, row by row. -/
def targets (mode : SpriteMode) (x y : UInt8) (rows : List UInt8) : List Nat :=
  rows.zipIdx.flatMap fun (row, down) =>
    (litColumns row).map fun across => mode.target (x.toNat + across) (y.toNat + down)

/-- Flip pixels one after the other, dropping those off the display. The result
says whether one of them was lit when its turn came, or `hit` was set. -/
def flipAll (targets : List Nat) (hit : Bool) (pixels : Vector UInt8 2048) :
    Bool × Vector UInt8 2048 :=
  match targets with
  | [] => (hit, pixels)
  | i :: rest =>
      if h : i < 2048 then flipAll rest (hit || pixels[i] == 1) (pixels.set i (pixels[i] ^^^ 1))
      else flipAll rest hit pixels

/-- Flip the pixels under the set bits of a sprite, and tell whether one was
lit. A strict machine refuses a sprite that reaches past the last pixel. -/
def draw (strict : Bool) (mode : SpriteMode) (x y : UInt8) (rows : List UInt8) :
    Action Framebuffer Bool := do
  let targets := targets mode x y rows
  match if strict then targets.find? (size ≤ ·) else none with
  | some i => throw (.pixelOutOfRange i)
  | none =>
      let fb ← get
      let (hit, pixels) := flipAll targets false fb.pixels
      set { fb with pixels }
      modify fun fb => { fb with dirty := true }
      return hit

/-- Whether the byte of a pixel stands for a lit one. -/
def lit (byte : UInt8) : Bool := byte != 0

def pixel (x y : Nat) (fb : Framebuffer) : Except OffScreen Bool :=
  if h : x < width ∧ y < height then
    have : x + y * width < 2048 := by simp only [width, height] at *; omega
    .ok (lit fb.pixels[x + y * width])
  else .error ⟨x, y⟩

def byteRows (fb : Framebuffer) : List (List UInt8) :=
  (List.range height).map fun y => (fb.pixels.toList.drop (y * width)).take width

def rows (fb : Framebuffer) : List (List Bool) := fb.byteRows.map fun row => row.map lit

def litCount (fb : Framebuffer) : Nat := fb.pixels.toList.countP lit

def block (lit : Bool) : Char := if lit then '█' else ' '

def text (fb : Framebuffer) : String :=
  String.ofList (fb.rows.flatMap fun row => row.map block ++ ['\n'])

end Framebuffer

end Chip8
