import Chip8.Config
import Chip8.Instruction

namespace Chip8

structure Registers where
  values : Vector UInt8 16

namespace Registers

def zero : Registers := ⟨Vector.replicate 16 0⟩

instance : GetElem Registers Reg UInt8 fun _ _ => True where
  getElem v x _ := v.values[x]

def set (x : Reg) (byte : UInt8) (v : Registers) : Registers :=
  ⟨v.values.set x byte⟩

theorem ext {v w : Registers} (h : ∀ x : Reg, v[x] = w[x]) : v = w := by
  cases v
  cases w
  congr 1
  exact Vector.ext fun i hi => h ⟨i, hi⟩

theorem getElem_set (x y : Reg) (byte : UInt8) (v : Registers) :
    (v.set x byte)[y] = if x = y then byte else v[y] := by
  change (v.values.set x byte)[y.val] = if x = y then byte else v.values[y.val]
  rw [Vector.getElem_set]
  simp only [Fin.ext_iff]

def toList (v : Registers) : List UInt8 := v.values.toList

def setFlag (flag : Bool) (v : Registers) : Registers :=
  v.set Reg.flag (if flag then 1 else 0)

def upTo (x : Reg) : List Reg :=
  (List.finRange 16).take (x.val + 1)

end Registers

namespace ShiftMode

/-- The register that a right shift reads, of the two in its word. -/
def rightSource {α : Type} (mode : ShiftMode) (x y : α) : α :=
  match mode with
  | reference => x
  | vxOnly => x
  | vyOnly => y

/-- The register that a left shift reads, of the two in its word. -/
def leftSource {α : Type} (mode : ShiftMode) (x y : α) : α :=
  match mode with
  | reference => y
  | vxOnly => x
  | vyOnly => y

end ShiftMode

/-- Carry out an operation on registers `x` and `y`. The flag is written first,
and the result is computed from the registers as they are then, which matters
when `x` or `y` is the flag register. -/
def Arithmetic.apply (op : Arithmetic) (mode : ShiftMode) (x y : Reg) (v : Registers) :
    Registers :=
  match op with
  | copy => v.set x v[y]
  | or => v.set x (v[x] ||| v[y])
  | and => v.set x (v[x] &&& v[y])
  | xor => v.set x (v[x] ^^^ v[y])
  | add =>
      let v := Registers.setFlag (0xFF < v[x].toNat + v[y].toNat) v
      v.set x (v[x] + v[y])
  | sub =>
      let v := Registers.setFlag (v[y] < v[x]) v
      v.set x (v[x] - v[y])
  | shiftRight =>
      let source := mode.rightSource x y
      let v := Registers.setFlag (v[source] &&& 1 = 1) v
      v.set x (v[source] >>> 1)
  | subFrom =>
      let v := Registers.setFlag (v[x] < v[y]) v
      v.set x (v[y] - v[x])
  | shiftLeft =>
      let source := mode.leftSource x y
      let v := Registers.setFlag (v[source] >>> 7 = 1) v
      v.set x (v[source] <<< 1)

end Chip8
