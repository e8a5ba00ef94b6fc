import Chip8.Action

namespace Chip8

/-- The number of one of the sixteen slots for return addresses. -/
abbrev Slot := Fin 16

/-- The return addresses of the open calls. The stack pointer counts them and
selects a slot by its low four bits, so that a loose machine goes round the
sixteen slots. -/
structure CallStack where
  entries : Vector UInt16 16 := Vector.replicate 16 0
  sp : UInt16 := 0
  /-- Refuse a call past the last slot and a return without a call. -/
  strict : Bool

namespace CallStack

def depth : Nat := 16

def slot (sp : UInt16) : Slot := ⟨sp.toNat % 16, by omega⟩

instance : GetElem CallStack Slot UInt16 fun _ _ => True where
  getElem s k _ := s.entries[k]

def put (k : Slot) (value : UInt16) (s : CallStack) : CallStack :=
  { s with entries := s.entries.set k value }

def clear (s : CallStack) : CallStack := { strict := s.strict }

/-- Write to the slot of the stack pointer, then count it. -/
def push (value : UInt16) : Action CallStack Unit := do
  let s ← get
  if s.strict ∧ depth ≤ s.sp.toNat then throw (.stackOverflow s.sp)
  else
    modify fun s => s.put (slot s.sp) value
    modify fun s => { s with sp := s.sp + 1 }

/-- Count down, then read the slot of the stack pointer. -/
def pop : Action CallStack UInt16 := do
  let s ← get
  if s.strict ∧ (s.sp = 0 ∨ depth < s.sp.toNat) then throw .stackUnderflow
  else
    modify fun s => { s with sp := s.sp - 1 }
    let s ← get
    return s[slot s.sp]

end CallStack

end Chip8
