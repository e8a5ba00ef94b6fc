import Chip8.Fault

namespace Chip8

variable {σ τ α : Type}

/-- An operation that changes a state and may end in a fault. What it changed
before the fault stays changed. -/
abbrev Action (σ α : Type) := EStateM Fault σ α

namespace Action

/-- The result of a check or a look-up, which changes nothing. -/
def ofExcept (result : Except Fault α) : Action σ α :=
  match result with
  | .ok a => pure a
  | .error fault => throw fault

/-- An operation on a part of a state. -/
def on (part : σ → τ) (replace : τ → σ → σ) (act : Action τ α) : Action σ α := fun s =>
  match act.run (part s) with
  | .ok a t => .ok a (replace t s)
  | .error fault t => .error fault (replace t s)

end Action

end Chip8
