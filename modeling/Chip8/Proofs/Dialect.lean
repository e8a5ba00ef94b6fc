import Chip8.Proofs.Lockstep
import Mathlib.Data.List.Basic

namespace Chip8

/-- The machine with the two settings in which members of the family differ set
to others. -/
def Machine.inDialect (shift : ShiftMode) (sprite : SpriteMode) (m : Machine) : Machine :=
  { m with config := { m.config with shift, sprite } }

variable {shift : ShiftMode} {sprite : SpriteMode} {m : Machine}

theorem ShiftMode.rightSource_self (mode : ShiftMode) (x : Reg) : mode.rightSource x x = x := by
  cases mode <;> rfl

theorem ShiftMode.leftSource_self (mode : ShiftMode) (x : Reg) : mode.leftSource x x = x := by
  cases mode <;> rfl

theorem Arithmetic.apply_congr {op : Arithmetic} {a b : ShiftMode} {x y : Reg}
    (hright : op = .shiftRight → a.rightSource x y = b.rightSource x y)
    (hleft : op = .shiftLeft → a.leftSource x y = b.leftSource x y) (v : Registers) :
    op.apply a x y v = op.apply b x y v := by
  cases op with
  | shiftRight => simp only [apply, hright rfl]
  | shiftLeft => simp only [apply, hleft rfl]
  | _ => rfl

namespace Framebuffer

/-- A set bit of a sprite at `(x, y)` lies off the display. -/
def Overhangs (x y : UInt8) (rows : List UInt8) : Prop :=
  ∃ down row across, rows[down]? = some row ∧ across ∈ litColumns row ∧
    ¬ (x.toNat + across < width ∧ y.toNat + down < height)

/-- On the display, columns that spill and columns that wrap are the same. -/
theorem target_eq_of_lt (a b : SpriteMode) {x y : Nat} (hx : x < width) (hy : y < height) :
    a.target x y = b.target x y := by
  have hlinear : ∀ mode : SpriteMode, mode.target x y = x + y * 64 := by
    intro mode
    cases mode with
    | linear => rfl
    | wrap =>
        have hmodx : x % 64 = x := Nat.mod_eq_of_lt hx
        have hmody : y % 32 = y := Nat.mod_eq_of_lt hy
        rw [SpriteMode.target, hmodx, hmody]
  rw [hlinear, hlinear]

theorem targets_eq_of_not_overhangs {x y : UInt8} {rows : List UInt8}
    (h : ¬ Overhangs x y rows) (a b : SpriteMode) : targets a x y rows = targets b x y rows := by
  apply List.flatMap_congr
  rintro ⟨row, down⟩ hrow
  rw [List.mem_zipIdx_iff_getElem?] at hrow
  apply List.map_congr_left
  intro across hacross
  have hin : x.toNat + across < width ∧ y.toNat + down < height :=
    Classical.byContradiction fun hout => h ⟨down, row, across, hrow, hacross, hout⟩
  exact target_eq_of_lt a b hin.1 hin.2

end Framebuffer

theorem Instruction.effect_inDialect {i : Instruction}
    (hright : ∀ x y, i = arith .shiftRight x y →
      shift.rightSource x y = m.config.shift.rightSource x y)
    (hleft : ∀ x y, i = arith .shiftLeft x y →
      shift.leftSource x y = m.config.shift.leftSource x y)
    (hdraw : ∀ x y height, i = draw x y height →
      (m.inDialect shift sprite).spriteTargets x y height = m.spriteTargets x y height) :
    i.effect (m.inDialect shift sprite) = (i.effect m).inDialect shift sprite := by
  cases i with
  | arith op x y =>
      have happly : op.apply shift x y m.v = op.apply m.config.shift x y m.v :=
        Arithmetic.apply_congr (fun hop => hright x y (hop ▸ rfl)) (fun hop => hleft x y (hop ▸ rfl))
          m.v
      simp only [effect, Machine.inDialect, happly]
  | draw x y height =>
      rw [effect, effect, hdraw x y height rfl]
      rfl
  | _ => rfl

namespace Command

/-- The command carries out an operation on two different registers. -/
def UsesTwo (op : Arithmetic) (c : Command) (m : Machine) : Prop :=
  ∃ x y, x ≠ y ∧ c.executes? m = some (.arith op x y)

/-- The command comes to a sprite that can be read and has a set bit off the
display, whether or not it then draws it. -/
def MeetsEdge (c : Command) (m : Machine) : Prop :=
  c = step ∧ m.running = true ∧ ∃ w x y height rows, m.nextWord = .ok w ∧
    Instruction.decode w = .draw x y height ∧ m.memory.readBytes m.index height.val = .ok rows ∧
    Framebuffer.Overhangs m.v[x] m.v[y] rows

/-- The command shifts a register that the mode does not shift, or it comes to a
sprite on which the modes differ. -/
def ShowsDialect (shift : ShiftMode) (sprite : SpriteMode) (c : Command) (m : Machine) : Prop :=
  (∃ x y, c.executes? m = some (.arith .shiftRight x y) ∧
    shift.rightSource x y ≠ m.config.shift.rightSource x y) ∨
  (∃ x y, c.executes? m = some (.arith .shiftLeft x y) ∧
    shift.leftSource x y ≠ m.config.shift.leftSource x y) ∨
  (sprite ≠ m.config.sprite ∧ c.MeetsEdge m)

end Command

namespace Machine

theorem spriteTargets_inDialect {x y : Reg} {height : Fin 16}
    (h : sprite ≠ m.config.sprite →
      ¬ Framebuffer.Overhangs m.v[x] m.v[y] (m.memory.bytesAt m.index height.val)) :
    (m.inDialect shift sprite).spriteTargets x y height = m.spriteTargets x y height := by
  by_cases hsprite : sprite = m.config.sprite
  · subst hsprite
    rfl
  · exact Framebuffer.targets_eq_of_not_overhangs (h hsprite) sprite m.config.sprite

theorem meetsEdge_of_overhangs {x y : Reg} {height : Fin 16} (hrun : m.running = true)
    (hfetch : Memory.spanFault? m.memory.strict m.pc 2 = none)
    (hi : m.instruction = .draw x y height)
    (hspan : Memory.spanFault? m.memory.strict m.index height.val = none)
    (hover : Framebuffer.Overhangs m.v[x] m.v[y] (m.memory.bytesAt m.index height.val)) :
    Command.step.MeetsEdge m := by
  have hrows : m.memory.readBytes m.index height.val =
      .ok (m.memory.bytesAt m.index height.val) := by
    rw [Memory.readBytes_eq_guard, hspan]
    rfl
  exact ⟨rfl, hrun, m.word, x, y, height, _, (m.nextWord_eq_ok_iff _).mpr ⟨hfetch, rfl⟩, hi, hrows,
    hover⟩

/-- Up to the sprites on which the modes differ, one dialect refuses what the
other refuses. -/
theorem stepFault?_inDialect (hrun : m.running = true)
    (h : ¬ Command.step.ShowsDialect shift sprite m) :
    (m.inDialect shift sprite).stepFault? = m.stepFault? := by
  -- A word that cannot be fetched is not known to be a sprite, but its fault comes first.
  cases hfetch : Memory.spanFault? m.memory.strict m.pc 2 with
  | some fault =>
      have hfetch' : Memory.spanFault? (m.inDialect shift sprite).memory.strict
          (m.inDialect shift sprite).pc 2 = some fault := hfetch
      rw [stepFault?, stepFault?, hfetch, hfetch', Option.some_or, Option.some_or]
  | none =>
      have hfault : m.instruction.fault? (m.fetched.inDialect shift sprite) =
          m.instruction.fault? m.fetched := by
        refine Instruction.fault?_congr rfl rfl rfl rfl fun x y height hi hspan => ?_
        exact spriteTargets_inDialect fun hsprite hover =>
          h (.inr (.inr ⟨hsprite, meetsEdge_of_overhangs hrun hfetch hi hspan hover⟩))
      exact congrArg (Option.or _) hfault

theorem executed_inDialect (hrun : m.running = true) (hfault : m.stepFault? = none)
    (h : ¬ Command.step.ShowsDialect shift sprite m) :
    (m.inDialect shift sprite).executed = m.executed.inDialect shift sprite := by
  have hexecutes := Command.executes?_of_no_fault hrun hfault
  rw [stepFault?, Option.or_eq_none_iff] at hfault
  refine Instruction.effect_inDialect (i := m.instruction) (m := m.fetched) ?_ ?_ ?_
  · intro x y hi
    exact Classical.byContradiction fun hne => h (.inl ⟨x, y, hexecutes.trans (congrArg some hi), hne⟩)
  · intro x y hi
    exact Classical.byContradiction fun hne =>
      h (.inr (.inl ⟨x, y, hexecutes.trans (congrArg some hi), hne⟩))
  · intro x y height hi
    have hreadable := hfault.2
    rw [hi, Instruction.fault?, Option.or_eq_none_iff] at hreadable
    exact spriteTargets_inDialect fun hsprite hover =>
      h (.inr (.inr ⟨hsprite, meetsEdge_of_overhangs hrun hfault.1 hi hreadable.1 hover⟩))

theorem step_inDialect (h : ¬ Command.step.ShowsDialect shift sprite m) :
    (m.inDialect shift sprite).step = (m.step.1, m.step.2.inDialect shift sprite) := by
  rcases step_cases m with ⟨hidle, hstep⟩ | ⟨fault, hrun, hfault, hstep⟩ | ⟨hrun, hfault, hstep⟩
  · rw [hstep, step_of_idle (m := m.inDialect shift sprite) hidle]
  · have hfault' := (stepFault?_inDialect hrun h).trans hfault
    rw [hstep, step_of_fault (m := m.inDialect shift sprite) hrun hfault']
    rfl
  · have hfault' := (stepFault?_inDialect hrun h).trans hfault
    have hexecuted := executed_inDialect hrun hfault h
    rw [hstep, step_of_no_fault (m := m.inDialect shift sprite) hrun hfault', nextOutcome, stepped,
      nextStatistics, hexecuted]
    rfl

end Machine

namespace Command

theorem config_apply (c : Command) (m : Machine) : (c.apply m).2.config = m.config := by
  cases c with
  | load image =>
      rw [apply_load]
      split
      · rfl
      · rfl
  | step =>
      rw [apply_step]
      rcases m.step_cases with ⟨-, hstep⟩ | ⟨fault, -, -, hstep⟩ | ⟨-, -, hstep⟩
      · rw [hstep]
      · rw [hstep]
      · rw [hstep]
        exact Instruction.config_effect m.instruction m.fetched
  | toggle => rw [apply_toggle]
  | _ => rfl

theorem config_run (history : List Command) (m : Machine) :
    (run history m).2.config = m.config :=
  run_preserves (P := fun n => n.config = m.config)
    (fun c n hn => (config_apply c n).trans hn) history rfl

theorem apply_inDialect {c : Command} (h : ¬ c.ShowsDialect shift sprite m) :
    c.apply (m.inDialect shift sprite) = ((c.apply m).1, (c.apply m).2.inDialect shift sprite) := by
  cases c with
  | load image =>
      rw [apply_load, apply_load]
      split
      · rfl
      · rfl
  | step => rw [apply_step, apply_step, Machine.step_inDialect h]
  | toggle =>
      rw [apply_toggle, apply_toggle]
      rfl
  | _ => rfl

theorem ne_of_rightSource_ne {a b : ShiftMode} {x y : Reg}
    (h : a.rightSource x y ≠ b.rightSource x y) : x ≠ y := by
  rintro rfl
  rw [a.rightSource_self, b.rightSource_self] at h
  exact h rfl

theorem ne_of_leftSource_ne {a b : ShiftMode} {x y : Reg}
    (h : a.leftSource x y ≠ b.leftSource x y) : x ≠ y := by
  rintro rfl
  rw [a.leftSource_self, b.leftSource_self] at h
  exact h rfl

theorem dialect_apply {c : Command} {n : Machine} (h : ¬ c.ShowsDialect shift sprite m)
    (hn : n = m.inDialect shift sprite) :
    (c.apply n).1 = (c.apply m).1 ∧ (c.apply n).2 = (c.apply m).2.inDialect shift sprite := by
  rw [hn, apply_inDialect h]
  exact ⟨rfl, rfl⟩

/-- What sets two dialects apart, by the settings that the first machine began with. -/
theorem partOnlyAt_inDialect {apart : Command → Machine → Prop}
    (h : ∀ c k, k.config = m.config → ShowsDialect shift sprite c k → apart c k) :
    PartOnlyAt apart (fun k l => l = k.inDialect shift sprite) m (m.inDialect shift sprite) :=
  (partOnlyAt_of_step (fun _ _ _ => dialect_apply) m _).imp fun before c hc =>
    h c _ (config_run before m) hc

/-- The dialects of the family differ in nothing but what they are for. Two
members part only at a shift of one register by another, and each pair of modes
only at the shift that they read differently; or at a sprite that has a set bit
off the display. -/
theorem dialects_part_only_at (m : Machine) :
    (∀ shift sprite history,
      Along (fun c k => ¬ c.UsesTwo .shiftRight k ∧ ¬ c.UsesTwo .shiftLeft k ∧ ¬ c.MeetsEdge k)
        history m →
      run history (m.inDialect shift sprite) =
        ((run history m).1, (run history m).2.inDialect shift sprite)) ∧
    (m.config.shift = .reference →
      PartOnlyAt (UsesTwo .shiftLeft) (fun k l => l = k.inDialect .vxOnly m.config.sprite)
        m (m.inDialect .vxOnly m.config.sprite)) ∧
    (m.config.shift = .reference →
      PartOnlyAt (UsesTwo .shiftRight) (fun k l => l = k.inDialect .vyOnly m.config.sprite)
        m (m.inDialect .vyOnly m.config.sprite)) ∧
    (∀ sprite,
      PartOnlyAt MeetsEdge (fun k l => l = k.inDialect m.config.shift sprite)
        m (m.inDialect m.config.shift sprite)) := by
  refine ⟨?_, fun hshift => ?_, fun hshift => ?_, fun sprite => ?_⟩
  · intro shift sprite history hhistory
    have hshows : Along (fun c k => ¬ c.ShowsDialect shift sprite k) history m := by
      apply hhistory.imp
      rintro c k ⟨hright, hleft, hedge⟩ (⟨x, y, hc, hne⟩ | ⟨x, y, hc, hne⟩ | ⟨-, hmeets⟩)
      · exact hright ⟨x, y, ne_of_rightSource_ne hne, hc⟩
      · exact hleft ⟨x, y, ne_of_leftSource_ne hne, hc⟩
      · exact hedge hmeets
    obtain ⟨hanswers, hlast⟩ := run_lockstep (R := fun k l => l = k.inDialect shift sprite)
      (fun _ _ _ => dialect_apply) hshows rfl
    exact Prod.ext hanswers hlast
  · apply partOnlyAt_inDialect
    rintro c k hk (⟨x, y, -, hne⟩ | ⟨x, y, hc, hne⟩ | ⟨hne, -⟩)
    · rw [hk, hshift] at hne
      exact absurd rfl hne
    · exact ⟨x, y, ne_of_leftSource_ne hne, hc⟩
    · rw [hk] at hne
      exact absurd rfl hne
  · apply partOnlyAt_inDialect
    rintro c k hk (⟨x, y, hc, hne⟩ | ⟨x, y, -, hne⟩ | ⟨hne, -⟩)
    · exact ⟨x, y, ne_of_rightSource_ne hne, hc⟩
    · rw [hk, hshift] at hne
      exact absurd rfl hne
    · rw [hk] at hne
      exact absurd rfl hne
  · apply partOnlyAt_inDialect
    rintro c k hk (⟨x, y, -, hne⟩ | ⟨x, y, -, hne⟩ | ⟨-, hmeets⟩)
    · rw [hk] at hne
      exact absurd rfl hne
    · rw [hk] at hne
      exact absurd rfl hne
    · exact hmeets

/-- A shift of a register by itself is the same in all dialects. -/
theorem dialects_part_only_at_self_shift :
    let m : Machine := Machine.starting #[0x81, 0x16] { config := {}, random := .ofSeed 0 }
    run [step] (m.inDialect .vyOnly .wrap) =
        ((run [step] m).1, (run [step] m).2.inDialect .vyOnly .wrap) ∧
      PartOnlyAt (UsesTwo .shiftLeft) (fun k l => l = k.inDialect .vxOnly .linear)
        m (m.inDialect .vxOnly .linear) ∧
      PartOnlyAt (UsesTwo .shiftRight) (fun k l => l = k.inDialect .vyOnly .linear)
        m (m.inDialect .vyOnly .linear) := by
  intro m
  have hexecutes : step.executes? m = some (.arith .shiftRight 1 1) :=
    (executes?_starting (Machine.uniform_new {} (.ofSeed 0)) (by decide) rfl rfl).trans (by decide)
  have htwo : ∀ op, ¬ step.UsesTwo op m := by
    rintro op ⟨x, y, hne, hc⟩
    rw [hexecutes] at hc
    cases hc
    exact hne rfl
  have hedge : ¬ step.MeetsEdge m := by
    rintro ⟨-, -, w, x, y, height, rows, hword, hdraw, -⟩
    obtain ⟨-, rfl⟩ := (m.nextWord_eq_ok_iff _).mp hword
    rw [← Machine.instruction, (step_of_executes? hexecutes).1] at hdraw
    contradiction
  obtain ⟨hruns, hleft, hright, -⟩ := dialects_part_only_at m
  exact ⟨hruns .vyOnly .wrap [step] ⟨⟨htwo _, htwo _, hedge⟩, trivial⟩, hleft rfl, hright rfl⟩

end Command

end Chip8
