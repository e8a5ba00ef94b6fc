import Chip8.Proofs.CallReturn

namespace Chip8

namespace RandomTape

/-- The byte that is read after `k` others. -/
def ahead (k : Nat) (t : RandomTape) : UInt8 := t.bytes (t.drawn + k)

/-- The tape after `k` bytes have been read. -/
def skip (k : Nat) (t : RandomTape) : RandomTape := { t with drawn := t.drawn + k }

@[simp] theorem next_skip (k : Nat) (t : RandomTape) : (t.skip k).next = t.ahead k := rfl

@[simp] theorem advance_skip (k : Nat) (t : RandomTape) : (t.skip k).advance = t.skip (k + 1) := rfl

theorem skip_advance (k : Nat) (t : RandomTape) : t.advance.skip k = t.skip (1 + k) := by
  simp only [skip, advance, Nat.add_assoc]

end RandomTape

theorem Instruction.random_effect {i : Instruction} (m : Machine)
    (h : ∀ x mask, i ≠ random x mask) : (i.effect m).random = m.random := by
  cases i with
  | random x mask => exact absurd rfl (h x mask)
  | _ => rfl

theorem Machine.random_step {m : Machine} {x : Reg} {mask : UInt8}
    (h : Command.step.executes? m = some (.random x mask)) :
    m.step.2.random = m.random.advance ∧ m.step.2.v[x] = m.random.next &&& mask := by
  obtain ⟨hinstruction, hstep⟩ := Command.step_of_executes? h
  rw [hstep, stepped, executed, hinstruction]
  exact ⟨rfl, (Registers.getElem_set x x _ _).trans (if_pos rfl)⟩

namespace Command

/-- The command carries out an instruction that draws a random byte. -/
def draws (c : Command) (m : Machine) : Bool :=
  match c.executes? m with
  | some (.random _ _) => true
  | _ => false

/-- How many random bytes a history draws. -/
def drawCount (history : List Command) (m : Machine) : Nat :=
  match history with
  | [] => 0
  | c :: rest => (if c.draws m then 1 else 0) + drawCount rest (c.apply m).2

variable {c : Command} {m : Machine}

theorem draws_iff (c : Command) (m : Machine) :
    c.draws m = true ↔ ∃ x mask, c.executes? m = some (.random x mask) := by
  rw [draws]
  constructor
  · intro h
    split at h
    · rename_i x mask hexecutes
      exact ⟨x, mask, hexecutes⟩
    · contradiction
  · rintro ⟨x, mask, hexecutes⟩
    rw [hexecutes]

theorem random_apply_of_draws (h : c.draws m = true) :
    (c.apply m).2.random = m.random.advance := by
  obtain ⟨x, mask, hexecutes⟩ := (draws_iff c m).mp h
  cases c with
  | step =>
      rw [apply_step]
      exact (Machine.random_step hexecutes).1
  | _ => simp [executes?] at hexecutes

theorem random_apply_of_not_draws (h : c.draws m = false) : (c.apply m).2.random = m.random := by
  cases c with
  | step =>
      rw [apply_step]
      rcases m.step_cases with ⟨-, hstep⟩ | ⟨fault, -, -, hstep⟩ | ⟨hrun, hfault, hstep⟩
      · rw [hstep]
      · rw [hstep]
      · have hexecutes := executes?_of_no_fault hrun hfault
        rw [hstep]
        refine Instruction.random_effect (i := m.instruction) m.fetched fun x mask hi => ?_
        rw [(draws_iff step m).mpr ⟨x, mask, hi ▸ hexecutes⟩] at h
        contradiction
  | load image =>
      rw [apply_load]
      split
      · rfl
      · rfl
  | toggle => rw [apply_toggle]
  | _ => rfl

/-- A history takes its bytes off the front of the tape, and leaves the tape as
it is otherwise. -/
theorem random_run (history : List Command) (m : Machine) :
    (run history m).2.random = m.random.skip (drawCount history m) := by
  induction history generalizing m with
  | nil => rfl
  | cons c rest ih =>
      rw [run_cons, ih, drawCount]
      cases hdraws : c.draws m with
      | true => rw [random_apply_of_draws hdraws, RandomTape.skip_advance, if_pos rfl]
      | false =>
          rw [random_apply_of_not_draws hdraws, if_neg Bool.false_ne_true, Nat.zero_add]

theorem draws_of_ne_step (hc : c ≠ step) (m : Machine) : c.draws m = false := by
  cases c with
  | step => exact absurd rfl hc
  | _ => rfl

theorem drawCount_of_no_step {history : List Command} (h : step ∉ history) (m : Machine) :
    drawCount history m = 0 := by
  induction history generalizing m with
  | nil => rfl
  | cons c rest ih =>
      rw [List.mem_cons, not_or] at h
      rw [drawCount, draws_of_ne_step (Ne.symm h.1), ih h.2]
      rfl

/-- The tape of a machine is read once from front to back, by the instructions
that ask for a random byte and by nothing else, whatever is loaded, reset or
stopped meanwhile. So it gives all machines of one seed the same bytes. -/
theorem draws_in_order :
    (∀ (config : Config) (random : RandomTape) (history : List Command),
      let m : Machine := { config, random }
      let n := (run history m).2
      n.random = random.skip (drawCount history m) ∧
      (∀ x mask, step.executes? n = some (.random x mask) →
        n.step.2.v[x] = random.ahead (drawCount history m) &&& mask) ∧
      (∀ c : Command, (c.apply n).2.random =
        if c.draws n then random.skip (drawCount history m + 1) else n.random)) ∧
    (∀ (seed : UInt64) (config config' : Config) (history history' : List Command)
      (x x' : Reg) (mask mask' : UInt8),
      let m : Machine := { config, random := .ofSeed seed }
      let m' : Machine := { config := config', random := .ofSeed seed }
      let n := (run history m).2
      let n' := (run history' m').2
      drawCount history' m' = drawCount history m →
      step.executes? n = some (.random x mask) → step.executes? n' = some (.random x' mask') →
      ∃ byte, n.step.2.v[x] = byte &&& mask ∧ n'.step.2.v[x'] = byte &&& mask') := by
  have hvalue : ∀ (config : Config) (random : RandomTape) (history : List Command) x mask,
      let m : Machine := { config, random }
      let n := (run history m).2
      step.executes? n = some (.random x mask) →
        n.step.2.v[x] = random.ahead (drawCount history m) &&& mask := by
    intro config random history x mask m n hexecutes
    rw [(Machine.random_step hexecutes).2, random_run, RandomTape.next_skip]
  refine ⟨fun config random history => ?_, ?_⟩
  · intro m n
    have hn : n.random = random.skip (drawCount history m) := random_run history m
    refine ⟨hn, fun x mask => hvalue config random history x mask, fun c => ?_⟩
    cases hdraws : c.draws n with
    | true => rw [random_apply_of_draws hdraws, hn, if_pos rfl, RandomTape.advance_skip]
    | false => rw [random_apply_of_not_draws hdraws, if_neg Bool.false_ne_true]
  · intro seed config config' history history' x x' mask mask' m m' n n' hcount hn hn'
    have hbyte := hvalue config (.ofSeed seed) history x mask hn
    have hbyte' := hvalue config' (.ofSeed seed) history' x' mask' hn'
    rw [hcount] at hbyte'
    exact ⟨_, hbyte, hbyte'⟩

theorem executes?_starting_draw (hm : m.Uniform false) :
    step.executes? (m.starting #[0xC0, 0xFF]) = some (.random 0 0xFF) :=
  (executes?_starting hm (by decide) rfl rfl).trans (by decide)

theorem drawCount_lone_draw (hm : m.Uniform false) {rest : List Command} (hrest : step ∉ rest) :
    drawCount (load #[0xC0, 0xFF] :: step :: rest) m = 1 := by
  have hdraws : step.draws (m.starting #[0xC0, 0xFF]) = true :=
    (draws_iff _ _).mpr ⟨_, _, executes?_starting_draw hm⟩
  rw [drawCount, draws_of_ne_step (by simp), apply_load_of_le m (by decide), drawCount, hdraws,
    drawCount_of_no_step hrest]
  rfl

theorem executes?_run_reload (hm : m.Uniform false) (history : List Command) :
    step.executes? (run (history ++ [load #[0xC0, 0xFF]]) m).2 = some (.random 0 0xFF) := by
  rw [run_append, run_load _ _ (by decide)]
  exact executes?_starting_draw (run_preserves (fun c _ => Machine.Uniform.apply c) history hm)

/-- Neither a load nor a stop goes back on the tape. -/
theorem draws_in_order_second_byte :
    let config : Config := {}
    let config' : Config := { shift := .vxOnly }
    let m : Machine := { config, random := .ofSeed 7 }
    let m' : Machine := { config := config', random := .ofSeed 7 }
    let n := (run [load #[0xC0, 0xFF], step, load #[0xC0, 0xFF]] m).2
    let n' := (run [load #[0xC0, 0xFF], step, stop, load #[0xC0, 0xFF]] m').2
    n.step.2.v[(0 : Reg)] = (RandomTape.ofSeed 7).ahead 1 &&& 0xFF ∧
      ∃ byte, n.step.2.v[(0 : Reg)] = byte &&& 0xFF ∧ n'.step.2.v[(0 : Reg)] = byte &&& 0xFF := by
  intro config config' m m' n n'
  have hm : m.Uniform false := Machine.uniform_new config (.ofSeed 7)
  have hm' : m'.Uniform false := Machine.uniform_new config' (.ofSeed 7)
  have hcount : drawCount [load #[0xC0, 0xFF], step, load #[0xC0, 0xFF]] m = 1 :=
    drawCount_lone_draw hm (by simp)
  have hcount' : drawCount [load #[0xC0, 0xFF], step, stop, load #[0xC0, 0xFF]] m' = 1 :=
    drawCount_lone_draw hm' (by simp)
  have hn : step.executes? n = some (.random 0 0xFF) :=
    executes?_run_reload hm [load #[0xC0, 0xFF], step]
  have hn' : step.executes? n' = some (.random 0 0xFF) :=
    executes?_run_reload hm' [load #[0xC0, 0xFF], step, stop]
  obtain ⟨horder, hseed⟩ := draws_in_order
  obtain ⟨-, hvalue, -⟩ :=
    horder config (.ofSeed 7) [load #[0xC0, 0xFF], step, load #[0xC0, 0xFF]]
  have hbyte := hvalue 0 0xFF hn
  rw [hcount] at hbyte
  exact ⟨hbyte, hseed 7 config config' _ _ 0 0 0xFF 0xFF (hcount'.trans hcount.symm) hn hn'⟩

end Command

end Chip8
