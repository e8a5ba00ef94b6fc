import Chip8.Proofs.Strictness

namespace Chip8

/-- Strict memory never takes an address for another one. -/
theorem Memory.val_of_resolve {m : Memory} (hm : m.strict = true) {address : UInt16} {a : Address}
    (h : m.resolve address = .ok a) : a.val = address.toNat := by
  rw [resolve] at h
  split at h
  · contradiction
  · rename_i hsmall
    rw [Except.ok.injEq] at h
    rw [← h]
    simp only [hm, true_and] at hsmall
    change address.toNat % 4096 = address.toNat
    omega

namespace CallStack

/-- The stack of a strict machine: the stack pointer counts at most sixteen calls,
and every return address is behind a word that could be fetched. -/
structure Bounded (s : CallStack) : Prop where
  strict : s.strict = true
  sp : s.sp.toNat ≤ 16
  entries : ∀ k : Slot, s[k].toNat ≤ 0x1000

variable {s : CallStack} {fault : Fault}

theorem pushFault?_eq_some_iff (h : s.strict = true) :
    s.pushFault? = some fault ↔ 16 ≤ s.sp.toNat ∧ fault = .stackOverflow s.sp := by
  rw [pushFault?, h, depth]
  by_cases hfull : 16 ≤ s.sp.toNat
  · simp [hfull, eq_comm]
  · simp [hfull]

theorem popFault?_eq_some_iff (h : s.strict = true) (hsp : s.sp.toNat ≤ 16) :
    s.popFault? = some fault ↔ s.sp = 0 ∧ fault = .stackUnderflow := by
  rw [popFault?, h]
  by_cases hzero : s.sp = 0
  · simp [hzero, eq_comm]
  · have hdepth : ¬ depth < s.sp.toNat := Nat.not_lt.mpr hsp
    simp [hzero, hdepth]

theorem sp_lt_of_pushFault? (h : s.strict = true) (hfault : s.pushFault? = none) :
    s.sp.toNat < 16 := by
  simpa [pushFault?, h, depth] using hfault

theorem sp_pos_of_popFault? (h : s.strict = true) (hfault : s.popFault? = none) :
    0 < s.sp.toNat := by
  rw [popFault?] at hfault
  split at hfault
  · contradiction
  · rename_i hsp
    simp only [h, true_and, not_or, ← UInt16.toNat_inj] at hsp
    have hzero : (0 : UInt16).toNat = 0 := rfl
    omega

theorem toNat_sp_pushed (value : UInt16) (h : s.sp.toNat < 16) :
    (s.pushed value).sp.toNat = s.sp.toNat + 1 := by
  have hone : (1 : UInt16).toNat = 1 := rfl
  simp only [pushed, UInt16.toNat_add, hone]
  omega

theorem toNat_sp_popped (h : 0 < s.sp.toNat) : s.popped.sp.toNat + 1 = s.sp.toNat := by
  have hone : (1 : UInt16).toNat = 1 := rfl
  have hlt := s.sp.toNat_lt
  simp only [popped, UInt16.toNat_sub, hone]
  omega

theorem val_slot {sp : UInt16} (h : sp.toNat < 16) : (slot sp).val = sp.toNat :=
  Nat.mod_eq_of_lt h

theorem bounded_clear (h : s.strict = true) : s.clear.Bounded where
  strict := h
  sp := Nat.zero_le 16
  entries k := by
    change (Vector.replicate 16 (0 : UInt16))[k.val].toNat ≤ 0x1000
    rw [Vector.getElem_replicate]
    decide

theorem Bounded.pushed (h : s.Bounded) (hfault : s.pushFault? = none) {value : UInt16}
    (hvalue : value.toNat ≤ 0x1000) : (s.pushed value).Bounded where
  strict := h.strict
  sp := by
    have hsp := sp_lt_of_pushFault? h.strict hfault
    rw [toNat_sp_pushed value hsp]
    omega
  entries k := by
    change (s.put (slot s.sp) value)[k].toNat ≤ 0x1000
    rw [getElem_put]
    split
    · exact hvalue
    · exact h.entries k

theorem Bounded.popped (h : s.Bounded) (hfault : s.popFault? = none) : s.popped.Bounded where
  strict := h.strict
  sp := by
    have hsp := h.sp
    have hpopped := toNat_sp_popped (sp_pos_of_popFault? h.strict hfault)
    omega
  entries := h.entries

theorem Bounded.exact_push (h : s.Bounded) {value : UInt16} {t : CallStack}
    (hpush : (push value).run s = .ok () t) :
    (slot s.sp).val = s.sp.toNat ∧ t.sp.toNat = s.sp.toNat + 1 := by
  rw [run_push] at hpush
  obtain ⟨hfault, -, rfl⟩ := Fault.of_settle_eq_ok hpush
  have hsp := sp_lt_of_pushFault? h.strict hfault
  exact ⟨val_slot hsp, toNat_sp_pushed value hsp⟩

theorem Bounded.exact_pop (h : s.Bounded) {value : UInt16} {t : CallStack}
    (hpop : pop.run s = .ok value t) :
    (slot t.sp).val = t.sp.toNat ∧ t.sp.toNat + 1 = s.sp.toNat := by
  rw [run_pop] at hpop
  obtain ⟨hfault, -, rfl⟩ := Fault.of_settle_eq_ok hpop
  have hsp := h.sp
  have hpopped := toNat_sp_popped (sp_pos_of_popFault? h.strict hfault)
  exact ⟨val_slot (by omega), hpopped⟩

end CallStack

/-- What the checks of a strict machine keep its counters to. The furthest that a
program can get is a jump past the end of memory. -/
structure Machine.Bounded (m : Machine) : Prop where
  config : m.config.strict = true
  memory : m.memory.strict = true
  stack : m.stack.Bounded
  pc : m.pc.toNat ≤ 0x10FE

/-- Behind a word that could be fetched, an instruction leads no further than a
strict machine may get. -/
theorem Instruction.bounded_effect (i : Instruction) {m : Machine} (hstack : m.stack.Bounded)
    (hpc : 2 ≤ m.pc.toNat ∧ m.pc.toNat ≤ 0x1000) (hfault : i.fault? m = none) :
    (i.effect m).stack.Bounded ∧ (i.effect m).pc.toNat ≤ 0x10FE := by
  have htwo : (2 : UInt16).toNat = 2 := rfl
  have hsame : m.pc.toNat ≤ 0x10FE := by omega
  cases i with
  | ret => exact ⟨hstack.popped hfault, Nat.le_trans (hstack.entries _) (by decide)⟩
  | jump target =>
      refine ⟨hstack, ?_⟩
      simp only [effect, Address.toNat_toWord]
      omega
  | call target =>
      refine ⟨hstack.pushed hfault hpc.2, ?_⟩
      simp only [effect, Address.toNat_toWord]
      omega
  | skip condition =>
      refine ⟨hstack, ?_⟩
      simp only [effect]
      split
      · rw [UInt16.toNat_add]
        omega
      · exact hsame
  | jumpOffset base =>
      -- The furthest of all: the last address and the largest byte.
      have hv := m.v[Reg.first].toNat_lt
      refine ⟨hstack, ?_⟩
      simp only [effect, UInt16.toNat_add, Address.toNat_toWord, UInt8.toNat_toUInt16]
      omega
  | waitKey x =>
      refine ⟨hstack, ?_⟩
      simp only [effect]
      split
      · exact hsame
      · rw [UInt16.toNat_sub]
        omega
  | _ => exact ⟨hstack, hsame⟩

namespace Machine

variable {m : Machine}

/-- Strict memory has a word at the program counter only if both its bytes are
below the end of memory. -/
theorem pc_of_fetchable (hm : m.memory.strict = true)
    (h : Memory.spanFault? m.memory.strict m.pc 2 = none) : m.pc.toNat ≤ 0xFFE := by
  rw [hm, Memory.spanFault?_eq] at h
  split at h
  · contradiction
  · rename_i hspan
    simp only [true_and] at hspan
    omega

theorem toNat_pc_fetched (h : m.pc.toNat ≤ 0x10FE) : m.fetched.pc.toNat = m.pc.toNat + 2 := by
  have htwo : (2 : UInt16).toNat = 2 := rfl
  rw [fetched, UInt16.toNat_add]
  omega

theorem Bounded.stepped (hm : m.Bounded) (hfault : m.stepFault? = none) : m.stepped.Bounded := by
  rw [stepFault?, Option.or_eq_none_iff] at hfault
  have hpc := pc_of_fetchable hm.memory hfault.1
  have hfetched := toNat_pc_fetched hm.pc
  obtain ⟨hstack, hnext⟩ := m.instruction.bounded_effect (m := m.fetched) hm.stack
    (by omega) hfault.2
  exact ⟨(congrArg Config.strict (Instruction.config_effect _ _)).trans hm.config,
    (Instruction.memoryStrict_effect _ _).trans hm.memory, hstack, hnext⟩

theorem Bounded.step (hm : m.Bounded) : m.step.2.Bounded := by
  rcases step_cases m with ⟨-, hstep⟩ | ⟨fault, -, -, hstep⟩ | ⟨-, hfault, hstep⟩
  · rw [hstep]
    exact hm
  · rw [hstep]
    exact ⟨hm.config, hm.memory, hm.stack, hm.pc⟩
  · rw [hstep]
    exact hm.stepped hfault

theorem Bounded.apply (c : Command) (hm : m.Bounded) : (c.apply m).2.Bounded := by
  have hreset : Address.reset.toWord.toNat ≤ 0x10FE := by decide
  have hstack := CallStack.bounded_clear hm.stack.strict
  cases c with
  | load image =>
      rw [Command.apply_load]
      split
      · exact hm
      · exact ⟨hm.config, (Memory.strict_store _ _ _).trans hm.memory, hstack, hreset⟩
  | step =>
      rw [Command.apply_step]
      exact hm.step
  | reset => exact ⟨hm.config, hm.memory, hstack, hreset⟩
  | stop => exact ⟨hm.config, hm.memory, hstack, hreset⟩
  | toggle =>
      rw [Command.apply_toggle]
      exact ⟨hm.config, hm.memory, hm.stack, hm.pc⟩
  | _ => exact ⟨hm.config, hm.memory, hm.stack, hm.pc⟩

theorem bounded_new (config : Config) (random : RandomTape) (h : config.strict = true) :
    Bounded { config, random } where
  config := h
  memory := h
  stack := CallStack.bounded_clear (s := { strict := config.strict }) h
  pc := show Address.reset.toWord.toNat ≤ 0x10FE by decide

/-- In the next step of the machine no counter goes round, the slot of a call is
the stack pointer itself, and no access goes to another address than the one it
was made with. -/
structure Exact (m : Machine) : Prop where
  secondByte : (m.pc + 1).toNat = m.pc.toNat + 1
  fetch : m.fetched.pc.toNat = m.pc.toNat + 2
  skip : (m.fetched.pc + 2).toNat = m.fetched.pc.toNat + 2
  rewind : (m.fetched.pc - 2).toNat + 2 = m.fetched.pc.toNat
  push : ∀ value s, (CallStack.push value).run m.stack = .ok () s →
    (CallStack.slot m.stack.sp).val = m.stack.sp.toNat ∧ s.sp.toNat = m.stack.sp.toNat + 1
  pop : ∀ value s, CallStack.pop.run m.stack = .ok value s →
    (CallStack.slot s.sp).val = s.sp.toNat ∧ s.sp.toNat + 1 = m.stack.sp.toNat
  access : ∀ address a, m.memory.resolve address = .ok a → a.val = address.toNat

theorem Bounded.exact (hm : m.Bounded) : m.Exact := by
  have hone : (1 : UInt16).toNat = 1 := rfl
  have htwo : (2 : UInt16).toNat = 2 := rfl
  have hpc := hm.pc
  have hfetched := toNat_pc_fetched hm.pc
  refine ⟨?_, hfetched, ?_, ?_, fun _ _ => hm.stack.exact_push, fun _ _ => hm.stack.exact_pop,
    fun _ _ => Memory.val_of_resolve hm.memory⟩
  · rw [UInt16.toNat_add]
    omega
  · rw [UInt16.toNat_add]
    omega
  · rw [UInt16.toNat_sub]
    omega

end Machine

namespace Command

/-- A strict machine stays strict in all its parts and within its bounds, whatever
it runs, and so it never goes round or masks anything. -/
theorem strict_run_bounded {config : Config} (hstrict : config.strict = true)
    (random : RandomTape) (history : List Command) :
    let m := (run history { config, random }).2
    m.config.strict = true ∧ m.memory.strict = true ∧ m.stack.strict = true ∧
      m.stack.sp.toNat ≤ 16 ∧ m.pc.toNat ≤ 0x10FE ∧ (∀ k : Slot, m.stack[k].toNat ≤ 0x1000) ∧
      m.Exact := by
  intro m
  have hm : m.Bounded :=
    run_preserves (fun c _ => Machine.Bounded.apply c) history
      (Machine.bounded_new config random hstrict)
  exact ⟨hm.config, hm.memory, hm.stack.strict, hm.stack.sp, hm.pc, hm.stack.entries, hm.exact⟩

/-- A program that calls itself gets no further than its sixteenth call. -/
theorem strict_run_bounded_recursion :
    let config : Config := { strict := true }
    let history := load #[0x22, 0x00] :: List.replicate 20 step
    let m := (run history { config, random := .ofSeed 0 }).2
    m.stack.sp.toNat ≤ 16 ∧ m.pc.toNat ≤ 0x10FE ∧ m.Exact := by
  intro config history m
  have hstrict : config.strict = true := rfl
  clear_value history
  obtain ⟨-, -, -, hsp, hpc, -, hexact⟩ := strict_run_bounded hstrict (.ofSeed 0) history
  exact ⟨hsp, hpc, hexact⟩

end Command

end Chip8
