import Chip8.Proofs.Lockstep

namespace Chip8

/-- Two words name the same byte of memory: they agree in the low twelve bits. -/
def Address.Alias (a b : UInt16) : Prop := b.toNat % 4096 = a.toNat % 4096

namespace Address.Alias

instance (a b : UInt16) : Decidable (Alias a b) := Nat.decEq _ _

variable {a b : UInt16}

theorem ofWord_eq (h : Alias a b) : Address.ofWord b = Address.ofWord a := Fin.ext h

theorem add (h : Alias a b) (k : UInt16) : Alias (a + k) (b + k) := by
  simp only [Alias, UInt16.toNat_add] at h ⊢
  omega

theorem sub (h : Alias a b) (k : UInt16) : Alias (a - k) (b - k) := by
  have hk := k.toNat_lt
  simp only [Alias, UInt16.toNat_sub] at h ⊢
  omega

end Address.Alias

open Address (Alias)

namespace Memory

variable {a b : UInt16}

theorem store_of_alias (h : Alias a b) (bytes : List UInt8) (m : Memory) :
    m.store b bytes = m.store a bytes := by
  induction bytes generalizing a b m with
  | nil => rfl
  | cons byte rest ih =>
      have hput : m.put b byte = m.put a byte := by
        simp only [put, h.ofWord_eq]
      rw [store, store, hput, ih (h.add 1)]

theorem bytesAt_of_alias (h : Alias a b) (length : Nat) (m : Memory) :
    m.bytesAt b length = m.bytesAt a length := by
  induction length generalizing a b with
  | zero => rfl
  | succ length ih => rw [bytesAt, bytesAt, h.ofWord_eq, ih (h.add 1)]

end Memory

namespace CallStack

/-- Two stacks that agree in the low four bits of their stack pointers, and slot
by slot in the low twelve bits of the return addresses. -/
structure Alias (s t : CallStack) : Prop where
  strict : t.strict = s.strict
  sp : t.sp.toNat % 16 = s.sp.toNat % 16
  entries : ∀ k : Slot, Address.Alias s[k] t[k]

variable {s t : CallStack} {a b : UInt16}

theorem slot_sub_one (h : t.sp.toNat % 16 = s.sp.toNat % 16) :
    slot (t.sp - 1) = slot (s.sp - 1) := by
  apply Fin.ext
  have hone : (1 : UInt16).toNat = 1 := rfl
  simp only [slot, UInt16.toNat_sub, hone]
  omega

theorem Alias.pushed (h : s.Alias t) (hab : Address.Alias a b) :
    (s.pushed a).Alias (t.pushed b) where
  strict := h.strict
  sp := by
    simp only [CallStack.pushed, UInt16.toNat_add]
    have hsp := h.sp
    omega
  entries k := by
    have hslot : slot t.sp = slot s.sp := Fin.ext h.sp
    change Address.Alias (s.put (slot s.sp) a)[k] (t.put (slot t.sp) b)[k]
    rw [getElem_put, getElem_put, hslot]
    split
    · exact hab
    · exact h.entries k

theorem Alias.popped (h : s.Alias t) : s.popped.Alias t.popped where
  strict := h.strict
  sp := congrArg Fin.val (slot_sub_one h.sp)
  entries := h.entries

theorem Alias.top (h : s.Alias t) : Address.Alias s.top t.top := by
  rw [CallStack.top, CallStack.top, slot_sub_one h.sp]
  exact h.entries _

theorem Alias.clear (h : s.Alias t) : s.clear.Alias t.clear := by
  rw [CallStack.clear, CallStack.clear, h.strict]
  exact ⟨rfl, rfl, fun _ => rfl⟩

end CallStack

/-- Two machines that are the same but for the bits of program counter, stack
pointer and return addresses that name no other byte or slot, and of the index
register unless `exact`. -/
structure Machine.Alias (exact : Bool) (m n : Machine) : Prop where
  rest : n = { m with pc := n.pc, index := n.index, stack := n.stack }
  pc : Address.Alias m.pc n.pc
  index : Address.Alias m.index n.index
  exact : exact = true → n.index = m.index
  stack : m.stack.Alias n.stack

variable {exact : Bool} {m n : Machine}

theorem Machine.Alias.uniform {strict : Bool} (h : m.Alias exact n) (hm : m.Uniform strict) :
    n.Uniform strict where
  config := by
    rw [h.rest]
    exact hm.config
  memory := by
    rw [h.rest]
    exact hm.memory
  stack := h.stack.strict.trans hm.stack

theorem Machine.Alias.spriteTargets_eq (h : m.Alias exact n) (x y : Reg) (height : Fin 16) :
    n.spriteTargets x y height = m.spriteTargets x y height := by
  have hbytes := Memory.bytesAt_of_alias h.index height.val m.memory
  rw [h.rest]
  exact congrArg (Framebuffer.targets m.config.sprite m.v[x] m.v[y]) hbytes

/-- An instruction uses the high bits for nothing but to pass them on. Only the
flag of an addition to the index register shows them. -/
theorem Instruction.alias_effect {i : Instruction} (h : m.Alias exact n)
    (hi : exact = false → ∀ x, i ≠ .addIndex x) : (i.effect m).Alias exact (i.effect n) := by
  have htargets := h.spriteTargets_eq
  obtain ⟨pc, index, stack, rfl⟩ : ∃ pc index stack, n = { m with pc, index, stack } :=
    ⟨n.pc, n.index, n.stack, h.rest⟩
  obtain ⟨-, hpc, hindex, hexact, hstack⟩ := h
  cases i with
  | ret => exact ⟨rfl, hstack.top, hindex, hexact, hstack.popped⟩
  | jump target => exact ⟨rfl, rfl, hindex, hexact, hstack⟩
  | call target => exact ⟨rfl, rfl, hindex, hexact, hstack.pushed hpc⟩
  | skip condition =>
      refine ⟨rfl, ?_, hindex, hexact, hstack⟩
      simp only [effect]
      split
      · exact hpc.add 2
      · exact hpc
  | loadIndex target => exact ⟨rfl, hpc, rfl, fun _ => rfl, hstack⟩
  | jumpOffset base => exact ⟨rfl, rfl, hindex, hexact, hstack⟩
  | draw x y height =>
      refine ⟨?_, hpc, hindex, hexact, hstack⟩
      simp only [effect, htargets]
  | waitKey x =>
      refine ⟨rfl, ?_, hindex, hexact, hstack⟩
      simp only [effect]
      split
      · exact hpc
      · exact hpc.sub 2
  | addIndex x =>
      cases exact with
      | false => exact absurd rfl (hi rfl x)
      | true =>
          -- The flag compares the index register as a whole with the last address.
          obtain rfl : index = m.index := hexact rfl
          exact ⟨rfl, hpc, rfl, fun _ => rfl, hstack⟩
  | loadGlyph x => exact ⟨rfl, hpc, rfl, fun _ => rfl, hstack⟩
  | storeDecimal x =>
      refine ⟨?_, hpc, hindex, hexact, hstack⟩
      simp only [effect, Memory.store_of_alias hindex]
  | storeRegisters x =>
      refine ⟨?_, hpc, hindex.add _, fun h => ?_, hstack⟩
      · simp only [effect, Memory.store_of_alias hindex]
      · exact congrArg (· + UInt16.ofNat (x.val + 1)) (hexact h)
  | loadRegisters x =>
      refine ⟨?_, hpc, hindex.add _, fun h => ?_, hstack⟩
      · simp only [effect, Memory.bytesAt_of_alias hindex]
      · exact congrArg (· + UInt16.ofNat (x.val + 1)) (hexact h)
  | _ => exact ⟨rfl, hpc, hindex, hexact, hstack⟩

namespace Machine

theorem Alias.word_eq (h : m.Alias exact n) : n.word = m.word := by
  have hmemory : n.memory = m.memory := by rw [h.rest]
  rw [word, word, hmemory, h.pc.ofWord_eq, (h.pc.add 1).ofWord_eq]

theorem Alias.fetched (h : m.Alias exact n) : m.fetched.Alias exact n.fetched where
  rest := congrArg Machine.fetched h.rest
  pc := h.pc.add 2
  index := h.index
  exact := h.exact
  stack := h.stack

theorem Alias.executed (h : m.Alias exact n)
    (hi : exact = false → ∀ x, m.instruction ≠ .addIndex x) :
    m.executed.Alias exact n.executed := by
  have hinstruction : n.instruction = m.instruction := congrArg Instruction.decode h.word_eq
  rw [Machine.executed, Machine.executed, hinstruction]
  exact Instruction.alias_effect h.fetched hi

theorem Alias.nextStatistics_eq (h : m.Alias exact n) (he : m.executed.Alias exact n.executed) :
    n.nextStatistics = m.nextStatistics := by
  have hstatistics : n.executed.statistics = m.executed.statistics := by rw [he.rest]
  have hwaiting : n.executed.waiting = m.executed.waiting := by rw [he.rest]
  rw [nextStatistics, nextStatistics, hstatistics, hwaiting, h.word_eq]

theorem Alias.stepped (h : m.Alias exact n)
    (hi : exact = false → ∀ x, m.instruction ≠ .addIndex x) :
    n.nextOutcome = m.nextOutcome ∧ m.stepped.Alias exact n.stepped := by
  have he := h.executed hi
  have hwaiting : n.executed.waiting = m.executed.waiting := by rw [he.rest]
  refine ⟨by rw [nextOutcome, nextOutcome, hwaiting], ?_, he.pc, he.index, he.exact, he.stack⟩
  rw [Machine.stepped, Machine.stepped, h.nextStatistics_eq he, he.rest]

end Machine

namespace Command

/-- The command does not add a register to the index register. -/
def LeavesIndexSum (c : Command) (m : Machine) : Prop := ∀ x, c.executes? m ≠ some (.addIndex x)

theorem leavesIndexSum_of_executes {c : Command} {i : Instruction} (h : c.executes? m = some i)
    (hi : ∀ x, i ≠ .addIndex x) : c.LeavesIndexSum m := by
  intro x hx
  rw [h, Option.some.injEq] at hx
  exact hi x hx

theorem alias_step (hm : m.Uniform false) (h : m.Alias exact n)
    (hi : exact = false → step.LeavesIndexSum m) :
    n.step.1 = m.step.1 ∧ m.step.2.Alias exact n.step.2 := by
  have hrun : n.running = m.running := by
    rw [h.rest]
    rfl
  have hfault : n.stepFault? = m.stepFault? :=
    (Machine.stepFault?_of_loose (h.uniform hm)).trans (Machine.stepFault?_of_loose hm).symm
  rcases Machine.step_cases_of_alike hrun hfault with
    ⟨hstep, hstep'⟩ | ⟨fault, hstep, hstep'⟩ | ⟨hexecutes, hstep, hstep'⟩
  · rw [hstep, hstep']
    exact ⟨rfl, h⟩
  · rw [hstep, hstep']
    exact ⟨rfl, congrArg (fun m : Machine => { m with waiting := false }) h.rest,
      h.pc, h.index, h.exact, h.stack⟩
  · rw [LeavesIndexSum, hexecutes] at hi
    obtain ⟨houtcome, hnext⟩ := h.stepped fun hexact x heq => hi hexact x (congrArg some heq)
    rw [hstep, hstep', houtcome]
    exact ⟨rfl, hnext⟩

theorem alias_apply (c : Command) (hm : m.Uniform false) (h : m.Alias exact n)
    (hi : exact = false → c.LeavesIndexSum m) :
    (c.apply n).1 = (c.apply m).1 ∧ (c.apply m).2.Alias exact (c.apply n).2 := by
  obtain ⟨pc, index, stack, rfl⟩ : ∃ pc index stack, n = { m with pc, index, stack } :=
    ⟨n.pc, n.index, n.stack, h.rest⟩
  cases c with
  | step =>
      obtain ⟨hanswer, hnext⟩ := alias_step hm h hi
      rw [apply_step, apply_step, hanswer]
      exact ⟨rfl, hnext⟩
  | load image =>
      rw [apply_load, apply_load]
      split
      · exact ⟨rfl, h⟩
      · exact ⟨rfl, rfl, rfl, rfl, fun _ => rfl, h.stack.clear⟩
  | reset => exact ⟨rfl, rfl, rfl, rfl, fun _ => rfl, h.stack.clear⟩
  | stop => exact ⟨rfl, rfl, rfl, rfl, fun _ => rfl, h.stack.clear⟩
  | toggle =>
      rw [apply_toggle, apply_toggle]
      exact ⟨rfl, rfl, h.pc, h.index, h.exact, h.stack⟩
  | _ => exact ⟨rfl, rfl, h.pc, h.index, h.exact, h.stack⟩

/-- Without checks, no history tells two machines apart that differ in the high
bits of program counter, stack pointer and return addresses only: all answers are
the same, and so is all that the two hold but for those bits. Where no register
is added to the index register, this extends to its high bits. -/
theorem high_bits_unobservable (hm : m.Uniform false) (h : m.Alias exact n)
    {history : List Command} (hi : exact = false → Along LeavesIndexSum history m) :
    (run history n).1 = (run history m).1 ∧ (run history m).2.Alias exact (run history n).2 := by
  have hallowed : Along (fun c m => exact = false → c.LeavesIndexSum m) history m := by
    cases exact with
    | false => exact (hi rfl).imp fun _ _ hc _ => hc
    | true => exact along_of_forall (fun _ _ _ hfalse => absurd hfalse.symm Bool.false_ne_true) m
  have hstep : ∀ (c : Command) (m n : Machine), (exact = false → c.LeavesIndexSum m) →
      m.Uniform false ∧ m.Alias exact n → (c.apply n).1 = (c.apply m).1 ∧
        (c.apply m).2.Uniform false ∧ (c.apply m).2.Alias exact (c.apply n).2 := by
    rintro c m n hc ⟨hm, h⟩
    obtain ⟨hanswer, hnext⟩ := alias_apply c hm h hc
    exact ⟨hanswer, hm.apply c, hnext⟩
  obtain ⟨hanswers, -, hlast⟩ := run_lockstep hstep hallowed ⟨hm, h⟩
  exact ⟨hanswers, hlast⟩

theorem along_call_then_ret {target : Address} (hcall : step.executes? m = some (.call target))
    (hret : step.executes? (run [step, tick] m).2 = some .ret) :
    Along LeavesIndexSum [step, tick, step] m := by
  refine ⟨leavesIndexSum_of_executes hcall (by simp), fun x hx => ?_,
    leavesIndexSum_of_executes hret (by simp), trivial⟩
  simp [executes?] at hx

/-- A call and its return, made high up in the address space and with the stack
pointer about to go round. -/
theorem high_bits_unobservable_call :
    let m : Machine := Machine.starting #[0x22, 0x02, 0x00, 0xEE]
      { config := {}, random := .ofSeed 0 }
    let n : Machine := { m with
      pc := 0xF200
      index := 0x3000
      stack := { m.stack with entries := Vector.replicate 16 0xA000, sp := 0xFFF0 } }
    (run [step, tick, step] n).1 = (run [step, tick, step] m).1 ∧
      (run [step, tick, step] m).2.Alias false (run [step, tick, step] n).2 := by
  intro m n
  have hnew : Machine.Uniform false { config := {}, random := .ofSeed 0 } :=
    Machine.uniform_new {} (.ofSeed 0)
  have hm : m.Uniform false := hnew.starting _
  have hpc : Address.Alias Address.reset.toWord 0xF200 := by decide
  have hindex : Address.Alias 0 0x3000 := by decide
  have hstack : m.stack.Alias n.stack := by
    refine ⟨rfl, show (0xFFF0 : UInt16).toNat % 16 = (0 : UInt16).toNat % 16 by decide, fun k => ?_⟩
    change ((Vector.replicate 16 (0xA000 : UInt16))[k]).toNat % 4096 =
      ((Vector.replicate 16 (0 : UInt16))[k]).toNat % 4096
    simp
  have halias : m.Alias false n := ⟨rfl, hpc, hindex, by simp, hstack⟩
  obtain ⟨hcall, hret⟩ := executes?_call_then_ret hnew
  exact high_bits_unobservable hm halias fun _ => along_call_then_ret hcall hret

end Command

end Chip8
