import Chip8.Proofs.Strictness

namespace Chip8

namespace CallStack

/-- A call made at stack pointer `k` is still open, with `n` calls open since
just before it, and its slot holds its return address. -/
structure HasOpen (k back : UInt16) (n : Nat) (s : CallStack) : Prop where
  sp : s.sp = k + UInt16.ofNat n
  kept : s[slot k] = back

variable {k back : UInt16} {n : Nat} {s : CallStack}

theorem hasOpen_pushed (back : UInt16) (s : CallStack) : (s.pushed back).HasOpen s.sp back 1 where
  sp := rfl
  kept := (getElem_put _ _ _ _).trans (if_pos rfl)

theorem slot_add_ne (k : UInt16) (hpos : 0 < n) (hn : n < 16) :
    slot (k + UInt16.ofNat n) ≠ slot k := by
  intro h
  have hval : (k + UInt16.ofNat n).toNat % 16 = k.toNat % 16 := congrArg Fin.val h
  rw [UInt16.toNat_add, UInt16.toNat_ofNat'] at hval
  omega

/-- Fewer than sixteen levels up, a further call goes to another slot. -/
theorem HasOpen.pushed (h : s.HasOpen k back n) (value : UInt16) (hpos : 0 < n) (hn : n < 16) :
    (s.pushed value).HasOpen k back (n + 1) where
  sp := by
    apply UInt16.toNat_inj.mp
    have hone : (1 : UInt16).toNat = 1 := rfl
    simp only [CallStack.pushed, h.sp, UInt16.toNat_add, UInt16.toNat_ofNat', hone]
    omega
  kept := by
    have hne : slot s.sp ≠ slot k := h.sp ▸ slot_add_ne k hpos hn
    change (s.put (slot s.sp) value)[slot k] = back
    rw [getElem_put, if_neg hne]
    exact h.kept

theorem HasOpen.popped (h : s.HasOpen k back (n + 1)) : s.popped.HasOpen k back n where
  sp := by
    apply UInt16.toNat_inj.mp
    have hone : (1 : UInt16).toNat = 1 := rfl
    have hk := k.toNat_lt
    simp only [CallStack.popped, h.sp, UInt16.toNat_sub, UInt16.toNat_add, UInt16.toNat_ofNat',
      hone]
    omega
  kept := h.kept

theorem HasOpen.sp_popped (h : s.HasOpen k back 1) : s.popped.sp = k := by
  have hzero : k + UInt16.ofNat 0 = k := by simp
  rw [h.popped.sp, hzero]

theorem HasOpen.top (h : s.HasOpen k back 1) : s.top = back := by
  have hsp : s.sp - 1 = k := h.sp_popped
  rw [CallStack.top, hsp]
  exact h.kept

end CallStack

/-- How many more calls are open after an instruction than before it. -/
def Instruction.opened : Instruction → Int
  | call _ => 1
  | ret => -1
  | _ => 0

theorem Instruction.stack_effect_of_opened {i : Instruction} (m : Machine) (h : i.opened = 0) :
    (i.effect m).stack = m.stack := by
  cases i with
  | call target => exact absurd h (show ¬ (1 : Int) = 0 by decide)
  | ret => exact absurd h (show ¬ (-1 : Int) = 0 by decide)
  | _ => rfl

namespace Command

/-- The instruction that a command carries out, if it carries out one. -/
def executes? (c : Command) (m : Machine) : Option Instruction :=
  match c, m.step.1 with
  | step, .ok .executed => some m.instruction
  | step, .ok .waitingForKey => some m.instruction
  | _, _ => none

def opened (c : Command) (m : Machine) : Int :=
  match c.executes? m with
  | some i => i.opened
  | none => 0

def openedBy (history : List Command) (m : Machine) : Int :=
  match history with
  | [] => 0
  | c :: rest => c.opened m + openedBy rest (c.apply m).2

/-- A command that does not throw the open calls away. -/
def KeepsCalls : Command → Prop
  | load _ | reset | stop => False
  | _ => True

theorem executes?_of_no_fault {m : Machine} (hrun : m.running = true)
    (h : m.stepFault? = none) : step.executes? m = some m.instruction := by
  simp only [executes?, Machine.step_of_no_fault hrun h, Machine.nextOutcome]
  by_cases hwaiting : m.executed.waiting = true
  · simp only [hwaiting, if_true]
  · simp only [hwaiting, if_false, Bool.false_eq_true]

theorem executes?_step (m : Machine) :
    (step.executes? m = none ∧ (step.apply m).2.stack = m.stack) ∨
    (step.executes? m = some m.instruction ∧ m.step = (.ok m.nextOutcome, m.stepped)) := by
  rcases m.step_cases with ⟨-, hstep⟩ | ⟨fault, -, -, hstep⟩ | ⟨hrun, hfault, hstep⟩
  · exact .inl ⟨by simp only [executes?, hstep], by simp only [apply_step, hstep]⟩
  · exact .inl ⟨by simp only [executes?, hstep], by simp only [apply_step, hstep]⟩
  · exact .inr ⟨executes?_of_no_fault hrun hfault, hstep⟩

theorem step_of_executes? {m : Machine} {i : Instruction} (h : step.executes? m = some i) :
    m.instruction = i ∧ m.step = (.ok m.nextOutcome, m.stepped) := by
  rcases executes?_step m with ⟨hnone, -⟩ | ⟨hsome, hstep⟩
  · rw [hnone] at h
    contradiction
  · rw [hsome, Option.some.injEq] at h
    exact ⟨h, hstep⟩

theorem of_executes?_step {m : Machine} {i : Instruction} (h : step.executes? m = some i) :
    (step.apply m).2.pc = (i.effect m.fetched).pc ∧
      (step.apply m).2.stack = (i.effect m.fetched).stack := by
  obtain ⟨rfl, hstep⟩ := step_of_executes? h
  rw [apply_step, hstep]
  exact ⟨rfl, rfl⟩

/-- A loose machine carries out the first instruction of a program. -/
theorem executes?_starting {image : Image} {m : Machine} {high low : UInt8}
    (hm : m.Uniform false) (h : image.size ≤ Image.capacity)
    (hhigh : image.toList[0]? = some high) (hlow : image.toList[1]? = some low) :
    step.executes? (m.starting image) = some (.decode (.ofBytes high low)) := by
  rw [← Machine.instruction_starting image m h hhigh hlow]
  exact executes?_of_no_fault rfl (Machine.stepFault?_of_loose (hm.starting image))

/-- All that a command can do to the open calls. -/
theorem stack_apply_cases {c : Command} (m : Machine) (hc : c.KeepsCalls) :
    (c.opened m = 0 ∧ (c.apply m).2.stack = m.stack) ∨
    (c.opened m = 1 ∧ ∃ back, (c.apply m).2.stack = m.stack.pushed back) ∨
    (c.opened m = -1 ∧ (c.apply m).2.stack = m.stack.popped) := by
  cases c with
  | load image => exact hc.elim
  | reset => exact hc.elim
  | stop => exact hc.elim
  | toggle =>
      rw [apply_toggle]
      exact .inl ⟨rfl, rfl⟩
  | step =>
      rcases executes?_step m with ⟨hnone, hstack⟩ | ⟨hsome, -⟩
      · exact .inl ⟨by simp only [opened, hnone], hstack⟩
      · have hopened : step.opened m = m.instruction.opened := by simp only [opened, hsome]
        rw [hopened, (of_executes?_step hsome).2]
        cases hi : m.instruction with
        | call target => exact .inr (.inl ⟨rfl, m.pc + 2, rfl⟩)
        | ret => exact .inr (.inr ⟨rfl, rfl⟩)
        | _ => exact .inl ⟨rfl, Instruction.stack_effect_of_opened _ rfl⟩
  | _ => exact .inl ⟨rfl, rfl⟩

theorem hasOpen_apply {c : Command} {m : Machine} {k back : UInt16} {n : Nat}
    (hc : c.KeepsCalls) (h : m.stack.HasOpen k back n) (hn : 0 < n)
    (hnext : 1 ≤ n + c.opened m ∧ n + c.opened m ≤ 16) :
    ∃ next : Nat, next = n + c.opened m ∧ (c.apply m).2.stack.HasOpen k back next := by
  rcases stack_apply_cases m hc with ⟨hsame, hstack⟩ | ⟨hcall, value, hstack⟩ | ⟨hret, hstack⟩
  · rw [hsame, hstack]
    exact ⟨n, by omega, h⟩
  · rw [hcall] at hnext ⊢
    rw [hstack]
    exact ⟨n + 1, by omega, h.pushed value hn (by omega)⟩
  · rw [hret] at hnext ⊢
    rw [hstack]
    obtain ⟨next, rfl⟩ : ∃ next, n = next + 1 := ⟨n - 1, by omega⟩
    exact ⟨next, by omega, h.popped⟩

/-- A call stays open for as long as between one and sixteen calls are. -/
theorem hasOpen_run {history : List Command} {m : Machine} {k back : UInt16} {n : Nat}
    (hkeep : ∀ c ∈ history, c.KeepsCalls) (h : m.stack.HasOpen k back n)
    (hopen : ∀ before, before <+: history →
      1 ≤ n + openedBy before m ∧ n + openedBy before m ≤ 16) :
    ∃ last : Nat, last = n + openedBy history m ∧
      (run history m).2.stack.HasOpen k back last := by
  -- The bounds on every prefix pass on to the rest, with the count moved on.
  induction history generalizing m n with
  | nil => exact ⟨n, by simp only [openedBy]; omega, h⟩
  | cons c rest ih =>
      have hpos := hopen [] List.nil_prefix
      have hfirst := hopen [c] (by simp)
      simp only [openedBy] at hpos hfirst
      obtain ⟨next, hnext, hstack⟩ :=
        hasOpen_apply (hkeep c List.mem_cons_self) h (by omega) (by omega)
      obtain ⟨last, hlast, hrun⟩ := ih (fun d hd => hkeep d (List.mem_cons_of_mem _ hd)) hstack
        fun before hbefore => by
          have hall := hopen (c :: before) (List.cons_prefix_cons.mpr ⟨rfl, hbefore⟩)
          simp only [openedBy] at hall
          omega
      refine ⟨last, ?_, hrun⟩
      simp only [openedBy]
      omega

/-- A return goes back behind its own call, if from the one to the other the
calls that are open never number less than one or more than sixteen. -/
theorem ret_resumes_call {m : Machine} {middle : List Command} {target : Address}
    (hcall : step.executes? m = some (.call target))
    (hkeep : ∀ c ∈ middle, c.KeepsCalls)
    (hret : step.executes? (run (step :: middle) m).2 = some .ret)
    (hopen : ∀ before, before <+: middle →
      1 ≤ openedBy (step :: before) m ∧ openedBy (step :: before) m ≤ 16)
    (hlast : openedBy (step :: middle) m = 1) :
    (run (step :: middle ++ [step]) m).2.pc = m.pc + 2 ∧
      (run (step :: middle ++ [step]) m).2.stack.sp = m.stack.sp := by
  have hopened : step.opened m = 1 := by
    simp only [opened, hcall]
    rfl
  have hstart : (step.apply m).2.stack.HasOpen m.stack.sp (m.pc + 2) 1 := by
    rw [(of_executes?_step hcall).2]
    exact CallStack.hasOpen_pushed (m.pc + 2) m.stack
  have hafter : ∀ before, openedBy (step :: before) m = 1 + openedBy before (step.apply m).2 := by
    intro before
    rw [openedBy, hopened]
  simp only [hafter] at hopen hlast
  obtain ⟨last, hcount, hrun⟩ := hasOpen_run hkeep hstart hopen
  obtain rfl : last = 1 := by omega
  obtain ⟨hpc, hstack⟩ := of_executes?_step hret
  have hend : (run (step :: middle ++ [step]) m).2 =
      (step.apply (run (step :: middle) m).2).2 := by
    rw [run_append]
    rfl
  rw [hend, hpc, hstack]
  exact ⟨hrun.top, hrun.sp_popped⟩

theorem executes?_call_then_ret {m : Machine} (hm : m.Uniform false) :
    step.executes? (m.starting #[0x22, 0x02, 0x00, 0xEE]) = some (.call 0x202) ∧
      step.executes? (run [step, tick] (m.starting #[0x22, 0x02, 0x00, 0xEE])).2 = some .ret := by
  have hstarting := hm.starting #[0x22, 0x02, 0x00, 0xEE]
  have hcall : (m.starting #[0x22, 0x02, 0x00, 0xEE]).instruction = .call 0x202 :=
    (Machine.instruction_starting _ m (by decide) rfl rfl).trans (by decide)
  have hfirst := executes?_of_no_fault rfl (Machine.stepFault?_of_loose hstarting)
  have hstepped := Machine.step_of_no_fault rfl (Machine.stepFault?_of_loose hstarting)
  have hword : (m.starting #[0x22, 0x02, 0x00, 0xEE]).stepped.tick.word = 0x00EE := by
    rw [Machine.stepped, Machine.executed, hcall]
    have hhigh := Machine.getElem_starting #[0x22, 0x02, 0x00, 0xEE] m (Address.ofWord 0x202)
      (by decide)
    have hlow := Machine.getElem_starting #[0x22, 0x02, 0x00, 0xEE] m (Address.ofWord 0x203)
      (by decide)
    change Word.ofBytes
      (m.starting #[0x22, 0x02, 0x00, 0xEE]).memory[Address.ofWord 0x202]
      (m.starting #[0x22, 0x02, 0x00, 0xEE]).memory[Address.ofWord 0x203] = 0x00EE
    rw [hhigh, hlow, show Memory.offset Address.reset.toWord (Address.ofWord 0x202) = 2 by decide,
      show Memory.offset Address.reset.toWord (Address.ofWord 0x203) = 3 by decide]
    change Word.ofBytes 0x00 0xEE = 0x00EE
    decide
  have hret : (m.starting #[0x22, 0x02, 0x00, 0xEE]).stepped.tick.instruction = .ret := by
    rw [Machine.instruction, hword]
    decide
  have hrun : (m.starting #[0x22, 0x02, 0x00, 0xEE]).stepped.tick.running = true := by
    rw [Machine.stepped, Machine.executed, hcall]
    rfl
  have hloose : (m.starting #[0x22, 0x02, 0x00, 0xEE]).stepped.tick.Uniform false :=
    ⟨hstarting.stepped.config, hstarting.stepped.memory, hstarting.stepped.stack⟩
  refine ⟨hcall ▸ hfirst, ?_⟩
  rw [run_cons, apply_step, hstepped, run_cons, run_nil]
  rw [← hret]
  exact executes?_of_no_fault hrun (Machine.stepFault?_of_loose hloose)

theorem openedBy_call_then_tick {m : Machine} (hm : m.Uniform false) {before : List Command}
    (h : before <+: [tick]) :
    openedBy (step :: before) (m.starting #[0x22, 0x02, 0x00, 0xEE]) = 1 := by
  have hopened : step.opened (m.starting #[0x22, 0x02, 0x00, 0xEE]) = 1 := by
    simp only [opened, (executes?_call_then_ret hm).1]
    rfl
  rw [openedBy, hopened]
  rcases List.prefix_cons_iff.mp h with rfl | ⟨rest, rfl, hrest⟩
  · rfl
  · rw [List.prefix_nil.mp hrest]
    rfl

theorem ret_resumes_call_after_tick :
    let m : Machine := Machine.starting #[0x22, 0x02, 0x00, 0xEE]
      { config := {}, random := .ofSeed 0 }
    (run (step :: [tick] ++ [step]) m).2.pc = m.pc + 2 ∧
      (run (step :: [tick] ++ [step]) m).2.stack.sp = m.stack.sp := by
  have hnew : Machine.Uniform false { config := {}, random := .ofSeed 0 } :=
    Machine.uniform_new {} (.ofSeed 0)
  obtain ⟨hcall, hret⟩ := executes?_call_then_ret hnew
  have hlast := openedBy_call_then_tick hnew (List.prefix_refl [tick])
  refine ret_resumes_call hcall ?_ hret ?_ hlast
  · intro c hc
    rw [List.mem_singleton.mp hc]
    trivial
  · intro before hbefore
    rw [openedBy_call_then_tick hnew hbefore]
    omega

end Command

end Chip8
