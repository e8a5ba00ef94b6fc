import Chip8.Proofs.Effect

namespace Chip8

variable {σ α β : Type}

/-- Whether an operation succeeds, and its fault if it does not. -/
def Action.outcome (act : Action σ α) (s : σ) : Except Fault Unit :=
  match act.run s with
  | .ok _ _ => .ok ()
  | .error fault _ => .error fault

/-- The outcome of `count` attempts, made one after the other up to the first that
fails. -/
structure OutcomeOf (attempt : Nat → Except Fault Unit) (count : Nat)
    (outcome : Except Fault Unit) : Prop where
  ok_iff : outcome = .ok () ↔ ∀ k < count, attempt k = .ok ()
  error_iff : ∀ fault, outcome = .error fault ↔
    ∃ k < count, attempt k = .error fault ∧ ∀ j < k, attempt j = .ok ()

namespace OutcomeOf

variable {attempt : Nat → Except Fault Unit} {count : Nat} {outcome : Except Fault Unit}
  {fault : Fault}

theorem zero (attempt : Nat → Except Fault Unit) : OutcomeOf attempt 0 (.ok ()) where
  ok_iff := by simp
  error_iff := by simp

theorem succ_of_error (h : attempt 0 = .error fault) :
    OutcomeOf attempt (count + 1) (.error fault) where
  ok_iff := by
    rw [← h]
    constructor
    · intro hok
      rw [hok] at h
      contradiction
    · exact fun hall => hall 0 (Nat.succ_pos count)
  error_iff other := by
    rw [← h]
    constructor
    · exact fun hfirst =>
        ⟨0, Nat.succ_pos count, hfirst, fun j hj => absurd hj (Nat.not_lt_zero j)⟩
    · rintro ⟨k, -, hk, hbefore⟩
      cases k with
      | zero => exact hk
      | succ k =>
          -- The attempts do not get that far.
          rw [hbefore 0 (Nat.succ_pos k)] at h
          contradiction

theorem succ_of_ok (h : attempt 0 = .ok ())
    (hrest : OutcomeOf (fun k => attempt (k + 1)) count outcome) :
    OutcomeOf attempt (count + 1) outcome where
  ok_iff := by
    rw [hrest.ok_iff, Nat.forall_lt_succ_left]
    simp only [h, true_and]
  error_iff fault := by
    rw [hrest.error_iff, Nat.exists_lt_succ_left]
    simp only [h, Nat.forall_lt_succ_left, reduceCtorEq, false_and, false_or, true_and]

end OutcomeOf

namespace Action

theorem outcome_of_settle {act : Action σ α} {s before after : σ} {a : α} {fault? : Option Fault}
    (h : act.run s = Fault.settle fault? before a after) :
    act.outcome s = Fault.guard fault? () := by
  rw [outcome, h]
  cases fault? <;> rfl

theorem outcome_bind {act : Action σ α} {next : α → Action σ β} {s after : σ} {a : α}
    {first? rest? : Option Fault} (hact : act.run s = Fault.settle first? s a after)
    (hnext : (next a).outcome after = Fault.guard rest? ()) :
    (act >>= next).outcome s = Fault.guard (first?.or rest?) () := by
  rw [outcome, EStateM.run_bind, hact]
  cases first? with
  | some fault => rfl
  | none => exact hnext

end Action

open Memory

namespace Machine

theorem outcome_writeBytes (address : UInt16) (bytes : List UInt8) (n : Machine) :
    (writeBytes address bytes).outcome n =
      Fault.guard (spanFault? n.memory.strict address bytes.length) () := by
  induction bytes generalizing address n with
  | nil => rfl
  | cons byte rest ih =>
      have hwrite := run_onMemory _ n _ _ _ (run_write address byte n.memory)
      exact Action.outcome_bind hwrite
        (ih (address + 1) { n with memory := n.memory.put address byte })

theorem outcome_storeEach (registers : List Reg) (n : Machine) :
    (storeEach registers).outcome n =
      Fault.guard (spanFault? n.memory.strict n.index registers.length) () := by
  induction registers generalizing n with
  | nil => rfl
  | cons x rest ih =>
      have hwrite := run_onMemory _ n _ _ _ (run_write n.index n.v[x] n.memory)
      have hstep : (storeEach (x :: rest)).outcome n =
          (onMemory (write n.index n.v[x]) >>= fun _ => moveIndex >>= fun _ =>
            storeEach rest).outcome n := rfl
      rw [hstep]
      exact Action.outcome_bind hwrite (ih { n with
        memory := n.memory.put n.index n.v[x], index := n.index + 1 })

theorem outcome_loadEach (registers : List Reg) (n : Machine) :
    (loadEach registers).outcome n =
      Fault.guard (spanFault? n.memory.strict n.index registers.length) () := by
  induction registers generalizing n with
  | nil => rfl
  | cons x rest ih =>
      have hread : (Action.ofExcept (n.memory.read n.index)).run n =
          Fault.settle (addressFault? n.memory.strict n.index) n
            n.memory[Address.ofWord n.index] n := by
        rw [read_eq_guard, Action.run_ofExcept_guard]
      have hstep : (loadEach (x :: rest)).outcome n =
          (Action.ofExcept (n.memory.read n.index) >>= fun byte => setReg x byte >>= fun _ =>
            moveIndex >>= fun _ => loadEach rest).outcome n := rfl
      rw [hstep]
      exact Action.outcome_bind hread (ih { n with
        v := n.v.set x n.memory[Address.ofWord n.index], index := n.index + 1 })

end Machine

namespace Memory

/-- The outcome of reading the `k`th byte of a span. -/
def tryRead (address : UInt16) (m : Memory) (k : Nat) : Except Fault Unit :=
  (m.read (address + UInt16.ofNat k)).map fun _ => ()

/-- The outcome of writing the `k`th byte of a span, with the bytes before it written. -/
def tryWrite (address : UInt16) (bytes : Nat → UInt8) (m : Memory) (k : Nat) :
    Except Fault Unit :=
  (write (address + UInt16.ofNat k) (bytes k)).outcome
    (m.store address ((List.range k).map bytes))

theorem tryRead_eq_guard (address : UInt16) (m : Memory) (k : Nat) :
    m.tryRead address k =
      Fault.guard (addressFault? m.strict (address + UInt16.ofNat k)) () := by
  rw [tryRead, read_eq_guard]
  cases addressFault? m.strict (address + UInt16.ofNat k) <;> rfl

theorem tryWrite_eq_guard (address : UInt16) (bytes : Nat → UInt8) (m : Memory) (k : Nat) :
    m.tryWrite address bytes k =
      Fault.guard (addressFault? m.strict (address + UInt16.ofNat k)) () := by
  have hwrite := run_write (address + UInt16.ofNat k) (bytes k)
    (m.store address ((List.range k).map bytes))
  rw [strict_store] at hwrite
  exact Action.outcome_of_settle hwrite

theorem outcomeOf_span (strict : Bool) (address : UInt16) (length : Nat) :
    OutcomeOf (fun k => Fault.guard (addressFault? strict (address + UInt16.ofNat k)) ()) length
      (Fault.guard (spanFault? strict address length) ()) := by
  induction length generalizing address with
  | zero => exact OutcomeOf.zero _
  | succ length ih =>
      have hfirst : address + UInt16.ofNat 0 = address := by simp
      rw [spanFault?]
      cases haddress : addressFault? strict address with
      | some fault =>
          apply OutcomeOf.succ_of_error
          rw [hfirst, haddress]
          rfl
      | none =>
          apply OutcomeOf.succ_of_ok
          · rw [hfirst, haddress]
            rfl
          · simp only [← Machine.index_add_succ]
            exact ih (address + 1)

theorem checkSpan_eq_ok_iff {address : UInt16} {length : Nat} {m : Memory} :
    m.checkSpan address length = .ok () ↔ spanFault? m.strict address length = none := by
  rw [checkSpan_eq_guard, Fault.guard_eq_ok_iff, and_iff_left rfl]

theorem checkSpan_eq_error_iff {address : UInt16} {length : Nat} {m : Memory} {fault : Fault} :
    m.checkSpan address length = .error fault ↔
      spanFault? m.strict address length = some fault := by
  rw [checkSpan_eq_guard, Fault.guard_eq_error_iff]

end Memory

namespace Instruction

/-- How many bytes an instruction moves after a check of their addresses. -/
def transferred? : Instruction → Option Nat
  | storeDecimal _ => some 3
  | storeRegisters x => some (x.val + 1)
  | loadRegisters x => some (x.val + 1)
  | clearScreen | ret | jump _ | call _ | skip _ | loadImm _ _ | addImm _ _ | arith _ _ _
  | loadIndex _ | jumpOffset _ | random _ _ | draw _ _ _ | readDelay _ | waitKey _
  | setDelay _ | setSound _ | addIndex _ | loadGlyph _ | unknown _ => none

theorem fault?_of_transferred {i : Instruction} {length : Nat} (h : i.transferred? = some length)
    (m : Machine) : i.fault? m = spanFault? m.memory.strict m.index length := by
  cases i with
  | storeDecimal x | storeRegisters x | loadRegisters x =>
      obtain rfl := Option.some.inj h
      rfl
  | _ => simp only [transferred?, reduceCtorEq] at h

theorem fault?_draw_eq_some_address_iff {x y : Reg} {height : Fin 16} {m : Machine}
    {address : UInt16} :
    (draw x y height).fault? m = some (.addressOutOfRange address) ↔
      spanFault? m.memory.strict m.index height.val = some (.addressOutOfRange address) := by
  rw [fault?]
  cases spanFault? m.memory.strict m.index height.val with
  | some fault => rw [Option.some_or]
  | none =>
      -- The rows are read. What can still fail is a pixel.
      rw [Option.none_or]
      simp [Framebuffer.drawFault?]

end Instruction

namespace Machine

/-- The loops over a span that begins at the index register all come out as `outcome`
says, and instructions that check the span first do all of it or none. -/
structure LoopsAgree (n : Machine) (length : Nat) (outcome : Except Fault Unit) : Prop where
  writes : ∀ bytes : List UInt8, bytes.length = length →
    (writeBytes n.index bytes).outcome n = outcome
  stores : ∀ registers : List Reg, registers.length = length →
    (storeEach registers).outcome n = outcome
  loads : ∀ registers : List Reg, registers.length = length →
    (loadEach registers).outcome n = outcome
  transfer_ok : ∀ i : Instruction, i.transferred? = some length → outcome = .ok () →
    (execute i).run n = .ok () (i.effect n)
  transfer_error : ∀ i : Instruction, i.transferred? = some length →
    ∀ fault, outcome = .error fault → (execute i).run n = .error fault n
  draws : ∀ (x y : Reg) (height : Fin 16), height.val = length → ∀ address after,
    (execute (.draw x y height)).run n = .error (.addressOutOfRange address) after ↔
      outcome = .error (.addressOutOfRange address) ∧ after = n

theorem loopsAgree_checkSpan (n : Machine) (length : Nat) :
    n.LoopsAgree length (n.memory.checkSpan n.index length) where
  writes bytes hlength := by
    rw [outcome_writeBytes, hlength, checkSpan_eq_guard]
  stores registers hlength := by
    rw [outcome_storeEach, hlength, checkSpan_eq_guard]
  loads registers hlength := by
    rw [outcome_loadEach, hlength, checkSpan_eq_guard]
  transfer_ok i hi hok := by
    rw [run_execute, Instruction.fault?_of_transferred hi, checkSpan_eq_ok_iff.mp hok]
    rfl
  transfer_error i hi fault herror := by
    rw [run_execute, Instruction.fault?_of_transferred hi, checkSpan_eq_error_iff.mp herror]
    rfl
  draws x y height hlength address after := by
    rw [run_execute, Fault.settle_eq_error_iff, Instruction.fault?_draw_eq_some_address_iff,
      checkSpan_eq_error_iff, hlength]

end Machine

namespace Memory

open Machine

/-- The check of a span in advance says what reading or writing its bytes one after the
other comes to: it accepts exactly the spans of which every byte is accepted, its fault
is that of the first byte that is refused, and memory that is not strict refuses none. -/
theorem checkSpan_agrees_with_loops (address : UInt16) (length : Nat) (m : Memory) :
    OutcomeOf (m.tryRead address) length (m.checkSpan address length) ∧
    (∀ bytes : Nat → UInt8,
      OutcomeOf (m.tryWrite address bytes) length (m.checkSpan address length)) ∧
    (m.strict = false → m.checkSpan address length = .ok ()) ∧
    (m.readBytes address length).map (fun _ => ()) = m.checkSpan address length ∧
    ∀ n : Machine, n.memory = m → n.index = address →
      n.LoopsAgree length (m.checkSpan address length) := by
  refine ⟨?_, ?_, ?_, ?_, ?_⟩
  · rw [checkSpan_eq_guard, funext (tryRead_eq_guard address m)]
    exact outcomeOf_span m.strict address length
  · intro bytes
    rw [checkSpan_eq_guard, funext (tryWrite_eq_guard address bytes m)]
    exact outcomeOf_span m.strict address length
  · intro hloose
    rw [checkSpan_eq_ok_iff, hloose, spanFault?_loose]
  · rw [readBytes_eq_guard, checkSpan_eq_guard]
    cases spanFault? m.strict address length <;> rfl
  · rintro n rfl rfl
    exact n.loopsAgree_checkSpan length

/-- Three bytes of which the last is past the end of memory. -/
theorem checkSpan_agrees_with_loops_last_cells :
    let n : Machine := { config := { strict := true }, random := .ofSeed 0, index := 0xFFE }
    (∃ k < 3, n.memory.tryRead 0xFFE k = .error (.addressOutOfRange 0x1000) ∧
      ∀ j < k, n.memory.tryRead 0xFFE j = .ok ()) ∧
    (execute (.storeDecimal 0)).run n = .error (.addressOutOfRange 0x1000) n ∧
    (execute (.draw 0 1 3)).run n = .error (.addressOutOfRange 0x1000) n := by
  intro n
  have hcheck : n.memory.checkSpan 0xFFE 3 = .error (.addressOutOfRange 0x1000) := rfl
  obtain ⟨hread, -, -, -, hloops⟩ := checkSpan_agrees_with_loops 0xFFE 3 n.memory
  have hn := hloops n rfl rfl
  refine ⟨(hread.error_iff _).mp hcheck, hn.transfer_error (.storeDecimal 0) rfl _ hcheck, ?_⟩
  exact (hn.draws 0 1 3 rfl _ n).mpr ⟨hcheck, rfl⟩

end Memory

end Chip8
