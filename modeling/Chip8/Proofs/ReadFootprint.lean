import Chip8.Proofs.Decoding
import Chip8.Proofs.Strictness

namespace Chip8

namespace Memory

variable {m n : Memory}

theorem bytesAt_congr {address : UInt16} {length : Nat}
    (h : ∀ a : Address, (∃ j < length, a.val = (address.toNat + j) % 4096) → n[a] = m[a]) :
    n.bytesAt address length = m.bytesAt address length := by
  apply List.ext_getElem?
  intro k
  rw [getElem?_bytesAt, getElem?_bytesAt]
  split
  · rename_i hk
    rw [h _ ⟨k, hk, val_ofWord_add address k⟩]
  · rfl

/-- A store does not make memories differ in a cell in which they agree. -/
theorem getElem_store_congr {a : Address} (h : n[a] = m[a]) (address : UInt16)
    (bytes : List UInt8) : (n.store address bytes)[a] = (m.store address bytes)[a] := by
  induction bytes generalizing address m n with
  | nil => exact h
  | cons byte rest ih =>
      apply ih
      rw [getElem_put, getElem_put, h]

end Memory

/-- The cells of memory that an instruction reads, its own word apart. -/
def Instruction.ReadsCell (i : Instruction) (m : Machine) (a : Address) : Prop :=
  match i with
  | draw _ _ height => ∃ j < height.val, a.val = (m.index.toNat + j) % 4096
  | loadRegisters x => ∃ j ≤ x.val, a.val = (m.index.toNat + j) % 4096
  | _ => False

namespace Machine

/-- The cells of memory that the next step reads: the two of its word and, behind
a word that could be fetched, those that it names. -/
inductive ReadsCell (m : Machine) (a : Address) : Prop where
  | high (ha : a.val = m.pc.toNat % 4096)
  | low (ha : a.val = (m.pc.toNat + 1) % 4096)
  | row {w : Word} (hword : m.nextWord = .ok w) (hw : w.top.val = 0xD)
      (ha : ∃ j < w.n.val, a.val = (m.index.toNat + j) % 4096)
  | value {w : Word} (hword : m.nextWord = .ok w) (hw : w.top.val = 0xF ∧ w.kk = 0x65)
      (ha : ∃ j ≤ w.x.val, a.val = (m.index.toNat + j) % 4096)

/-- Two machines that are the same but for memory, which is the same in some cells. -/
structure AgreesOn (cells : Address → Prop) (m n : Machine) : Prop where
  rest : n = { m with memory := n.memory }
  strict : n.memory.strict = m.memory.strict
  cells : ∀ a, cells a → n.memory[a] = m.memory[a]

variable {cells : Address → Prop} {m n : Machine}

theorem agreesOn_put (address : UInt16) (byte : UInt8) (m : Machine) :
    m.AgreesOn (· ≠ Address.ofWord address) { m with memory := m.memory.put address byte } where
  rest := rfl
  strict := rfl
  cells a ha := (Memory.getElem_put address byte m.memory a).trans (if_neg (Ne.symm ha))

theorem AgreesOn.mono {others : Address → Prop} (h : m.AgreesOn cells n)
    (hle : ∀ a, others a → cells a) : m.AgreesOn others n :=
  ⟨h.rest, h.strict, fun a ha => h.cells a (hle a ha)⟩

theorem AgreesOn.registers_eq (h : m.AgreesOn cells n) : n.v = m.v := by rw [h.rest]

theorem AgreesOn.spriteTargets_eq (h : m.AgreesOn cells n) {x y : Reg} {height : Fin 16}
    (hread : ∀ a, (Instruction.draw x y height).ReadsCell m a → cells a) :
    n.spriteTargets x y height = m.spriteTargets x y height := by
  have hbytes : n.memory.bytesAt m.index height.val = m.memory.bytesAt m.index height.val :=
    Memory.bytesAt_congr fun a ha => h.cells a (hread a ha)
  rw [h.rest]
  exact congrArg (Framebuffer.targets m.config.sprite m.v[x] m.v[y]) hbytes

end Machine

open Machine

variable {cells : Address → Prop} {m n : Machine}

/-- An instruction that reads only cells in which two machines agree does the same
in both, and leaves them to agree in these cells. -/
theorem Instruction.agreesOn_effect {i : Instruction} (h : m.AgreesOn cells n)
    (hread : ∀ a, i.ReadsCell m a → cells a) : (i.effect m).AgreesOn cells (i.effect n) := by
  obtain ⟨memory, rfl⟩ : ∃ memory, n = { m with memory } := ⟨n.memory, h.rest⟩
  cases i with
  | draw x y height =>
      refine ⟨?_, h.strict, h.cells⟩
      simp only [effect, h.spriteTargets_eq hread]
  | loadRegisters x =>
      have hbytes : memory.bytesAt m.index (x.val + 1) = m.memory.bytesAt m.index (x.val + 1) := by
        apply Memory.bytesAt_congr
        rintro a ⟨j, hj, ha⟩
        exact h.cells a (hread a ⟨j, Nat.le_of_lt_succ hj, ha⟩)
      refine ⟨?_, h.strict, h.cells⟩
      simp only [effect, hbytes]
  | storeDecimal x | storeRegisters x =>
      refine ⟨rfl, ?_, fun a ha => Memory.getElem_store_congr (h.cells a ha) _ _⟩
      exact (Memory.strict_store _ _ _).trans (h.strict.trans (Memory.strict_store _ _ _).symm)
  | _ => exact ⟨rfl, h.strict, h.cells⟩

namespace Machine

theorem readsCell_of_instruction (hspan : Memory.spanFault? m.memory.strict m.pc 2 = none)
    {a : Address} (h : m.instruction.ReadsCell m a) : m.ReadsCell a := by
  have hword : m.nextWord = .ok m.word := (m.nextWord_eq_ok_iff _).mpr ⟨hspan, rfl⟩
  cases hi : m.instruction with
  | draw x y height =>
      rw [hi] at h
      obtain ⟨htop, -, -, rfl⟩ := (Instruction.decode_eq_draw_iff _ _ _ _).mp hi
      exact .row hword (congrArg Fin.val htop) h
  | loadRegisters x =>
      rw [hi] at h
      obtain ⟨htop, hkk, rfl⟩ := (Instruction.decode_eq_iff_of_misc rfl _).mp hi
      exact .value hword ⟨congrArg Fin.val htop, hkk⟩ h
  | _ =>
      rw [hi] at h
      exact h.elim

namespace AgreesOn

theorem word_eq (h : m.AgreesOn cells n) (hread : ∀ a, m.ReadsCell a → cells a) :
    n.word = m.word := by
  have hpc : n.pc = m.pc := by rw [h.rest]
  have hhigh := h.cells (Address.ofWord m.pc) (hread _ (.high rfl))
  have hlow := h.cells (Address.ofWord (m.pc + 1)) (hread _ (.low (Memory.val_ofWord_add m.pc 1)))
  rw [word, word, hpc, hhigh, hlow]

theorem fetched (h : m.AgreesOn cells n) : m.fetched.AgreesOn cells n.fetched where
  rest := congrArg Machine.fetched h.rest
  strict := h.strict
  cells := h.cells

theorem stepFault?_eq (h : m.AgreesOn cells n) (hread : ∀ a, m.ReadsCell a → cells a) :
    n.stepFault? = m.stepFault? := by
  have hpc : n.pc = m.pc := by rw [h.rest]
  have hinstruction : n.instruction = m.instruction := congrArg Instruction.decode (h.word_eq hread)
  rw [stepFault?, stepFault?, hinstruction, h.strict, hpc]
  cases hspan : Memory.spanFault? m.memory.strict m.pc 2 with
  | some fault => rw [Option.some_or, Option.some_or]
  | none =>
      have hrest := h.fetched.rest
      rw [Option.none_or, Option.none_or]
      apply Instruction.fault?_congr
      · rw [hrest]
      · exact h.strict
      · rw [hrest]
      · rw [hrest]
      · intro x y height hi _
        apply h.fetched.spriteTargets_eq
        intro a ha
        exact hread a (readsCell_of_instruction hspan (hi ▸ ha))

theorem stepped (h : m.AgreesOn cells n) (hread : ∀ a, m.ReadsCell a → cells a)
    (hspan : Memory.spanFault? m.memory.strict m.pc 2 = none) :
    n.nextOutcome = m.nextOutcome ∧ m.stepped.AgreesOn cells n.stepped := by
  have hword := h.word_eq hread
  have hinstruction : n.instruction = m.instruction := congrArg Instruction.decode hword
  have he : m.executed.AgreesOn cells n.executed := by
    rw [executed, executed, hinstruction]
    exact Instruction.agreesOn_effect h.fetched fun a ha =>
      hread a (readsCell_of_instruction hspan ha)
  have hwaiting : n.executed.waiting = m.executed.waiting := by rw [he.rest]
  have hstatistics : n.nextStatistics = m.nextStatistics := by
    rw [nextStatistics, nextStatistics, hwaiting, hword, he.rest]
  refine ⟨by rw [nextOutcome, nextOutcome, hwaiting], ?_, he.strict, he.cells⟩
  rw [Machine.stepped, Machine.stepped, hstatistics, he.rest]

end AgreesOn

/-- Two machines that agree in everything but memory, and there in the cells that the
next step reads, make the same step. They agree afterwards in everything but memory,
and there wherever they agreed before. -/
theorem step_reads_only_named (hrun : m.loaded = true ∧ m.paused = false)
    (h : m.AgreesOn m.ReadsCell n) :
    n.step.1 = m.step.1 ∧ m.step.2.AgreesOn (fun a => n.memory[a] = m.memory[a]) n.step.2 := by
  have hsame : m.AgreesOn (fun a => n.memory[a] = m.memory[a]) n :=
    ⟨h.rest, h.strict, fun _ ha => ha⟩
  have hrunning : m.running = true := m.running_iff.mpr hrun
  have hrunning' : n.running = true := by
    rw [h.rest]
    exact hrunning
  have hfault' : n.stepFault? = m.stepFault? := hsame.stepFault?_eq h.cells
  cases hfault : m.stepFault? with
  | some fault =>
      rw [step_of_fault hrunning hfault, step_of_fault hrunning' (hfault'.trans hfault)]
      exact ⟨rfl, congrArg (fun m : Machine => { m with waiting := false }) h.rest, h.strict,
        hsame.cells⟩
  | none =>
      have hspan : Memory.spanFault? m.memory.strict m.pc 2 = none :=
        (Option.or_eq_none_iff.mp hfault).1
      obtain ⟨houtcome, hstepped⟩ := hsame.stepped h.cells hspan
      rw [step_of_no_fault hrunning hfault, step_of_no_fault hrunning' (hfault'.trans hfault),
        houtcome]
      exact ⟨rfl, hstepped⟩

/-- A load of two registers from around the end of memory does not look at any other
cell. -/
theorem step_reads_only_named_last_cell :
    let m : Machine :=
      { Machine.starting #[0xF1, 0x65] { config := {}, random := .ofSeed 0 } with index := 0xFFF }
    let n : Machine := { m with memory := m.memory.put 0x400 7 }
    n.step.1 = m.step.1 ∧ n.step.2.v = m.step.2.v ∧
      ∀ a : Address, a ≠ 0x400 → n.step.2.memory[a] = m.step.2.memory[a] := by
  intro m n
  have hmemory : m.memory = (Machine.starting #[0xF1, 0x65]
      { config := {}, random := .ofSeed 0 }).memory := rfl
  have hword : m.word = 0xF165 :=
    (word_of_image (k := 0) (by decide) rfl rfl hmemory rfl).trans (by decide)
  have hagree : m.AgreesOn (· ≠ 0x400) n := agreesOn_put 0x400 7 m
  have hread : ∀ a, m.ReadsCell a → a ≠ 0x400 := by
    rintro a h rfl
    cases h with
    | high ha | low ha => exact absurd ha (by decide)
    | row hnext hw ha =>
        obtain rfl := hword.symm.trans ((m.nextWord_eq_ok_iff _).mp hnext).2
        exact absurd hw (by decide)
    | value hnext hw ha =>
        obtain rfl := hword.symm.trans ((m.nextWord_eq_ok_iff _).mp hnext).2
        exact absurd ha (by decide)
  obtain ⟨hanswer, hnext⟩ := step_reads_only_named ⟨rfl, rfl⟩ (hagree.mono hread)
  exact ⟨hanswer, hnext.registers_eq, fun a ha => hnext.cells a (hagree.cells a ha)⟩

end Machine

end Chip8
