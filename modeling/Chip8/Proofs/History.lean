import Chip8.Machine.Command
import Chip8.Proofs.Cycle

namespace Chip8

/-- A machine with a program in memory, about to start it. -/
def Machine.starting (image : Image) (m : Machine) : Machine :=
  reset { m with memory := m.memory.store Address.reset.toWord image.toList, loaded := true }

theorem Machine.load_eq (image : Image) (m : Machine) :
    m.load image =
      if Image.capacity < image.size then .error (.imageTooLarge image.size)
      else .ok (m.starting image) := by
  unfold load Memory.load
  split <;> rfl

theorem Machine.getElem_starting (image : Image) (m : Machine) (a : Address)
    (h : image.size ≤ Image.capacity) :
    (m.starting image).memory[a] =
      image.toList.getD (Memory.offset Address.reset.toWord a) m.memory[a] := by
  apply Memory.getElem_store
  rw [Array.length_toList]
  exact Nat.le_trans h (by decide)

theorem Machine.getElem_starting_of_image {image : Image} (m : Machine) {a : Address} {k : Nat}
    {byte : UInt8} (h : image.size ≤ Image.capacity) (hbyte : image.toList[k]? = some byte)
    (ha : a.val = 0x200 + k) : (m.starting image).memory[a] = byte := by
  have hreset : Address.reset.toWord.toNat = 0x200 := rfl
  have hoffset : Memory.offset Address.reset.toWord a = k := by
    rw [Memory.offset, hreset]
    omega
  rw [getElem_starting image m a h, hoffset, List.getD_eq_getElem?_getD, hbyte, Option.getD_some]

/-- A program is read from memory as it was loaded. -/
theorem Machine.word_of_image {image : Image} {m n : Machine} {k : Nat} {high low : UInt8}
    (h : image.size ≤ Image.capacity) (hhigh : image.toList[k]? = some high)
    (hlow : image.toList[k + 1]? = some low) (hmemory : n.memory = (m.starting image).memory)
    (hpc : n.pc.toNat = 0x200 + k) : n.word = .ofBytes high low := by
  have hbound : k + 1 < 3584 := by
    obtain ⟨hlast, -⟩ := List.getElem?_eq_some_iff.mp hlow
    exact Nat.lt_of_lt_of_le hlast h
  have hone : (1 : UInt16).toNat = 1 := rfl
  have hat : (Address.ofWord n.pc).val = 0x200 + k := by
    change n.pc.toNat % 4096 = 0x200 + k
    omega
  have hnext : (Address.ofWord (n.pc + 1)).val = 0x200 + (k + 1) := by
    change (n.pc + 1).toNat % 4096 = 0x200 + (k + 1)
    rw [UInt16.toNat_add]
    omega
  rw [word, hmemory, getElem_starting_of_image m h hhigh hat,
    getElem_starting_of_image m h hlow hnext]

theorem Machine.word_starting (image : Image) (m : Machine) {high low : UInt8}
    (h : image.size ≤ Image.capacity) (hhigh : image.toList[0]? = some high)
    (hlow : image.toList[1]? = some low) :
    (m.starting image).word = .ofBytes high low :=
  word_of_image h hhigh hlow rfl rfl

/-- The first instruction of a program is in its first two bytes. -/
theorem Machine.instruction_starting (image : Image) (m : Machine) {high low : UInt8}
    (h : image.size ≤ Image.capacity) (hhigh : image.toList[0]? = some high)
    (hlow : image.toList[1]? = some low) :
    (m.starting image).instruction = .decode (.ofBytes high low) :=
  congrArg Instruction.decode (word_starting image m h hhigh hlow)

theorem Machine.spanFault?_starting (image : Image) (m : Machine) :
    Memory.spanFault? (m.starting image).memory.strict (m.starting image).pc 2 = none := by
  change Memory.spanFault? (m.starting image).memory.strict Address.reset.toWord 2 = none
  cases (m.starting image).memory.strict <;> decide

/-- The answer to a step. -/
def Response.ofStep : Except Fault Outcome → Response
  | .error fault => .failed fault
  | .ok outcome => .stepped outcome

namespace Command

theorem apply_step (m : Machine) : step.apply m = (.ofStep m.step.1, m.step.2) := by
  rw [apply]
  rcases m.step with ⟨_ | _, _⟩ <;> rfl

theorem apply_load (image : Image) (m : Machine) :
    (load image).apply m =
      if Image.capacity < image.size then (.refused (.imageTooLarge image.size), m)
      else (.done, m.starting image) := by
  rw [apply, Machine.load_eq]
  by_cases h : Image.capacity < image.size
  · simp only [if_pos h]
  · simp only [if_neg h]

theorem apply_load_of_lt {image : Image} (m : Machine) (h : Image.capacity < image.size) :
    (load image).apply m = (.refused (.imageTooLarge image.size), m) := by
  rw [apply_load, if_pos h]

theorem apply_load_of_le {image : Image} (m : Machine) (h : image.size ≤ Image.capacity) :
    (load image).apply m = (.done, m.starting image) := by
  rw [apply_load, if_neg (Nat.not_lt.mpr h)]

theorem apply_toggle (m : Machine) : toggle.apply m = (.done, { m with paused := !m.paused }) := by
  cases h : m.paused <;> simp [apply, Machine.togglePause, Machine.resume, Machine.pause, h]

@[simp] theorem run_nil (m : Machine) : run [] m = ([], m) := rfl

theorem run_cons (c : Command) (rest : List Command) (m : Machine) :
    run (c :: rest) m =
      ((c.apply m).1 :: (run rest (c.apply m).2).1, (run rest (c.apply m).2).2) := rfl

theorem run_append (first second : List Command) (m : Machine) :
    run (first ++ second) m =
      ((run first m).1 ++ (run second (run first m).2).1, (run second (run first m).2).2) := by
  induction first generalizing m with
  | nil => rfl
  | cons c rest ih => simp only [List.cons_append, run_cons, ih]

theorem run_load (image : Image) (m : Machine) (h : image.size ≤ Image.capacity) :
    (run [load image] m).2 = m.starting image := by
  rw [run_cons, run_nil, apply_load_of_le m h]

/-- A program that starts with a value for a register, after that instruction. -/
theorem run_loadImm (image : Image) (x : Reg) (byte : UInt8) (m : Machine) {high low : UInt8}
    (h : image.size ≤ Image.capacity) (hhigh : image.toList[0]? = some high)
    (hlow : image.toList[1]? = some low)
    (hfirst : Instruction.decode (.ofBytes high low) = .loadImm x byte) :
    ∃ statistics, (run [load image, step] m).2 =
      { m.starting image with v := Registers.zero.set x byte, pc := 0x202, statistics } := by
  have hi : (m.starting image).instruction = .loadImm x byte :=
    (Machine.instruction_starting image m h hhigh hlow).trans hfirst
  have hfault : (m.starting image).stepFault? = none := by
    rw [Machine.stepFault?, Machine.spanFault?_starting, hi]
    rfl
  rw [run_cons, apply_load_of_le m h, run_cons, apply_step, Machine.step_of_no_fault rfl hfault,
    Machine.stepped, Machine.executed, hi]
  exact ⟨_, rfl⟩

/-- What every command preserves, every history preserves. -/
theorem run_preserves {P : Machine → Prop} (hstep : ∀ (c : Command) m, P m → P (c.apply m).2)
    (history : List Command) {m : Machine} (h : P m) : P (run history m).2 := by
  induction history generalizing m with
  | nil => exact h
  | cons c rest ih => exact ih (hstep c m h)

/-- Where some commands set a mark and some keep it, it is there after a history if
the history sets it and then only keeps it, or if it was there and is kept throughout. -/
theorem run_mark_iff {P : Machine → Prop} {sets keeps : Command → Prop}
    (happly : ∀ (c : Command) m, P (c.apply m).2 ↔ sets c ∨ P m ∧ keeps c)
    (history : List Command) (m : Machine) :
    P (run history m).2 ↔
      (∃ before c after, history = before ++ c :: after ∧ sets c ∧ ∀ d ∈ after, keeps d) ∨
        P m ∧ ∀ c ∈ history, keeps c := by
  induction history generalizing m with
  | nil => simp
  | cons c rest ih =>
      rw [run_cons, ih, happly, List.forall_mem_cons]
      constructor
      · rintro (⟨before, d, after, rfl, hsets, hkeeps⟩ | ⟨hsets | ⟨hmark, hkeep⟩, hkeeps⟩)
        · exact .inl ⟨c :: before, d, after, rfl, hsets, hkeeps⟩
        · exact .inl ⟨[], c, rest, rfl, hsets, hkeeps⟩
        · exact .inr ⟨hmark, hkeep, hkeeps⟩
      · rintro (⟨before, d, after, heq, hsets, hkeeps⟩ | ⟨hmark, hkeep, hkeeps⟩)
        · rcases List.cons_eq_append_iff.mp heq with ⟨rfl, hd⟩ | ⟨before', rfl, rfl⟩
          · rw [List.cons.injEq] at hd
            obtain ⟨rfl, rfl⟩ := hd
            exact .inr ⟨.inl hsets, hkeeps⟩
          · exact .inl ⟨before', d, after, rfl, hsets, hkeeps⟩
        · exact .inr ⟨.inr ⟨hmark, hkeep⟩, hkeeps⟩

end Command

/-- What holds of new machines and is preserved by every command holds of every
reachable machine. -/
theorem Machine.Reachable.invariant {P : Machine → Prop} {m : Machine} (hm : m.Reachable)
    (hnew : ∀ config random, P { config, random })
    (hstep : ∀ (c : Command) m, P m → P (c.apply m).2) : P m := by
  obtain ⟨config, random, history, rfl⟩ := hm
  exact Command.run_preserves hstep history (hnew config random)

end Chip8
