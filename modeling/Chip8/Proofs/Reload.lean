import Chip8.Proofs.Ledger
import Chip8.Proofs.Noninterference

namespace Chip8

/-- The counters of `s'` and `t'` are as far apart as those of `s` and `t`. -/
structure Statistics.SameGap (s t s' t' : Statistics) : Prop where
  count : ∀ f : Family, (t'.count f : Int) - s'.count f = t.count f - s.count f
  keyWaits : (t'.keyWaits : Int) - s'.keyWaits = t.keyWaits - s.keyWaits
  ignored : (t'.ignored : Int) - s'.ignored = t.ignored - s.ignored

namespace Statistics.SameGap

theorem refl (s t : Statistics) : s.SameGap t s t := ⟨fun _ => rfl, rfl, rfl⟩

theorem trans {s t s' t' s'' t'' : Statistics} (h : s.SameGap t s' t')
    (h' : s'.SameGap t' s'' t'') : s.SameGap t s'' t'' where
  count f := (h'.count f).trans (h.count f)
  keyWaits := h'.keyWaits.trans h.keyWaits
  ignored := h'.ignored.trans h.ignored

end Statistics.SameGap

theorem Memory.eq_of_getElem {m n : Memory} (hstrict : n.strict = m.strict)
    (h : ∀ a : Address, n[a] = m[a]) : n = m := by
  obtain ⟨bytes, strict⟩ := m
  obtain ⟨bytes', strict'⟩ := n
  obtain rfl : strict' = strict := hstrict
  have hbytes : bytes' = bytes := Vector.ext fun i hi => h ⟨i, hi⟩
  rw [hbytes]

theorem Machine.getElem_starting_image (image : Image) (m : Machine) (a : Address)
    (h : image.size ≤ Image.capacity) :
    (m.starting image).memory[a] =
      if h : 512 ≤ a.val ∧ a.val < 512 + image.size then image[a.val - 512] else m.memory[a] := by
  have ha := a.isLt
  have hcapacity : Image.capacity = 3584 := rfl
  have hreset : Address.reset.toWord.toNat = 512 := rfl
  have hlength := image.length_toList
  rw [getElem_starting image m a h, Memory.offset, hreset]
  split
  · rename_i hin
    have hoffset : (a.val + 4096 - 512 % 4096) % 4096 = a.val - 512 := by omega
    rw [hoffset, List.getD_eq_getElem?_getD, List.getElem?_eq_getElem (by omega),
      Option.getD_some, Array.getElem_toList]
  · rw [List.getD_eq_getElem?_getD, List.getElem?_eq_none (by omega), Option.getD_none]

/-- Two machines that are the same but for their counters. -/
def Machine.SameButCounts (m n : Machine) : Prop := ∃ s, n = { m with statistics := s }

variable {m n : Machine}

namespace Machine

theorem sameButCounts_iff (m n : Machine) : m.SameButCounts n ↔ m.AgreesBut [.statistics] n := by
  constructor
  · rintro ⟨s, rfl⟩
    exact ⟨rfl, fun _ => rfl, fun _ => rfl, fun _ => rfl, fun _ => rfl, fun _ => rfl, by simp⟩
  · intro h
    obtain ⟨dirty, ⟨delay, sound⟩, keypad, statistics, random, rfl⟩ := h.exists_eq
    obtain rfl : delay = m.timers.delay := h.delay (by decide)
    obtain rfl : keypad = m.keypad := h.keypad (by decide)
    obtain rfl : random = m.random := h.random (by decide)
    obtain rfl : sound = m.timers.sound := h.sound (by decide)
    obtain rfl : dirty = m.display.dirty := h.dirty (by decide)
    exact ⟨statistics, rfl⟩

/-- The same step adds the same to the counters, whatever they were. -/
theorem AgreesBut.sameGap_nextStatistics (h : m.AgreesBut [.statistics] n) :
    m.statistics.SameGap n.statistics m.nextStatistics n.nextStatistics where
  count f := by
    rw [count_nextStatistics, count_nextStatistics, h.word_eq]
    omega
  keyWaits := by
    rw [keyWaits_nextStatistics, keyWaits_nextStatistics,
      h.waiting_executed_eq (by simp [Instruction.Reads])]
    omega
  ignored := by
    rw [ignored_nextStatistics, ignored_nextStatistics, h.word_eq]
    omega

theorem AgreesBut.sameGap_step (h : m.AgreesBut [.statistics] n) :
    m.statistics.SameGap n.statistics m.step.2.statistics n.step.2.statistics := by
  rcases step_cases_of_alike h.running_eq h.stepFault?_eq with
    ⟨hstep, hstep'⟩ | ⟨fault, hstep, hstep'⟩ | ⟨-, hstep, hstep'⟩
  · rw [hstep, hstep']
    exact .refl _ _
  · rw [hstep, hstep']
    exact .refl _ _
  · rw [hstep, hstep']
    exact h.sameGap_nextStatistics

end Machine

namespace Command

/-- No command but a stop brings the counters closer or further apart. -/
theorem sameGap_apply {c : Command} (h : m.AgreesBut [.statistics] n) (hc : c ≠ stop) :
    m.statistics.SameGap n.statistics (c.apply m).2.statistics (c.apply n).2.statistics := by
  cases c with
  | stop => exact absurd rfl hc
  | step =>
      rw [apply_step, apply_step]
      exact h.sameGap_step
  | load image =>
      rw [apply_load, apply_load]
      split
      · exact .refl _ _
      · exact .refl _ _
  | toggle =>
      rw [apply_toggle, apply_toggle]
      exact .refl _ _
  | _ => exact .refl _ _

theorem sameButCounts_run (history : List Command) (h : m.SameButCounts n) :
    (run history n).1 = (run history m).1 ∧ (run history m).2.SameButCounts (run history n).2 := by
  rw [Machine.sameButCounts_iff] at h ⊢
  exact agreesBut_run h (along_of_forall (fun c _ m => leavesUnread_of_outputs (by simp) c m) m)

theorem sameGap_run {history : List Command} (h : m.SameButCounts n) (hstop : stop ∉ history) :
    m.statistics.SameGap n.statistics (run history m).2.statistics
      (run history n).2.statistics := by
  induction history generalizing m n with
  | nil => exact .refl _ _
  | cons c rest ih =>
      rw [List.mem_cons, not_or] at hstop
      have hgap := sameGap_apply ((Machine.sameButCounts_iff m n).mp h) (Ne.symm hstop.1)
      obtain ⟨-, hnext⟩ := sameButCounts_run [c] h
      exact hgap.trans (ih hnext hstop.2)

theorem run_eq_of_stop {history : List Command} (h : m.SameButCounts n) (hstop : stop ∈ history) :
    (run history n).2 = (run history m).2 := by
  -- The stop forgets the one thing in which the machines could still differ.
  obtain ⟨before, after, rfl⟩ := List.append_of_mem hstop
  obtain ⟨-, s, hs⟩ := sameButCounts_run before h
  rw [run_append, run_append, run_cons, run_cons, hs]
  rfl

end Command

/-- The answer to a load from a file, of which the contents or the cause why it
cannot be read are known, and the machine after it. -/
def Machine.applyLoadFile (path : String) (contents : Except FileError Image) (m : Machine) :
    Response × Machine :=
  match m.loadFile path contents with
  | .error cause => (.refused cause, m)
  | .ok m => (.done, m)

/-- Two machines that agree in all that a load of the program keeps, but for the
counters. -/
structure Machine.AgreesAround (image : Image) (m n : Machine) : Prop where
  config : n.config = m.config
  keypad : n.keypad = m.keypad
  random : n.random = m.random
  memory : ∀ a : Address, a.val < 512 ∨ 512 + image.size ≤ a.val → n.memory[a] = m.memory[a]

namespace Machine

theorem load_error_iff (image : Image) (m : Machine) :
    (∃ cause, m.load image = .error cause) ↔ Image.capacity < image.size := by
  rw [load_eq]
  split
  · rename_i hlarge
    exact iff_of_true ⟨_, rfl⟩ hlarge
  · rename_i hfits
    refine iff_of_false ?_ hfits
    rintro ⟨cause, hcause⟩
    contradiction

theorem starting_eq {strict : Bool} (hm : m.Uniform strict) (image : Image) :
    m.starting image =
      { config := m.config
        random := m.random
        memory := m.memory.store Address.reset.toWord image.toList
        keypad := m.keypad
        statistics := m.statistics
        loaded := true } := by
  have hstack : m.stack.clear = { strict := m.config.strict } := by
    rw [CallStack.clear, hm.stack, hm.config]
  rw [starting, reset]
  simp only [hstack]

theorem AgreesAround.starting {image : Image} (h : m.AgreesAround image n)
    (hsize : image.size ≤ Image.capacity) {strict : Bool} (hm : m.Uniform strict)
    (hn : n.Uniform strict) : (m.starting image).SameButCounts (n.starting image) := by
  have hmemory : (n.starting image).memory = (m.starting image).memory := by
    apply Memory.eq_of_getElem
    · change (n.memory.store _ _).strict = (m.memory.store _ _).strict
      rw [Memory.strict_store, Memory.strict_store, hn.memory, hm.memory]
    · intro a
      rw [getElem_starting_image image n a hsize, getElem_starting_image image m a hsize]
      split
      · rfl
      · exact h.memory a (by omega)
  rw [starting_eq hm, starting_eq hn] at hmemory ⊢
  refine ⟨n.statistics, ?_⟩
  rw [h.config, h.keypad, h.random]
  simp only at hmemory ⊢
  rw [hmemory]

end Machine

namespace Command

/-- A load is all or nothing. Too long a program, or a file that cannot be read,
leaves the machine as it is. Else nothing that the machine has done before makes a
difference, but for the counters, which go on from where they are until a stop. -/
theorem load_all_or_nothing (hm : m.Reachable) (image : Image) :
    ((∃ cause, m.load image = .error cause) ↔ 3584 < image.size) ∧
    (3584 < image.size → ∀ later : List Command,
      run (load image :: later) m =
        (.refused (.imageTooLarge image.size) :: (run later m).1, (run later m).2)) ∧
    (∀ path cause, m.applyLoadFile path (.error cause) = (.refused (.unreadable path cause), m)) ∧
    (∀ path contents, m.applyLoadFile path (.ok contents) = (load contents).apply m) ∧
    (image.size ≤ 3584 →
      (∃ memory : Memory,
        memory.strict = m.memory.strict ∧
        (∀ a : Address, memory[a] =
          if h : 512 ≤ a.val ∧ a.val < 512 + image.size then image[a.val - 512]
          else m.memory[a]) ∧
        (load image).apply m = (.done,
          { config := m.config
            random := m.random
            memory
            keypad := m.keypad
            statistics := m.statistics
            loaded := true })) ∧
      (∀ n : Machine, n.Reachable → m.AgreesAround image n → ∀ later : List Command,
        let p := run (load image :: later) m
        let q := run (load image :: later) n
        q.1 = p.1 ∧ p.2.SameButCounts q.2 ∧
          (stop ∉ later →
            m.statistics.SameGap n.statistics p.2.statistics q.2.statistics) ∧
          (stop ∈ later → q.2 = p.2))) := by
  refine ⟨m.load_error_iff image, ?_, fun _ _ => rfl, fun _ _ => rfl, fun hsize => ⟨?_, ?_⟩⟩
  · intro hlarge later
    rw [run_cons, apply_load_of_lt m hlarge]
  · refine ⟨m.memory.store Address.reset.toWord image.toList, Memory.strict_store _ _ _,
      fun a => m.getElem_starting_image image a hsize, ?_⟩
    rw [apply_load_of_le m hsize, Machine.starting_eq hm.uniform]
  · intro n hn hagree later p q
    -- What a load keeps is the same in both machines, and the rest it sets anew.
    have huniform : n.Uniform m.config.strict := by
      rw [← hagree.config]
      exact hn.uniform
    have hsame := hagree.starting hsize hm.uniform huniform
    obtain ⟨hanswers, hlast⟩ := sameButCounts_run later hsame
    simp only [p, q, run_cons, apply_load_of_le _ hsize, hanswers]
    exact ⟨trivial, hlast, sameGap_run hsame, run_eq_of_stop hsame⟩

theorem agreesAround_run_loadImm (hm : m.Uniform false) {image : Image} (hsize : image.size = 2) :
    m.AgreesAround image (run [load #[0x60, 0x01], step] m).2 := by
  have hstarting := hm.starting #[0x60, 0x01]
  have hinstruction : (m.starting #[0x60, 0x01]).instruction = .loadImm 0 1 :=
    (Machine.instruction_starting _ m (by decide) rfl rfl).trans (by decide)
  rw [run_cons, run_cons, run_nil, apply_load_of_le m (by decide), apply_step,
    Machine.step_of_no_fault rfl (Machine.stepFault?_of_loose hstarting), Machine.stepped,
    Machine.executed, hinstruction]
  refine ⟨rfl, rfl, rfl, fun a ha => ?_⟩
  have hout : ¬ (512 ≤ a.val ∧ a.val < 512 + 2) := by omega
  exact (m.getElem_starting_image #[0x60, 0x01] a (by decide)).trans (dif_neg hout)

/-- A machine that has run another program before, and a new one. -/
theorem load_all_or_nothing_second_program :
    let m : Machine := { config := {}, random := .ofSeed 0 }
    let n := (run [load #[0x60, 0x01], step] m).2
    let p := run [load #[0x70, 0x01], step, tick, step] m
    let q := run [load #[0x70, 0x01], step, tick, step] n
    (∃ cause, m.load (Array.replicate 3585 0) = .error cause) ∧ q.1 = p.1 ∧
      p.2.SameButCounts q.2 ∧
      m.statistics.SameGap n.statistics p.2.statistics q.2.statistics := by
  intro m n p q
  have hm : m.Reachable := ⟨_, _, [], rfl⟩
  have hn : n.Reachable := ⟨_, _, _, rfl⟩
  have hagree : m.AgreesAround #[0x70, 0x01] n :=
    agreesAround_run_loadImm (Machine.uniform_new {} (.ofSeed 0)) rfl
  have hlong : 3584 < (Array.replicate 3585 (0 : UInt8)).size := by
    rw [Array.size_replicate]
    decide
  clear_value n m
  obtain ⟨hlarge, -⟩ := load_all_or_nothing hm (Array.replicate 3585 0)
  obtain ⟨-, -, -, -, hfits⟩ := load_all_or_nothing hm #[0x70, 0x01]
  obtain ⟨hanswers, hsame, hgap, -⟩ :=
    (hfits (by decide)).2 n hn hagree [step, tick, step]
  exact ⟨hlarge.mpr hlong, hanswers, hsame, hgap (by simp)⟩

end Command

end Chip8
