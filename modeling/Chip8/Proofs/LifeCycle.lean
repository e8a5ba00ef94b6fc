import Chip8.Proofs.Halt
import Chip8.Proofs.Ledger
import Mathlib.Data.List.DropRight

namespace Chip8

theorem Memory.getElem_factory (strict : Bool) (a : Address) :
    (factory strict)[a] = if h : a.val < 80 then Font.bytes[a.val] else 0 :=
  Vector.getElem_ofFn a.isLt

theorem Memory.getElem_clear (m : Memory) (a : Address) : m.clear[a] = 0 :=
  Vector.getElem_replicate a.isLt

/-- Nothing of a program is left: all is zero but the program counter, which is at
the reset address, and the memory, which may still be as delivered. -/
structure Machine.Blank (m : Machine) : Prop where
  pc : m.pc = Address.reset.toWord
  index : m.index = 0
  v : ∀ x : Reg, m.v[x] = 0
  sp : m.stack.sp = 0
  entries : ∀ k : Slot, m.stack[k] = 0
  delay : m.timers.delay = 0
  sound : m.timers.sound = 0
  pixels : ∀ i : Fin 2048, m.display.pixels[i] = 0
  statistics : m.statistics = {}
  waiting : m.waiting = false
  memory : (∀ a : Address, m.memory[a] = 0) ∨
    ∀ a : Address, m.memory[a] = if h : a.val < 80 then Font.bytes[a.val] else 0

variable {m : Machine}

namespace Machine

theorem blank_reset (hstatistics : m.statistics = {})
    (hmemory : (∀ a : Address, m.memory[a] = 0) ∨
      ∀ a : Address, m.memory[a] = if h : a.val < 80 then Font.bytes[a.val] else 0) :
    m.reset.Blank where
  pc := rfl
  index := rfl
  v x := Vector.getElem_replicate x.isLt
  sp := rfl
  entries k := Vector.getElem_replicate k.isLt
  delay := rfl
  sound := rfl
  pixels i := Vector.getElem_replicate i.isLt
  statistics := hstatistics
  waiting := rfl
  memory := hmemory

theorem blank_new (config : Config) (random : RandomTape) : Blank { config, random } :=
  blank_reset (m := { config, random }) rfl (.inr (Memory.getElem_factory config.strict))

theorem blank_stop (m : Machine) : m.stop.Blank :=
  blank_reset rfl (.inl m.memory.getElem_clear)

theorem Blank.samePoint {n : Machine} (hm : m.Blank) (h : m.SamePoint n)
    (hdelay : n.timers.delay = 0) (hsound : n.timers.sound = 0)
    (hstatistics : n.statistics = m.statistics) (hwaiting : n.waiting = m.waiting) :
    n.Blank where
  pc := h.pc.trans hm.pc
  index := h.index.trans hm.index
  v := h.v ▸ hm.v
  sp := h.stack ▸ hm.sp
  entries := h.stack ▸ hm.entries
  delay := hdelay
  sound := hsound
  pixels := h.pixels ▸ hm.pixels
  statistics := hstatistics.trans hm.statistics
  waiting := hwaiting.trans hm.waiting
  memory := h.memory ▸ hm.memory

end Machine

theorem Instruction.lifeCycle_effect (i : Instruction) (m : Machine) :
    (i.effect m).loaded = m.loaded ∧ (i.effect m).paused = m.paused := by
  cases i <;> exact ⟨rfl, rfl⟩

theorem Machine.lifeCycle_step (m : Machine) :
    m.step.2.loaded = m.loaded ∧ m.step.2.paused = m.paused := by
  rcases step_cases m with ⟨-, hstep⟩ | ⟨fault, -, -, hstep⟩ | ⟨-, -, hstep⟩
  · rw [hstep]
    exact ⟨rfl, rfl⟩
  · rw [hstep]
    exact ⟨rfl, rfl⟩
  · rw [hstep]
    exact Instruction.lifeCycle_effect m.instruction m.fetched

theorem Machine.resume_pause (h : m.paused = false) : m.pause.resume = m := by
  change { m with paused := false } = m
  rw [← h]

theorem Machine.step_of_unloaded (h : m.loaded = false) : m.step = (.ok .idle, m) :=
  step_of_idle (by rw [running, h, Bool.false_and])

namespace Command

theorem loaded_apply (c : Command) (m : Machine) :
    (c.apply m).2.loaded = true ↔
      (∃ image, c = load image ∧ image.size ≤ Image.capacity) ∨ m.loaded = true ∧ c ≠ stop := by
  cases c with
  | load image =>
      by_cases hfits : image.size ≤ Image.capacity
      · rw [apply_load_of_le m hfits]
        exact iff_of_true rfl (.inl ⟨image, rfl, hfits⟩)
      · rw [apply_load_of_lt m (Nat.not_le.mp hfits)]
        simp [hfits]
  | step =>
      rw [apply_step, m.lifeCycle_step.1]
      simp
  | stop => simp [apply, Machine.stop, Machine.reset]
  | toggle =>
      rw [apply_toggle]
      simp
  | _ =>
      change m.loaded = true ↔ _
      simp

theorem loaded_run (history : List Command) (m : Machine) :
    (run history m).2.loaded = true ↔
      (∃ before image after, history = before ++ load image :: after ∧
        image.size ≤ Image.capacity ∧ stop ∉ after) ∨ m.loaded = true ∧ stop ∉ history := by
  rw [run_mark_iff (P := fun m => m.loaded = true) loaded_apply history m,
    List.forall_mem_ne']
  refine or_congr_left ?_
  constructor
  · rintro ⟨before, c, after, hhistory, ⟨image, rfl, hfits⟩, hkeep⟩
    exact ⟨before, image, after, hhistory, hfits, List.forall_mem_ne'.mp hkeep⟩
  · rintro ⟨before, image, after, hhistory, hfits, hkeep⟩
    exact ⟨before, _, after, hhistory, ⟨image, rfl, hfits⟩, List.forall_mem_ne'.mpr hkeep⟩

theorem blank_apply (c : Command) (m : Machine) (hm : m.loaded = false → m.Blank)
    (h : (c.apply m).2.loaded = false) : (c.apply m).2.Blank := by
  -- A machine without a program had none before, unless it has just been stopped.
  have hunloaded : c ≠ stop → m.loaded = false := by
    intro hc
    rw [← Bool.not_eq_true]
    intro hloaded
    rw [(loaded_apply c m).mpr (.inr ⟨hloaded, hc⟩)] at h
    contradiction
  cases c with
  | stop => exact m.blank_stop
  | load image =>
      rw [apply_load] at h ⊢
      split at h
      · rw [if_pos ‹_›]
        exact hm h
      · contradiction
  | step =>
      rw [apply_step, Machine.step_of_unloaded (hunloaded (by simp))]
      exact hm (hunloaded (by simp))
  | reset =>
      have hblank := hm h
      exact Machine.blank_reset hblank.statistics hblank.memory
  | tick =>
      have hblank := hm h
      refine hblank.samePoint (samePoint_apply m trivial nofun) ?_ ?_ rfl rfl
      · exact congrArg Timers.countDown hblank.delay
      · exact congrArg Timers.countDown hblank.sound
  | toggle =>
      have hblank := hm (hunloaded nofun)
      have hsame := samePoint_apply (c := toggle) m trivial nofun
      rw [apply_toggle] at hsame ⊢
      exact hblank.samePoint hsame hblank.delay hblank.sound rfl rfl
  | _ =>
      have hblank := hm h
      exact hblank.samePoint (samePoint_apply m trivial nofun) hblank.delay hblank.sound rfl rfl

instance : DecidablePred EndsHalt
  | load image => inferInstanceAs (Decidable (image.size ≤ Image.capacity))
  | reset | stop => isTrue trivial
  | step | tick | key _ _ | pause | resume | toggle | present => isFalse id

/-- Whether a machine is paused after a command that does not start it over. -/
def pauses (paused : Bool) : Command → Bool
  | pause => true
  | resume => false
  | toggle => !paused
  | _ => paused

/-- Whether a history that does not start the machine over leaves it paused. -/
def leavesPaused (history : List Command) : Bool := history.foldl pauses false

/-- What follows the last successful load, reset or stop of a history. -/
def sinceRestart (history : List Command) : List Command :=
  history.rtakeWhile fun c => ¬ c.EndsHalt

theorem paused_apply (c : Command) (m : Machine) :
    (c.apply m).2.paused = if c.EndsHalt then false else c.pauses m.paused := by
  cases c with
  | load image =>
      by_cases hfits : image.size ≤ Image.capacity
      · rw [apply_load_of_le m hfits, if_pos (show EndsHalt (load image) from hfits)]
        rfl
      · rw [apply_load_of_lt m (Nat.not_le.mp hfits),
          if_neg (show ¬ EndsHalt (load image) from hfits)]
        rfl
  | step =>
      rw [apply_step]
      exact m.lifeCycle_step.2
  | toggle =>
      rw [apply_toggle]
      rfl
  | _ => rfl

theorem sinceRestart_append (before : List Command) (c : Command) :
    sinceRestart (before ++ [c]) = if c.EndsHalt then [] else sinceRestart before ++ [c] := by
  rw [sinceRestart, List.rtakeWhile_concat]
  by_cases hc : c.EndsHalt
  · simp [hc]
  · simp [hc, sinceRestart]

theorem paused_run (history : List Command) {m : Machine} (hm : m.paused = false) :
    (run history m).2.paused = leavesPaused (sinceRestart history) := by
  -- The last command decides whether anything before it still counts.
  induction history using List.reverseRecOn with
  | nil => exact hm
  | append_singleton before c ih =>
      have hlast : (run (before ++ [c]) m).2 = (c.apply (run before m).2).2 := by
        rw [run_append]
        rfl
      rw [hlast, paused_apply, ih, sinceRestart_append]
      split
      · rfl
      · rw [leavesPaused, leavesPaused, List.foldl_concat]

/-- A command that neither starts the machine over nor asks for a pause or its end. -/
def Passive : Command → Prop
  | load image => Image.capacity < image.size
  | step | tick | key _ _ | present => True
  | reset | stop | pause | resume | toggle => False

theorem apply_pause {c : Command} (m : Machine) (hc : c.Passive) (hstep : c ≠ step) :
    (c.apply m.pause).2 = (c.apply m).2.pause := by
  cases c with
  | step => exact absurd rfl hstep
  | load image =>
      rw [apply_load_of_lt m hc, apply_load_of_lt m.pause hc]
  | tick | key _ _ | present => rfl
  | reset | stop | pause | resume | toggle => exact hc.elim

theorem paused_apply_of_passive {c : Command} (m : Machine) (hc : c.Passive) :
    (c.apply m).2.paused = m.paused := by
  rw [paused_apply]
  cases c with
  | load image => exact if_neg (Nat.not_le.mpr hc)
  | step | tick | key _ _ | present => rfl
  | reset | stop | pause | resume | toggle => exact hc.elim

/-- A stretch of passive commands in a pause is the same without its steps. -/
theorem run_pause {stretch : List Command} (m : Machine) (hstretch : ∀ c ∈ stretch, c.Passive) :
    (run stretch m.pause).2 = (run (stretch.filter (!·.isStep)) m).2.pause := by
  induction stretch generalizing m with
  | nil => rfl
  | cons c rest ih =>
      have hrest : ∀ d ∈ rest, d.Passive := fun d hd => hstretch d (List.mem_cons_of_mem c hd)
      by_cases hstep : c = step
      · subst hstep
        have hidle : m.pause.step = (.ok .idle, m.pause) :=
          Machine.step_of_idle (by rw [Machine.running]; exact Bool.and_false _)
        rw [run_cons, apply_step, hidle]
        exact ih m hrest
      · have hkept : (c :: rest).filter (!·.isStep) = c :: rest.filter (!·.isStep) := by
          rw [List.filter_cons_of_pos]
          cases c with
          | step => exact absurd rfl hstep
          | _ => rfl
        rw [hkept, run_cons, run_cons, apply_pause m (hstretch c List.mem_cons_self) hstep]
        exact ih (c.apply m).2 hrest

theorem step_run_pause {stretch : List Command} (m : Machine)
    (hstretch : ∀ c ∈ stretch, c.Passive) : (run stretch m.pause).2.step.1 = .ok .idle := by
  rw [run_pause m hstretch, Machine.step_of_idle]
  exact Bool.and_false _

theorem paused_run_passive {history : List Command} (m : Machine)
    (hhistory : ∀ c ∈ history, c.Passive) : (run history m).2.paused = m.paused := by
  induction history generalizing m with
  | nil => rfl
  | cons c rest ih =>
      exact (ih (c.apply m).2 fun d hd => hhistory d (List.mem_cons_of_mem c hd)).trans
        (paused_apply_of_passive m (hhistory c List.mem_cons_self))

theorem run_pause_resume {stretch : List Command} (hm : m.paused = false)
    (hstretch : ∀ c ∈ stretch, c.Passive) :
    (run stretch m.pause).2.resume = (run (stretch.filter (!·.isStep)) m).2 := by
  have hpaused : (run (stretch.filter (!·.isStep)) m).2.paused = false :=
    (paused_run_passive m fun c hc => hstretch c (List.mem_of_mem_filter hc)).trans hm
  rw [run_pause m hstretch, Machine.resume_pause hpaused]

/-- The life of a machine. It has a program from a successful load to the next
stop, and its pauses, resumes and toggles since it was last started over say
whether it is paused. Without a program nothing of an earlier one is left, and a
step does nothing. Nor does it in a pause, from which a machine comes back as if
neither the pause nor the steps in it had been. -/
theorem life_cycle (config : Config) (random : RandomTape) (history : List Command) :
    let new : Machine := { config, random }
    let m := (run history new).2
    (m.loaded = true ↔ ∃ before image after, history = before ++ load image :: after ∧
      image.size ≤ Image.capacity ∧ stop ∉ after) ∧
    m.paused = leavesPaused (sinceRestart history) ∧
    (m.loaded = false → m.Blank ∧ m.step = (.ok .idle, m)) ∧
    (m.paused = false → ∀ stretch, (∀ c ∈ stretch, c.Passive) →
      (∀ before, before ++ [step] <+: stretch →
        (run (history ++ pause :: before) new).2.step.1 = .ok .idle) ∧
      (∀ later, (run (history ++ pause :: stretch ++ resume :: later) new).2 =
        (run (history ++ stretch.filter (!·.isStep) ++ later) new).2)) := by
  intro new m
  refine ⟨?_, paused_run history rfl, fun h => ⟨?_, m.step_of_unloaded h⟩, ?_⟩
  · rw [loaded_run]
    exact or_iff_left fun h => Bool.false_ne_true h.1
  · exact run_preserves (P := fun m => m.loaded = false → m.Blank) blank_apply history
      (fun _ => Machine.blank_new config random) h
  · intro hm stretch hstretch
    have hpause : ∀ rest, (run (history ++ pause :: rest) new).2 = (run rest m.pause).2 := by
      intro rest
      rw [run_append]
      rfl
    constructor
    · intro before hbefore
      have hpart : before <+: stretch := (List.prefix_append _ _).trans hbefore
      rw [hpause]
      exact step_run_pause m fun c hc => hstretch c (hpart.subset hc)
    · intro later
      have hback := run_pause_resume hm hstretch
      rw [List.append_assoc, List.cons_append, hpause, run_append, run_cons, run_append, run_append]
      exact congrArg (fun k => (run later k).2) hback

/-- A program that is paused before its first step, and the machine after its stop. -/
theorem life_cycle_paused_program :
    let config : Config := {}
    let new : Machine := { config, random := .ofSeed 0 }
    let history := [load #[0x60, 0x01]]
    let large := load (Array.replicate 3585 0)
    (run history new).2.loaded = true ∧
      (run (history ++ pause :: [step, tick, large, step] ++ resume :: [step]) new).2 =
        (run (history ++ [tick, large] ++ [step]) new).2 ∧
      (run (history ++ [stop]) new).2.Blank := by
  intro config new history large
  have hlarge : Image.capacity < (Array.replicate 3585 (0 : UInt8)).size := by
    rw [Array.size_replicate]
    decide
  obtain ⟨hloaded, hpaused, -, hpause⟩ := life_cycle config (.ofSeed 0) history
  have hrunning : (run history new).2.paused = false := by
    rw [hpaused]
    decide
  have hpassive : ∀ c ∈ [step, tick, large, step], c.Passive := by
    simpa [Passive, large] using hlarge
  obtain ⟨-, -, hblank, -⟩ := life_cycle config (.ofSeed 0) (history ++ [stop])
  refine ⟨hloaded.mpr ⟨[], _, [], rfl, by decide, by simp⟩,
    (hpause hrunning [step, tick, large, step] hpassive).2 [step], (hblank ?_).1⟩
  rw [run_append]
  rfl

end Command

end Chip8
