import Chip8.CommandLine.Report
import Chip8.Proofs.CommandLineReading
import Chip8.Proofs.FrameRun
import Chip8.Proofs.Journaling
import Chip8.Proofs.Rendering

namespace Chip8

namespace Statistics

variable (s : Statistics)

theorem map_count_all : Family.all.map s.count = s.executed.toList := by
  have hall : Family.all = (List.finRange 16).map Family.ofNibble := by decide
  have hcount : ∀ k : Fin 16, s.count (.ofNibble k) = s.executed[k] := fun k =>
    congrArg (fun i : Fin 16 => s.executed[i]) (Family.nibble_ofNibble k)
  rw [hall, List.map_map]
  simp only [Function.comp_def, hcount]
  apply List.ext_getElem <;> simp

theorem foldl_count_filter (families : List Family) (start : Nat) :
    ((families.filter fun f => s.count f ≠ 0).map s.count).foldl (· + ·) start =
      (families.map s.count).foldl (· + ·) start := by
  induction families generalizing start with
  | nil => rfl
  | cons f rest ih =>
      rw [List.map_cons, List.foldl_cons, ← ih, List.filter_cons]
      by_cases hzero : s.count f = 0
      · simp only [hzero, ne_eq, not_true_eq_false, decide_false, Bool.false_eq_true, if_false,
          Nat.add_zero]
      · simp only [hzero, ne_eq, not_false_eq_true, decide_true, if_true, List.map_cons,
          List.foldl_cons]

/-- The lines for the families that came up add up to the total. -/
theorem exists_entries :
    ∃ counts : List (Family × Nat),
      s.entries = counts.map (fun (f, k) => Entry.executed f k) ++
        [.summary s.total s.keyWaits s.ignored] ∧
      (counts.map Prod.snd).foldl (· + ·) 0 = s.total := by
  refine ⟨(Family.all.filter fun f => s.count f ≠ 0).map fun f => (f, s.count f), ?_, ?_⟩
  · rw [entries, List.map_map]
    rfl
  · rw [List.map_map]
    exact (s.foldl_count_filter Family.all 0).trans
      ((congrArg _ s.map_count_all).trans (Vector.foldl_toList ..))

end Statistics

namespace Command

/-- Steps, ticks and acknowledgements, which are all that a run of frames is made of. -/
def OfRun (c : Command) : Prop := c = step ∨ c = tick ∨ c = present

theorem ofRun_of_mem_commands {stepsPerFrame frames : Nat} {c : Command}
    (hc : c ∈ Schedule.commands stepsPerFrame frames) : c.OfRun := by
  obtain ⟨frame, hframe, hc⟩ := List.mem_flatten.mp hc
  rw [List.eq_of_mem_replicate hframe, Schedule.frameCommands, List.mem_append] at hc
  rcases hc with hstep | hlast
  · exact .inl (List.eq_of_mem_replicate hstep)
  · rcases List.mem_cons.mp hlast with rfl | hpresent
    · exact .inr (.inl rfl)
    · exact .inr (.inr (List.mem_singleton.mp hpresent))

theorem exists_commands_eq_cons (n k : Nat) :
    ∃ rest, Schedule.commands (n + 1) (k + 1) = step :: rest := by
  rw [Schedule.commands_succ, Schedule.frameCommands, List.replicate_succ]
  exact ⟨_, rfl⟩

theorem countP_isStep_commands (stepsPerFrame frames : Nat) :
    (Schedule.commands stepsPerFrame frames).countP isStep = frames * stepsPerFrame := by
  induction frames with
  | zero => exact (Nat.zero_mul _).symm
  | succ k ih =>
      have hframe : (Schedule.frameCommands stepsPerFrame).countP isStep = stepsPerFrame := by
        rw [Schedule.frameCommands, List.countP_append, List.countP_replicate]
        rfl
      rw [Schedule.commands_succ, List.countP_append, ih, hframe, Nat.succ_mul, Nat.add_comm]

/-- On a running machine a row of steps that all succeed raises the total by their number. -/
theorem total_run_of_succeeds {history : List Command} {m : Machine} (hm : m.Ready)
    (hkinds : ∀ c ∈ history, c.OfRun) (hsucceeds : Succeeds history m) :
    (run history m).2.statistics.total = m.statistics.total + history.countP isStep := by
  induction history generalizing m with
  | nil => rfl
  | cons c rest ih =>
      obtain ⟨hfirst, hrest⟩ := (succeeds_append [c] rest m).mp hsucceeds
      have hkinds' : ∀ d ∈ rest, d.OfRun := fun d hd => hkinds d (List.mem_cons_of_mem c hd)
      rw [run_cons]
      rcases hkinds c List.mem_cons_self with rfl | rfl | rfl
      · rcases hm.step_cases with ⟨fault, hfault⟩ | ⟨hok, hready⟩
        · exact absurd hfirst (not_succeeds_step (congrArg Prod.fst hfault))
        · have hnext : (step.apply m).2 = m.stepped := by rw [apply_step, hok]
          rw [run_cons, run_nil, hnext] at hrest
          rw [hnext, ih hready hkinds' hrest, Machine.stepped, Machine.total_nextStatistics,
            List.countP_cons_of_pos rfl]
          omega
      · exact ih (m := m.tick) ⟨hm.running, hm.waits⟩ hkinds' hrest
      · exact ih (m := m.present) ⟨hm.running, hm.waits⟩ hkinds' hrest

theorem succeeds_of_loose (history : List Command) {m : Machine} (hm : m.Uniform false) :
    Succeeds history m := by
  induction history generalizing m with
  | nil => exact fun fault => List.not_mem_nil
  | cons c rest ih =>
      refine (succeeds_append [c] rest m).mpr ⟨(succeeds_singleton c m).mpr ?_, ih (hm.apply c)⟩
      intro fault
      cases c with
      | step =>
          rw [apply_step]
          rcases m.step_cases with ⟨-, hstep⟩ | ⟨fault', -, hfault, -⟩ | ⟨-, -, hstep⟩
          · rw [hstep]
            exact Response.noConfusion
          · rw [Machine.stepFault?_of_loose hm] at hfault
            contradiction
          · rw [hstep]
            exact Response.noConfusion
      | load image =>
          rw [apply_load]
          split <;> exact Response.noConfusion
      | _ => exact Response.noConfusion

theorem eq_nil_of_first_fails {history rest : List Command} {m : Machine} {fault : Fault}
    (hbegins : history ++ [step] <+: step :: rest) (hsucceeds : Succeeds history m)
    (hfails : m.step.1 = .error fault) : history = [] := by
  cases history with
  | nil => rfl
  | cons c later =>
      obtain ⟨rfl, -⟩ := List.cons_prefix_cons.mp hbegins
      exact absurd ((succeeds_append [step] later m).mp hsucceeds).1 (not_succeeds_step hfails)

theorem run_keys (keys : List Key) (m : Machine) :
    (run (keys.map (.key ·.toByte true)) m).2 =
      keys.foldl (fun m key => m.setKey key.toByte true) m := by
  induction keys generalizing m with
  | nil => rfl
  | cons k rest ih => exact ih (m.setKey k.toByte true)

theorem exists_run_keys (keys : List Key) (m : Machine) :
    ∃ keypad, (run (keys.map (.key ·.toByte true)) m).2 = { m with keypad } := by
  induction keys generalizing m with
  | nil => exact ⟨m.keypad, rfl⟩
  | cons k rest ih => exact ih (m.setKey k.toByte true)

end Command

/-- An entry about a run as a whole. -/
def Entry.ofReport : Entry → Bool
  | executed _ _ | summary _ _ _ | finished _ | halted _ _ => true
  | _ => false

theorem Entry.rank_level_of_ofReport {e : Entry} (he : e.ofReport = true) :
    e.level.rank ≤ Level.info.rank := by
  cases e with
  | executed | summary | finished | halted => exact Nat.le_of_ble_eq_true rfl
  | _ => contradiction

theorem Journal.keeps_of_rank_le {j : Journal} {l l' : Level} (hle : l.rank ≤ l'.rank)
    (h : j.keeps l' = true) : j.keeps l = true := by
  obtain ⟨limit, hlevel, hlimit⟩ := (Option.any_eq_true _ _).mp h
  exact (Option.any_eq_true _ _).mpr
    ⟨limit, hlevel, decide_eq_true (Nat.le_trans hle (of_decide_eq_true hlimit))⟩

namespace CommandLine

namespace Report

/-- What the journal of a report says about the run as a whole. -/
def lines (r : Report) : List Entry := r.journal.entries.toList.filter Entry.ofReport

/-- The last line of a report. -/
def closing (result : Except Fault Nat) (pc : UInt16) : Entry :=
  match result with
  | .ok frames => .finished frames
  | .error fault => .halted fault pc

theorem journal_ofRun (result : Except Fault Nat) (s : Session) :
    (ofRun result s).journal =
      s.journal.noteAll (s.machine.statistics.entries ++ [closing result s.machine.pc]) := by
  rw [Journal.noteAll, List.foldl_append]
  cases result <;> rfl

theorem ofReport_of_mem {s : Statistics} {result : Except Fault Nat} {pc : UInt16} {e : Entry}
    (he : e ∈ s.entries ++ [closing result pc]) : e.ofReport = true := by
  rcases List.mem_append.mp he with hcount | hlast
  · obtain ⟨counts, hentries, -⟩ := s.exists_entries
    rw [hentries, List.mem_append, List.mem_map] at hcount
    rcases hcount with ⟨_, _, rfl⟩ | hsummary
    · rfl
    · rw [List.mem_singleton.mp hsummary]
      rfl
  · rw [List.mem_singleton.mp hlast]
    cases result <;> rfl

/-- The lines of a report are the counts and then how the run ended, as far as the
journal keeps them. -/
theorem lines_ofRun {s t : Session} {result : Except Fault Nat}
    (hnew : ∀ e ∈ s.journal.entries.toList, e.ofReport = false)
    (hrun : s.journal.Extends Entry.OfFrame t.journal) :
    (ofRun result t).lines =
      (t.machine.statistics.entries ++ [closing result t.machine.pc]).filter
        fun e => s.journal.keeps e.level := by
  obtain ⟨es, hes, hframe⟩ := hrun.entries
  have hkeeps : ∀ l, t.journal.keeps l = s.journal.keeps l := Journal.keeps_congr hrun.level
  have hbefore : s.journal.entries.toList.filter Entry.ofReport = [] :=
    List.filter_eq_nil_iff.mpr fun e he => by rw [hnew e he]; exact Bool.false_ne_true
  have hduring : es.filter Entry.ofReport = [] := by
    refine List.filter_eq_nil_iff.mpr fun e he => ?_
    have hof := hframe e he
    cases e with
    | dispatched | ignoring | tone => exact Bool.false_ne_true
    | _ => exact hof.elim
  simp only [lines, journal_ofRun, Journal.entries_noteAll, hes, hkeeps, List.filter_append,
    hbefore, hduring, List.nil_append]
  rw [← List.filter_append, ← List.filter_append]
  apply List.filter_eq_self.mpr
  intro e he
  exact ofReport_of_mem (List.mem_filter.mp he).1

/-- The lines on a run as a whole: the counts of its families, their total, and how it
ended. -/
def SumsUp (total : Nat) (last : Entry) (r : Report) : Prop :=
  ∃ (counts : List (Family × Nat)) (keyWaits ignored : Nat),
    r.lines = counts.map (fun (f, k) => .executed f k) ++
      [.summary total keyWaits ignored, last] ∧
    (counts.map Prod.snd).foldl (· + ·) 0 = total

theorem sumsUp_ofRun {s t : Session} {result : Except Fault Nat}
    (hnew : ∀ e ∈ s.journal.entries.toList, e.ofReport = false)
    (hrun : s.journal.Extends Entry.OfFrame t.journal) (hinfo : s.journal.keeps .info = true) :
    (ofRun result t).SumsUp t.machine.statistics.total (closing result t.machine.pc) := by
  obtain ⟨counts, hentries, hsum⟩ := t.machine.statistics.exists_entries
  refine ⟨counts, t.machine.statistics.keyWaits, t.machine.statistics.ignored, ?_, hsum⟩
  have hkept : (t.machine.statistics.entries ++ [closing result t.machine.pc]).filter
      (fun e => s.journal.keeps e.level) =
        t.machine.statistics.entries ++ [closing result t.machine.pc] := by
    apply List.filter_eq_self.mpr
    intro e he
    exact Journal.keeps_of_rank_le (Entry.rank_level_of_ofReport (ofReport_of_mem he)) hinfo
  rw [lines_ofRun hnew hrun, hkept, hentries, List.append_assoc]
  rfl

theorem finished_notMem_ofRun {s t : Session} {fault : Fault}
    (hnew : ∀ e ∈ s.journal.entries.toList, e.ofReport = false)
    (hrun : s.journal.Extends Entry.OfFrame t.journal) (frames : Nat) :
    .finished frames ∉ (ofRun (.error fault) t).journal.entries.toList := by
  intro he
  have hline : .finished frames ∈ (ofRun (.error fault) t).lines :=
    List.mem_filter.mpr ⟨he, rfl⟩
  rw [lines_ofRun hnew hrun] at hline
  obtain ⟨counts, hentries, -⟩ := t.machine.statistics.exists_entries
  have hamong := (List.mem_filter.mp hline).1
  rw [hentries, closing] at hamong
  simp at hamong

end Report

namespace Options

open Command Schedule

section

variable (o : Options) (chance : RandomTape) (image : Image) (level : Option Level)

/-- What is done to a new machine before its first frame. -/
def opening : List Command := .load image :: o.keys.map (.key ·.toByte true)

/-- The machine that a run starts on. -/
def machine : Machine :=
  (Command.run (o.opening image)
    { config := o.config, random := (o.seed.map .ofSeed).getD chance }).2

/-- What the machine goes through in a run. -/
def commands : List Command :=
  Schedule.commands (max (o.instructionsPerSecond.toNat / 60) 1) o.frames.toNat

theorem machine_of_le (hsize : image.size ≤ Image.capacity) :
    ∃ keypad, o.machine chance image =
      { Machine.starting image
          { config := o.config, random := (o.seed.map .ofSeed).getD chance } with keypad } := by
  rw [machine, opening, run_cons, apply_load_of_le _ hsize]
  exact exists_run_keys o.keys _

theorem ready_machine (hsize : image.size ≤ Image.capacity) : (o.machine chance image).Ready := by
  have hreachable : (o.machine chance image).Reachable := ⟨_, _, _, rfl⟩
  obtain ⟨keypad, hmachine⟩ := o.machine_of_le chance image hsize
  exact ⟨congrArg Machine.running hmachine, hreachable.waitsAtWait⟩

theorem total_machine (hsize : image.size ≤ Image.capacity) :
    (o.machine chance image).statistics.total = 0 := by
  obtain ⟨keypad, hmachine⟩ := o.machine_of_le chance image hsize
  rw [hmachine]
  exact Statistics.tallies_new.total

theorem total_run_machine (hsize : image.size ≤ Image.capacity) {history : List Command}
    (hkinds : ∀ c ∈ history, c.OfRun) (hsucceeds : Succeeds history (o.machine chance image)) :
    (Command.run history (o.machine chance image)).2.statistics.total =
      history.countP isStep := by
  rw [total_run_of_succeeds (o.ready_machine chance image hsize) hkinds hsucceeds,
    o.total_machine chance image hsize, Nat.zero_add]

theorem uniform_machine : (o.machine chance image).Uniform o.config.strict :=
  Command.run_preserves (fun c _ => Machine.Uniform.apply c) (o.opening image)
    (Machine.uniform_new _ _)

/-- What a run of frames starts from. -/
def session : Session where
  machine := o.machine chance image
  schedule := .ofRate o.instructionsPerSecond
  journal := Journal.noteAll (o.openingEntries image (.ofRate o.instructionsPerSecond)) { level }

theorem start_eq :
    o.start chance (.ok image) level =
      if Image.capacity < image.size then .error (.imageTooLarge image.size)
      else .ok (o.session chance image level) := by
  let new : Machine := { config := o.config, random := (o.seed.map .ofSeed).getD chance }
  rw [start]
  change (do
    let machine ← new.load image
    _) = _
  rw [Machine.load_eq]
  by_cases hsize : Image.capacity < image.size
  · rw [if_pos hsize, if_pos hsize]
    rfl
  · have hmachine : o.machine chance image =
        o.keys.foldl (fun m key => m.setKey key.toByte true) (new.starting image) := by
      rw [machine, opening, run_cons, apply_load_of_le _ (Nat.not_lt.mp hsize)]
      exact run_keys o.keys _
    rw [if_neg hsize, if_neg hsize, session, hmachine]
    rfl

theorem run_of_lt (hsize : Image.capacity < image.size) :
    o.run chance (.ok image) level = .ofLoadError o.rom (.imageTooLarge image.size) := by
  rw [run, start_eq, if_pos hsize]

theorem run_of_le (hsize : image.size ≤ Image.capacity) :
    o.run chance (.ok image) level =
      .ofRun ((o.session chance image level).run o.frames.toNat).1
        ((o.session chance image level).run o.frames.toNat).2 := by
  rw [run, start_eq, if_neg (Nat.not_lt.mpr hsize)]

theorem keeps_session (l : Level) :
    (o.session chance image level).journal.keeps l = Journal.keeps l { level } :=
  Journal.keeps_congr (Journal.level_noteAll _ _) l

theorem ofReport_of_mem_session {e : Entry}
    (he : e ∈ (o.session chance image level).journal.entries.toList) : e.ofReport = false := by
  rw [session, Journal.entries_noteAll, List.mem_append] at he
  rcases he with hnone | hopening
  · contradiction
  · have hkinds := (List.mem_filter.mp hopening).1
    simp only [openingEntries, List.mem_append, List.mem_cons, List.mem_map, List.not_mem_nil,
      or_false] at hkinds
    rcases hkinds with ((rfl | rfl) | ⟨_, _, rfl⟩) | rfl <;> rfl

theorem picture_and_counts (hsize : image.size ≤ Image.capacity) {history : List Command}
    (hkinds : ∀ c ∈ history, c.OfRun) (hsucceeds : Succeeds history (o.machine chance image))
    (hleft : ((o.session chance image level).run o.frames.toNat).2.machine =
      (Command.run history (o.machine chance image)).2) :
    let report := o.run chance (.ok image) level
    let n := (Command.run history (o.machine chance image)).2
    report.output = n.display.picture ++ "\n" ∧
    (Journal.keeps .info { level } = true →
      report.SumsUp (history.countP isStep)
        (Report.closing ((o.session chance image level).run o.frames.toNat).1 n.pc)) := by
  intro report n
  have hreport : report = _ := o.run_of_le chance image level hsize
  rw [hreport, ← o.total_run_machine chance image hsize hkinds hsucceeds]
  simp only [n, ← hleft]
  refine ⟨?_, fun hinfo => ?_⟩
  · rw [← Framebuffer.text_eq_picture]
    cases ((o.session chance image level).run o.frames.toNat).1 <;> rfl
  · exact Report.sumsUp_ofRun (fun e he => o.ofReport_of_mem_session chance image level he)
      (Session.extends_runFrom _ _ _) ((o.keeps_session chance image level _).trans hinfo)

variable {o chance image}

/-- A run whose steps all succeed is finished, and counts them all. -/
theorem report_of_succeeds (hsize : image.size ≤ Image.capacity)
    (hsucceeds : Succeeds o.commands (o.machine chance image)) :
    let report := o.run chance (.ok image) level
    report.status = 0 ∧
    report.output =
      (Command.run o.commands (o.machine chance image)).2.display.picture ++ "\n" ∧
    (Journal.keeps .info { level } = true →
      report.SumsUp (o.commands.countP isStep) (.finished o.frames.toNat)) := by
  intro report
  obtain ⟨hok, hdone, -⟩ := (o.session chance image level).run_of_ready o.frames.toNat
    (o.ready_machine chance image hsize)
  have hresult : ((o.session chance image level).run o.frames.toNat).1 = .ok o.frames.toNat :=
    hok.mpr hsucceeds
  have hkinds : ∀ c ∈ o.commands, c.OfRun := fun c hc => ofRun_of_mem_commands hc
  have hleft := (hdone hsucceeds).2.machine
  have hcounts := o.picture_and_counts chance image level hsize hkinds hsucceeds hleft
  rw [hresult] at hcounts
  refine ⟨?_, hcounts⟩
  have hreport : report = _ := o.run_of_le chance image level hsize
  rw [hreport, hresult]
  rfl

theorem exists_first_failure (hsize : image.size ≤ Image.capacity)
    (hfails : ¬ Succeeds o.commands (o.machine chance image)) :
    ∃ history fault, history ++ [step] <+: o.commands ∧
      Succeeds history (o.machine chance image) ∧
      ((o.session chance image level).run o.frames.toNat).1 = .error fault ∧
      ((o.session chance image level).run o.frames.toNat).2.machine =
        (Command.run history (o.machine chance image)).2 ∧
      (Command.run history (o.machine chance image)).2.step.1 = .error fault := by
  obtain ⟨-, -, hbroken⟩ := (o.session chance image level).run_of_ready o.frames.toNat
    (o.ready_machine chance image hsize)
  obtain ⟨q, r, fault, hq, hr, hresult, hreaches, hstep⟩ := hbroken hfails
  obtain ⟨rest, hsplit⟩ := commands_split hq hr
  refine ⟨_, fault, ⟨rest, hsplit.symm⟩, hreaches.succeeds, hresult, hreaches.machine, ?_⟩
  exact hreaches.machine ▸ congrArg Prod.fst hstep

/-- A run is halted at the first step that fails, and counts those before it. -/
theorem report_of_not_succeeds (hsize : image.size ≤ Image.capacity)
    (hfails : ¬ Succeeds o.commands (o.machine chance image)) :
    let report := o.run chance (.ok image) level
    report.status = 1 ∧
    ∃ history fault, history ++ [step] <+: o.commands ∧
      Succeeds history (o.machine chance image) ∧
      let n := (Command.run history (o.machine chance image)).2
      n.step.1 = .error fault ∧
      report.output = n.display.picture ++ "\n" ∧
      report.complaint = Text.failure
        s!"execution halted at {Hex.literal 3 n.pc.toNat}: {fault.message}" [] ∧
      (∀ frames, .finished frames ∉ report.journal.entries.toList) ∧
      (Journal.keeps .info { level } = true →
        report.SumsUp (history.countP isStep) (.halted fault n.pc)) := by
  intro report
  obtain ⟨history, fault, hbegins, hsucceeds, hresult, hleft, hstep⟩ :=
    exists_first_failure level hsize hfails
  have hkinds : ∀ c ∈ history, c.OfRun := fun c hc =>
    ofRun_of_mem_commands (hbegins.subset (List.mem_append_left _ hc))
  obtain ⟨houtput, hcounts⟩ :=
    o.picture_and_counts chance image level hsize hkinds hsucceeds hleft
  have hreport : report =
      .ofRun (.error fault) ((o.session chance image level).run o.frames.toNat).2 := by
    rw [← hresult]
    exact o.run_of_le chance image level hsize
  rw [hresult] at hcounts
  have hstatus : report.status = 1 := congrArg Report.status hreport
  refine ⟨hstatus, history, fault, hbegins, hsucceeds, hstep, houtput, ?_, ?_, hcounts⟩
  · rw [hreport, ← hleft]
    rfl
  · rw [hreport]
    exact Report.finished_notMem_ofRun
      (fun e he => o.ofReport_of_mem_session chance image level he)
      (Session.extends_runFrom _ _ _)

end

/-- A command line asks for a run just when its parts set the options of one, and a run
of a program says how it went. A program that does not fit is refused. Otherwise the
picture comes last, and either all steps of all frames have succeeded, as they do unless
the machine is asked to be strict, and all of them are counted, or one has failed, and
just those before it are counted. -/
theorem run_reports_steps (o : Options) (chance : RandomTape) (image : Image)
    (level : Option Level) :
    let report := o.run chance (.ok image) level
    let S := max (o.instructionsPerSecond.toNat / 60) 1
    let F := o.frames.toNat
    let m := o.machine chance image
    let info := Journal.keeps .info { level } = true
    (∀ arguments, Options.parse arguments = .ok o ↔
      ∃ parts, Comprises arguments parts ∧ o.SetBy parts) ∧
    (∀ arguments, Options.parse arguments = .ok o →
      (o.config.strict = true ↔ "--strict" ∈ arguments.takeWhile (· ≠ "--"))) ∧
    (3584 < image.size → report.status = 1 ∧ report.output = "") ∧
    (image.size ≤ 3584 →
      (o.config.strict = false → Succeeds (Schedule.commands S F) m) ∧
      (report.status = 1 ↔ ¬ Succeeds (Schedule.commands S F) m) ∧
      (Succeeds (Schedule.commands S F) m →
        report.status = 0 ∧
        report.output = (Command.run (Schedule.commands S F) m).2.display.picture ++ "\n" ∧
        (info → report.SumsUp (F * S) (.finished F))) ∧
      (¬ Succeeds (Schedule.commands S F) m →
        ∃ history fault, history ++ [step] <+: Schedule.commands S F ∧ Succeeds history m ∧
          history.countP isStep < F * S ∧
          let n := (Command.run history m).2
          n.step.1 = .error fault ∧
          report.output = n.display.picture ++ "\n" ∧
          report.complaint = Text.failure
            s!"execution halted at {Hex.literal 3 n.pc.toNat}: {fault.message}" [] ∧
          (∀ frames, .finished frames ∉ report.journal.entries.toList) ∧
          (info → report.SumsUp (history.countP isStep) (.halted fault n.pc)))) := by
  intro report S F m info
  have hall : o.commands.countP isStep = F * S := countP_isStep_commands S F
  refine ⟨fun arguments => parse_eq_ok_iff, fun arguments => strict_parse, ?_, ?_⟩
  · intro hsize
    have hreport : report = .ofLoadError o.rom (.imageTooLarge image.size) :=
      o.run_of_lt chance image level hsize
    rw [hreport]
    exact ⟨rfl, rfl⟩
  · intro hsize
    refine ⟨?_, ⟨?_, ?_⟩, ?_, ?_⟩
    · intro hloose
      exact succeeds_of_loose _ (hloose ▸ o.uniform_machine chance image)
    · intro hstatus hsucceeds
      have hzero : report.status = 0 := (report_of_succeeds level hsize hsucceeds).1
      rw [hzero] at hstatus
      contradiction
    · intro hfails
      exact (report_of_not_succeeds level hsize hfails).1
    · intro hsucceeds
      rw [← hall]
      exact report_of_succeeds level hsize hsucceeds
    · intro hfails
      obtain ⟨-, history, fault, hbegins, hbefore, hhalted⟩ :=
        report_of_not_succeeds level hsize hfails
      refine ⟨history, fault, hbegins, hbefore, ?_, hhalted⟩
      have hmore : (history ++ [step]).countP isStep ≤ o.commands.countP isStep :=
        hbegins.sublist.countP_le
      rw [List.countP_append, hall] at hmore
      exact hmore

/-- An empty program runs on through memory for all its frames, and a lone return on a
strict machine is refused at once. -/
theorem run_reports_steps_short_programs :
    let loose : Options := { rom := "empty.ch8", frames := 3, seed := some 7, keys := [10] }
    let strict : Options := { rom := "lone.ch8", config := { strict := true } }
    (parse ["--frames", "3", "--key=A", "empty.ch8", "--seed=+7"] = .ok loose ∧
      (loose.run (.ofSeed 0) (.ok #[]) (some .info)).status = 0 ∧
      (loose.run (.ofSeed 0) (.ok #[]) (some .info)).SumsUp 33 (.finished 3)) ∧
    parse ["--strict", "lone.ch8"] = .ok strict ∧
      (strict.run (.ofSeed 0) (.ok #[0x00, 0xEE]) (some .info)).status = 1 ∧
      (strict.run (.ofSeed 0) (.ok #[0x00, 0xEE]) (some .info)).SumsUp 0
        (.halted .stackUnderflow 0x200) := by
  intro loose strict
  have hloose : loose.SetBy
      [.setting .frames "3", .setting .key "A", .program "empty.ch8", .setting .seed "+7"] := {
    program := rfl
    named := by decide
    rate := .inl ⟨rfl, rfl⟩
    frames := .inr ⟨"3", rfl, [], ['3'], rfl, .inl rfl, by decide, [3], .cons (by decide) .nil, rfl⟩
    seed := .cons ⟨['+'], ['7'], rfl, .inr rfl, by decide, [7], .cons (by decide) .nil, rfl⟩ .nil
    shift := .inl ⟨rfl, rfl⟩
    sprite := .inl ⟨rfl, rfl⟩
    keys := .cons ⟨0, [], ['A'], rfl, .inl rfl, by decide, [10], .cons (by decide) .nil, rfl⟩ .nil
    strict := rfl
    realtime := rfl
    others := by decide }
  have hstrict : strict.SetBy [.switch .strict, .program "lone.ch8"] := {
    program := rfl
    named := by decide
    rate := .inl ⟨rfl, rfl⟩
    frames := .inl ⟨rfl, rfl⟩
    seed := .nil
    shift := .inl ⟨rfl, rfl⟩
    sprite := .inl ⟨rfl, rfl⟩
    keys := .nil
    strict := rfl
    realtime := rfl
    others := by decide }
  have hsteps : loose.frames.toNat * max (loose.instructionsPerSecond.toNat / 60) 1 = 33 := by
    decide
  have hframes : loose.frames.toNat = 3 := by decide
  obtain ⟨hparse, -, -, hfirst⟩ := run_reports_steps loose (.ofSeed 0) #[] (some .info)
  have hasked : parse ["--frames", "3", "--key=A", "empty.ch8", "--seed=+7"] = .ok loose :=
    (hparse _).mpr ⟨_, .apart .frames (.inr (by decide)) (.joined .key "A"
      (.program (.inr (by decide)) (.joined .seed "+7" .nil))), hloose⟩
  obtain ⟨hsucceeds, -, hdone, -⟩ := hfirst (by decide)
  obtain ⟨hstatus, -, hsums⟩ := hdone (hsucceeds rfl)
  rw [hsteps, hframes] at hsums
  refine ⟨⟨hasked, hstatus, hsums rfl⟩, ?_⟩
  obtain ⟨hparse, -, -, hsecond⟩ :=
    run_reports_steps strict (.ofSeed 0) #[0x00, 0xEE] (some .info)
  have hasked : parse ["--strict", "lone.ch8"] = .ok strict :=
    (hparse _).mpr ⟨_, .switch .strict (.program (.inr (by decide)) .nil), hstrict⟩
  refine ⟨hasked, ?_⟩
  obtain ⟨-, hfailed, -, hhalted⟩ := hsecond (by decide)
  have hmachine : strict.machine (.ofSeed 0) #[0x00, 0xEE] =
      Machine.starting #[0x00, 0xEE] { config := { strict := true }, random := .ofSeed 0 } :=
    run_load _ _ (by decide)
  have hstep : (strict.machine (.ofSeed 0) #[0x00, 0xEE]).step.1 = .error .stackUnderflow := by
    rw [hmachine, Machine.step_of_fault rfl (Machine.stepFault?_of_lone_ret rfl)]
  have hrate : max (strict.instructionsPerSecond.toNat / 60) 1 = 10 + 1 := by decide
  have hlast : strict.frames.toNat = 599 + 1 := by decide
  obtain ⟨rest, hrest⟩ := exists_commands_eq_cons 10 599
  rw [hrate, hlast, hrest] at hfailed hhalted
  have hfails : ¬ Succeeds (step :: rest) (strict.machine (.ofSeed 0) #[0x00, 0xEE]) :=
    fun h => not_succeeds_step hstep ((succeeds_append [step] rest _).mp h).1
  obtain ⟨history, fault, hbegins, hbefore, -, hfault, -, -, -, hsums⟩ := hhalted hfails
  obtain rfl : history = [] := eq_nil_of_first_fails hbegins hbefore hstep
  rw [run_nil, hstep, Except.error.injEq] at hfault
  have hpc : (strict.machine (.ofSeed 0) #[0x00, 0xEE]).pc = 0x200 := by
    rw [hmachine]
    rfl
  rw [run_nil, hpc, ← hfault] at hsums
  exact ⟨hfailed.mpr hfails, hsums rfl⟩

end Options

end CommandLine

end Chip8
