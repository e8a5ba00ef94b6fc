import Chip8.Proofs.CommandLineOptions

namespace Chip8.CommandLine

namespace Reading

open Draft

variable {d e D : Draft} {r next settled : Reading} {text : String} {arguments : List String}
  {parts : List Part}

section

variable (hmay : r.optionsEnded = false)
include hmay

theorem read_end : r.read "--" = .ok { r with optionsEnded := true } := by
  rw [read, hmay, if_neg Bool.false_ne_true, (Argument.ofText_eq_endOfOptions_iff "--").mpr rfl]

theorem read_setting (s : Setting) (value : Option String) :
    r.read ("--" ++ s.name ++ Argument.behind value) =
      (r.readSetting s value).mapError .usage := by
  rw [read, hmay, if_neg Bool.false_ne_true, ofText_setting]
  simp only [(Parameter.ofName?_eq_setting_iff _ s).mpr rfl]

theorem read_switch (s : Switch) : r.read ("--" ++ s.name) = r.readSwitch s := by
  rw [read, hmay, if_neg Bool.false_ne_true, ofText_switch]
  simp only [(Parameter.ofName?_eq_switch_iff _ s).mpr rfl]

theorem read_plain (hplain : Plain text) :
    r.read text = (r.readPlain text).mapError .usage := by
  rw [read, hmay, if_neg Bool.false_ne_true,
    (Argument.ofText_eq_plain_iff text text).mpr ⟨rfl, hplain⟩]

end

theorem read_ended (hended : r.optionsEnded = true) :
    r.read text = (r.readProgram text).mapError .usage := by
  rw [read, if_pos hended]

theorem readSwitch_ne_ok {s : Switch} (hs : s = .version ∨ s = .help) :
    r.readSwitch s ≠ .ok next := by
  intro h
  obtain ⟨settled, -, hrest⟩ := bind_eq_ok_iff.mp h
  obtain ⟨draft, hturn, -⟩ := bind_eq_ok_iff.mp hrest
  rcases hs with rfl | rfl <;> contradiction

/-- What an argument is before the options end: their end, an option, a switch, a plain
text, or something that is not read. -/
inductive Look : String → Prop
  | ends : Look "--"
  | setting (s : Setting) (value : Option String) : Look ("--" ++ s.name ++ Argument.behind value)
  | switch (s : Switch) : Look ("--" ++ s.name)
  | plain {text : String} (plain : Plain text) : Look text
  | refused {text : String}
      (never : ∀ r next : Reading, r.optionsEnded = false → r.read text ≠ .ok next) : Look text

theorem look (text : String) : Look text := by
  cases hlook : Argument.ofText text with
  | endOfOptions =>
      rw [(Argument.ofText_eq_endOfOptions_iff text).mp hlook]
      exact .ends
  | plain text' => exact .plain ((Argument.ofText_eq_plain_iff text text').mp hlook).2
  | short letter =>
      refine .refused fun r next hmay h => ?_
      rw [read, hmay, if_neg Bool.false_ne_true, hlook] at h
      split at h
      · contradiction
      · contradiction
      · exact readSwitch_ne_ok (.inl rfl) h
      · exact readSwitch_ne_ok (.inr rfl) h
      · contradiction
      · contradiction
  | long name value =>
      have htext := Argument.eq_of_ofText_long hlook
      have hother : (∀ s : Setting, Parameter.ofName? name ≠ some (.setting s)) →
          (∀ s : Switch, Parameter.ofName? name = some (.switch s) → value ≠ none) →
          Look text := by
        refine fun hsetting hswitch => .refused fun r next hmay h => ?_
        rw [read, hmay, if_neg Bool.false_ne_true, hlook] at h
        dsimp only at h
        split at h
        · rename_i s hname
          exact hsetting s hname
        · rename_i s hname
          exact hswitch s hname rfl
        · contradiction
        · contradiction
      cases hname : Parameter.ofName? name with
      | none => exact hother (by simp [hname]) (by simp [hname])
      | some p =>
          cases p with
          | rom => exact hother (by simp [hname]) (by simp [hname])
          | setting s =>
              obtain rfl := (Parameter.ofName?_eq_setting_iff name s).mp hname
              rw [htext]
              exact .setting s value
          | switch s =>
              cases value with
              | some value => exact hother (by simp [hname]) (by simp)
              | none =>
                  obtain rfl := (Parameter.ofName?_eq_switch_iff name s).mp hname
                  rw [htext, Argument.behind, String.append_empty]
                  exact .switch s

theorem readProgram_eq_ok_iff {ended : Bool} :
    (mk d .nothing ended).readProgram text = .ok next ↔
      d.rom = none ∧ next = mk d (.program text) ended := by
  rw [readProgram, namesProgram, Bool.or_false]
  cases hrom : d.rom with
  | none => simp [settle, Except.map, eq_comm]
  | some path => simp

theorem readSetting_some_eq_ok_iff {s : Setting} {value : String} :
    (mk d .nothing false).readSetting s (some value) = .ok next ↔
      ∃ e, assign s value d = .ok e ∧ mk e .nothing false = next := by
  rw [readSetting, bind_eq_ok_iff]
  constructor
  · rintro ⟨settled, hsettle, hread⟩
    obtain ⟨e, hassign, hnext⟩ := bind_eq_ok_iff.mp hread
    rw [← Except.ok.inj hsettle] at hassign hnext
    exact ⟨e, hassign, Except.ok.inj hnext⟩
  · rintro ⟨e, hassign, rfl⟩
    exact ⟨mk d .nothing false, rfl, bind_eq_ok_iff.mpr ⟨e, hassign, rfl⟩⟩

theorem readSwitch_eq_ok_iff {s : Switch} :
    (mk d .nothing false).readSwitch s = .ok next ↔
      ∃ e, turnOn s d = .ok e ∧ mk e .nothing false = next := by
  rw [readSwitch, bind_eq_ok_iff]
  constructor
  · rintro ⟨settled, hsettle, hread⟩
    obtain ⟨e, hturn, hnext⟩ := bind_eq_ok_iff.mp hread
    rw [← Except.ok.inj hsettle] at hturn hnext
    exact ⟨e, hturn, Except.ok.inj hnext⟩
  · rintro ⟨e, hturn, rfl⟩
    exact ⟨mk d .nothing false, rfl, bind_eq_ok_iff.mpr ⟨e, hturn, rfl⟩⟩

/-- Nothing is pending in what has been settled. -/
theorem eq_of_settle (h : r.settle = .ok settled) :
    settled = mk settled.draft .nothing r.optionsEnded := by
  rw [settle] at h
  split at h
  · rename_i hpending
    rw [← Except.ok.inj h, ← hpending]
  · split at h
    · contradiction
    · rw [← Except.ok.inj h]
  · contradiction
  · obtain ⟨draft, -, rfl⟩ := map_eq_ok_iff.mp h
    rfl

theorem settle_settled (h : r.settle = .ok settled) : settled.settle = .ok settled := by
  rw [eq_of_settle h]
  rfl

theorem settle_ended (ended : Bool) :
    { r with optionsEnded := ended }.settle =
      r.settle.map fun r => { r with optionsEnded := ended } := by
  cases r with
  | mk draft pending was =>
      cases pending with
      | nothing => rfl
      | awaiting s => rfl
      | program path =>
          simp only [settle]
          split <;> rfl
      | value s text =>
          simp only [settle]
          cases assign s text draft <;> rfl

/-- To settle what is pending names a program just when one is pending. -/
theorem namesProgram_settled (h : r.settle = .ok settled) :
    settled.namesProgram = r.namesProgram := by
  rw [settle] at h
  split at h
  · rename_i hpending
    rw [Except.ok.inj h]
  · rename_i path hpending
    split at h
    · contradiction
    · rw [← Except.ok.inj h, namesProgram, namesProgram, hpending]
      simp
  · contradiction
  · rename_i s text hpending
    obtain ⟨draft, hassign, rfl⟩ := map_eq_ok_iff.mp h
    obtain ⟨-, hassign⟩ := assign_eq_ok_iff.mp hassign
    obtain ⟨v, -, rfl⟩ := (Draft.assign_eq_ok_iff s text).mp hassign
    rw [namesProgram, namesProgram, hpending, rom_add]

section

/-! What reads an argument settles first what is pending. -/

theorem readProgram_iff_settled : r.readProgram text = .ok next ↔
    ∃ settled, r.settle = .ok settled ∧ settled.readProgram text = .ok next := by
  rw [readProgram]
  split
  · rename_i hnames
    simp only [reduceCtorEq, false_iff, not_exists, not_and]
    intro settled hsettle
    rw [readProgram, namesProgram_settled hsettle, if_pos hnames]
    simp only [reduceCtorEq, not_false_eq_true]
  · rename_i hnames
    rw [map_eq_ok_iff]
    apply exists_congr
    intro settled
    apply and_congr_right
    intro hsettle
    rw [readProgram, namesProgram_settled hsettle, if_neg hnames, settle_settled hsettle]
    exact Except.ok.injEq _ _ ▸ Iff.rfl

theorem readSetting_iff_settled {s : Setting} {value : Option String} :
    r.readSetting s value = .ok next ↔
      ∃ settled, r.settle = .ok settled ∧ settled.readSetting s value = .ok next := by
  rw [readSetting, bind_eq_ok_iff]
  apply exists_congr
  intro settled
  apply and_congr_right
  intro hsettle
  rw [readSetting, settle_settled hsettle]
  rfl

theorem readSwitch_iff_settled {s : Switch} : r.readSwitch s = .ok next ↔
    ∃ settled, r.settle = .ok settled ∧ settled.readSwitch s = .ok next := by
  rw [readSwitch, bind_eq_ok_iff]
  apply exists_congr
  intro settled
  rw [mapError_eq_ok_iff]
  apply and_congr_right
  intro hsettle
  rw [readSwitch, settle_settled hsettle]
  rfl

theorem readPlain_iff_settled (hpending : ∀ s, r.pending ≠ .awaiting s) :
    r.readPlain text = .ok next ↔
      ∃ settled, r.settle = .ok settled ∧ settled.readPlain text = .ok next := by
  have hplain : r.readPlain text = r.readProgram text := by
    rw [readPlain]
    split
    · rename_i s hawaiting
      exact absurd hawaiting (hpending s)
    · rfl
  rw [hplain, readProgram_iff_settled]
  apply exists_congr
  intro settled
  apply and_congr_right
  intro hsettle
  rw [readPlain, eq_of_settle hsettle]

theorem read_iff_settled (hpending : ∀ s, r.pending ≠ .awaiting s)
    (hmore : r.optionsEnded = true ∨ text ≠ "--") :
    r.read text = .ok next ↔
      ∃ settled, r.settle = .ok settled ∧ settled.read text = .ok next := by
  have hsame : ∀ {settled}, r.settle = .ok settled → settled.optionsEnded = r.optionsEnded := by
    intro settled h
    rw [eq_of_settle h]
  cases hmay : r.optionsEnded with
  | true =>
      rw [read_ended hmay, mapError_eq_ok_iff, readProgram_iff_settled]
      refine exists_congr fun settled => and_congr_right fun hsettle => ?_
      rw [read_ended ((hsame hsettle).trans hmay), mapError_eq_ok_iff]
  | false =>
      cases look text with
      | ends => exact absurd hmore (by simp [hmay])
      | setting s value =>
          rw [read_setting hmay, mapError_eq_ok_iff, readSetting_iff_settled]
          refine exists_congr fun settled => and_congr_right fun hsettle => ?_
          rw [read_setting ((hsame hsettle).trans hmay), mapError_eq_ok_iff]
      | switch s =>
          rw [read_switch hmay, readSwitch_iff_settled]
          refine exists_congr fun settled => and_congr_right fun hsettle => ?_
          rw [read_switch ((hsame hsettle).trans hmay)]
      | plain hplain =>
          rw [read_plain hmay hplain, mapError_eq_ok_iff, readPlain_iff_settled hpending]
          refine exists_congr fun settled => and_congr_right fun hsettle => ?_
          rw [read_plain ((hsame hsettle).trans hmay) hplain, mapError_eq_ok_iff]
      | refused hnever =>
          constructor
          · exact fun h => absurd h (hnever r next hmay)
          · rintro ⟨settled, hsettle, h⟩
            exact absurd h (hnever settled next ((hsame hsettle).trans hmay))

end

/-- Reading the rest of the arguments and settling what is pending then ends with a draft. -/
def Ends (r : Reading) (arguments : List String) (D : Draft) : Prop :=
  ∃ last, arguments.foldlM (fun r text => r.read text) r = .ok last ∧
    ∃ settled, last.settle = .ok settled ∧ settled.draft = D

theorem ends_nil_iff : r.Ends [] D ↔ ∃ settled, r.settle = .ok settled ∧ settled.draft = D := by
  simp [Ends, pure, Except.pure]

theorem ends_cons_iff :
    r.Ends (text :: arguments) D ↔ ∃ next, r.read text = .ok next ∧ next.Ends arguments D := by
  simp only [Ends, List.foldlM_cons, bind_eq_ok_iff]
  constructor
  · rintro ⟨last, ⟨next, hread, hlast⟩, hsettle⟩
    exact ⟨next, hread, last, hlast, hsettle⟩
  · rintro ⟨next, hread, last, hlast, hsettle⟩
    exact ⟨last, ⟨next, hread, hlast⟩, hsettle⟩

/-- What is pending may be settled at once, unless an option awaits its value. -/
theorem ends_iff_settled (hpending : ∀ s, r.pending ≠ .awaiting s) :
    r.Ends arguments D ↔ ∃ settled, r.settle = .ok settled ∧ settled.Ends arguments D := by
  induction arguments generalizing r with
  | nil =>
      rw [ends_nil_iff]
      refine exists_congr fun settled => and_congr_right fun hsettle => ?_
      rw [ends_nil_iff, settle_settled hsettle]
      simp
  | cons text rest ih =>
      by_cases hmore : r.optionsEnded = true ∨ text ≠ "--"
      · simp only [ends_cons_iff, read_iff_settled hpending hmore]
        constructor
        · rintro ⟨next, ⟨settled, hsettle, hread⟩, hends⟩
          exact ⟨settled, hsettle, next, hread, hends⟩
        · rintro ⟨settled, hsettle, next, hread, hends⟩
          exact ⟨next, ⟨settled, hsettle, hread⟩, hends⟩
      · -- The end of the options leaves pending what is pending.
        rw [not_or, ne_eq, not_not, Bool.not_eq_true] at hmore
        obtain ⟨hmay, rfl⟩ := hmore
        rw [ends_cons_iff, read_end hmay]
        simp only [Except.ok.injEq, exists_eq_left']
        rw [ih (r := { r with optionsEnded := true }) hpending, settle_ended]
        simp only [map_eq_ok_iff]
        constructor
        · rintro ⟨-, ⟨settled, hsettle, rfl⟩, hends⟩
          refine ⟨settled, hsettle, ends_cons_iff.mpr ⟨_, read_end ?_, hends⟩⟩
          rw [eq_of_settle hsettle, hmay]
        · rintro ⟨settled, hsettle, hends⟩
          obtain ⟨next, hread, hends⟩ := ends_cons_iff.mp hends
          rw [read_end (by rw [eq_of_settle hsettle, hmay]), Except.ok.injEq] at hread
          exact ⟨next, ⟨settled, hsettle, hread⟩, hends⟩

theorem ends_program_iff {path : String} {ended : Bool} :
    (mk d (.program path) ended).Ends arguments D ↔
      path ≠ "" ∧ (mk { d with rom := some path } .nothing ended).Ends arguments D := by
  rw [ends_iff_settled fun s => Pending.noConfusion, settle]
  simp only
  split
  · rename_i hempty
    simp [String.isEmpty_iff.mp hempty]
  · rename_i hpath
    have hne : path ≠ "" := fun h => hpath (String.isEmpty_iff.mpr h)
    simp [hne]

theorem ends_value_iff {s : Setting} {ended : Bool} :
    (mk d (.value s text) ended).Ends arguments D ↔
      ∃ e, assign s text d = .ok e ∧ (mk e .nothing ended).Ends arguments D := by
  rw [ends_iff_settled fun s => Pending.noConfusion, settle]
  simp only [map_eq_ok_iff]
  constructor
  · rintro ⟨-, ⟨e, hassign, rfl⟩, hends⟩
    exact ⟨e, hassign, hends⟩
  · rintro ⟨e, hassign, hends⟩
    exact ⟨_, ⟨e, hassign, rfl⟩, hends⟩

theorem ends_ended_iff : (mk d .nothing true).Ends arguments D ↔
    Fills (arguments.map .program) d D := by
  induction arguments generalizing d with
  | nil =>
      rw [ends_nil_iff, List.map_nil, fills_nil_iff]
      simp [settle, eq_comm]
  | cons path rest ih =>
      rw [ends_cons_iff, List.map_cons, fills_cons_program_iff, ← ih, ← ends_program_iff]
      simp only [read_ended, mapError_eq_ok_iff, readProgram_eq_ok_iff]
      constructor
      · rintro ⟨next, ⟨hrom, rfl⟩, hends⟩
        exact ⟨hrom, hends⟩
      · rintro ⟨hrom, hends⟩
        exact ⟨_, ⟨hrom, rfl⟩, hends⟩

theorem not_ends_awaiting_ended {s : Setting} : ¬ (mk d (.awaiting s) true).Ends arguments D := by
  cases arguments with
  | nil =>
      rw [ends_nil_iff]
      rintro ⟨settled, hsettle, -⟩
      contradiction
  | cons text rest =>
      rw [ends_cons_iff]
      rintro ⟨next, hread, -⟩
      rw [read_ended rfl, mapError_eq_ok_iff, readProgram] at hread
      split at hread <;> contradiction

/-- The value that an option awaits is the next argument, which is plain. -/
theorem ends_awaiting_iff {s : Setting} : (mk d (.awaiting s) false).Ends arguments D ↔
    ∃ text rest, arguments = text :: rest ∧ Plain text ∧
      ∃ e, assign s text d = .ok e ∧ (mk e .nothing false).Ends rest D := by
  constructor
  · intro h
    cases arguments with
    | nil =>
        obtain ⟨settled, hsettle, -⟩ := ends_nil_iff.mp h
        contradiction
    | cons text rest =>
        obtain ⟨next, hread, hends⟩ := ends_cons_iff.mp h
        cases look text with
        | ends =>
            rw [read_end rfl, Except.ok.injEq] at hread
            subst hread
            exact absurd hends not_ends_awaiting_ended
        | setting t value =>
            rw [read_setting rfl, mapError_eq_ok_iff] at hread
            contradiction
        | switch t =>
            rw [read_switch rfl] at hread
            contradiction
        | plain hplain =>
            rw [read_plain rfl hplain, mapError_eq_ok_iff] at hread
            rw [← Except.ok.inj hread] at hends
            exact ⟨text, rest, rfl, hplain, ends_value_iff.mp hends⟩
        | refused hnever => exact absurd hread (hnever _ next rfl)
  · rintro ⟨text, rest, rfl, hplain, hends⟩
    exact ends_cons_iff.mpr ⟨_, read_plain rfl hplain, ends_value_iff.mpr hends⟩

theorem exists_comprises {arguments : List String} {d : Draft}
    (h : (mk d .nothing false).Ends arguments D) :
    ∃ parts, Comprises arguments parts ∧ Fills parts d D := by
  cases arguments with
  | nil =>
      obtain ⟨settled, hsettle, rfl⟩ := ends_nil_iff.mp h
      rw [← Except.ok.inj hsettle]
      exact ⟨[], .nil, fills_nil_iff.mpr rfl⟩
  | cons text rest =>
      obtain ⟨next, hread, hends⟩ := ends_cons_iff.mp h
      cases look text with
      | ends =>
          rw [read_end rfl, Except.ok.injEq] at hread
          subst hread
          exact ⟨_, .ended rest, ends_ended_iff.mp hends⟩
      | setting s value =>
          rw [read_setting rfl, mapError_eq_ok_iff] at hread
          cases value with
          | none =>
              rw [← Except.ok.inj hread] at hends
              obtain ⟨text, after, rfl, hplain, e, hassign, hends⟩ := ends_awaiting_iff.mp hends
              obtain ⟨parts, hparts, hfills⟩ := exists_comprises hends
              rw [Argument.behind, String.append_empty]
              exact ⟨_, .apart s hplain hparts, fills_cons_setting_iff.mpr ⟨e, hassign, hfills⟩⟩
          | some value =>
              obtain ⟨e, hassign, rfl⟩ := readSetting_some_eq_ok_iff.mp hread
              obtain ⟨parts, hparts, hfills⟩ := exists_comprises hends
              rw [Argument.behind, ← String.append_assoc]
              exact ⟨_, .joined s value hparts, fills_cons_setting_iff.mpr ⟨e, hassign, hfills⟩⟩
      | switch s =>
          rw [read_switch rfl] at hread
          obtain ⟨e, hturn, rfl⟩ := readSwitch_eq_ok_iff.mp hread
          obtain ⟨parts, hparts, hfills⟩ := exists_comprises hends
          exact ⟨_, .switch s hparts, fills_cons_switch_iff.mpr ⟨e, hturn, hfills⟩⟩
      | plain hplain =>
          rw [read_plain rfl hplain, mapError_eq_ok_iff] at hread
          obtain ⟨hrom, rfl⟩ := readProgram_eq_ok_iff.mp hread
          obtain ⟨hpath, hends⟩ := ends_program_iff.mp hends
          obtain ⟨parts, hparts, hfills⟩ := exists_comprises hends
          exact ⟨_, .program hplain hparts, fills_cons_program_iff.mpr ⟨hrom, hpath, hfills⟩⟩
      | refused hnever => exact absurd hread (hnever _ next rfl)
termination_by arguments.length

theorem ends_of_comprises (h : Comprises arguments parts) (hfills : Fills parts d D) :
    (mk d .nothing false).Ends arguments D := by
  induction h generalizing d with
  | nil =>
      rw [fills_nil_iff.mp hfills]
      exact ends_nil_iff.mpr ⟨_, rfl, rfl⟩
  | ended paths => exact ends_cons_iff.mpr ⟨_, read_end rfl, ends_ended_iff.mpr hfills⟩
  | program hplain _ ih =>
      obtain ⟨hrom, hpath, hrest⟩ := fills_cons_program_iff.mp hfills
      refine ends_cons_iff.mpr ⟨_, ?_, ends_program_iff.mpr ⟨hpath, ih hrest⟩⟩
      rw [read_plain rfl hplain, mapError_eq_ok_iff]
      exact readProgram_eq_ok_iff.mpr ⟨hrom, rfl⟩
  | @apart s text _ _ hplain _ ih =>
      obtain ⟨e, hassign, hrest⟩ := fills_cons_setting_iff.mp hfills
      have hawaits : (mk d .nothing false).read ("--" ++ s.name) =
          .ok (mk d (.awaiting s) false) := by
        have hread := read_setting (r := mk d .nothing false) rfl s none
        rw [Argument.behind, String.append_empty] at hread
        exact hread
      exact ends_cons_iff.mpr ⟨_, hawaits,
        ends_awaiting_iff.mpr ⟨text, _, rfl, hplain, e, hassign, ih hrest⟩⟩
  | joined s text _ ih =>
      obtain ⟨e, hassign, hrest⟩ := fills_cons_setting_iff.mp hfills
      refine ends_cons_iff.mpr ⟨mk e .nothing false, ?_, ih hrest⟩
      rw [String.append_assoc]
      exact (read_setting rfl s (some text)).trans
        (mapError_eq_ok_iff.mpr (readSetting_some_eq_ok_iff.mpr ⟨e, hassign, rfl⟩))
  | switch s _ ih =>
      obtain ⟨e, hturn, hrest⟩ := fills_cons_switch_iff.mp hfills
      refine ends_cons_iff.mpr ⟨mk e .nothing false, ?_, ih hrest⟩
      rw [read_switch rfl]
      exact readSwitch_eq_ok_iff.mpr ⟨e, hturn, rfl⟩

theorem ends_iff : (mk d .nothing false).Ends arguments D ↔
    ∃ parts, Comprises arguments parts ∧ Fills parts d D := by
  constructor
  · exact exists_comprises
  · rintro ⟨parts, hparts, hfills⟩
    exact ends_of_comprises hparts hfills

end Reading

theorem Comprises.mem_strict_iff {arguments : List String} {parts : List Part}
    (h : Comprises arguments parts) :
    .switch .strict ∈ parts ↔ "--strict" ∈ arguments.takeWhile (· ≠ "--") := by
  have hplain : ∀ {text}, Plain text → text ≠ "--" ∧ text ≠ "--strict" := by
    intro text hplain
    rw [Argument.plain_iff] at hplain
    constructor
    · rintro rfl
      exact hplain _ _ rfl
    · rintro rfl
      exact hplain _ _ rfl
  induction h with
  | nil => simp
  | ended paths => simp
  | program plain _ ih =>
      obtain ⟨hends, hstrict⟩ := hplain plain
      simp [hends, hstrict.symm, ih]
  | apart s plain _ ih =>
      obtain ⟨hends, hstrict⟩ := hplain plain
      have hname : "--" ++ s.name ≠ "--" ∧ "--strict" ≠ "--" ++ s.name := by
        cases s <;> decide
      simp [hends, hstrict.symm, hname, ih]
  | joined s text _ ih =>
      have hsign : '=' ∈ ("--" ++ s.name ++ "=" ++ text).toList := by
        simp [String.toList_append]
      have hends : "--" ++ s.name ++ "=" ++ text ≠ "--" := by
        intro heq
        rw [heq] at hsign
        exact absurd hsign (by decide)
      have hstrict : "--strict" ≠ "--" ++ s.name ++ "=" ++ text := by
        intro heq
        rw [← heq] at hsign
        exact absurd hsign (by decide)
      simp [hends, hstrict, ih]
  | switch s _ ih =>
      have hname : "--" ++ s.name ≠ "--" ∧ (Switch.strict = s ↔ "--strict" = "--" ++ s.name) := by
        cases s <;> decide
      simp [hname, ih]

namespace Options

variable {arguments : List String} {parts : List Part} {o : Options}

theorem finish_eq_ok_iff {r : Reading} : r.finish = .ok o ↔
    ∃ settled, r.settle = .ok settled ∧ settled.draft.options? = some o := by
  rw [Reading.finish, bind_eq_ok_iff]
  refine exists_congr fun settled => and_congr_right fun _ => ?_
  split
  · rename_i options hoptions
    rw [hoptions, Option.some.injEq]
    change Except.ok options = .ok o ↔ options = o
    rw [Except.ok.injEq]
  · rename_i hoptions
    rw [hoptions]
    simp

/-- A command line is accepted just when it comprises parts that set the options, and
for these options. -/
theorem parse_eq_ok_iff :
    parse arguments = .ok o ↔ ∃ parts, Comprises arguments parts ∧ o.SetBy parts := by
  simp only [parse, bind_eq_ok_iff, mapError_eq_ok_iff, finish_eq_ok_iff, setBy_iff]
  constructor
  · rintro ⟨last, hread, settled, hsettle, hoptions⟩
    obtain ⟨parts, hparts, hfills⟩ := Reading.ends_iff.mp ⟨last, hread, settled, hsettle, rfl⟩
    exact ⟨parts, hparts, _, hfills, hoptions⟩
  · rintro ⟨parts, hparts, D, hfills, hoptions⟩
    obtain ⟨last, hread, settled, hsettle, rfl⟩ := Reading.ends_iff.mpr ⟨parts, hparts, hfills⟩
    exact ⟨last, hread, settled, hsettle, hoptions⟩

/-- A strict machine is asked for by an argument before the end of the options. -/
theorem strict_parse (h : parse arguments = .ok o) :
    o.config.strict = true ↔ "--strict" ∈ arguments.takeWhile (· ≠ "--") := by
  obtain ⟨parts, hparts, hset⟩ := parse_eq_ok_iff.mp h
  rw [← Comprises.mem_strict_iff hparts, ← List.count_pos_iff, hset.strict]
  cases o.config.strict <;> decide

end Options

end Chip8.CommandLine
