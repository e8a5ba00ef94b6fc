import Chip8.Proofs.CommandLineParts
import Chip8.Proofs.KeySpelling

namespace Chip8.CommandLine

section

variable {ε ε' α β : Type} {x : Except ε α} {a : α} {b : β}

theorem mapError_eq_ok_iff {f : ε → ε'} : x.mapError f = .ok a ↔ x = .ok a := by
  cases x with
  | error e => simp [Except.mapError]
  | ok a => simp [Except.mapError]

theorem bind_eq_ok_iff {f : α → Except ε β} :
    x >>= f = .ok b ↔ ∃ a, x = .ok a ∧ f a = .ok b := by
  cases x with
  | error e => simp [bind, Except.bind]
  | ok a => simp [bind, Except.bind]

end

open Text.Numeral

/-- A decimal text of a number of 32 bits. Zero may have a minus sign. -/
def DenotesRate (text : String) (n : UInt32) : Prop :=
  ∃ sign digits, text.toList = sign ++ digits ∧
    (sign = [] ∨ sign = ['+'] ∨ sign = ['-'] ∧ n = 0) ∧ Writes 10 digits n.toNat

/-- A decimal text of a number of 64 bits. -/
def DenotesWord (text : String) (n : UInt64) : Prop :=
  ∃ sign digits, text.toList = sign ++ digits ∧
    (sign = [] ∨ sign = ['+']) ∧ Writes 10 digits n.toNat

namespace Setting

/-- The kind of value that an option takes. -/
abbrev Value : Setting → Type
  | ips => UInt32
  | frames | seed => UInt64
  | shift => ShiftMode
  | sprite => SpriteMode
  | key => Key

/-- What a text says as the value of an option. -/
def Denotes : (s : Setting) → String → s.Value → Prop
  | ips, text, n => DenotesRate text n
  | frames, text, n | seed, text, n => DenotesWord text n
  | shift, text, mode => text = mode.name
  | sprite, text, mode => text = mode.name
  | key, text, k => Key.Spells text k.val

end Setting

theorem Reading.assign_eq_ok_iff {s : Setting} {text : String} {d e : Draft} :
    assign s text d = .ok e ↔ d.has s = false ∧ d.assign s text = .ok e := by
  rw [assign]
  split
  · rename_i hhas
    simp [hhas]
  · rename_i hfree
    rw [mapError_eq_ok_iff, Bool.eq_false_of_not_eq_true hfree]
    simp

namespace Draft

theorem readRate_eq_ok_iff (text : String) (n : UInt32) :
    readRate text = .ok n ↔ DenotesRate text n := by
  have hn : n.toNat < half := Nat.lt_trans n.toNat_lt (by decide)
  have hzero : n.toNat = 0 ↔ n = 0 := UInt32.toNat_inj (b := 0)
  have hinteger : readRate text = .ok n ↔ integer text.toList = .ok (n.toNat : Int) := by
    rw [readRate]
    cases hread : integer text.toList with
    | error cause => simp
    | ok k =>
        simp only [Except.ok.injEq]
        split
        · rename_i hk
          rw [Except.ok.injEq, ← UInt32.toNat_inj, UInt32.toNat_ofNat_of_lt' (by omega)]
          omega
        · rename_i hk
          simp only [reduceCtorEq, false_iff]
          have := n.toNat_lt
          have : UInt32.size = 4294967296 := rfl
          omega
  rw [hinteger, integer_eq_ok_iff hn, hzero]
  rfl

theorem readWord64_eq_ok_iff (text : String) (n : UInt64) :
    readWord64 text = .ok n ↔ DenotesWord text n := by
  rw [readWord64, mapError_eq_ok_iff, map_eq_ok_iff]
  constructor
  · rintro ⟨k, hk, rfl⟩
    obtain ⟨hle, hwrites⟩ := (natural_eq_ok_iff (by decide) (by decide) _).mp hk
    have hlt : k < UInt64.size := Nat.lt_of_le_pred (by decide) hle
    rw [DenotesWord, UInt64.toNat_ofNat_of_lt' hlt]
    exact hwrites
  · intro hdenotes
    have hle : n.toNat ≤ UInt64.size - 1 := Nat.le_pred_of_lt n.toNat_lt
    exact ⟨n.toNat, (natural_eq_ok_iff (by decide) (by decide) _).mpr ⟨hle, hdenotes⟩,
      UInt64.ofNat_toNat⟩

theorem readMode_eq_ok_iff {α : Type} (found : Option α) (mode : α) :
    readMode found = .ok mode ↔ found = some mode := by
  cases found <;> simp [readMode]

theorem shift_ofName?_eq_some_iff (text : String) (mode : ShiftMode) :
    ShiftMode.ofName? text = some mode ↔ text = mode.name :=
  find?_name_eq_some_iff fun mode => by cases mode <;> decide

theorem sprite_ofName?_eq_some_iff (text : String) (mode : SpriteMode) :
    SpriteMode.ofName? text = some mode ↔ text = mode.name :=
  find?_name_eq_some_iff fun mode => by cases mode <;> decide

/-- The values that an option has. -/
def values (d : Draft) : (s : Setting) → List s.Value
  | .ips => d.ips.toList
  | .frames => d.frames.toList
  | .seed => d.seed.toList
  | .shift => d.shift.toList
  | .sprite => d.sprite.toList
  | .key => d.keys

/-- Give an option a value, behind those that it has if it may have several. -/
def add (d : Draft) : (s : Setting) → s.Value → Draft
  | .ips, n => { d with ips := some n }
  | .frames, n => { d with frames := some n }
  | .seed, n => { d with seed := some n }
  | .shift, mode => { d with shift := some mode }
  | .sprite, mode => { d with sprite := some mode }
  | .key, key => { d with keys := d.keys ++ [key] }

/-- Whether a switch of a run is on. -/
def turned (d : Draft) : Switch → Bool
  | .strict => d.strict
  | .realtime => d.realtime
  | .version | .help => false

/-- Turn on a switch of a run. -/
def turn (d : Draft) : Switch → Draft
  | .strict => { d with strict := true }
  | .realtime => { d with realtime := true }
  | .version | .help => d

theorem values_new (s : Setting) : ({} : Draft).values s = [] := by
  cases s <;> rfl

theorem turned_new (s : Switch) : ({} : Draft).turned s = false := by
  cases s <;> rfl

variable {d e D : Draft}

/-- An option takes the texts of its values, and each for what it says. -/
theorem assign_eq_ok_iff (s : Setting) (text : String) :
    d.assign s text = .ok e ↔ ∃ v, s.Denotes text v ∧ d.add s v = e := by
  cases s with
  | ips =>
      rw [assign, map_eq_ok_iff]
      simp only [readRate_eq_ok_iff]
      rfl
  | frames =>
      rw [assign, map_eq_ok_iff]
      simp only [readWord64_eq_ok_iff]
      rfl
  | seed =>
      rw [assign, map_eq_ok_iff]
      simp only [readWord64_eq_ok_iff]
      rfl
  | shift =>
      rw [assign, map_eq_ok_iff]
      simp only [readMode_eq_ok_iff, shift_ofName?_eq_some_iff]
      rfl
  | sprite =>
      rw [assign, map_eq_ok_iff]
      simp only [readMode_eq_ok_iff, sprite_ofName?_eq_some_iff]
      rfl
  | key =>
      rw [assign, mapError_eq_ok_iff, map_eq_ok_iff]
      simp only [Key.parse_eq_ok_iff]
      rfl

theorem values_add {s : Setting} (h : d.has s = false) (v : s.Value) :
    (d.add s v).values s = d.values s ++ [v] := by
  cases s with
  | key => rfl
  | _ =>
      have hnone := Option.not_isSome_iff_eq_none.mp (Bool.eq_false_iff.mp h)
      simp [values, add, hnone]

theorem values_add_of_ne {s t : Setting} (h : t ≠ s) (v : s.Value) :
    (d.add s v).values t = d.values t := by
  cases s <;> cases t <;> first | rfl | exact absurd rfl h

theorem rom_add (s : Setting) (v : s.Value) : (d.add s v).rom = d.rom := by
  cases s <;> rfl

theorem turned_add (s : Setting) (v : s.Value) (t : Switch) :
    (d.add s v).turned t = d.turned t := by
  cases s <;> cases t <;> rfl

/-- A single value in the end of which there is one more than before is the first. -/
theorem eq_none_of_toList {α : Type} {was is : Option α} {a : α} {rest : List α}
    (h : is.toList = was.toList ++ a :: rest) : was = none := by
  cases was with
  | none => rfl
  | some b =>
      have hlength := congrArg List.length h
      cases is with
      | none => simp at hlength
      | some c => simp at hlength

/-- An option of which there is one more value in the end has room for it. -/
theorem has_eq_false {s : Setting} {v : s.Value} {vs : List s.Value}
    (h : D.values s = d.values s ++ v :: vs) : d.has s = false := by
  cases s with
  | key => rfl
  | _ => exact congrArg Option.isSome (eq_none_of_toList h)

theorem turnOn_eq_ok_iff (s : Switch) : Reading.turnOn s d = .ok e ↔
    d.turned s = false ∧ (s = .strict ∨ s = .realtime) ∧ d.turn s = e := by
  cases s with
  | strict => cases h : d.strict <;> simp [Reading.turnOn, turned, turn, h]
  | realtime => cases h : d.realtime <;> simp [Reading.turnOn, turned, turn, h]
  | version => simp [Reading.turnOn]
  | help => simp [Reading.turnOn]

theorem turned_turn {s : Switch} (h : s = .strict ∨ s = .realtime) :
    (d.turn s).turned s = true := by
  rcases h with rfl | rfl <;> rfl

theorem turned_turn_of_ne {s t : Switch} (h : t ≠ s) : (d.turn s).turned t = d.turned t := by
  cases s <;> cases t <;> first | rfl | exact absurd rfl h

theorem values_turn (s : Switch) (t : Setting) : (d.turn s).values t = d.values t := by
  cases s <;> cases t <;> rfl

theorem rom_turn (s : Switch) : (d.turn s).rom = d.rom := by
  cases s <;> rfl

theorem eq_of_toList {α : Type} {is was : Option α} (h : is.toList = was.toList) : is = was := by
  cases is with
  | none => exact (Option.toList_eq_nil_iff.mp h.symm).symm
  | some a => exact (Option.toList_eq_singleton_iff.mp h.symm).symm

/-- Drafts that agree on every option, switch and program are the same. -/
theorem eq_of_values (hvalues : ∀ s, D.values s = d.values s)
    (hturned : ∀ s, D.turned s = d.turned s) (hrom : D.rom = d.rom) : D = d := by
  cases D with
  | mk rom ips frames seed strict shift sprite keys realtime =>
      cases d with
      | mk =>
          rw [Draft.mk.injEq]
          exact ⟨hrom, eq_of_toList (hvalues .ips), eq_of_toList (hvalues .frames),
            eq_of_toList (hvalues .seed), hturned .strict, eq_of_toList (hvalues .shift),
            eq_of_toList (hvalues .sprite), hvalues .key, hturned .realtime⟩

/-- The parts of a command line make a draft of another one: each option gets the values
that it is given, and each switch is turned on as often as it is named. -/
structure Fills (parts : List Part) (d D : Draft) : Prop where
  settings : ∀ s : Setting, ∃ vs, List.Forall₂ s.Denotes (Part.texts s parts) vs ∧
    D.values s = d.values s ++ vs
  switches : ∀ s : Switch, (D.turned s).toNat = (d.turned s).toNat + parts.count (.switch s)
  programs : D.rom.toList = d.rom.toList ++ Part.paths parts
  named : "" ∉ Part.paths parts

variable {parts : List Part}

theorem fills_nil_iff : Fills [] d D ↔ D = d := by
  constructor
  · intro h
    apply eq_of_values
    · intro s
      obtain ⟨vs, hvs, hvalues⟩ := h.settings s
      rw [hvalues, List.forall₂_nil_left_iff.mp hvs, List.append_nil]
    · intro s
      have hcount := h.switches s
      rw [List.count_nil, Nat.add_zero] at hcount
      revert hcount
      cases D.turned s <;> cases d.turned s <;> decide
    · exact eq_of_toList (h.programs.trans (List.append_nil _))
  · rintro rfl
    exact ⟨fun s => ⟨[], .nil, (List.append_nil _).symm⟩, fun s => rfl,
      (List.append_nil _).symm, List.not_mem_nil⟩

theorem fills_cons_setting_iff {s : Setting} {text : String} :
    Fills (.setting s text :: parts) d D ↔
      ∃ e, Reading.assign s text d = .ok e ∧ Fills parts e D := by
  constructor
  · intro h
    obtain ⟨vs, hvs, hvalues⟩ := h.settings s
    rw [Part.texts_setting, List.forall₂_cons_left_iff] at hvs
    obtain ⟨v, vs, hv, hvs, rfl⟩ := hvs
    have hfree : d.has s = false := has_eq_false hvalues
    refine ⟨d.add s v, ?_, ?_⟩
    · rw [Reading.assign_eq_ok_iff, assign_eq_ok_iff]
      exact ⟨hfree, v, hv, rfl⟩
    · constructor
      · intro t
        by_cases ht : t = s
        · subst ht
          exact ⟨vs, hvs, by rw [hvalues, values_add hfree, List.append_assoc]; rfl⟩
        · obtain ⟨us, hus, husv⟩ := h.settings t
          rw [Part.texts_setting_of_ne (Ne.symm ht)] at hus
          exact ⟨us, hus, by rw [husv, values_add_of_ne ht]⟩
      · intro t
        rw [h.switches t, turned_add, List.count_cons_of_ne]
        exact Part.noConfusion
      · rw [rom_add]
        exact h.programs
      · exact h.named
  · rintro ⟨e, hassign, h⟩
    rw [Reading.assign_eq_ok_iff, assign_eq_ok_iff] at hassign
    obtain ⟨hfree, v, hv, rfl⟩ := hassign
    constructor
    · intro t
      obtain ⟨vs, hvs, hvalues⟩ := h.settings t
      by_cases ht : t = s
      · subst ht
        refine ⟨v :: vs, ?_, ?_⟩
        · rw [Part.texts_setting]
          exact .cons hv hvs
        · rw [hvalues, values_add hfree, List.append_assoc]
          rfl
      · rw [values_add_of_ne ht] at hvalues
        refine ⟨vs, ?_, hvalues⟩
        rw [Part.texts_setting_of_ne (Ne.symm ht)]
        exact hvs
    · intro t
      rw [h.switches t, turned_add, List.count_cons_of_ne]
      exact Part.noConfusion
    · have hrom := h.programs
      rw [rom_add] at hrom
      exact hrom
    · exact h.named

/-- To turn on a switch counts for it once. -/
theorem toNat_turned_turn {s : Switch} (hoff : d.turned s = false)
    (hkind : s = .strict ∨ s = .realtime) (t : Switch) :
    ((d.turn s).turned t).toNat + parts.count (.switch t) =
      (d.turned t).toNat + (Part.switch s :: parts).count (.switch t) := by
  by_cases ht : t = s
  · subst ht
    rw [turned_turn hkind, hoff, List.count_cons_self, Bool.toNat_true, Bool.toNat_false]
    omega
  · have hne : Part.switch s ≠ .switch t := fun h => ht (Part.switch.inj h).symm
    rw [turned_turn_of_ne ht, List.count_cons_of_ne hne]

theorem fills_cons_switch_iff {s : Switch} :
    Fills (.switch s :: parts) d D ↔ ∃ e, Reading.turnOn s d = .ok e ∧ Fills parts e D := by
  constructor
  · intro h
    have hcount := h.switches s
    have hle := Bool.toNat_le (D.turned s)
    rw [List.count_cons_self] at hcount
    have hoff : d.turned s = false := by
      cases hd : d.turned s with
      | false => rfl
      | true =>
          rw [hd, Bool.toNat_true] at hcount
          omega
    have hkind : s = .strict ∨ s = .realtime := by
      cases s with
      | strict => exact .inl rfl
      | realtime => exact .inr rfl
      | version | help => contradiction
    refine ⟨d.turn s, (turnOn_eq_ok_iff s).mpr ⟨hoff, hkind, rfl⟩, ?_⟩
    constructor
    · intro t
      rw [values_turn]
      exact h.settings t
    · intro t
      rw [toNat_turned_turn hoff hkind]
      exact h.switches t
    · rw [rom_turn]
      exact h.programs
    · exact h.named
  · rintro ⟨e, hturn, h⟩
    obtain ⟨hoff, hkind, rfl⟩ := (turnOn_eq_ok_iff s).mp hturn
    constructor
    · intro t
      have hsettings := h.settings t
      rw [values_turn] at hsettings
      exact hsettings
    · intro t
      rw [← toNat_turned_turn hoff hkind]
      exact h.switches t
    · have hprograms := h.programs
      rw [rom_turn] at hprograms
      exact hprograms
    · exact h.named

theorem fills_cons_program_iff {path : String} :
    Fills (.program path :: parts) d D ↔
      d.rom = none ∧ path ≠ "" ∧ Fills parts { d with rom := some path } D := by
  have hpaths : Part.paths (.program path :: parts) = path :: Part.paths parts := rfl
  constructor
  · intro h
    have hprograms := h.programs
    have hnamed := h.named
    rw [hpaths] at hprograms hnamed
    have hnone : d.rom = none := eq_none_of_toList hprograms
    rw [List.mem_cons, not_or] at hnamed
    refine ⟨hnone, Ne.symm hnamed.1, fun s => ?_, fun s => ?_, ?_, hnamed.2⟩
    · cases s <;> exact h.settings _
    · have hcount := h.switches s
      rw [List.count_cons_of_ne Part.noConfusion] at hcount
      cases s <;> exact hcount
    · rw [hprograms, hnone]
      rfl
  · rintro ⟨hnone, hpath, h⟩
    have hprograms := h.programs
    refine ⟨fun s => ?_, fun s => ?_, ?_, ?_⟩
    · have hsettings := h.settings s
      cases s <;> exact hsettings
    · rw [List.count_cons_of_ne Part.noConfusion, h.switches s]
      cases s <;> rfl
    · rw [hprograms, hnone, hpaths]
      rfl
    · rw [hpaths, List.mem_cons, not_or]
      exact ⟨hpath.symm, h.named⟩

end Draft

/-- What is set by the texts for an option that takes one value and is given it once at
most. -/
def Given {α : Type} (denotes : String → α → Prop) (texts : List String) (default a : α) : Prop :=
  texts = [] ∧ a = default ∨ ∃ text, texts = [text] ∧ denotes text a

theorem given_iff {α : Type} {denotes : String → α → Prop} {texts : List String} {default a : α} :
    Given denotes texts default a ↔
      ∃ a? : Option α, List.Forall₂ denotes texts a?.toList ∧ a?.getD default = a := by
  constructor
  · rintro (⟨rfl, rfl⟩ | ⟨text, rfl, ha⟩)
    · exact ⟨none, .nil, rfl⟩
    · exact ⟨some a, .cons ha .nil, rfl⟩
  · rintro ⟨a?, htexts, rfl⟩
    cases a? with
    | none => exact .inl ⟨List.forall₂_nil_right_iff.mp htexts, rfl⟩
    | some a =>
        obtain ⟨text, rest, ha, hrest, rfl⟩ := List.forall₂_cons_right_iff.mp htexts
        rw [List.forall₂_nil_right_iff.mp hrest]
        exact .inr ⟨text, rfl, ha⟩

/-- The options that the parts of a command line set: a program, a value for each option
or its default, and all keys in their order. -/
structure Options.SetBy (parts : List Part) (o : Options) : Prop where
  program : Part.paths parts = [o.rom]
  named : o.rom ≠ ""
  rate : Given DenotesRate (Part.texts .ips parts) 700 o.instructionsPerSecond
  frames : Given DenotesWord (Part.texts .frames parts) 600 o.frames
  seed : List.Forall₂ DenotesWord (Part.texts .seed parts) o.seed.toList
  shift : Given (· = ·.name) (Part.texts .shift parts) ShiftMode.reference o.config.shift
  sprite : Given (· = ·.name) (Part.texts .sprite parts) SpriteMode.linear o.config.sprite
  keys : List.Forall₂ (Key.Spells · ·.val) (Part.texts .key parts) o.keys
  strict : parts.count (.switch .strict) = o.config.strict.toNat
  realtime : parts.count (.switch .realtime) = o.realtime.toNat
  others : .switch .version ∉ parts ∧ .switch .help ∉ parts

theorem Draft.options?_eq_some_iff {D : Draft} {o : Options} : D.options? = some o ↔
    D.rom = some o.rom ∧ D.ips.getD 700 = o.instructionsPerSecond ∧ D.frames.getD 600 = o.frames ∧
      D.seed = o.seed ∧ D.shift.getD .reference = o.config.shift ∧
      D.sprite.getD .linear = o.config.sprite ∧ D.keys = o.keys ∧ D.strict = o.config.strict ∧
      D.realtime = o.realtime := by
  rw [options?, Option.map_eq_some_iff]
  constructor
  · rintro ⟨rom, hrom, rfl⟩
    exact ⟨hrom, rfl, rfl, rfl, rfl, rfl, rfl, rfl, rfl⟩
  · rintro ⟨hrom, hrate, hframes, hseed, hshift, hsprite, hkeys, hstrict, hrealtime⟩
    refine ⟨o.rom, hrom, ?_⟩
    cases o with
    | mk rom rate frames seed config keys realtime =>
        cases config with
        | mk strict shift sprite =>
            subst hrate hframes hseed hshift hsprite hkeys hstrict hrealtime
            rfl

theorem Options.setBy_iff {parts : List Part} {o : Options} :
    o.SetBy parts ↔ ∃ D, Draft.Fills parts {} D ∧ D.options? = some o := by
  constructor
  · intro h
    obtain ⟨rate?, hrate, hrate'⟩ := given_iff.mp h.rate
    obtain ⟨frames?, hframes, hframes'⟩ := given_iff.mp h.frames
    obtain ⟨shift?, hshift, hshift'⟩ := given_iff.mp h.shift
    obtain ⟨sprite?, hsprite, hsprite'⟩ := given_iff.mp h.sprite
    let D : Draft :=
      { rom := o.rom, ips := rate?, frames := frames?, seed := o.seed, strict := o.config.strict
        shift := shift?, sprite := sprite?, keys := o.keys, realtime := o.realtime }
    refine ⟨D, ?_, ?_⟩
    · constructor
      · intro s
        refine ⟨D.values s, ?_, by rw [Draft.values_new, List.nil_append]⟩
        cases s with
        | ips => exact hrate
        | frames => exact hframes
        | seed => exact h.seed
        | shift => exact hshift
        | sprite => exact hsprite
        | key => exact h.keys
      · intro s
        rw [Draft.turned_new, Bool.toNat_false, Nat.zero_add]
        cases s with
        | strict => exact h.strict.symm
        | realtime => exact h.realtime.symm
        | version => exact (List.count_eq_zero.mpr h.others.1).symm
        | help => exact (List.count_eq_zero.mpr h.others.2).symm
      · exact h.program.symm
      · rw [h.program, List.mem_singleton]
        exact Ne.symm h.named
    · rw [Draft.options?_eq_some_iff]
      exact ⟨rfl, hrate', hframes', rfl, hshift', hsprite', rfl, rfl, rfl⟩
  · rintro ⟨D, hfills, hD⟩
    obtain ⟨hrom, hrate, hframes, hseed, hshift, hsprite, hkeys, hstrict, hrealtime⟩ :=
      Draft.options?_eq_some_iff.mp hD
    have hvalues : ∀ s, List.Forall₂ s.Denotes (Part.texts s parts) (D.values s) := by
      intro s
      obtain ⟨vs, hvs, heq⟩ := hfills.settings s
      rw [heq, Draft.values_new]
      exact hvs
    have hcounts : ∀ s, parts.count (.switch s) = (D.turned s).toNat := by
      intro s
      rw [hfills.switches s, Draft.turned_new, Bool.toNat_false, Nat.zero_add]
    have hpaths : Part.paths parts = [o.rom] := by
      have hprograms := hfills.programs
      rw [hrom] at hprograms
      exact hprograms.symm
    have hnamed := hfills.named
    rw [hpaths, List.mem_singleton] at hnamed
    exact {
      program := hpaths
      named := Ne.symm hnamed
      rate := given_iff.mpr ⟨D.ips, hvalues .ips, hrate⟩
      frames := given_iff.mpr ⟨D.frames, hvalues .frames, hframes⟩
      seed := hseed ▸ hvalues .seed
      shift := given_iff.mpr ⟨D.shift, hvalues .shift, hshift⟩
      sprite := given_iff.mpr ⟨D.sprite, hvalues .sprite, hsprite⟩
      keys := hkeys ▸ hvalues .key
      strict := hstrict ▸ hcounts .strict
      realtime := hrealtime ▸ hcounts .realtime
      others := ⟨List.count_eq_zero.mp (hcounts .version), List.count_eq_zero.mp (hcounts .help)⟩ }

end Chip8.CommandLine
