import Chip8.CommandLine.Arguments

namespace Chip8.CommandLine

/-- What is asked for by an argument, or by the name of an option and its value. -/
inductive Part where
  | program (path : String)
  | setting (s : Setting) (text : String)
  | switch (s : Switch)
  deriving DecidableEq

namespace Part

/-- The paths of the programs that are asked for. -/
def paths (parts : List Part) : List String :=
  parts.filterMap fun
    | program path => some path
    | _ => none

/-- The texts of the values that an option is given. -/
def texts (s : Setting) (parts : List Part) : List String :=
  parts.filterMap fun
    | setting t text => if t = s then some text else none
    | _ => none

theorem texts_setting (s : Setting) (text : String) (parts : List Part) :
    texts s (.setting s text :: parts) = text :: texts s parts :=
  List.filterMap_cons_some (if_pos rfl)

theorem texts_setting_of_ne {s t : Setting} (h : t ≠ s) (text : String) (parts : List Part) :
    texts s (.setting t text :: parts) = texts s parts :=
  List.filterMap_cons_none (if_neg h)

end Part

/-- A text that is no option: one dash alone, or no dash in front. -/
def Plain (text : String) : Prop := text = "-" ∨ text.toList.head? ≠ some '-'

/-- The parts of a command line. The value of an option is the next argument or comes
behind an equals sign. Whatever follows two dashes is a program. -/
inductive Comprises : List String → List Part → Prop
  | nil : Comprises [] []
  | program {path : String} {arguments : List String} {parts : List Part} (plain : Plain path)
      (rest : Comprises arguments parts) : Comprises (path :: arguments) (.program path :: parts)
  | apart (s : Setting) {text : String} {arguments : List String} {parts : List Part}
      (plain : Plain text) (rest : Comprises arguments parts) :
      Comprises (("--" ++ s.name) :: text :: arguments) (.setting s text :: parts)
  | joined (s : Setting) (text : String) {arguments : List String} {parts : List Part}
      (rest : Comprises arguments parts) :
      Comprises (("--" ++ s.name ++ "=" ++ text) :: arguments) (.setting s text :: parts)
  | switch (s : Switch) {arguments : List String} {parts : List Part}
      (rest : Comprises arguments parts) :
      Comprises (("--" ++ s.name) :: arguments) (.switch s :: parts)
  | ended (paths : List String) : Comprises ("--" :: paths) (paths.map .program)

/-- Among things that have different names a name finds the one that has it. -/
theorem find?_name_eq_some_iff {α : Type} {all : List α} {name : α → String}
    (hall : ∀ a, all.find? (name · == name a) = some a) {text : String} {a : α} :
    all.find? (name · == text) = some a ↔ text = name a := by
  constructor
  · intro h
    have hname := List.find?_some h
    exact (eq_of_beq hname).symm
  · rintro rfl
    exact hall a

namespace Argument

/-- How a value is written behind the name of its option. -/
def behind : Option String → String
  | none => ""
  | some value => "=" ++ value

theorem eq_of_splitValue {cs : List Char} {name : String} {value : Option String}
    (h : splitValue cs = (name, value)) : cs = name.toList ++ (behind value).toList := by
  rw [splitValue, Prod.mk.injEq] at h
  obtain ⟨rfl, hvalue⟩ := h
  have hwhole := List.takeWhile_append_dropWhile (p := (· ≠ '=')) (l := cs)
  rw [String.toList_ofList]
  split at hvalue
  · rename_i hrest
    rw [hrest] at hwhole
    rw [← hvalue]
    exact hwhole.symm
  · rename_i c rest hrest
    have hsign : c = '=' := by
      have hhead := List.head?_dropWhile_not (· ≠ '=') cs
      rw [hrest] at hhead
      simpa using hhead
    rw [hrest, hsign] at hwhole
    rw [← hvalue, behind, String.toList_append, String.toList_ofList, String.toList_ofList]
    exact hwhole.symm

theorem splitValue_append {name : String} (h : '=' ∉ name.toList) (value : Option String) :
    splitValue (name.toList ++ (behind value).toList) = (name, value) := by
  have hname : ∀ c ∈ name.toList, decide (c ≠ '=') = true := by
    intro c hc
    exact decide_eq_true fun hsign => h (hsign ▸ hc)
  rw [splitValue, List.takeWhile_append_of_pos hname, List.dropWhile_append_of_pos hname]
  cases value with
  | none => simp [behind]
  | some value => simp [behind]

theorem ofText_eq_endOfOptions_iff (text : String) : ofText text = .endOfOptions ↔ text = "--" := by
  constructor
  · intro h
    rw [ofText] at h
    split at h
    · rename_i hchars
      exact String.toList_inj.mp hchars
    · contradiction
    · contradiction
    · contradiction
  · rintro rfl
    decide

theorem eq_of_ofText_long {text name : String} {value : Option String}
    (h : ofText text = .long name value) : text = "--" ++ name ++ behind value := by
  rw [ofText] at h
  split at h
  · contradiction
  · rename_i rest _ hchars
    have hsplit : splitValue rest = (name, value) := by
      rw [Argument.long.injEq] at h
      exact Prod.ext h.1 h.2
    apply String.toList_inj.mp
    rw [hchars, eq_of_splitValue hsplit, String.toList_append, String.toList_append]
    rfl
  · contradiction
  · contradiction

theorem ofText_long {name : String} (hsign : '=' ∉ name.toList) (hname : name ≠ "")
    (value : Option String) : ofText ("--" ++ name ++ behind value) = .long name value := by
  have hchars : ("--" ++ name ++ behind value).toList =
      '-' :: '-' :: (name.toList ++ (behind value).toList) := by
    rw [String.toList_append, String.toList_append]
    rfl
  have hrest : name.toList ++ (behind value).toList ≠ [] := by
    intro hnil
    exact hname (String.toList_eq_nil_iff.mp (List.append_eq_nil_iff.mp hnil).1)
  rw [ofText, hchars]
  split
  · rename_i hdashes
    exact absurd (List.cons.inj (List.cons.inj hdashes).2).2 hrest
  · rename_i rest _ hdashes
    have heq : name.toList ++ (behind value).toList = rest :=
      (List.cons.inj (List.cons.inj hdashes).2).2
    rw [← heq, splitValue_append hsign]
  · rename_i hletter hdashes
    exact (hletter (List.cons.inj (List.cons.inj hdashes).2).1.symm).elim
  · rename_i hdashes _
    exact (hdashes _ rfl).elim

theorem plain_iff (text : String) : Plain text ↔ ∀ c rest, text.toList ≠ '-' :: c :: rest := by
  constructor
  · rintro (rfl | hhead) c rest hchars
    · have hone : "-".toList = ['-'] := rfl
      rw [hone, List.cons.injEq] at hchars
      exact List.cons_ne_nil _ _ hchars.2.symm
    · rw [hchars] at hhead
      exact hhead rfl
  · intro h
    rw [Plain]
    cases hchars : text.toList with
    | nil => exact .inr (Option.some_ne_none _).symm
    | cons c rest =>
        by_cases hdash : c = '-'
        · cases rest with
          | nil =>
              left
              apply String.toList_inj.mp
              rw [hchars, hdash]
              rfl
          | cons d rest => exact absurd (hdash ▸ hchars) (h d rest)
        · right
          simpa using hdash

theorem ofText_eq_plain_iff (text text' : String) :
    ofText text = .plain text' ↔ text' = text ∧ Plain text := by
  rw [plain_iff, ofText]
  split
  · rename_i hchars
    simp [hchars]
  · rename_i rest _ hchars
    simp [hchars]
  · rename_i letter rest _ _ hchars
    simp [hchars]
  · rename_i hshort
    rw [Argument.plain.injEq, eq_comm (a := text), and_iff_left]
    exact fun c rest => hshort c rest

end Argument

namespace Parameter

theorem ofName?_eq_setting_iff (name : String) (s : Setting) :
    ofName? name = some (.setting s) ↔ name = s.name := by
  have hname : ∀ s : Setting, Setting.all.find? (·.name == s.name) = some s := by
    intro s
    cases s <;> decide
  rw [ofName?, Option.or_eq_some_iff, Option.map_eq_some_iff, Option.map_eq_some_iff]
  simp [find?_name_eq_some_iff hname]

theorem ofName?_eq_switch_iff (name : String) (s : Switch) :
    ofName? name = some (.switch s) ↔ name = s.name := by
  have hname : ∀ s : Switch, Switch.all.find? (·.name == s.name) = some s := by
    intro s
    cases s <;> decide
  rw [ofName?, Option.or_eq_some_iff, Option.map_eq_some_iff, Option.map_eq_some_iff]
  have hother : name = s.name → ∀ t ∈ Setting.all, ¬ t.name = name := by
    rintro rfl
    cases s <;> decide
  simpa [find?_name_eq_some_iff hname] using hother

end Parameter

theorem ofText_setting (s : Setting) (value : Option String) :
    Argument.ofText ("--" ++ s.name ++ Argument.behind value) = .long s.name value := by
  apply Argument.ofText_long
  · cases s <;> decide
  · cases s <;> decide

theorem ofText_switch (s : Switch) : Argument.ofText ("--" ++ s.name) = .long s.name none := by
  cases s <;> decide

end Chip8.CommandLine
