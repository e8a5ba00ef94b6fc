import Chip8.Proofs.History
import Chip8.Proofs.Rendering
import Chip8.Proofs.SpriteOrder

namespace Chip8

section Layout

variable {α : Type}

/-- The value in column `x` of row `y`. -/
def valueAt? (rows : List (List α)) (x y : Nat) : Option α := rows[y]?.bind (·[x]?)

/-- Rows cut one after the other from a list make up its beginning. -/
theorem flatten_map_range_take_drop (width count : Nat) (l : List α) :
    ((List.range count).map fun y => (l.drop (y * width)).take width).flatten =
      l.take (count * width) := by
  induction count with
  | zero => simp
  | succ count ih =>
      rw [List.range_succ, List.map_append, List.flatten_append, ih, Nat.succ_mul, List.take_add]
      simp

/-- The pieces between the newlines of a text are its lines and, behind the last
newline, nothing. -/
theorem splitOn_newline (lines : List (List Char)) (h : ∀ line ∈ lines, '\n' ∉ line) :
    (lines.flatMap (· ++ ['\n'])).splitOn '\n' = lines ++ [[]] := by
  induction lines with
  | nil => rfl
  | cons line rest ih =>
      obtain ⟨hline, hrest⟩ := List.forall_mem_cons.mp h
      rw [List.flatMap_cons, List.append_assoc, List.singleton_append,
        List.splitOn_append_cons_self, ih hrest, List.splitOn_eq_singleton hline]
      rfl

theorem count_flatMap_newline (lines : List (List Char)) {c : Char} (h : c ≠ '\n') :
    (lines.flatMap (· ++ ['\n'])).count c = lines.flatten.count c := by
  induction lines with
  | nil => rfl
  | cons line rest ih =>
      have hend : ['\n'].count c = 0 := List.count_singleton.trans (if_neg (by simpa using h.symm))
      rw [List.flatMap_cons, List.flatten_cons, List.count_append, List.count_append,
        List.count_append, ih, hend, Nat.add_zero]

end Layout

namespace Framebuffer

/-- The lines of the text, without the newline behind each. -/
def lines (fb : Framebuffer) : List (List Char) :=
  (List.range 32).map fun y => (List.range 64).map (fb.shade · y)

theorem shade_eq_full_iff (fb : Framebuffer) (x y : Nat) :
    fb.shade x y = '█' ↔ fb.pixel x y = .ok true := by
  rw [shade]
  split
  · rename_i hpixel
    exact iff_of_true rfl hpixel
  · rename_i hpixel
    exact iff_of_false (by decide) hpixel

theorem shade_ne_newline (fb : Framebuffer) (x y : Nat) : fb.shade x y ≠ '\n' := by
  rw [shade]
  split <;> decide

theorem valueAt?_lines (fb : Framebuffer) {x y : Nat} (hx : x < 64) (hy : y < 32) :
    valueAt? fb.lines x y = some (fb.shade x y) := by
  rw [valueAt?, lines, List.getElem?_map, List.getElem?_range hy, Option.map_some,
    Option.bind_some, List.getElem?_map, List.getElem?_range hx, Option.map_some]

theorem valueAt?_byteRows (fb : Framebuffer) {x y : Nat} (hx : x < 64) (hy : y < 32) :
    valueAt? fb.byteRows x y = fb.pixels[x + y * 64]? := by
  have hrow : y < height := hy
  rw [valueAt?, byteRows, List.getElem?_map, List.getElem?_range hrow, Option.map_some,
    Option.bind_some]
  exact getElem?_row hx y fb

theorem length_of_mem_lines {fb : Framebuffer} {line : List Char} (h : line ∈ fb.lines) :
    line.length = 64 := by
  obtain ⟨y, -, rfl⟩ := List.mem_map.mp h
  rw [List.length_map, List.length_range]

theorem splitOn_text (fb : Framebuffer) : fb.text.toList.splitOn '\n' = fb.lines ++ [[]] := by
  have htext : fb.text.toList = fb.lines.flatMap (· ++ ['\n']) := by
    rw [text_eq_picture, picture, String.toList_ofList, lines, List.flatMap_map]
  rw [htext]
  apply splitOn_newline
  intro line hline hmem
  obtain ⟨y, -, rfl⟩ := List.mem_map.mp hline
  obtain ⟨x, -, hshade⟩ := List.mem_map.mp hmem
  exact fb.shade_ne_newline x y hshade

theorem litCount_eq_count (fb : Framebuffer) : fb.litCount = fb.text.toList.count '█' := by
  have htext : fb.text.toList =
      (fb.byteRows.map (List.map (block ∘ lit))).flatMap (· ++ ['\n']) := by
    rw [text, String.toList_ofList, rows, List.flatMap_map, List.flatMap_map]
    simp only [List.map_map]
  have hflat : fb.byteRows.flatten = fb.pixels.toList := by
    rw [byteRows, flatten_map_range_take_drop]
    exact List.take_of_length_le (Nat.le_of_eq Vector.length_toList)
  have hfull : ((· == '█') ∘ (block ∘ lit)) = lit := by
    funext byte
    rw [Function.comp_apply, Function.comp_apply]
    cases lit byte <;> rfl
  rw [htext, count_flatMap_newline _ (by decide), ← List.map_flatten, hflat, List.count,
    List.countP_map, hfull, litCount]

theorem pixel_eq_error_iff (fb : Framebuffer) (x y : Nat) (e : OffScreen) :
    fb.pixel x y = .error e ↔ (64 ≤ x ∨ 32 ≤ y) ∧ e = ⟨x, y⟩ := by
  by_cases hin : x < 64 ∧ y < 32
  · have hplace : x + y * 64 < 2048 := by omega
    rw [fb.pixel_eq_ok hin.1 hin.2 (Vector.getElem?_eq_getElem hplace)]
    simp only [reduceCtorEq, false_iff]
    omega
  · have hpixel : fb.pixel x y = .error ⟨x, y⟩ := dif_neg hin
    rw [hpixel, Except.error.injEq]
    constructor
    · rintro rfl
      exact ⟨by omega, rfl⟩
    · rintro ⟨-, rfl⟩
      rfl

theorem lit_iff {byte : UInt8} (h : byte = 0 ∨ byte = 1) : lit byte = true ↔ byte = 1 := by
  rcases h with rfl | rfl <;> decide

section Binary

variable {fb other : Framebuffer}

theorem pixel_eq_ok_true_iff (hfb : fb.Binary) {x y : Nat} (hx : x < 64) (hy : y < 32) :
    fb.pixel x y = .ok true ↔ fb.pixels[x + y * 64]? = some 1 := by
  have hplace : x + y * 64 < 2048 := by omega
  rw [fb.pixel_eq_ok hx hy (Vector.getElem?_eq_getElem hplace), Vector.getElem?_eq_getElem hplace,
    Except.ok.injEq, Option.some.injEq, lit_iff (hfb _ (Vector.getElem_mem hplace))]

/-- The pixel of an index, which may be off the display. -/
theorem pixel_index_eq_ok_true_iff (hfb : fb.Binary) (i : Nat) :
    fb.pixel (i % 64) (i / 64) = .ok true ↔ fb.pixels[i]? = some 1 := by
  by_cases hi : i < 2048
  · have hplace : i % 64 + i / 64 * 64 = i := by omega
    rw [pixel_eq_ok_true_iff hfb (by omega) (by omega), hplace]
  · have hpixel := (fb.pixel_eq_error_iff (i % 64) (i / 64) _).mpr ⟨.inr (by omega), rfl⟩
    rw [hpixel, Vector.getElem?_eq_none (Nat.le_of_not_lt hi)]
    simp only [reduceCtorEq]

theorem text_eq_iff (hfb : fb.Binary) (hother : other.Binary) :
    fb.text = other.text ↔ fb.pixels = other.pixels := by
  constructor
  · intro htext
    have hlines : fb.lines = other.lines := by
      have hsplit := congrArg (fun text : String => text.toList.splitOn '\n') htext
      simp only [splitOn_text] at hsplit
      exact List.append_cancel_right hsplit
    apply Vector.ext
    intro i hi
    have hsame : fb.pixels[i]? = some 1 ↔ other.pixels[i]? = some 1 := by
      have hx : i % 64 < 64 := by omega
      have hy : i / 64 < 32 := by omega
      have hshade : fb.shade (i % 64) (i / 64) = other.shade (i % 64) (i / 64) := by
        have hvalue := congrArg (valueAt? · (i % 64) (i / 64)) hlines
        simp only [valueAt?_lines _ hx hy, Option.some.injEq] at hvalue
        exact hvalue
      rw [← pixel_index_eq_ok_true_iff hfb, ← pixel_index_eq_ok_true_iff hother,
        ← shade_eq_full_iff, ← shade_eq_full_iff, hshade]
    rw [Vector.getElem?_eq_getElem hi, Vector.getElem?_eq_getElem hi, Option.some.injEq,
      Option.some.injEq] at hsame
    rcases hfb _ (Vector.getElem_mem hi) with hdark | hlit
    · rcases hother _ (Vector.getElem_mem hi) with hdark' | hlit'
      · rw [hdark, hdark']
      · rw [hsame.mpr hlit', hlit']
    · rw [hlit, hsame.mp hlit]
  · intro hpixels
    rw [text, text, rows, rows, byteRows, byteRows, hpixels]

theorem binary_flipped (hfb : fb.Binary) (targets : List Nat) : (fb.flipped targets).Binary := by
  suffices h : ∀ (hit : Bool) (pixels : Vector UInt8 2048),
      (∀ byte ∈ pixels, byte = 0 ∨ byte = 1) →
      ∀ byte ∈ (flipAll targets hit pixels).2, byte = 0 ∨ byte = 1 from h false fb.pixels hfb
  induction targets with
  | nil => exact fun _ _ h => h
  | cons i rest ih =>
      intro hit pixels h
      rw [flipAll]
      split
      · exact ih _ _ (binary_flip h ‹_›)
      · exact ih _ _ h

end Binary

theorem exists_turn_cons_iff {j : Nat} {rest : List Nat} {P : List Nat → Nat → Prop} :
    (∃ before i after, j :: rest = before ++ i :: after ∧ P before i) ↔
      P [] j ∨ ∃ before i after, rest = before ++ i :: after ∧ P (j :: before) i := by
  constructor
  · rintro ⟨before, i, after, heq, hp⟩
    cases before with
    | nil =>
        obtain ⟨rfl, -⟩ := List.cons.inj heq
        exact .inl hp
    | cons k before =>
        obtain ⟨rfl, hrest⟩ := List.cons.inj heq
        exact .inr ⟨before, i, after, hrest, hp⟩
  · rintro (hp | ⟨before, i, after, rfl, hp⟩)
    · exact ⟨[], j, rest, rfl, hp⟩
    · exact ⟨j :: before, i, after, rfl, hp⟩

/-- Flips report a hit when a pixel is lit at its turn, behind the turns before it. -/
theorem hit_flipAll_iff_turn (targets : List Nat) (hit : Bool) (pixels : Vector UInt8 2048) :
    (flipAll targets hit pixels).1 = true ↔ hit = true ∨
      ∃ before i after, targets = before ++ i :: after ∧
        (flipAll before false pixels).2[i]? = some 1 := by
  induction targets generalizing hit pixels with
  | nil => simp [flipAll]
  | cons j rest ih =>
      rw [exists_turn_cons_iff (P := fun before i => (flipAll before false pixels).2[i]? = some 1)]
      have hfirst : (flipAll [] false pixels).2 = pixels := rfl
      rw [hfirst]
      simp only [flipAll]
      split
      · rename_i hj
        -- The turns after the first do not depend on what it has hit.
        have hsame : ∀ before, (flipAll before (false || pixels[j] == 1)
            (pixels.set j (pixels[j] ^^^ 1))).2 =
              (flipAll before false (pixels.set j (pixels[j] ^^^ 1))).2 :=
          fun before => pixels_flipAll_congr (fun _ => rfl) _ _ _
        simp only [hsame]
        rw [ih, Bool.or_eq_true, beq_iff_eq, or_assoc, Vector.getElem?_eq_getElem hj,
          Option.some.injEq]
      · rename_i hj
        rw [ih, Vector.getElem?_eq_none (Nat.le_of_not_lt hj)]
        simp only [reduceCtorEq, false_or]

end Framebuffer

open Framebuffer

theorem Instruction.binary_effect {i : Instruction} {m : Machine} (h : m.display.Binary) :
    (i.effect m).display.Binary := by
  cases i with
  | clearScreen => exact fun byte hmem => .inl (Vector.mem_replicate.mp hmem).2
  | draw x y height => exact binary_flipped h _
  | _ => exact h

namespace Machine

theorem binary_reset (m : Machine) : m.reset.display.Binary :=
  fun _ hmem => .inl (Vector.mem_replicate.mp hmem).2

theorem binary_step {m : Machine} (h : m.display.Binary) : m.step.2.display.Binary := by
  rcases step_cases m with ⟨-, hstep⟩ | ⟨fault, -, -, hstep⟩ | ⟨-, -, hstep⟩
  · rw [hstep]
    exact h
  · rw [hstep]
    exact h
  · rw [hstep]
    exact Instruction.binary_effect h

theorem binary_apply (c : Command) {m : Machine} (h : m.display.Binary) :
    (c.apply m).2.display.Binary := by
  cases c with
  | load image =>
      rw [Command.apply_load]
      split
      · exact h
      · exact binary_reset _
  | step =>
      rw [Command.apply_step]
      exact binary_step h
  | toggle =>
      rw [Command.apply_toggle]
      exact h
  | reset => exact binary_reset _
  | stop => exact binary_reset _
  | _ => exact h

theorem Reachable.binary {m : Machine} (hm : m.Reachable) : m.display.Binary :=
  hm.invariant (P := fun m => m.display.Binary)
    (fun config random => binary_reset { config, random }) fun c _ => binary_apply c

/-- All that shows the display shows the same. A byte of it is 0 or 1, so that a draw
takes a pixel for lit, at its turn, just when a snapshot would. The text has a line for
each row and a character for each pixel, and tells two displays apart whenever their
pixels differ. There is no pixel outside. -/
theorem display_views_agree {m : Machine} (hm : m.Reachable) :
    (∀ byte ∈ m.display.pixels, (byte = 0 ∨ byte = 1) ∧ (byte == 1) = lit byte) ∧
    (∀ strict mode x y rows hit after,
      (Framebuffer.draw strict mode x y rows).run m.display = .ok hit after →
      (hit = true ↔ ∃ before i rest, targets mode x y rows = before ++ i :: rest ∧
        (m.display.flipped before).pixel (i % 64) (i / 64) = .ok true)) ∧
    (∃ lines, m.display.text.toList.splitOn '\n' = lines ++ [[]] ∧ lines.length = 32 ∧
      (∀ line ∈ lines, line.length = 64) ∧
      ∀ x < 64, ∀ y < 32,
        (m.display.pixel x y = .ok true ↔ valueAt? m.display.byteRows x y = some 1) ∧
        (m.display.pixel x y = .ok true ↔ valueAt? lines x y = some '█')) ∧
    m.display.litCount = m.display.text.toList.count '█' ∧
    (∀ n : Machine, n.Reachable →
      (m.display.text = n.display.text ↔ m.display.pixels = n.display.pixels)) ∧
    ∀ x y e, m.display.pixel x y = .error e ↔ (64 ≤ x ∨ 32 ≤ y) ∧ e = ⟨x, y⟩ := by
  have hbinary : m.display.Binary := hm.binary
  refine ⟨?_, ?_, ⟨m.display.lines, m.display.splitOn_text, ?_, ?_, ?_⟩,
    m.display.litCount_eq_count, fun n hn => text_eq_iff hbinary hn.binary,
    m.display.pixel_eq_error_iff⟩
  · intro byte hmem
    refine ⟨hbinary byte hmem, ?_⟩
    rw [Bool.eq_iff_iff, beq_iff_eq, lit_iff (hbinary byte hmem)]
  · intro strict mode x y rows hit after hrun
    rw [Framebuffer.run_draw] at hrun
    obtain ⟨-, rfl, -⟩ := Fault.of_settle_eq_ok hrun
    rw [hits, hit_flipAll_iff_turn]
    simp only [Bool.false_eq_true, false_or, pixel_index_eq_ok_true_iff (binary_flipped hbinary _)]
    rfl
  · rw [lines, List.length_map, List.length_range]
  · intro line hline
    exact length_of_mem_lines hline
  · intro x hx y hy
    constructor
    · rw [valueAt?_byteRows _ hx hy, pixel_eq_ok_true_iff hbinary hx hy]
    · rw [valueAt?_lines _ hx hy, Option.some.injEq, shade_eq_full_iff]

/-- A program that draws the top row of a glyph: four pixels, which a new machine
does not show. -/
theorem display_views_agree_glyph_row :
    let m := (Command.run [.load #[0xD0, 0x01], .step] { config := {}, random := .ofSeed 0 }).2
    m.display.litCount = m.display.text.toList.count '█' ∧
    (∃ lines, m.display.text.toList.splitOn '\n' = lines ++ [[]] ∧
      valueAt? lines 3 0 = some '█' ∧ valueAt? lines 4 0 ≠ some '█') ∧
    m.display.text ≠ ({ config := {}, random := .ofSeed 0 } : Machine).display.text := by
  intro m
  let new : Machine := { config := {}, random := .ofSeed 0 }
  let started : Machine := starting #[0xD0, 0x01] new
  have hm : m.Reachable := ⟨_, _, _, rfl⟩
  have hnew : new.Reachable := ⟨_, _, [], rfl⟩
  have hi : started.instruction = .draw 0 0 1 :=
    (instruction_starting _ new (by decide) rfl rfl).trans (by decide)
  have hfault : started.stepFault? = none := by
    rw [stepFault?, spanFault?_starting, hi]
    rfl
  have hrow : started.memory[Address.ofWord 0] = 0xF0 := by
    -- The program ends before memory has been gone round.
    have hbehind : Memory.offset Address.reset.toWord (Address.ofWord 0) = 3584 := by decide
    rw [getElem_starting _ _ _ (by decide), hbehind, List.getD_eq_getElem?_getD,
      List.getElem?_eq_none (by decide), Option.getD_none]
    exact Vector.getElem_ofFn (by decide)
  have htargets : started.fetched.spriteTargets 0 0 1 = [0, 1, 2, 3] := by
    change targets .linear 0 0 [started.memory[Address.ofWord 0]] = _
    rw [hrow]
    decide
  have hdisplay : m.display = Framebuffer.clear.flipped [0, 1, 2, 3] := by
    have hrun : m = started.stepped := by
      change (Command.run [.load #[0xD0, 0x01], .step] new).2 = _
      rw [Command.run_cons, Command.apply_load_of_le new (by decide), Command.run_cons,
        Command.apply_step, step_of_no_fault rfl hfault]
      rfl
    rw [hrun, stepped, executed, hi, ← htargets]
    rfl
  have hlit : m.display.pixels[3]? = some 1 := by
    have hget : m.display.pixels.get 3 = 1 := by
      rw [hdisplay, flipped, get_flipAll, if_pos (by decide)]
      exact congrArg (· ^^^ 1) (Vector.getElem_replicate (by decide))
    rw [← hget]
    exact Vector.getElem?_eq_getElem (by decide)
  have hdark : m.display.pixels[4]? = some 0 := by
    have hget : m.display.pixels.get 4 = 0 := by
      rw [hdisplay, flipped, get_flipAll, if_neg (by decide)]
      exact Vector.getElem_replicate (by decide)
    rw [← hget]
    exact Vector.getElem?_eq_getElem (by decide)
  obtain ⟨-, -, ⟨lines, hsplit, -, -, hpixels⟩, hcount, htext, -⟩ := display_views_agree hm
  have hfull : ∀ x < 64, valueAt? lines x 0 = some '█' ↔ m.display.pixels[x]? = some 1 := by
    intro x hx
    obtain ⟨hrow, hline⟩ := hpixels x hx 0 (by decide)
    rw [← hline, hrow, valueAt?_byteRows _ hx (by decide), Nat.zero_mul, Nat.add_zero]
  refine ⟨hcount, ⟨lines, hsplit, (hfull 3 (by decide)).mpr hlit, ?_⟩, ?_⟩
  · rw [ne_eq, hfull 4 (by decide), hdark]
    decide
  · rw [ne_eq, htext new hnew]
    intro hsame
    have hnone : new.display.pixels[3]? = some 0 :=
      (Vector.getElem?_eq_getElem (by decide)).trans
        (congrArg some (Vector.getElem_replicate (by decide)))
    rw [hsame, hnone] at hlit
    exact absurd hlit (by decide)

end Machine

end Chip8
