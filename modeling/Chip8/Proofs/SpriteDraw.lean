import Chip8.Proofs.SpritePixels
import Mathlib.Data.Set.Function
import Mathlib.Data.List.Nodup
import Mathlib.Data.Nat.Find

namespace Chip8.Framebuffer

def Binary (fb : Framebuffer) : Prop := ∀ byte ∈ fb.pixels, byte = 0 ∨ byte = 1

/-- A row and a column of a sprite whose bit is set. Column 0 is the most
significant bit. -/
def SetBit (rows : List UInt8) (bit : Nat × Nat) : Prop :=
  bit.2 < 8 ∧ ∃ row, rows[bit.1]? = some row ∧ row.toNat.testBit (7 - bit.2) = true

def pixelUnder (mode : SpriteMode) (x y : UInt8) (bit : Nat × Nat) : Nat :=
  match mode with
  | .linear => x.toNat + bit.2 + 64 * (y.toNat + bit.1)
  | .wrap => (x.toNat + bit.2) % 64 + 64 * ((y.toNat + bit.1) % 32)

/-- The pixels under the set bits of a sprite at `(x, y)`. -/
def covered (mode : SpriteMode) (x y : UInt8) (rows : List UInt8) : Set Nat :=
  {i | ∃ bit, SetBit rows bit ∧ pixelUnder mode x y bit = i}

/-- The set bits of a sprite in the order in which they are drawn. -/
def setBits (rows : List UInt8) : List (Nat × Nat) :=
  rows.zipIdx.flatMap fun (row, down) => (litColumns row).map fun across => (down, across)

variable {mode : SpriteMode} {x y : UInt8} {rows : List UInt8}

theorem mem_setBits_iff (rows : List UInt8) (bit : Nat × Nat) :
    bit ∈ setBits rows ↔ SetBit rows bit := by
  simp only [setBits, List.mem_flatMap, List.mem_map, mem_litColumns_iff]
  constructor
  · rintro ⟨⟨row, down⟩, hrow, across, ⟨hacross, hbit⟩, rfl⟩
    exact ⟨hacross, row, List.mem_zipIdx_iff_getElem?.mp hrow, hbit⟩
  · rintro ⟨hacross, row, hrow, hbit⟩
    exact ⟨(row, bit.1), List.mem_zipIdx_iff_getElem?.mpr hrow, bit.2, ⟨hacross, hbit⟩, rfl⟩

/-- No bit is drawn twice: the rows have different numbers, and so have the
columns of one row. -/
theorem nodup_setBits (rows : List UInt8) : (setBits rows).Nodup := by
  rw [setBits, List.nodup_flatMap]
  constructor
  · rintro ⟨row, down⟩ -
    have hcolumns : (litColumns row).Nodup := List.nodup_range.filter _
    exact hcolumns.map (Prod.mk_right_injective down)
  · have hrows : rows.zipIdx.Pairwise fun a b => a.2 ≠ b.2 := by
      rw [← List.pairwise_map (f := Prod.snd), List.zipIdx_map_snd]
      exact List.nodup_range'
    refine hrows.imp fun {a b} hab => ?_
    intro bit ha hb
    obtain ⟨c, -, rfl⟩ := List.mem_map.mp ha
    obtain ⟨d, -, hd⟩ := List.mem_map.mp hb
    exact hab (congrArg Prod.fst hd).symm

theorem targets_eq_map (mode : SpriteMode) (x y : UInt8) (rows : List UInt8) :
    targets mode x y rows = (setBits rows).map (pixelUnder mode x y) := by
  rw [targets, setBits, List.map_flatMap]
  apply List.flatMap_congr
  rintro ⟨row, down⟩ -
  rw [List.map_map]
  apply List.map_congr_left
  intro across _
  cases mode with
  | linear =>
      simp only [Function.comp_apply, SpriteMode.target, pixelUnder]
      omega
  | wrap =>
      simp only [Function.comp_apply, SpriteMode.target, pixelUnder]
      omega

theorem mem_targets_iff_covered (i : Nat) :
    i ∈ targets mode x y rows ↔ i ∈ covered mode x y rows := by
  rw [targets_eq_map, List.mem_map]
  simp only [mem_setBits_iff]
  rfl

/-- A sprite that is no higher and no wider than the display does not meet itself,
not even when it goes round an edge. -/
theorem injOn_pixelUnder (hrows : rows.length ≤ 32) :
    Set.InjOn (pixelUnder mode x y) {bit | SetBit rows bit} := by
  rintro ⟨r, c⟩ ⟨hc, row, hrow, -⟩ ⟨r', c'⟩ ⟨hc', row', hrow', -⟩ heq
  obtain ⟨hr, -⟩ := List.getElem?_eq_some_iff.mp hrow
  obtain ⟨hr', -⟩ := List.getElem?_eq_some_iff.mp hrow'
  rw [Prod.mk.injEq]
  cases mode with
  | linear =>
      simp only [pixelUnder] at heq hc hc'
      omega
  | wrap =>
      -- Neither eight columns nor 32 rows come around to where they began.
      simp only [pixelUnder] at heq hc hc' hr hr'
      omega

theorem nodup_targets (hrows : rows.length ≤ 32) : (targets mode x y rows).Nodup := by
  rw [targets_eq_map]
  apply (nodup_setBits rows).map_on
  intro bit hbit bit' hbit' heq
  exact injOn_pixelUnder hrows ((mem_setBits_iff _ _).mp hbit) ((mem_setBits_iff _ _).mp hbit') heq

theorem get_flip (pixels : Vector UInt8 2048) {i : Nat} (hi : i < 2048) (j : Fin 2048) :
    (pixels.set i (pixels[i] ^^^ 1)).get j =
      if i = j.val then pixels.get j ^^^ 1 else pixels.get j := by
  change (pixels.set i (pixels[i] ^^^ 1))[j.val] = _
  rw [Vector.getElem_set]
  split
  · rename_i h
    subst h
    rfl
  · rfl

/-- A pixel ends up flipped if its turn comes an odd number of times. -/
theorem get_flipAll (targets : List Nat) (hit : Bool) (pixels : Vector UInt8 2048)
    (i : Fin 2048) :
    (flipAll targets hit pixels).2.get i =
      if targets.count i.val % 2 = 1 then pixels.get i ^^^ 1 else pixels.get i := by
  induction targets generalizing hit pixels with
  | nil => rfl
  | cons j rest ih =>
      rw [flipAll]
      split
      · rename_i hj
        rw [ih, get_flip]
        by_cases hsame : j = i.val
        · -- The turn of `j` takes back what the turns of the rest come to.
          have hback : pixels.get i ^^^ 1 ^^^ 1 = pixels.get i := by
            rw [UInt8.xor_assoc, UInt8.xor_self, UInt8.xor_zero]
          rw [if_pos hsame, hsame, List.count_cons_self, hback]
          split
          · rw [if_neg (by omega)]
          · rw [if_pos (by omega)]
        · rw [if_neg hsame, List.count_cons_of_ne hsame]
      · rename_i hj
        have hne : j ≠ i.val := fun h => hj (h ▸ i.isLt)
        rw [ih, List.count_cons_of_ne hne]

theorem exists_mem_cons_iff {j : Nat} {rest : List Nat} {P : Fin 2048 → Prop} :
    (∃ i : Fin 2048, i.val ∈ j :: rest ∧ P i) ↔
      (∃ h : j < 2048, P ⟨j, h⟩) ∨ ∃ i : Fin 2048, i.val ∈ rest ∧ P i := by
  constructor
  · rintro ⟨i, hi, hp⟩
    rcases List.mem_cons.mp hi with hfirst | hlater
    · subst hfirst
      exact .inl ⟨i.isLt, hp⟩
    · exact .inr ⟨i, hlater, hp⟩
  · rintro (⟨h, hp⟩ | ⟨i, hi, hp⟩)
    · exact ⟨⟨j, h⟩, List.mem_cons_self, hp⟩
    · exact ⟨i, List.mem_cons_of_mem j hi, hp⟩

/-- If no turn comes twice, a pixel is met as it was before the first turn. -/
theorem hit_flipAll_iff {targets : List Nat} (h : targets.Nodup) (hit : Bool)
    (pixels : Vector UInt8 2048) :
    (flipAll targets hit pixels).1 = true ↔
      hit = true ∨ ∃ i : Fin 2048, i.val ∈ targets ∧ pixels.get i = 1 := by
  induction targets generalizing hit pixels with
  | nil => simp [flipAll]
  | cons j rest ih =>
      obtain ⟨hj, hrest⟩ := List.nodup_cons.mp h
      rw [flipAll, exists_mem_cons_iff]
      split
      · rename_i hlt
        have hkept : ∀ i : Fin 2048, i.val ∈ rest →
            (pixels.set j (pixels[j] ^^^ 1)).get i = pixels.get i := by
          intro i hi
          have hne : j ≠ i.val := fun heq => hj (heq ▸ hi)
          rw [get_flip, if_neg hne]
        rw [ih hrest, Bool.or_eq_true, beq_iff_eq, or_assoc]
        apply or_congr_right
        apply or_congr
        · constructor
          · intro hlit
            exact ⟨hlt, hlit⟩
          · rintro ⟨_, hlit⟩
            exact hlit
        · apply exists_congr
          intro i
          apply and_congr_right
          intro hi
          rw [hkept i hi]
      · rename_i hlt
        have hoff : ¬ ∃ h : j < 2048, pixels.get ⟨j, h⟩ = 1 := fun ⟨h, _⟩ => hlt h
        rw [ih hrest, or_iff_right hoff]

/-- A draw is refused only by a strict machine whose columns spill, for the first
pixel that is off the display. -/
theorem drawFault?_targets_eq_some_iff (strict : Bool) (fault : Fault) :
    drawFault? strict (targets mode x y rows) = some fault ↔
      strict = true ∧ mode = .linear ∧
        ∃ i, IsLeast {j | j ∈ covered mode x y rows ∧ 2048 ≤ j} i ∧ fault = .pixelOutOfRange i := by
  cases mode with
  | wrap => simp [drawFault?_wrap]
  | linear =>
      cases strict with
      | false => simp [drawFault?]
      | true =>
          rw [drawFault?_linear_eq_some_iff]
          simp only [mem_targets_iff_covered, true_and, and_comm]

theorem run_draw_eq_error_iff (strict : Bool) (fb : Framebuffer) (fault : Fault)
    (after : Framebuffer) :
    (draw strict mode x y rows).run fb = .error fault after ↔
      strict = true ∧ mode = .linear ∧ after = fb ∧
        ∃ i, IsLeast {j | j ∈ covered mode x y rows ∧ 2048 ≤ j} i ∧
          fault = .pixelOutOfRange i := by
  rw [run_draw, Fault.settle_eq_error_iff, drawFault?_targets_eq_some_iff]
  constructor
  · rintro ⟨⟨hstrict, hmode, hleast⟩, rfl⟩
    exact ⟨hstrict, hmode, rfl, hleast⟩
  · rintro ⟨hstrict, hmode, rfl, hleast⟩
    exact ⟨⟨hstrict, hmode, hleast⟩, rfl⟩

/-- A draw flips every pixel under the sprite at once, although it goes through
them one by one: no two bits of a sprite share a pixel. It tells whether one of
them was lit before, and marks the display. A draw that is refused does neither. -/
theorem draw_flips_each_once (strict : Bool) (mode : SpriteMode) (x y : UInt8)
    {rows : List UInt8} {fb : Framebuffer} (hrows : rows.length ≤ 15) (hfb : fb.Binary) :
    let S := covered mode x y rows
    Set.InjOn (pixelUnder mode x y) {bit | SetBit rows bit} ∧
    (∀ i, (i ∈ S → (targets mode x y rows).count i = 1) ∧
      (i ∉ S → (targets mode x y rows).count i = 0)) ∧
    (∀ fault after, (draw strict mode x y rows).run fb = .error fault after ↔
      strict = true ∧ mode = .linear ∧ after = fb ∧
        ∃ i, IsLeast {j | j ∈ S ∧ 2048 ≤ j} i ∧ fault = .pixelOutOfRange i) ∧
    ((∃ fault after, (draw strict mode x y rows).run fb = .error fault after) ↔
      strict = true ∧ mode = .linear ∧ ∃ i ∈ S, 2048 ≤ i) ∧
    (¬ (strict = true ∧ mode = .linear ∧ ∃ i ∈ S, 2048 ≤ i) →
      ∃ hit after, (draw strict mode x y rows).run fb = .ok hit after ∧
        (∀ i : Fin 2048, i.val ∈ S → after.pixels.get i = 1 - fb.pixels.get i) ∧
        (∀ i : Fin 2048, i.val ∉ S → after.pixels.get i = fb.pixels.get i) ∧
        (hit = true ↔ ∃ i : Fin 2048, i.val ∈ S ∧ fb.pixels.get i = 1) ∧
        after.dirty = true) := by
  intro S
  have hsmall : rows.length ≤ 32 := Nat.le_trans hrows (by decide)
  have hnodup : (targets mode x y rows).Nodup := nodup_targets hsmall
  have honce : ∀ i ∈ S, (targets mode x y rows).count i = 1 := fun i hi =>
    List.count_eq_one_of_mem hnodup ((mem_targets_iff_covered i).mpr hi)
  have hnever : ∀ i ∉ S, (targets mode x y rows).count i = 0 := fun i hi =>
    List.count_eq_zero.mpr fun hmem => hi ((mem_targets_iff_covered i).mp hmem)
  refine ⟨injOn_pixelUnder hsmall, fun i => ⟨honce i, hnever i⟩,
    run_draw_eq_error_iff strict fb, ?_, ?_⟩
  · constructor
    · rintro ⟨fault, after, hrun⟩
      rw [run_draw_eq_error_iff] at hrun
      obtain ⟨hstrict, hmode, -, i, hleast, -⟩ := hrun
      exact ⟨hstrict, hmode, i, hleast.1⟩
    · rintro ⟨hstrict, hmode, hout⟩
      classical
      have hleast : IsLeast {j | j ∈ S ∧ 2048 ≤ j} (Nat.find hout) :=
        ⟨Nat.find_spec hout, fun j hj => Nat.find_min' hout hj⟩
      refine ⟨.pixelOutOfRange (Nat.find hout), fb, ?_⟩
      rw [run_draw_eq_error_iff]
      exact ⟨hstrict, hmode, rfl, _, hleast, rfl⟩
  · intro hin
    have hfault : drawFault? strict (targets mode x y rows) = none := by
      rw [Option.eq_none_iff_forall_ne_some]
      intro fault hsome
      rw [drawFault?_targets_eq_some_iff] at hsome
      obtain ⟨hstrict, hmode, i, hleast, -⟩ := hsome
      exact hin ⟨hstrict, hmode, i, hleast.1⟩
    refine ⟨_, _, by rw [run_draw, hfault]; rfl, ?_, ?_, ?_, rfl⟩
    · intro i hi
      have hflip : (fb.flipped (targets mode x y rows)).pixels.get i = fb.pixels.get i ^^^ 1 := by
        rw [flipped, get_flipAll, honce i.val hi]
        rfl
      rw [hflip]
      rcases hfb (fb.pixels.get i) (Vector.getElem_mem i.isLt) with hdark | hlit
      · rw [hdark]
        rfl
      · rw [hlit]
        rfl
    · intro i hi
      rw [flipped, get_flipAll, hnever i.val hi]
      rfl
    · rw [hits, hit_flipAll_iff hnodup]
      simp only [mem_targets_iff_covered, Bool.false_eq_true, false_or]
      rfl

/-- On a display that is all lit, a sprite in the last corner goes round both edges,
and one that would have to spill past the last pixel is refused. -/
theorem draw_flips_each_once_corner :
    let fb : Framebuffer := { pixels := Vector.replicate 2048 1 }
    (∃ after, (draw true .wrap 63 31 [0xC0, 0x80]).run fb = .ok true after ∧
      after.pixels.get 1984 = 0 ∧ after.pixels.get 63 = 0 ∧
      after.pixels.get 0 = 1) ∧
    (draw true .linear 63 31 [0x80, 0x80]).run fb = .error (.pixelOutOfRange 2111) fb := by
  intro fb
  have hpixel : ∀ i : Fin 2048, fb.pixels.get i = 1 := fun i => Vector.getElem_replicate i.isLt
  have hfb : fb.Binary := fun byte hmem => .inr (Vector.mem_replicate.mp hmem).2
  have hwrap : targets .wrap 63 31 [0xC0, 0x80] = [2047, 1984, 63] := by decide
  have hlinear : targets .linear 63 31 [0x80, 0x80] = [2047, 2111] := by decide
  constructor
  · have hrows : [0xC0, (0x80 : UInt8)].length ≤ 15 := by decide
    obtain ⟨-, -, -, -, hdraw⟩ := draw_flips_each_once true .wrap 63 31 hrows hfb
    simp only [← mem_targets_iff_covered, hwrap, hpixel] at hdraw
    obtain ⟨hit, after, hrun, hflip, hkeep, hhit, -⟩ := hdraw (by simp)
    have hlit : hit = true := hhit.mpr ⟨63, by decide, trivial⟩
    rw [hlit] at hrun
    exact ⟨after, hrun, hflip 1984 (by decide), hflip 63 (by decide), hkeep 0 (by decide)⟩
  · have hrows : [0x80, (0x80 : UInt8)].length ≤ 15 := by decide
    have hleast : IsLeast {j | j ∈ covered .linear 63 31 [0x80, 0x80] ∧ 2048 ≤ j} 2111 := by
      simp only [← mem_targets_iff_covered, hlinear]
      refine ⟨by decide, ?_⟩
      rintro j ⟨hj, hout⟩
      simp only [List.mem_cons, List.not_mem_nil, or_false] at hj
      omega
    obtain ⟨-, -, herror, -⟩ := draw_flips_each_once true .linear 63 31 hrows hfb
    exact (herror _ _).mpr ⟨rfl, rfl, rfl, 2111, hleast, rfl⟩

end Chip8.Framebuffer
