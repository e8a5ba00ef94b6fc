import Chip8.Proofs.SpriteDraw
import Mathlib.Data.Set.Card

namespace Chip8

namespace Framebuffer

theorem flipAll_append (first second : List Nat) (hit : Bool) (pixels : Vector UInt8 2048) :
    flipAll (first ++ second) hit pixels =
      flipAll second (flipAll first hit pixels).1 (flipAll first hit pixels).2 := by
  induction first generalizing hit pixels with
  | nil => rfl
  | cons i rest ih =>
      rw [List.cons_append, flipAll, flipAll]
      split
      · exact ih _ _
      · exact ih _ _

/-- What is left of a row of flips is whether each pixel has an odd number of turns. -/
theorem pixels_flipAll_congr {first second : List Nat}
    (h : ∀ i, first.count i % 2 = second.count i % 2) (hit hit' : Bool)
    (pixels : Vector UInt8 2048) :
    (flipAll first hit pixels).2 = (flipAll second hit' pixels).2 := by
  apply Vector.ext
  intro i hi
  have hfirst := get_flipAll first hit pixels ⟨i, hi⟩
  have hsecond := get_flipAll second hit' pixels ⟨i, hi⟩
  rw [h i, ← hsecond] at hfirst
  exact hfirst

theorem binary_flip {pixels : Vector UInt8 2048} (h : ∀ byte ∈ pixels, byte = 0 ∨ byte = 1)
    {i : Nat} (hi : i < 2048) :
    ∀ byte ∈ pixels.set i (pixels[i] ^^^ 1), byte = 0 ∨ byte = 1 := by
  intro byte hmem
  rcases Vector.mem_or_eq_of_mem_set hmem with hkept | rfl
  · exact h byte hkept
  · rcases h _ (Vector.getElem_mem hi) with hdark | hlit
    · rw [hdark]
      exact .inr rfl
    · rw [hlit]
      exact .inl rfl

theorem countP_lit_flip (pixels : Vector UInt8 2048) {i : Nat} (hi : i < 2048)
    (hbinary : pixels[i] = 0 ∨ pixels[i] = 1) :
    (pixels.set i (pixels[i] ^^^ 1)).toList.countP lit + 2 * (if pixels[i] == 1 then 1 else 0) =
      pixels.toList.countP lit + 1 := by
  have hlen : i < pixels.toList.length := by
    rw [Vector.length_toList]
    exact hi
  have hle := List.boole_getElem_le_countP (p := lit) hlen
  rw [Vector.toList_set, List.countP_set hlen]
  rw [Vector.getElem_toList] at hle ⊢
  rcases hbinary with hdark | hlit
  · rw [hdark]
    rfl
  · rw [hlit] at hle ⊢
    change 1 ≤ _ at hle
    change _ - 1 + 0 + 2 * 1 = _
    omega

/-- Each turn that comes once makes one more pixel lit, or one less if it was lit. -/
theorem countP_lit_flipAll {targets : List Nat} (h : targets.Nodup) (hit : Bool)
    {pixels : Vector UInt8 2048} (hbinary : ∀ byte ∈ pixels, byte = 0 ∨ byte = 1) :
    (flipAll targets hit pixels).2.toList.countP lit +
        2 * targets.countP (pixels[·]? == some 1) =
      pixels.toList.countP lit + targets.countP (· < 2048) := by
  induction targets generalizing hit pixels with
  | nil => rfl
  | cons j rest ih =>
      obtain ⟨hj, hrest⟩ := List.nodup_cons.mp h
      rw [flipAll, List.countP_cons, List.countP_cons]
      split
      · rename_i hlt
        have hflip := countP_lit_flip pixels hlt (hbinary _ (Vector.getElem_mem hlt))
        have hnext := ih hrest (hit || pixels[j] == 1) (binary_flip hbinary hlt)
        have hkept : rest.countP ((pixels.set j (pixels[j] ^^^ 1))[·]? == some 1) =
            rest.countP (pixels[·]? == some 1) := by
          apply List.countP_congr
          intro i hi
          have hne : j ≠ i := fun heq => hj (heq ▸ hi)
          rw [Vector.getElem?_set hlt, if_neg hne]
        rw [hkept] at hnext
        rw [Vector.getElem?_eq_getElem hlt, Option.some_beq_some, decide_eq_true hlt, if_pos rfl]
        omega
      · rename_i hlt
        have hnone : pixels[j]? = none := Vector.getElem?_eq_none (Nat.le_of_not_lt hlt)
        rw [hnone, decide_eq_false hlt]
        exact ih hrest hit hbinary

end Framebuffer

open Framebuffer

/-- A sprite and the pixel of its corner. No instruction draws more than fifteen rows. -/
structure Sprite where
  x : UInt8
  y : UInt8
  rows : List UInt8
  height_le : rows.length ≤ 15

namespace Sprite

def draw (strict : Bool) (mode : SpriteMode) (s : Sprite) : Action Framebuffer Bool :=
  Framebuffer.draw strict mode s.x s.y s.rows

/-- Draw sprites one after the other. The result tells for each whether it hit a lit pixel. -/
def drawAll (strict : Bool) (mode : SpriteMode) (sprites : List Sprite) :
    Action Framebuffer (List Bool) :=
  sprites.mapM (draw strict mode)

def targets (mode : SpriteMode) (s : Sprite) : List Nat := Framebuffer.targets mode s.x s.y s.rows

/-- A set bit of the sprite that comes to lie on the display. -/
def Lands (mode : SpriteMode) (s : Sprite) (bit : Nat × Nat) : Prop :=
  SetBit s.rows bit ∧ pixelUnder mode s.x s.y bit < 2048

/-- A set bit of the sprite that comes to lie on a pixel with a given byte. -/
def Meets (mode : SpriteMode) (s : Sprite) (fb : Framebuffer) (byte : UInt8)
    (bit : Nat × Nat) : Prop :=
  SetBit s.rows bit ∧ fb.pixels[pixelUnder mode s.x s.y bit]? = some byte

variable {strict : Bool} {mode : SpriteMode} {fb : Framebuffer}

theorem nodup_targets (mode : SpriteMode) (s : Sprite) : (s.targets mode).Nodup :=
  Framebuffer.nodup_targets (Nat.le_trans s.height_le (by decide))

theorem run_draw_eq_ok_iff (s : Sprite) (hit : Bool) (after : Framebuffer) :
    (s.draw strict mode).run fb = .ok hit after ↔
      drawFault? strict (s.targets mode) = none ∧ hit = fb.hits (s.targets mode) ∧
        after = fb.flipped (s.targets mode) := by
  rw [draw, run_draw]
  constructor
  · intro h
    obtain ⟨hfault, hhit, hafter⟩ := Fault.of_settle_eq_ok h
    exact ⟨hfault, hhit.symm, hafter.symm⟩
  · rintro ⟨hfault, rfl, rfl⟩
    rw [targets] at hfault
    rw [hfault]
    rfl

theorem run_drawAll_cons_eq_ok_iff (s : Sprite) (rest : List Sprite) (hits : List Bool)
    (last : Framebuffer) :
    (drawAll strict mode (s :: rest)).run fb = .ok hits last ↔
      ∃ hit next others, (s.draw strict mode).run fb = .ok hit next ∧
        (drawAll strict mode rest).run next = .ok others last ∧ hits = hit :: others := by
  rw [drawAll, List.mapM_cons, ← drawAll, EStateM.run_bind]
  cases hdraw : (s.draw strict mode).run fb with
  | error fault next => simp
  | ok hit next =>
      simp only [EStateM.run_bind]
      cases hrest : (drawAll strict mode rest).run next with
      | error fault last => simp [hrest]
      | ok others last => simp [hrest, eq_comm, and_comm]

/-- Whether sprites are drawn does not depend on the display, and they leave the flips
of all of them. -/
theorem exists_run_drawAll_iff (sprites : List Sprite) (fb : Framebuffer)
    (pixels : Vector UInt8 2048) :
    (∃ hits last, (drawAll strict mode sprites).run fb = .ok hits last ∧ last.pixels = pixels) ↔
      (∀ s ∈ sprites, drawFault? strict (s.targets mode) = none) ∧
        (flipAll (sprites.flatMap (targets mode)) false fb.pixels).2 = pixels := by
  induction sprites generalizing fb with
  | nil =>
      constructor
      · rintro ⟨hits, last, hrun, rfl⟩
        cases hrun
        exact ⟨nofun, rfl⟩
      · rintro ⟨-, rfl⟩
        exact ⟨[], fb, rfl, rfl⟩
  | cons s rest ih =>
      have hpixels : (flipAll ((s :: rest).flatMap (targets mode)) false fb.pixels).2 =
          (flipAll (rest.flatMap (targets mode)) false (fb.flipped (s.targets mode)).pixels).2 := by
        rw [List.flatMap_cons, flipAll_append]
        exact pixels_flipAll_congr (fun _ => rfl) _ _ _
      rw [List.forall_mem_cons, hpixels, and_assoc, ← ih]
      simp only [run_drawAll_cons_eq_ok_iff, run_draw_eq_ok_iff]
      constructor
      · rintro ⟨_, last, ⟨_, _, others, ⟨hfault, rfl, rfl⟩, hrest, rfl⟩, hlast⟩
        exact ⟨hfault, others, last, hrest, hlast⟩
      · rintro ⟨hfault, others, last, hrest, hlast⟩
        exact ⟨_, last, ⟨_, _, others, ⟨hfault, rfl, rfl⟩, hrest, rfl⟩, hlast⟩

theorem exists_run_drawAll_of_perm {sprites order : List Sprite} (horder : order.Perm sprites)
    {hits : List Bool} {last : Framebuffer}
    (hrun : (drawAll strict mode sprites).run fb = .ok hits last) :
    ∃ hits' last', (drawAll strict mode order).run fb = .ok hits' last' ∧
      last'.pixels = last.pixels := by
  obtain ⟨haccepted, hpixels⟩ :=
    (exists_run_drawAll_iff sprites fb last.pixels).mp ⟨hits, last, hrun, rfl⟩
  have hcount := (horder.flatMap_right (targets mode)).count_eq
  refine (exists_run_drawAll_iff order fb last.pixels).mpr ⟨?_, ?_⟩
  · intro s hs
    exact haccepted s (horder.mem_iff.mp hs)
  · rw [← hpixels]
    exact pixels_flipAll_congr (fun i => by rw [hcount]) _ _ _

theorem exists_run_drawAll_twice {sprites order : List Sprite}
    (horder : order.Perm (sprites ++ sprites)) {hits : List Bool} {last : Framebuffer}
    (hrun : (drawAll strict mode sprites).run fb = .ok hits last) :
    ∃ hits' last', (drawAll strict mode order).run fb = .ok hits' last' ∧
      last'.pixels = fb.pixels := by
  obtain ⟨haccepted, -⟩ :=
    (exists_run_drawAll_iff sprites fb last.pixels).mp ⟨hits, last, hrun, rfl⟩
  have hcount := (horder.flatMap_right (targets mode)).count_eq
  refine (exists_run_drawAll_iff order fb fb.pixels).mpr ⟨?_, ?_⟩
  · intro s hs
    rcases List.mem_append.mp (horder.mem_iff.mp hs) with h | h
    · exact haccepted s h
    · exact haccepted s h
  · -- Every turn comes twice as often as in one pass, so no pixel is left flipped.
    change _ = (flipAll [] false fb.pixels).2
    apply pixels_flipAll_congr
    intro i
    rw [hcount, List.flatMap_append, List.count_append, List.count_nil]
    omega

theorem ncard_setBits (rows : List UInt8) (p : Nat × Nat → Bool) :
    {bit | SetBit rows bit ∧ p bit = true}.ncard = (setBits rows).countP p := by
  have hset : {bit | SetBit rows bit ∧ p bit = true} = ((setBits rows).filter p).toFinset := by
    ext bit
    simp only [Set.mem_ofPred_eq, List.coe_toFinset, List.mem_filter, mem_setBits_iff]
  rw [hset, Set.ncard_coe_finset, List.toFinset_card_of_nodup ((nodup_setBits rows).filter p),
    List.countP_eq_length_filter]

theorem ncard_lands (s : Sprite) :
    {bit | s.Lands mode bit}.ncard = (s.targets mode).countP (· < 2048) := by
  rw [targets, targets_eq_map, List.countP_map, ← ncard_setBits]
  simp only [Lands, Function.comp_apply, decide_eq_true_eq]

theorem ncard_meets (s : Sprite) (byte : UInt8) :
    {bit | s.Meets mode fb byte bit}.ncard =
      (s.targets mode).countP (fb.pixels[·]? == some byte) := by
  rw [targets, targets_eq_map, List.countP_map, ← ncard_setBits]
  simp only [Meets, Function.comp_apply, beq_iff_eq]

theorem exists_meets_iff (s : Sprite) (byte : UInt8) :
    (∃ bit, s.Meets mode fb byte bit) ↔
      ∃ i : Fin 2048, i.val ∈ s.targets mode ∧ fb.pixels.get i = byte := by
  simp only [targets, targets_eq_map, List.mem_map, mem_setBits_iff]
  constructor
  · rintro ⟨bit, hbit, hmeets⟩
    obtain ⟨hlt, hbyte⟩ := Vector.getElem?_eq_some_iff.mp hmeets
    exact ⟨⟨_, hlt⟩, ⟨bit, hbit, rfl⟩, hbyte⟩
  · rintro ⟨i, ⟨bit, hbit, hi⟩, hbyte⟩
    refine ⟨bit, hbit, ?_⟩
    rw [hi]
    exact Vector.getElem?_eq_some_iff.mpr ⟨i.isLt, hbyte⟩

theorem hits_iff (s : Sprite) :
    fb.hits (s.targets mode) = true ↔ ∃ bit, s.Meets mode fb 1 bit := by
  rw [hits, hit_flipAll_iff (s.nodup_targets mode), exists_meets_iff]
  simp only [Bool.false_eq_true, false_or]

theorem ncard_meets_pos_iff (s : Sprite) (byte : UInt8) :
    0 < {bit | s.Meets mode fb byte bit}.ncard ↔ ∃ bit, s.Meets mode fb byte bit := by
  have hfinite : {bit | s.Meets mode fb byte bit}.Finite :=
    (List.finite_toSet (setBits s.rows)).subset fun bit hbit => (mem_setBits_iff _ _).mpr hbit.1
  rw [Set.ncard_pos hfinite]
  rfl

/-- What was dark under a sprite is lit once it has been drawn. -/
theorem exists_meets_flipped_iff (s : Sprite) :
    (∃ bit, s.Meets mode (fb.flipped (s.targets mode)) 1 bit) ↔
      ∃ bit, s.Meets mode fb 0 bit := by
  rw [exists_meets_iff, exists_meets_iff]
  apply exists_congr
  intro i
  apply and_congr_right
  intro hi
  have hflip : (fb.flipped (s.targets mode)).pixels.get i = fb.pixels.get i ^^^ 1 := by
    rw [flipped, get_flipAll, List.count_eq_one_of_mem (s.nodup_targets mode) hi]
    rfl
  rw [hflip]
  exact UInt8.xor_left_inj (b := 0) 1

theorem litCount_flipped (hfb : fb.Binary) (s : Sprite) :
    (fb.flipped (s.targets mode)).litCount + 2 * {bit | s.Meets mode fb 1 bit}.ncard =
      fb.litCount + {bit | s.Lands mode bit}.ncard := by
  rw [ncard_meets, ncard_lands]
  exact countP_lit_flipAll (s.nodup_targets mode) false hfb

/-- Sprites leave the same pixels in whatever order they are drawn, and the pixels
they found if each is drawn twice. One sprite makes as many more pixels lit as it has
bits on the display, less two for each that hits a lit pixel, and it reports such a
hit. Drawn again, it reports whether it had met a dark pixel. -/
theorem draws_commute_and_cancel (strict : Bool) (mode : SpriteMode) {fb : Framebuffer}
    (hfb : fb.Binary) :
    (∀ (sprites : List Sprite) hits last, (drawAll strict mode sprites).run fb = .ok hits last →
      (∀ order : List Sprite, order.Perm sprites → ∃ hits' last',
        (drawAll strict mode order).run fb = .ok hits' last' ∧ last'.pixels = last.pixels) ∧
      (∀ order : List Sprite, order.Perm (sprites ++ sprites) → ∃ hits' last',
        (drawAll strict mode order).run fb = .ok hits' last' ∧ last'.pixels = fb.pixels)) ∧
    ∀ (s : Sprite) hit after, (s.draw strict mode).run fb = .ok hit after →
      let m := {bit | s.Lands mode bit}.ncard
      let h := {bit | s.Meets mode fb 1 bit}.ncard
      (after.litCount : Int) - fb.litCount = m - 2 * h ∧
      (hit = true ↔ 0 < h) ∧
      (hit = false ↔ after.litCount = fb.litCount + m) ∧
      ∃ again last, (s.draw strict mode).run after = .ok again last ∧
        (again = true ↔ ∃ bit, s.Meets mode fb 0 bit) := by
  constructor
  · intro sprites hits last hrun
    constructor
    · intro order horder
      exact exists_run_drawAll_of_perm horder hrun
    · intro order horder
      exact exists_run_drawAll_twice horder hrun
  · intro s hit after hrun m h
    obtain ⟨hfault, rfl, rfl⟩ := (run_draw_eq_ok_iff s hit after).mp hrun
    have hcount : (fb.flipped (s.targets mode)).litCount + 2 * h = fb.litCount + m :=
      litCount_flipped hfb s
    have hhit : fb.hits (s.targets mode) = true ↔ 0 < h := by
      rw [hits_iff, ncard_meets_pos_iff]
    refine ⟨by omega, hhit, ?_, ?_⟩
    · rw [Bool.eq_false_iff, Ne, hhit]
      omega
    · refine ⟨_, _, (run_draw_eq_ok_iff s _ _).mpr ⟨hfault, rfl, rfl⟩, ?_⟩
      rw [hits_iff, exists_meets_flipped_iff]

/-- Two sprites that share a pixel, on a dark display. -/
theorem draws_commute_and_cancel_overlap :
    let pair : Sprite := ⟨0, 0, [0xC0], by decide⟩
    let dot : Sprite := ⟨1, 0, [0x80], by decide⟩
    (∃ hits last, (drawAll true .linear [pair, dot]).run clear = .ok hits last ∧
      (∃ hits' last', (drawAll true .linear [dot, pair]).run clear = .ok hits' last' ∧
        last'.pixels = last.pixels) ∧
      ∃ hits' last', (drawAll true .linear [dot, pair, pair, dot]).run clear = .ok hits' last' ∧
        last'.pixels = clear.pixels) ∧
    ∃ after last, (pair.draw true .linear).run clear = .ok false after ∧
      after.litCount = clear.litCount + 2 ∧ (pair.draw true .linear).run after = .ok true last := by
  intro pair dot
  have hdark : ∀ byte ∈ clear.pixels, byte = 0 := fun _ hmem => (Vector.mem_replicate.mp hmem).2
  have hblank : clear.Binary := fun byte hmem => .inl (hdark byte hmem)
  obtain ⟨hlist, hsingle⟩ := draws_commute_and_cancel true .linear hblank
  constructor
  · have haccepted : ∀ s ∈ [pair, dot], drawFault? true (s.targets .linear) = none := by decide
    obtain ⟨hits, last, hrun, -⟩ := (exists_run_drawAll_iff _ clear _).mpr ⟨haccepted, rfl⟩
    obtain ⟨horder, htwice⟩ := hlist _ hits last hrun
    exact ⟨hits, last, hrun, horder _ (.swap pair dot []),
      htwice _ (.swap pair dot [pair, dot])⟩
  · have hfault : drawFault? true (pair.targets .linear) = none := by decide
    have hmisses : ¬ ∃ bit, pair.Meets .linear clear 1 bit := by
      rintro ⟨bit, -, hlit⟩
      obtain ⟨hlt, hbyte⟩ := Vector.getElem?_eq_some_iff.mp hlit
      have hzero := hdark _ (Vector.getElem_mem hlt)
      rw [hbyte] at hzero
      exact absurd hzero (by decide)
    have hhit : clear.hits (pair.targets .linear) = false :=
      Bool.eq_false_iff.mpr ((hits_iff pair).not.mpr hmisses)
    have hrun := (run_draw_eq_ok_iff pair _ _).mpr ⟨hfault, hhit.symm, rfl⟩
    obtain ⟨-, -, hgrows, again, last, hagain, hmeets⟩ := hsingle pair _ _ hrun
    have hcorner : pair.Meets .linear clear 0 (0, 0) := by
      refine ⟨⟨by decide, 0xC0, rfl, by decide⟩, Vector.getElem?_eq_some_iff.mpr ⟨by decide, ?_⟩⟩
      exact hdark _ (Vector.getElem_mem _)
    have hlands : {bit | pair.Lands .linear bit}.ncard = 2 := by
      rw [ncard_lands]
      decide
    have htrue : again = true := hmeets.mpr ⟨_, hcorner⟩
    rw [htrue] at hagain
    rw [hlands] at hgrows
    exact ⟨_, last, hrun, hgrows.mp rfl, hagain⟩

end Sprite

end Chip8
