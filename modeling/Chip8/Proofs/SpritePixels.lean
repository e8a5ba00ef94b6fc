import Chip8.Proofs.Effect
import Mathlib.Order.Bounds.Basic

namespace Chip8

/-- The first that a search in ascending order finds is the least there is. -/
theorem find?_eq_some_iff_isLeast {l : List Nat} (h : l.Pairwise (· < ·)) (p : Nat → Bool)
    (i : Nat) : l.find? p = some i ↔ IsLeast {j | p j = true ∧ j ∈ l} i := by
  constructor
  · intro hfind
    obtain ⟨hi, before, after, rfl, hbefore⟩ := List.find?_eq_some_iff_append.mp hfind
    refine ⟨⟨hi, List.mem_append_right before List.mem_cons_self⟩, ?_⟩
    rintro j ⟨hj, hmem⟩
    rcases List.mem_append.mp hmem with hmem | hmem
    · have hnot := hbefore j hmem
      rw [hj] at hnot
      contradiction
    · rcases List.mem_cons.mp hmem with rfl | hmem
      · exact Nat.le_refl j
      · exact Nat.le_of_lt ((List.pairwise_cons.mp (List.pairwise_append.mp h).2.1).1 j hmem)
  · rintro ⟨⟨hi, hmem⟩, hleast⟩
    cases hfind : l.find? p with
    | none => exact absurd hi (List.find?_eq_none.mp hfind i hmem)
    | some j =>
        obtain ⟨hj, before, after, rfl, hbefore⟩ := List.find?_eq_some_iff_append.mp hfind
        have hle : i ≤ j := hleast ⟨hj, List.mem_append_right before List.mem_cons_self⟩
        rcases List.mem_append.mp hmem with hmem | hmem
        · have hnot := hbefore i hmem
          rw [hi] at hnot
          contradiction
        · rcases List.mem_cons.mp hmem with rfl | hmem
          · rfl
          · have hlt := (List.pairwise_cons.mp (List.pairwise_append.mp h).2.1).1 i hmem
            exact absurd hle (Nat.not_le.mpr hlt)

namespace Framebuffer

theorem mem_litColumns_iff (row : UInt8) (across : Nat) :
    across ∈ litColumns row ↔ across < 8 ∧ row.toNat.testBit (7 - across) = true := by
  rw [litColumns, List.mem_filter, List.mem_range]

theorem mem_targets_iff (mode : SpriteMode) (x y : UInt8) (rows : List UInt8) (i : Nat) :
    i ∈ targets mode x y rows ↔ ∃ down across row, rows[down]? = some row ∧ across < 8 ∧
      row.toNat.testBit (7 - across) = true ∧
      mode.target (x.toNat + across) (y.toNat + down) = i := by
  simp only [targets, List.mem_flatMap, List.mem_map, mem_litColumns_iff]
  constructor
  · rintro ⟨⟨row, down⟩, hrow, across, ⟨hacross, hbit⟩, htarget⟩
    exact ⟨down, across, row, List.mem_zipIdx_iff_getElem?.mp hrow, hacross, hbit, htarget⟩
  · rintro ⟨down, across, row, hrow, hacross, hbit, htarget⟩
    exact ⟨(row, down), List.mem_zipIdx_iff_getElem?.mpr hrow, across, ⟨hacross, hbit⟩, htarget⟩

/-- With columns that spill, the pixels of a sprite come in ascending order: a row
is narrower than the display. -/
theorem pairwise_targets_linear (x y : UInt8) (rows : List UInt8) :
    (targets .linear x y rows).Pairwise (· < ·) := by
  rw [targets, List.pairwise_flatMap]
  constructor
  · rintro ⟨row, down⟩ -
    have hcolumns : (litColumns row).Pairwise (· < ·) := List.pairwise_lt_range.filter _
    refine List.Pairwise.map _ (fun a b hab => ?_) hcolumns
    simp only [SpriteMode.target]
    omega
  · have hrows : rows.zipIdx.Pairwise fun a b => a.2 < b.2 := by
      rw [← List.pairwise_map (f := Prod.snd), List.zipIdx_map_snd]
      exact List.pairwise_lt_range'
    refine hrows.imp fun {a b} hab i hi j hj => ?_
    obtain ⟨c, hc, rfl⟩ := List.mem_map.mp hi
    obtain ⟨d, hd, rfl⟩ := List.mem_map.mp hj
    have hwide := ((mem_litColumns_iff _ _).mp hc).1
    simp only [SpriteMode.target]
    omega

theorem target_wrap_lt (x y : Nat) : SpriteMode.wrap.target x y < 2048 := by
  simp only [SpriteMode.target]
  omega

theorem drawFault?_wrap (strict : Bool) (x y : UInt8) (rows : List UInt8) :
    drawFault? strict (targets .wrap x y rows) = none := by
  have hnone : (targets .wrap x y rows).find? (size ≤ ·) = none := by
    rw [List.find?_eq_none]
    intro i hi
    obtain ⟨down, across, row, -, -, -, rfl⟩ := (mem_targets_iff _ _ _ _ _).mp hi
    have hlt := target_wrap_lt (x.toNat + across) (y.toNat + down)
    have hsize : size = 2048 := rfl
    simp only [decide_eq_true_eq]
    omega
  rw [drawFault?, hnone]
  split <;> rfl

/-- A sprite whose columns spill is refused for the first of its pixels that is off
the display. -/
theorem drawFault?_linear_eq_some_iff (x y : UInt8) (rows : List UInt8) (fault : Fault) :
    drawFault? true (targets .linear x y rows) = some fault ↔
      ∃ i, IsLeast {j | 2048 ≤ j ∧ j ∈ targets .linear x y rows} i ∧
        fault = .pixelOutOfRange i := by
  have hleast : ∀ i, (targets .linear x y rows).find? (size ≤ ·) = some i ↔
      IsLeast {j | 2048 ≤ j ∧ j ∈ targets .linear x y rows} i := by
    intro i
    rw [find?_eq_some_iff_isLeast (pairwise_targets_linear x y rows)]
    simp only [decide_eq_true_eq]
    rfl
  rw [drawFault?, if_pos rfl, Option.map_eq_some_iff]
  simp only [hleast, eq_comm]

end Framebuffer

end Chip8
