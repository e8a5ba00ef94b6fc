import Chip8.Proofs.Decoding
import Chip8.Proofs.Effect

namespace Chip8

namespace Byte

variable (a b s : UInt8)

theorem and_one : s &&& 1 = s % 2 := by
  apply UInt8.toNat_inj.mp
  rw [UInt8.toNat_and, UInt8.toNat_mod]
  exact Nat.and_one_is_mod _

theorem shiftRight_one : s >>> 1 = s / 2 := by
  apply UInt8.toNat_inj.mp
  rw [UInt8.toNat_shiftRight, UInt8.toNat_div]
  exact Nat.shiftRight_eq_div_pow _ _

theorem shiftRight_seven : s >>> 7 = s / 128 := by
  apply UInt8.toNat_inj.mp
  rw [UInt8.toNat_shiftRight, UInt8.toNat_div]
  exact Nat.shiftRight_eq_div_pow _ _

theorem shiftLeft_one : s <<< 1 = 2 * s := by
  apply UInt8.toNat_inj.mp
  rw [UInt8.toNat_shiftLeft, UInt8.toNat_mul, Nat.mul_comm]
  exact congrArg (· % 256) (Nat.shiftLeft_eq _ _)

theorem low_bit : (if s &&& 1 = 1 then 1 else 0) = s % 2 := by
  rw [and_one]
  grind

theorem high_bit : (if s >>> 7 = 1 then 1 else 0) = s / 128 := by
  rw [shiftRight_seven]
  grind

theorem toNat_add_carry :
    256 * (if 255 < a.toNat + b.toNat then (1 : UInt8) else 0).toNat + (a + b).toNat =
      a.toNat + b.toNat := by
  have ha := a.toNat_lt
  have hb := b.toNat_lt
  have hone : (1 : UInt8).toNat = 1 := rfl
  have hzero : (0 : UInt8).toNat = 0 := rfl
  rw [UInt8.toNat_add]
  split <;> omega

theorem toNat_half_low_bit : 2 * (s / 2).toNat + (s % 2).toNat = s.toNat := by
  rw [UInt8.toNat_div, UInt8.toNat_mod]
  exact Nat.div_add_mod _ _

theorem toNat_double_high_bit : 256 * (s / 128).toNat + (2 * s).toNat = 2 * s.toNat := by
  have hhalf : (s / 128).toNat = s.toNat / 128 := UInt8.toNat_div _ _
  have hdouble : (2 * s).toNat = 2 * s.toNat % 256 := UInt8.toNat_mul _ _
  omega

end Byte

namespace Registers

/-- How an operation that writes the flag `c` before its result turns the registers
`v` into `w`. The result, in `x`, depends on whether `x` or the other register `z`
is the flag register: `apart` if neither is, and for each other case its own value. -/
structure ByAlias (x z : Reg) (v w : Registers) (c apart onlyZ onlyX both : UInt8) : Prop where
  apart : x ≠ .flag → z ≠ .flag → w[Reg.flag] = c ∧ w[x] = apart
  onlyZ : x ≠ .flag → z = .flag → w[Reg.flag] = c ∧ w[x] = onlyZ
  onlyX : x = .flag → z ≠ .flag → w[Reg.flag] = onlyX
  both : x = .flag → z = .flag → w[Reg.flag] = both
  rest : ∀ r, r ≠ x → r ≠ .flag → w[r] = v[r]

/-- Set the flag, and then put into `x` what `result` makes of `x` and `z` as they
are by now. -/
def flagThen (flag : Bool) (result : UInt8 → UInt8 → UInt8) (x z : Reg) (v : Registers) :
    Registers :=
  let u := v.setFlag flag
  u.set x (result u[x] u[z])

theorem getElem_setFlag (flag : Bool) (v : Registers) (r : Reg) :
    (v.setFlag flag)[r] = if r = .flag then (if flag then 1 else 0) else v[r] := by
  rw [setFlag, getElem_set]
  simp only [eq_comm]

theorem getElem_flagThen (flag : Bool) (result : UInt8 → UInt8 → UInt8) (x z : Reg)
    (v : Registers) (r : Reg) :
    (v.flagThen flag result x z)[r] =
      if x = r then result (v.setFlag flag)[x] (v.setFlag flag)[z] else (v.setFlag flag)[r] :=
  getElem_set _ _ _ _

theorem byAlias_flagThen (flag : Bool) (result : UInt8 → UInt8 → UInt8) (x z : Reg)
    (v : Registers) (c : UInt8) (hc : (if flag then 1 else 0) = c) :
    ByAlias x z v (v.flagThen flag result x z) c
      (result v[x] v[z]) (result v[x] c) (result c v[z]) (result c c) where
  apart hx hz := by
    rw [getElem_flagThen, getElem_flagThen, if_neg hx, if_pos rfl]
    simp only [getElem_setFlag, if_neg hx, if_neg hz, if_true, hc, and_self]
  onlyZ hx hz := by
    rw [getElem_flagThen, getElem_flagThen, if_neg hx, if_pos rfl]
    simp only [getElem_setFlag, if_neg hx, if_pos hz, if_true, hc, and_self]
  onlyX hx hz := by
    rw [getElem_flagThen, if_pos hx]
    simp only [getElem_setFlag, if_pos hx, if_neg hz, hc]
  both hx hz := by
    rw [getElem_flagThen, if_pos hx]
    simp only [getElem_setFlag, if_pos hx, if_pos hz, hc]
  rest r hx hr := by
    rw [getElem_flagThen, if_neg (Ne.symm hx), getElem_setFlag, if_neg hr]

end Registers

namespace Machine

/-- The word is carried out, and the registers `v` are all that it leaves different. -/
def TurnsRegisters (m : Machine) (w : Word) (v : Registers) : Prop :=
  (execute (.decode w)).run m = .ok () { m with v }

theorem turnsRegisters_arith {m : Machine} {w : Word} {op : Arithmetic} (k : Fin 16)
    (hk : Arithmetic.ofNibble? k = some op) (hw : w.top.val = 0x8 ∧ w.n.val = k.val) :
    m.TurnsRegisters w (op.apply m.config.shift w.x w.y m.v) := by
  have hop : Arithmetic.ofNibble? w.n = some op := by rw [Fin.ext hw.2, hk]
  have hdecode : Instruction.decode w = .arith op w.x w.y :=
    (Instruction.decode_eq_arith_iff _ _ _ _).mpr ⟨Fin.ext hw.1, hop, rfl, rfl⟩
  rw [TurnsRegisters, hdecode, run_execute]
  rfl

end Machine

namespace Registers

theorem byAlias_add (mode : ShiftMode) (x y : Reg) (v : Registers) :
    let c : UInt8 := if 255 < v[x].toNat + v[y].toNat then 1 else 0
    ByAlias x y v (Arithmetic.add.apply mode x y v) c (v[x] + v[y]) (v[x] + c) (c + v[y])
      (2 * c) := by
  intro c
  have hc : (if decide (255 < v[x].toNat + v[y].toNat) then 1 else 0) = c := by
    simp only [decide_eq_true_eq, c]
  have hboth : c + c = 2 * c := by grind
  rw [← hboth]
  exact byAlias_flagThen _ (· + ·) x y v c hc

theorem byAlias_sub (mode : ShiftMode) (x y : Reg) (v : Registers) :
    let c : UInt8 := if v[y].toNat < v[x].toNat then 1 else 0
    ByAlias x y v (Arithmetic.sub.apply mode x y v) c (v[x] - v[y]) (v[x] - c) (c - v[y]) 0 := by
  intro c
  have hc : (if decide (v[y] < v[x]) then 1 else 0) = c := by
    simp only [decide_eq_true_eq, c, UInt8.lt_iff_toNat_lt]
  rw [← UInt8.sub_self (a := c)]
  exact byAlias_flagThen _ (· - ·) x y v c hc

theorem byAlias_subFrom (mode : ShiftMode) (x y : Reg) (v : Registers) :
    let c : UInt8 := if v[x].toNat < v[y].toNat then 1 else 0
    ByAlias x y v (Arithmetic.subFrom.apply mode x y v) c (v[y] - v[x]) (c - v[x]) (v[y] - c)
      0 := by
  intro c
  have hc : (if decide (v[x] < v[y]) then 1 else 0) = c := by
    simp only [decide_eq_true_eq, c, UInt8.lt_iff_toNat_lt]
  rw [← UInt8.sub_self (a := c)]
  exact byAlias_flagThen _ (fun target other => other - target) x y v c hc

theorem byAlias_shiftRight (mode : ShiftMode) (x y : Reg) (v : Registers) :
    let z := if mode = .vyOnly then y else x
    ByAlias x z v (Arithmetic.shiftRight.apply mode x y v) (v[z] % 2) (v[z] / 2) 0 (v[z] / 2)
      0 := by
  intro z
  have hz : mode.rightSource x y = z := by cases mode <;> rfl
  have hc : (if decide (v[z] &&& 1 = 1) then 1 else 0) = v[z] % 2 := by
    simp only [decide_eq_true_eq, Byte.low_bit]
  have hbit : v[z] % 2 / 2 = 0 := by grind
  have hlaw := byAlias_flagThen _ (fun _ source => source >>> 1) x z v _ hc
  rw [Byte.shiftRight_one, Byte.shiftRight_one, hbit] at hlaw
  rw [← hz] at hlaw ⊢
  exact hlaw

theorem byAlias_shiftLeft (mode : ShiftMode) (x y : Reg) (v : Registers) :
    let z := if mode = .vxOnly then x else y
    ByAlias x z v (Arithmetic.shiftLeft.apply mode x y v) (v[z] / 128) (2 * v[z])
      (2 * (v[z] / 128)) (2 * v[z]) (2 * (v[z] / 128)) := by
  intro z
  have hz : mode.leftSource x y = z := by cases mode <;> rfl
  have hc : (if decide (v[z] >>> 7 = 1) then 1 else 0) = v[z] / 128 := by
    simp only [decide_eq_true_eq, Byte.high_bit]
  have hlaw := byAlias_flagThen _ (fun _ source => source <<< 1) x z v _ hc
  rw [Byte.shiftLeft_one, Byte.shiftLeft_one] at hlaw
  rw [← hz] at hlaw ⊢
  exact hlaw

end Registers

namespace Machine

/-- Sums, differences, shifts and sums with the index write their flag first and
read their operands after that. What they come to, by which of the operands is the
flag register. -/
theorem flag_written_first (m : Machine) (w : Word) :
    let x := w.x
    let y := w.y
    let a := m.v[x]
    let b := m.v[y]
    (w.top.val = 0x8 ∧ w.n.val = 0x4 → ∃ v, m.TurnsRegisters w v ∧
      let c : UInt8 := if 255 < a.toNat + b.toNat then 1 else 0
      Registers.ByAlias x y m.v v c (a + b) (a + c) (c + b) (2 * c) ∧
      (x ≠ .flag → y ≠ .flag →
        256 * v[Reg.flag].toNat + v[x].toNat = a.toNat + b.toNat)) ∧
    (w.top.val = 0x8 ∧ w.n.val = 0x5 → ∃ v, m.TurnsRegisters w v ∧
      let c : UInt8 := if b.toNat < a.toNat then 1 else 0
      Registers.ByAlias x y m.v v c (a - b) (a - c) (c - b) 0) ∧
    (w.top.val = 0x8 ∧ w.n.val = 0x7 → ∃ v, m.TurnsRegisters w v ∧
      let c : UInt8 := if a.toNat < b.toNat then 1 else 0
      Registers.ByAlias x y m.v v c (b - a) (c - a) (b - c) 0) ∧
    (w.top.val = 0x8 ∧ w.n.val = 0x6 → ∃ v, m.TurnsRegisters w v ∧
      let z := if m.config.shift = .vyOnly then y else x
      let s := m.v[z]
      let c := s % 2
      Registers.ByAlias x z m.v v c (s / 2) 0 (s / 2) 0 ∧
      (x ≠ .flag → z ≠ .flag → 2 * v[x].toNat + v[Reg.flag].toNat = s.toNat)) ∧
    (w.top.val = 0x8 ∧ w.n.val = 0xE → ∃ v, m.TurnsRegisters w v ∧
      let z := if m.config.shift = .vxOnly then x else y
      let s := m.v[z]
      let c := s / 128
      Registers.ByAlias x z m.v v c (2 * s) (2 * c) (2 * s) (2 * c) ∧
      (x ≠ .flag → z ≠ .flag → 256 * v[Reg.flag].toNat + v[x].toNat = 2 * s.toNat)) ∧
    (w.top.val = 0xF ∧ w.kk = 0x1E → ∃ v index,
      (execute (.decode w)).run m = .ok () { m with v, index } ∧
      let c : UInt8 := if 0xFFF < m.index.toNat + a.toNat then 1 else 0
      v[Reg.flag] = c ∧ (∀ r : Reg, r ≠ .flag → v[r] = m.v[r]) ∧
      index = m.index + (if x = .flag then c else a).toUInt16) := by
  intro x y a b
  refine ⟨?_, ?_, ?_, ?_, ?_, ?_⟩
  · intro hw
    have hlaw := Registers.byAlias_add m.config.shift x y m.v
    refine ⟨_, turnsRegisters_arith 0x4 rfl hw, hlaw, ?_⟩
    intro hx hy
    rw [(hlaw.apart hx hy).1, (hlaw.apart hx hy).2]
    exact Byte.toNat_add_carry a b
  · intro hw
    exact ⟨_, turnsRegisters_arith 0x5 rfl hw, Registers.byAlias_sub m.config.shift x y m.v⟩
  · intro hw
    exact ⟨_, turnsRegisters_arith 0x7 rfl hw, Registers.byAlias_subFrom m.config.shift x y m.v⟩
  · intro hw
    have hlaw := Registers.byAlias_shiftRight m.config.shift x y m.v
    refine ⟨_, turnsRegisters_arith 0x6 rfl hw, hlaw, ?_⟩
    intro hx hz
    rw [(hlaw.apart hx hz).1, (hlaw.apart hx hz).2]
    exact Byte.toNat_half_low_bit _
  · intro hw
    have hlaw := Registers.byAlias_shiftLeft m.config.shift x y m.v
    refine ⟨_, turnsRegisters_arith 0xE rfl hw, hlaw, ?_⟩
    intro hx hz
    rw [(hlaw.apart hx hz).1, (hlaw.apart hx hz).2]
    exact Byte.toNat_double_high_bit _
  · rintro ⟨hw, hkk⟩
    have hdecode : Instruction.decode w = .addIndex x :=
      (Instruction.decode_eq_iff_of_misc rfl _).mpr ⟨Fin.ext hw, hkk, rfl⟩
    have hflag : (if decide (0xFFF < m.index.toNat + a.toNat) then (1 : UInt8) else 0) =
        if 0xFFF < m.index.toNat + a.toNat then 1 else 0 := by
      simp only [decide_eq_true_eq]
    refine ⟨_, _, by rw [hdecode, run_execute]; rfl, ?_, ?_, ?_⟩
    · rw [Registers.getElem_setFlag, if_pos rfl]
      exact hflag
    · intro r hr
      rw [Registers.getElem_setFlag, if_neg hr]
    · rw [Registers.getElem_setFlag]
      exact congrArg (fun byte => m.index + (if x = .flag then byte else a).toUInt16) hflag

/-- A sum whose second operand is the flag register adds the carry that it has just
produced, one whose first operand is the flag register starts from it, and so does
a sum with the index. -/
theorem flag_written_first_carry :
    let v := (Registers.zero.set 0 0xFF).set .flag 0x02
    let m : Machine := { config := {}, random := .ofSeed 0, v, index := 0xFFE }
    (∃ after, m.TurnsRegisters 0x80F4 after ∧ after[Reg.first] = 0 ∧ after[Reg.flag] = 1) ∧
    (∃ after, m.TurnsRegisters 0x8F04 after ∧ after[Reg.flag] = 0) ∧
    (∃ after, (execute (.decode 0xFF1E)).run m = .ok () { m with v := after, index := 0xFFF }) := by
  intro v m
  have htarget : m.v[Reg.first] = 0xFF := by decide
  have hflag : m.v[Reg.flag] = 0x02 := by decide
  refine ⟨?_, ?_, ?_⟩
  · obtain ⟨hadd, -⟩ := flag_written_first m 0x80F4
    obtain ⟨after, hturns, hlaw, -⟩ := hadd ⟨by decide, by decide⟩
    obtain ⟨hcarry, hresult⟩ := hlaw.onlyZ (by decide) (by decide)
    have hx : Word.x 0x80F4 = Reg.first := by decide
    have hy : Word.y 0x80F4 = Reg.flag := by decide
    rw [hx, hy, htarget, hflag] at hcarry hresult
    exact ⟨after, hturns, hresult, hcarry⟩
  · obtain ⟨hadd, -⟩ := flag_written_first m 0x8F04
    obtain ⟨after, hturns, hlaw, -⟩ := hadd ⟨by decide, by decide⟩
    have hresult := hlaw.onlyX (by decide) (by decide)
    have hx : Word.x 0x8F04 = Reg.flag := by decide
    have hy : Word.y 0x8F04 = Reg.first := by decide
    rw [hx, hy, htarget, hflag] at hresult
    exact ⟨after, hturns, hresult⟩
  · obtain ⟨-, -, -, -, -, hsum⟩ := flag_written_first m 0xFF1E
    obtain ⟨after, index, hrun, -, -, hindex⟩ := hsum ⟨by decide, by decide⟩
    have hx : Word.x 0xFF1E = Reg.flag := by decide
    rw [hx, hflag, if_pos rfl] at hindex
    have hlast : index = 0xFFF := hindex.trans (by decide)
    rw [hlast] at hrun
    exact ⟨after, hrun⟩

end Machine

end Chip8
