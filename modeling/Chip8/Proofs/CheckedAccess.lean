import Chip8.Proofs.Checked
import Chip8.Proofs.Effect

namespace Chip8.Checked

/-- The result `a`, unless there is a fault. -/
def Trap.guard {α : Type} (fault? : Option Fault) (a : α) : Except Trap α :=
  match fault? with
  | some f => .error (.fault f)
  | none => .ok a

section Primitives

variable {α β : Type} {length : Nat}

@[simp] theorem ok_bind (a : α) (next : α → Except Trap β) : (.ok a >>= next) = next a := rfl

@[simp] theorem item_val (v : Vector α length) (i : Fin length) : item v i.val = .ok v[i] :=
  dif_pos i.isLt

@[simp] theorem replace_val (v : Vector α length) (i : Fin length) (a : α) :
    replace v i.val a = .ok (v.set i a) :=
  dif_pos i.isLt

theorem fit_of_lt {size value : Nat} (h : value < size) : fit size value = .ok value :=
  if_pos h

theorem less_of_le {a b : Nat} (h : b ≤ a) : less a b = .ok (a - b) :=
  if_pos h

end Primitives

section Fields

theorem toNat_nibble (w k : UInt16) (h : k.toNat < 16) :
    ((w >>> k) &&& 0xF).toUInt8 = UInt8.ofNat (w.toNat >>> k.toNat % 16) := by
  apply UInt8.toNat_inj.mp
  rw [UInt8.toNat_ofNat']
  change ((w >>> k) &&& 0xF).toNat % 256 = _
  rw [UInt16.toNat_and, UInt16.toNat_shiftRight, Nat.mod_eq_of_lt h]
  congr 1
  exact Nat.and_two_pow_sub_one_eq_mod (w.toNat >>> k.toNat) 4

theorem x_ofWord (w : Word) : (Fields.ofWord w).x = UInt8.ofNat w.x.val :=
  (toNat_nibble w 8 (by decide)).trans (by rw [Nat.shiftRight_eq_div_pow]; rfl)

theorem y_ofWord (w : Word) : (Fields.ofWord w).y = UInt8.ofNat w.y.val :=
  (toNat_nibble w 4 (by decide)).trans (by rw [Nat.shiftRight_eq_div_pow]; rfl)

theorem n_ofWord (w : Word) : (Fields.ofWord w).n = UInt8.ofNat w.n.val := by
  apply UInt8.toNat_inj.mp
  rw [UInt8.toNat_ofNat']
  change (w &&& 0xF).toNat % 256 = w.toNat % 16 % 256
  rw [UInt16.toNat_and]
  congr 1
  exact Nat.and_two_pow_sub_one_eq_mod w.toNat 4

theorem kk_ofWord (w : Word) : (Fields.ofWord w).kk = w.kk := by
  apply UInt8.toNat_inj.mp
  have h : w.toNat &&& 255 = w.toNat % 256 := Nat.and_two_pow_sub_one_eq_mod w.toNat 8
  change (w &&& 0xFF).toNat % 256 = w.toNat % 256
  rw [UInt16.toNat_and]
  change (w.toNat &&& 255) % 256 = w.toNat % 256
  rw [h, Nat.mod_mod]

theorem family_ofWord (w : Word) : (Fields.ofWord w).family = .ofWord w := by
  have hlt := w.toNat_lt
  have h : (w >>> 12).toUInt8.toNat = w.toNat / 4096 := by
    change (w >>> 12).toNat % 256 = _
    rw [UInt16.toNat_shiftRight]
    change w.toNat >>> 12 % 256 = _
    rw [Nat.shiftRight_eq_div_pow]
    change w.toNat / 4096 % 256 = _
    omega
  have hnibble : (w >>> 12).toUInt8.toNat < 16 := by omega
  change (Family.ofByte? (w >>> 12).toUInt8).getD .sys = _
  rw [Family.ofByte?, dif_pos hnibble, Option.getD_some, Family.ofWord]
  congr 1
  exact Fin.ext h

theorem toNat_low12 (w : UInt16) : (w &&& 0xFFF).toNat = w.toNat % 4096 := by
  rw [UInt16.toNat_and]
  exact Nat.and_two_pow_sub_one_eq_mod w.toNat 12

theorem toWord_eq_iff (a : Address) (w : UInt16) : a.toWord = w ↔ a.val = w.toNat := by
  rw [← UInt16.toNat_inj, Address.toNat_toWord]

theorem nnn_ofWord (w : Word) : (Fields.ofWord w).nnn = w.nnn.toWord := by
  apply UInt16.toNat_inj.mp
  rw [Address.toWord, UInt16.toNat_ofNat']
  change (w &&& 0xFFF).toNat = w.toNat % 4096 % 65536
  rw [toNat_low12]
  omega

end Fields

section Memory

variable (address : UInt16) (m : Memory)

theorem resolve_eq :
    resolve address m =
      Trap.guard (Memory.addressFault? m.strict address) (Address.ofWord address).val := by
  rw [resolve, Memory.addressFault?, toNat_low12]
  split <;> rfl

theorem read_eq :
    read address m =
      Trap.guard (Memory.addressFault? m.strict address) m[Address.ofWord address] := by
  rw [read, resolve_eq]
  cases Memory.addressFault? m.strict address with
  | some f => rfl
  | none => exact item_val m.bytes (Address.ofWord address)

theorem write_eq (byte : UInt8) :
    write address byte m =
      Trap.guard (Memory.addressFault? m.strict address) (m.put address byte) := by
  rw [write, resolve_eq]
  cases Memory.addressFault? m.strict address with
  | some f => rfl
  | none =>
      change (replace m.bytes (Address.ofWord address).val byte >>= _) = _
      rw [replace_val]
      rfl

theorem readWord_eq :
    readWord address m = Trap.guard (Memory.spanFault? m.strict address 2)
      (Word.ofBytes m[Address.ofWord address] m[Address.ofWord (address + 1)]) := by
  simp only [readWord, read_eq, Memory.spanFault?, Option.or_none]
  cases Memory.addressFault? m.strict address with
  | some f => rfl
  | none => cases Memory.addressFault? m.strict (address + 1) <;> rfl

theorem checkSpan_eq (length : UInt16) :
    checkSpan address length m =
      Trap.guard (Memory.spanFault? m.strict address length.toNat) () := by
  have haddress := address.toNat_lt
  have hlength := length.toNat_lt
  have hsize : UInt32.size = 4294967296 := rfl
  rw [checkSpan, Memory.spanFault?_eq]
  by_cases hfree : m.strict = false ∨ length = 0
  · have hfits : ¬ (m.strict = true ∧ 0 < length.toNat ∧
        0xFFF < address.toNat + length.toNat - 1) := by
      rintro ⟨hs, hpos, -⟩
      rcases hfree with hloose | hzero
      · rw [hloose] at hs
        contradiction
      · rw [hzero] at hpos
        contradiction
    rw [if_pos hfree, if_neg hfits]
    rfl
  · rw [not_or, Bool.not_eq_false] at hfree
    have hpos : 0 < length.toNat := Nat.pos_of_ne_zero fun h => hfree.2 (UInt16.toNat_inj.mp h)
    rw [if_neg (by simp [hfree]), fit_of_lt (by omega)]
    change (less (address.toNat + length.toNat) 1 >>= _) = _
    rw [less_of_le (by omega)]
    by_cases hbad : 0xFFF < address.toNat + length.toNat - 1
    · have hfirst : UInt16.ofNat (max address.toNat 0x1000) =
          if 0xFFF < address.toNat then address else 0x1000 := by
        split
        · rw [Nat.max_eq_left (by omega), UInt16.ofNat_toNat]
        · rw [Nat.max_eq_right (by omega)]
          rfl
      rw [if_pos ⟨hfree.1, hpos, hbad⟩, ← hfirst]
      exact if_pos hbad
    · rw [if_neg fun h => hbad h.2.2]
      exact if_neg hbad

/-- The rows in the buffer, up to the last one that is filled. -/
theorem fillRows_eq (row count : Nat) (rows : Vector UInt8 15) (h : row + count ≤ 15) :
    ∃ out : Vector UInt8 15,
      fillRows address m row count rows =
        Trap.guard (Memory.spanFault? m.strict (address + UInt16.ofNat row) count) out ∧
      out.toList.take (row + count) =
        rows.toList.take row ++ m.bytesAt (address + UInt16.ofNat row) count := by
  -- The rows below `row` are there already, so what is filled grows at its end.
  induction count generalizing row rows with
  | zero => exact ⟨rows, rfl, by simp [Memory.bytesAt]⟩
  | succ count ih =>
      have hnext : address + UInt16.ofNat row + 1 = address + UInt16.ofNat (row + 1) := by
        apply UInt16.toNat_inj.mp
        have : (1 : UInt16).toNat = 1 := rfl
        simp only [UInt16.toNat_add, UInt16.toNat_ofNat']
        omega
      let i : Fin 15 := ⟨row, by omega⟩
      let byte := m[Address.ofWord (address + UInt16.ofNat row)]
      obtain ⟨out, hout, hrows⟩ := ih (row + 1) (rows.set i byte) (by omega)
      refine ⟨out, ?_, ?_⟩
      · rw [fillRows, read_eq, Memory.spanFault?, hnext]
        cases Memory.addressFault? m.strict (address + UInt16.ofNat row) with
        | some f => rfl
        | none =>
            change (replace rows i.val byte >>= _) = _
            rw [replace_val, Option.none_or]
            exact hout
      · have hset : (rows.set i byte).toList.take (row + 1) = rows.toList.take row ++ [byte] := by
          have hlength : i.val < (rows.set i byte).toList.length := by
            rw [Vector.length_toList]
            exact i.isLt
          rw [List.take_succ_eq_append_getElem hlength]
          simp only [Vector.toList_set, List.getElem_set_self,
            List.take_set_of_le (Nat.le_refl row), i]
        have hsum : row + (count + 1) = row + 1 + count := by omega
        rw [hsum, hrows, hset, Memory.bytesAt, hnext, List.append_assoc]
        rfl

theorem readRows_eq (height : UInt8) (h : height.toNat ≤ 15) :
    readRows address height m =
      Trap.guard (Memory.spanFault? m.strict address height.toNat)
        (m.bytesAt address height.toNat) := by
  obtain ⟨out, hout, hrows⟩ :=
    fillRows_eq address m 0 height.toNat (Vector.replicate 15 0) (by omega)
  have hzero : address + UInt16.ofNat 0 = address := by simp
  rw [hzero] at hout hrows
  rw [readRows, Nat.min_eq_left h, hout]
  cases Memory.spanFault? m.strict address height.toNat with
  | some f => rfl
  | none =>
      change slice out height.toNat = _
      rw [slice, if_pos h]
      rw [Nat.zero_add] at hrows
      rw [hrows]
      rfl

end Memory

section Sprites

theorem and_mask (n i : Nat) : n &&& 1 <<< i = (n.testBit i).toNat <<< i := by
  apply Nat.eq_of_testBit_eq
  intro j
  simp only [Nat.testBit_and, Nat.testBit_shiftLeft]
  rcases Nat.lt_or_ge j i with hlt | hle
  · simp [Nat.not_le.mpr hlt]
  · rcases Nat.eq_or_lt_of_le hle with rfl | hlt
    · cases n.testBit i <;> simp
    · have hone : Nat.testBit 1 (j - i) = false := by
        rw [Bool.eq_false_iff, ne_eq, Nat.testBit_one_eq_true_iff_self_eq_zero]
        omega
      cases n.testBit i <;> simp [hone]

theorem bit_eq (row : UInt8) {column : Nat} (h : column < 8) :
    bit row column = .ok (row.toNat.testBit (7 - column)) := by
  have hmask : ∀ k : Fin 8, ((0x80 : UInt8) >>> UInt8.ofNat k.val).toNat = 1 <<< (7 - k.val) := by
    decide
  have hand : (row &&& (0x80 >>> UInt8.ofNat column)).toNat =
      (row.toNat.testBit (7 - column)).toNat <<< (7 - column) := by
    rw [UInt8.toNat_and, hmask ⟨column, h⟩, and_mask]
  have hbit : (row &&& (0x80 >>> UInt8.ofNat column) != 0) = row.toNat.testBit (7 - column) := by
    cases hset : row.toNat.testBit (7 - column) with
    | false =>
        rw [hset, Bool.toNat_false, Nat.zero_shiftLeft] at hand
        rw [UInt8.toNat_inj.mp (hand.trans UInt8.toNat_zero.symm)]
        rfl
    | true =>
        rw [hset, Bool.toNat_true, Nat.one_shiftLeft] at hand
        rw [bne_iff_ne]
        intro hzero
        rw [hzero, UInt8.toNat_zero] at hand
        exact absurd hand (Nat.ne_of_lt (Nat.two_pow_pos _))
  rw [bit, fit_of_lt h, ← hbit]
  rfl

/-- Sprite coordinates and pixel indices are small. -/
theorem target_eq (mode : SpriteMode) (x y : UInt8) {down across : Nat} (hdown : down < 15)
    (hacross : across < 8) :
    target mode x y down across = .ok (mode.target (x.toNat + across) (y.toNat + down)) := by
  have hx := x.toNat_lt
  have hy := y.toNat_lt
  have hsize : 4294967296 ≤ USize.size := USize.le_size
  cases mode with
  | linear =>
      simp only [target, Framebuffer.width]
      rw [fit_of_lt (by omega), fit_of_lt (by omega)]
      change (fit USize.size ((y.toNat + down) * 64) >>= _) = _
      rw [fit_of_lt (by omega)]
      exact fit_of_lt (by omega)
  | wrap =>
      simp only [target, Framebuffer.width, Framebuffer.height]
      rw [fit_of_lt (by omega), fit_of_lt (by omega)]
      change (fit USize.size ((y.toNat + down) % 32 * 64) >>= _) = _
      rw [fit_of_lt (by omega)]
      exact fit_of_lt (by omega)

theorem rowTargets_eq (mode : SpriteMode) (x y row : UInt8) {down : Nat} (hdown : down < 15)
    {columns : List Nat} (hcolumns : ∀ across ∈ columns, across < 8) :
    rowTargets mode x y row down columns =
      .ok ((columns.filter fun across => row.toNat.testBit (7 - across)).map fun across =>
        mode.target (x.toNat + across) (y.toNat + down)) := by
  induction columns with
  | nil => rfl
  | cons across rest ih =>
      have hfirst := hcolumns across List.mem_cons_self
      have hrest := ih fun column hcolumn => hcolumns column (List.mem_cons_of_mem _ hcolumn)
      rw [rowTargets, bit_eq row hfirst, target_eq mode x y hdown hfirst, hrest]
      rw [List.filter_cons]
      cases row.toNat.testBit (7 - across) <;> rfl

theorem targets_eq (mode : SpriteMode) (x y : UInt8) {rows : List (UInt8 × Nat)}
    (hrows : ∀ row ∈ rows, row.2 < 15) :
    targets mode x y rows =
      .ok (rows.flatMap fun (row, down) =>
        (Framebuffer.litColumns row).map fun across =>
          mode.target (x.toNat + across) (y.toNat + down)) := by
  induction rows with
  | nil => rfl
  | cons row rest ih =>
      have hfirst := hrows row List.mem_cons_self
      have hrest := ih fun r hr => hrows r (List.mem_cons_of_mem _ hr)
      rw [targets, rowTargets_eq mode x y row.1 hfirst fun across => List.mem_range.mp, hrest]
      rfl

theorem targets_zipIdx (mode : SpriteMode) (x y : UInt8) {rows : List UInt8}
    (h : rows.length ≤ 15) :
    targets mode x y rows.zipIdx = .ok (Framebuffer.targets mode x y rows) := by
  refine targets_eq mode x y fun row hrow => ?_
  have hdown := List.snd_lt_of_mem_zipIdx hrow
  omega

theorem drawSprite_eq (strict : Bool) (mode : SpriteMode) (x y : UInt8) {rows : List UInt8}
    (fb : Framebuffer) (h : rows.length ≤ 15) :
    drawSprite strict mode x y rows fb =
      Trap.guard (Framebuffer.drawFault? strict (Framebuffer.targets mode x y rows))
        (fb.hits (Framebuffer.targets mode x y rows),
          fb.flipped (Framebuffer.targets mode x y rows)) := by
  rw [drawSprite, targets_zipIdx mode x y h, ok_bind]
  cases strict with
  | false => rfl
  | true =>
      simp only [Framebuffer.drawFault?, if_true]
      cases (Framebuffer.targets mode x y rows).find? (Framebuffer.size ≤ ·) <;> rfl

end Sprites

section Registers

variable (x y : Reg) (byte : UInt8) (v : Registers)

theorem toNat_reg : (UInt8.ofNat x.val).toNat = x.val := by
  rw [UInt8.toNat_ofNat']
  omega

@[simp] theorem reg_ofNat : reg (UInt8.ofNat x.val) v = .ok v[x] := by
  rw [reg, toNat_reg, item_val]
  rfl

@[simp] theorem setReg_ofNat : setReg (UInt8.ofNat x.val) byte v = .ok (v.set x byte) := by
  rw [setReg, toNat_reg, replace_val]
  rfl

@[simp] theorem setFlag_eq (flag : Bool) : setFlag flag v = .ok (v.setFlag flag) :=
  setReg_ofNat Reg.flag _ v

theorem operation?_ofNat (n : Fin 16) :
    operation? (UInt8.ofNat n.val) = Arithmetic.ofNibble? n := by
  have hn : (UInt8.ofNat n.val).toNat = n.val := toNat_reg n
  have hlt : (UInt8.ofNat n.val).toNat < 16 := by omega
  rw [operation?, dif_pos hlt]
  congr 1
  exact Fin.ext hn

theorem arith_eq (op : Arithmetic) (mode : ShiftMode) :
    arith op mode (UInt8.ofNat x.val) (UInt8.ofNat y.val) v = .ok (op.apply mode x y v) := by
  have hright : mode.rightSource (UInt8.ofNat x.val) (UInt8.ofNat y.val) =
      UInt8.ofNat (mode.rightSource x y).val := by
    cases mode <;> rfl
  have hleft : mode.leftSource (UInt8.ofNat x.val) (UInt8.ofNat y.val) =
      UInt8.ofNat (mode.leftSource x y).val := by
    cases mode <;> rfl
  have hsum : fit UInt16.size (v[x].toNat + v[y].toNat) = .ok (v[x].toNat + v[y].toNat) := by
    have hx := v[x].toNat_lt
    have hy := v[y].toNat_lt
    have hsize : UInt16.size = 65536 := rfl
    exact fit_of_lt (by omega)
  cases op <;>
    simp only [arith, hright, hleft, hsum, reg_ofNat, setReg_ofNat, setFlag_eq, ok_bind,
      Arithmetic.apply]

end Registers

end Chip8.Checked
