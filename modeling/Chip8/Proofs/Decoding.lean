import Chip8.Instruction

namespace Chip8

/-- A word of one of the four families that look at more than the high nibble,
with nothing behind it that stands for an operation. -/
def Word.unmatched (w : Word) : Bool :=
  match Family.ofWord w with
  | .sys => w.nnn.val ∉ [0x0E0, 0x0EE]
  | .alu => w.n.val ∈ [0x8, 0x9, 0xA, 0xB, 0xC, 0xD, 0xF]
  | .keySkip => w.kk ∉ [0x9E, 0xA1]
  | .misc => w.kk ∉ [0x07, 0x0A, 0x15, 0x18, 0x1E, 0x29, 0x33, 0x55, 0x65]
  | _ => false

theorem Family.ofWord_eq_iff (w : Word) (f : Family) : ofWord w = f ↔ w.top = f.nibble := by
  constructor
  · rintro rfl
    exact (nibble_ofNibble w.top).symm
  · intro h
    rw [ofWord, h, ofNibble_nibble]

theorem Arithmetic.ofNibble?_eq_none_iff (n : Fin 16) :
    ofNibble? n = none ↔ n.val ∈ [0x8, 0x9, 0xA, 0xB, 0xC, 0xD, 0xF] := by
  revert n
  decide

namespace Instruction

theorem decode_eq_unknown_iff (w v : Word) :
    decode w = .unknown v ↔ w.unmatched = true ∧ w = v := by
  cases hf : Family.ofWord w with
  | alu =>
      simp only [decode, Word.unmatched, hf, ← Arithmetic.ofNibble?_eq_none_iff]
      cases Arithmetic.ofNibble? w.n <;> simp
  | sys | keySkip | misc =>
      simp only [decode, Word.unmatched, hf]
      repeat' split
      all_goals simp [*]
  | _ => simp [decode, Word.unmatched, hf]

/-- The family of the words that an instruction is decoded from. -/
def family : Instruction → Family
  | clearScreen | ret => .sys
  | jump _ => .jump
  | call _ => .call
  | skip (.eqImm _ _) => .skipEqImm
  | skip (.neImm _ _) => .skipNeImm
  | skip (.eqReg _ _) => .skipEqReg
  | skip (.neReg _ _) => .skipNeReg
  | skip (.keyHeld _) | skip (.keyFree _) => .keySkip
  | loadImm _ _ => .loadImm
  | addImm _ _ => .addImm
  | arith _ _ _ => .alu
  | loadIndex _ => .loadIndex
  | jumpOffset _ => .jumpOffset
  | random _ _ => .random
  | draw _ _ _ => .draw
  | readDelay _ | waitKey _ | setDelay _ | setSound _ | addIndex _ | loadGlyph _
  | storeDecimal _ | storeRegisters _ | loadRegisters _ => .misc
  | unknown w => .ofWord w

theorem family_decode (w : Word) : (decode w).family = Family.ofWord w := by
  cases hf : Family.ofWord w with
  | sys | keySkip =>
      rw [decode, hf]
      dsimp only
      iterate 2
        refine iteInduction (motive := fun (i : Instruction) => i.family = _) (fun _ => rfl)
          fun _ => ?_
      exact hf
  | alu =>
      rw [decode, hf]
      dsimp only
      cases Arithmetic.ofNibble? w.n with
      | some op => rfl
      | none => exact hf
  | misc =>
      rw [decode, hf]
      dsimp only
      iterate 9
        refine iteInduction (motive := fun (i : Instruction) => i.family = _) (fun _ => rfl)
          fun _ => ?_
      exact hf
  | _ =>
      rw [decode, hf]
      rfl

theorem ofWord_of_decode {w : Word} {i : Instruction} (h : decode w = i) :
    Family.ofWord w = i.family := by
  rw [← h, family_decode]

theorem top_of_decode {w : Word} {i : Instruction} (h : decode w = i) :
    w.top = i.family.nibble :=
  (Family.ofWord_eq_iff _ _).mp (ofWord_of_decode h)

/-- The instruction of a word of a family that looks no further than the high nibble. -/
def ofFamily? (f : Family) (w : Word) : Option Instruction :=
  match f with
  | .jump => some (jump w.nnn)
  | .call => some (call w.nnn)
  | .skipEqImm => some (skip (.eqImm w.x w.kk))
  | .skipNeImm => some (skip (.neImm w.x w.kk))
  | .skipEqReg => some (skip (.eqReg w.x w.y))
  | .loadImm => some (loadImm w.x w.kk)
  | .addImm => some (addImm w.x w.kk)
  | .skipNeReg => some (skip (.neReg w.x w.y))
  | .loadIndex => some (loadIndex w.nnn)
  | .jumpOffset => some (jumpOffset w.nnn)
  | .random => some (random w.x w.kk)
  | .draw => some (draw w.x w.y w.n)
  | .sys | .alu | .keySkip | .misc => none

theorem decode_of_ofFamily? {w : Word} {j : Instruction}
    (h : ofFamily? (Family.ofWord w) w = some j) : decode w = j := by
  cases hf : Family.ofWord w with
  | sys | alu | keySkip | misc =>
      rw [hf] at h
      contradiction
  | _ =>
      rw [hf] at h
      rw [decode, hf]
      exact Option.some.inj h

theorem decode_eq_iff_of_family {i j : Instruction} {w : Word}
    (h : ofFamily? i.family w = some j) :
    decode w = i ↔ w.top = i.family.nibble ∧ j = i := by
  rw [← Family.ofWord_eq_iff]
  constructor
  · intro hi
    have hf : Family.ofWord w = i.family := ofWord_of_decode hi
    rw [← hf] at h
    exact ⟨hf, (decode_of_ofFamily? h).symm.trans hi⟩
  · rintro ⟨hf, rfl⟩
    rw [← hf] at h
    exact decode_of_ofFamily? h

theorem decode_eq_call_iff (w : Word) (target : Address) :
    decode w = .call target ↔ w.top = Family.call.nibble ∧ w.nnn = target := by
  rw [decode_eq_iff_of_family rfl, call.injEq]
  rfl

theorem decode_eq_draw_iff (w : Word) (x y : Reg) (height : Fin 16) :
    decode w = .draw x y height ↔
      w.top = Family.draw.nibble ∧ w.x = x ∧ w.y = y ∧ w.n = height := by
  rw [decode_eq_iff_of_family rfl, draw.injEq]
  rfl

theorem decode_eq_arith_iff (w : Word) (op : Arithmetic) (x y : Reg) :
    decode w = .arith op x y ↔
      w.top = Family.alu.nibble ∧ Arithmetic.ofNibble? w.n = some op ∧ w.x = x ∧ w.y = y := by
  rw [← Family.ofWord_eq_iff]
  constructor
  · intro h
    have hf : Family.ofWord w = .alu := ofWord_of_decode h
    rw [decode, hf] at h
    dsimp only at h
    cases hop : Arithmetic.ofNibble? w.n with
    | none =>
        rw [hop] at h
        contradiction
    | some op' =>
        rw [hop] at h
        obtain ⟨rfl, hx, hy⟩ := arith.inj h
        exact ⟨hf, rfl, hx, hy⟩
  · rintro ⟨hf, hop, rfl, rfl⟩
    rw [decode, hf]
    dsimp only
    rw [hop]

theorem decode_of_sys {w : Word} (hf : Family.ofWord w = .sys) :
    (w = 0x00E0 ∧ decode w = .clearScreen) ∨ (w = 0x00EE ∧ decode w = .ret) ∨
      decode w = .unknown w := by
  have htop : w.toNat / 4096 = 0 := congrArg Fin.val ((Family.ofWord_eq_iff _ _).mp hf)
  have hword : ∀ k : Word, k.toNat < 4096 → w.toNat % 4096 = k.toNat → w = k := by
    intro k hk hnnn
    apply UInt16.toNat_inj.mp
    omega
  rw [decode, hf]
  dsimp only
  by_cases hclear : w.nnn.val = 0x0E0
  · rw [if_pos hclear]
    exact .inl ⟨hword 0x00E0 (by decide) hclear, rfl⟩
  · rw [if_neg hclear]
    by_cases hret : w.nnn.val = 0x0EE
    · rw [if_pos hret]
      exact .inr (.inl ⟨hword 0x00EE (by decide) hret, rfl⟩)
    · rw [if_neg hret]
      exact .inr (.inr rfl)

theorem decode_eq_clearScreen_iff (w : Word) : decode w = .clearScreen ↔ w = 0x00E0 := by
  constructor
  · intro h
    rcases decode_of_sys (ofWord_of_decode h) with ⟨hw, -⟩ | ⟨-, hi⟩ | hi
    · exact hw
    · rw [h] at hi
      contradiction
    · rw [h] at hi
      contradiction
  · rintro rfl
    decide

theorem decode_eq_ret_iff (w : Word) : decode w = .ret ↔ w = 0x00EE := by
  constructor
  · intro h
    rcases decode_of_sys (ofWord_of_decode h) with ⟨-, hi⟩ | ⟨hw, -⟩ | hi
    · rw [h] at hi
      contradiction
    · exact hw
    · rw [h] at hi
      contradiction
  · rintro rfl
    decide

theorem decode_eq_keyHeld_iff (w : Word) (x : Reg) :
    decode w = .skip (.keyHeld x) ↔ w.top = Family.keySkip.nibble ∧ w.kk = 0x9E ∧ w.x = x := by
  rw [← Family.ofWord_eq_iff]
  constructor
  · intro h
    have hf : Family.ofWord w = .keySkip := ofWord_of_decode h
    rw [decode, hf] at h
    dsimp only at h
    split at h
    · rename_i hkk
      exact ⟨hf, hkk, Condition.keyHeld.inj (skip.inj h)⟩
    · split at h <;> cases h
  · rintro ⟨hf, hkk, rfl⟩
    rw [decode, hf]
    exact if_pos hkk

theorem decode_eq_keyFree_iff (w : Word) (x : Reg) :
    decode w = .skip (.keyFree x) ↔ w.top = Family.keySkip.nibble ∧ w.kk = 0xA1 ∧ w.x = x := by
  rw [← Family.ofWord_eq_iff]
  constructor
  · intro h
    have hf : Family.ofWord w = .keySkip := ofWord_of_decode h
    rw [decode, hf] at h
    dsimp only at h
    split at h
    · cases h
    · split at h
      · rename_i hkk
        exact ⟨hf, hkk, Condition.keyFree.inj (skip.inj h)⟩
      · cases h
  · rintro ⟨hf, hkk, rfl⟩
    have hother : w.kk ≠ 0x9E := by
      rw [hkk]
      decide
    rw [decode, hf]
    exact (if_neg hother).trans (if_pos hkk)

/-- The low byte that stands for an instruction with one register, and the register. -/
def miscForm? : Instruction → Option (UInt8 × Reg)
  | readDelay x => some (0x07, x)
  | waitKey x => some (0x0A, x)
  | setDelay x => some (0x15, x)
  | setSound x => some (0x18, x)
  | addIndex x => some (0x1E, x)
  | loadGlyph x => some (0x29, x)
  | storeDecimal x => some (0x33, x)
  | storeRegisters x => some (0x55, x)
  | loadRegisters x => some (0x65, x)
  | _ => none

theorem miscForm?_decode {w : Word} (hf : Family.ofWord w = .misc) :
    (decode w).miscForm? = some (w.kk, w.x) ∨ (decode w).miscForm? = none := by
  let Fits (i : Instruction) : Prop := i.miscForm? = some (w.kk, w.x) ∨ i.miscForm? = none
  rw [decode, hf]
  dsimp only
  iterate 9
    refine iteInduction (motive := Fits) (fun hkk => .inl (by rw [hkk]; rfl)) fun _ => ?_
  exact .inr rfl

theorem decode_eq_iff_of_misc {i : Instruction} {kk : UInt8} {x : Reg}
    (h : i.miscForm? = some (kk, x)) (w : Word) :
    decode w = i ↔ w.top = Family.misc.nibble ∧ w.kk = kk ∧ w.x = x := by
  rw [← Family.ofWord_eq_iff]
  constructor
  · rintro rfl
    have hf : Family.ofWord w = .misc := by
      rw [← family_decode]
      cases hi : decode w with
      | readDelay | waitKey | setDelay | setSound | addIndex | loadGlyph | storeDecimal
      | storeRegisters | loadRegisters => rfl
      | _ =>
          rw [hi] at h
          contradiction
    rcases miscForm?_decode hf with hform | hnone
    · rw [h, Option.some.injEq, Prod.mk.injEq] at hform
      exact ⟨hf, hform.1.symm, hform.2.symm⟩
    · rw [h] at hnone
      contradiction
  · rintro ⟨hf, rfl, rfl⟩
    rw [decode, hf]
    dsimp only
    cases i with
    | readDelay | waitKey | setDelay | setSound | addIndex | loadGlyph | storeDecimal
    | storeRegisters | loadRegisters =>
        obtain ⟨hkk, rfl⟩ := Prod.mk.inj (Option.some.inj h)
        rw [← hkk]
        rfl
    | _ => contradiction

theorem decode_eq_waitKey_iff (w : Word) (x : Reg) :
    decode w = .waitKey x ↔ w.top = Family.misc.nibble ∧ w.kk = 0x0A ∧ w.x = x :=
  decode_eq_iff_of_misc rfl w

theorem unmatched_of_waitKey {w : Word} {x : Reg} (h : decode w = .waitKey x) :
    w.unmatched = false := by
  cases hw : w.unmatched with
  | false => rfl
  | true =>
      rw [(decode_eq_unknown_iff w w).mpr ⟨hw, rfl⟩] at h
      contradiction

end Instruction

end Chip8
