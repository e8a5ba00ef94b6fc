import Chip8.Memory

namespace Chip8

variable {σ τ α : Type}

/-- The result `a`, unless there is a fault. -/
def Fault.guard (fault? : Option Fault) (a : α) : Except Fault α :=
  match fault? with
  | some fault => .error fault
  | none => .ok a

/-- The result `a` and the state `after`, unless there is a fault, which leaves
the state `before`. -/
def Fault.settle (fault? : Option Fault) (before : σ) (a : α) (after : σ) :
    EStateM.Result Fault σ α :=
  match fault? with
  | some fault => .error fault before
  | none => .ok a after

theorem Fault.guard_eq_ok_iff {fault? : Option Fault} {a b : α} :
    guard fault? a = .ok b ↔ fault? = none ∧ a = b := by
  cases fault? with
  | some fault => simp [guard]
  | none => simp [guard]

theorem Fault.guard_eq_error_iff {fault? : Option Fault} {a : α} {fault : Fault} :
    guard fault? a = .error fault ↔ fault? = some fault := by
  cases fault? with
  | some other => simp [guard]
  | none => simp [guard]

theorem Fault.of_settle_eq_ok {fault? : Option Fault} {before after s : σ} {a b : α}
    (h : settle fault? before a after = .ok b s) : fault? = none ∧ a = b ∧ after = s := by
  cases fault? with
  | some fault => contradiction
  | none =>
      cases h
      exact ⟨rfl, rfl, rfl⟩

theorem Fault.exists_settle_eq_ok_iff {fault? : Option Fault} {before after : σ} {a : α} :
    (∃ s, settle fault? before a after = .ok a s) ↔ fault? = none := by
  cases fault? with
  | some fault => simp [settle]
  | none => simp [settle]

theorem Fault.settle_eq_error_iff {fault? : Option Fault} {before after s : σ} {a : α}
    {fault : Fault} :
    settle fault? before a after = .error fault s ↔ fault? = some fault ∧ s = before := by
  cases fault? with
  | some f => simp [settle, eq_comm]
  | none => simp [settle]

namespace Action

@[simp] theorem run_ofExcept_guard (fault? : Option Fault) (a : α) (s : σ) :
    (ofExcept (Fault.guard fault? a)).run s = Fault.settle fault? s a s := by
  cases fault? <;> rfl

theorem run_on {part : σ → τ} {replace : τ → σ → σ} {act : Action τ α} {s : σ}
    {fault? : Option Fault} {a : α} {after : τ}
    (h : act.run (part s) = Fault.settle fault? (part s) a after)
    (hsame : replace (part s) s = s) :
    (act.on part replace).run s = Fault.settle fault? s a (replace after s) := by
  simp only [on, EStateM.run] at h ⊢
  rw [h]
  cases fault? with
  | some fault => simp only [Fault.settle, hsame]
  | none => rfl

end Action

namespace Memory

/-- The fault of an address that strict memory refuses. -/
def addressFault? (strict : Bool) (address : UInt16) : Option Fault :=
  if strict ∧ 0xFFF < address.toNat then some (.addressOutOfRange address) else none

/-- The fault of the first of `length` successive addresses that is refused. -/
def spanFault? (strict : Bool) (address : UInt16) : Nat → Option Fault
  | 0 => none
  | length + 1 => (addressFault? strict address).or (spanFault? strict (address + 1) length)

def bytesAt (address : UInt16) (length : Nat) (m : Memory) : List UInt8 :=
  match length with
  | 0 => []
  | length + 1 => m[Address.ofWord address] :: m.bytesAt (address + 1) length

theorem length_bytesAt (address : UInt16) (length : Nat) (m : Memory) :
    (m.bytesAt address length).length = length := by
  induction length generalizing address with
  | zero => rfl
  | succ length ih => rw [bytesAt, List.length_cons, ih]

/-- The cell of an address some way further on: addresses and memory both go round. -/
theorem val_ofWord_add (address : UInt16) (k : Nat) :
    (Address.ofWord (address + UInt16.ofNat k)).val = (address.toNat + k) % 4096 := by
  change (address + UInt16.ofNat k).toNat % 4096 = (address.toNat + k) % 4096
  rw [UInt16.toNat_add, UInt16.toNat_ofNat']
  omega

@[simp] theorem strict_put (address : UInt16) (byte : UInt8) (m : Memory) :
    (m.put address byte).strict = m.strict := rfl

@[simp] theorem strict_store (address : UInt16) (bytes : List UInt8) (m : Memory) :
    (m.store address bytes).strict = m.strict := by
  induction bytes generalizing address m with
  | nil => rfl
  | cons byte rest ih => simp only [store, ih, strict_put]

theorem getElem_put (address : UInt16) (byte : UInt8) (m : Memory) (a : Address) :
    (m.put address byte)[a] = if Address.ofWord address = a then byte else m[a] := by
  change (m.bytes.set (Address.ofWord address) byte)[a.val] =
    if Address.ofWord address = a then byte else m.bytes[a.val]
  rw [Vector.getElem_set]
  simp only [Fin.ext_iff]

theorem put_getElem (address : UInt16) (m : Memory) :
    m.put address m[Address.ofWord address] = m := by
  cases m with
  | mk bytes strict =>
      have hsame : bytes.set (Address.ofWord address) bytes[Address.ofWord address] = bytes :=
        Vector.set_getElem_self _
      simp only [put]
      exact congrArg (Memory.mk · strict) hsame

/-- To store what is there already changes nothing. -/
theorem store_bytesAt (address : UInt16) (length : Nat) (m : Memory) :
    m.store address (m.bytesAt address length) = m := by
  induction length generalizing address with
  | zero => rfl
  | succ length ih => rw [bytesAt, store, put_getElem, ih]

/-- How far an address lies behind another one, going round the end of memory. -/
def offset (address : UInt16) (a : Address) : Nat :=
  (a.val + 4096 - address.toNat % 4096) % 4096

theorem offset_eq_iff {address : UInt16} {a : Address} {k : Nat} (hk : k < 4096) :
    offset address a = k ↔ a.val = (address.toNat + k) % 4096 := by
  have ha := a.isLt
  rw [offset]
  omega

/-- The bytes of a store lie at successive addresses, and nothing else changes. -/
theorem getElem_store (address : UInt16) (bytes : List UInt8) (m : Memory) (a : Address)
    (h : bytes.length ≤ 4096) :
    (m.store address bytes)[a] = bytes.getD (offset address a) m[a] := by
  induction bytes generalizing address m with
  | nil => rfl
  | cons byte rest ih =>
      rw [List.length_cons] at h
      have hnext : (address + 1).toNat % 4096 = (address.toNat + 1) % 4096 := by
        rw [UInt16.toNat_add]
        have : (1 : UInt16).toNat = 1 := rfl
        omega
      have ha := a.isLt
      rw [store, ih _ _ (by omega), getElem_put]
      by_cases hfirst : Address.ofWord address = a
      · -- The later bytes end before memory has been gone round.
        have hval : address.toNat % 4096 = a.val := congrArg Fin.val hfirst
        have hzero : offset address a = 0 := by
          rw [offset, hval]
          omega
        have hlast : rest.length ≤ offset (address + 1) a := by
          rw [offset, hnext]
          omega
        rw [if_pos hfirst, hzero, List.getD_cons_zero, List.getD_eq_getElem?_getD,
          List.getElem?_eq_none hlast, Option.getD_none]
      · have hval : address.toNat % 4096 ≠ a.val := fun h => hfirst (Fin.ext h)
        have hsucc : offset address a = offset (address + 1) a + 1 := by
          rw [offset, offset, hnext]
          omega
        rw [if_neg hfirst, hsucc, List.getD_cons_succ]

theorem getElem_store_of_lt {address : UInt16} {bytes : List UInt8} {k : Nat} {byte : UInt8}
    (m : Memory) {a : Address} (h : bytes.length ≤ 4096) (hbyte : bytes[k]? = some byte)
    (ha : a.val = (address.toNat + k) % 4096) : (m.store address bytes)[a] = byte := by
  obtain ⟨hk, -⟩ := List.getElem?_eq_some_iff.mp hbyte
  have hoffset : offset address a = k := (offset_eq_iff (Nat.lt_of_lt_of_le hk h)).mpr ha
  rw [getElem_store address bytes m a h, hoffset, List.getD_eq_getElem?_getD, hbyte,
    Option.getD_some]

theorem getElem_store_of_ne {address : UInt16} {bytes : List UInt8} (m : Memory) {a : Address}
    (h : bytes.length ≤ 4096) (ha : ∀ k < bytes.length, a.val ≠ (address.toNat + k) % 4096) :
    (m.store address bytes)[a] = m[a] := by
  have hbehind : bytes.length ≤ offset address a := by
    apply Nat.le_of_not_lt
    intro hlt
    have hk : offset address a < 4096 := Nat.mod_lt _ (by decide)
    exact ha _ hlt ((offset_eq_iff hk).mp rfl)
  rw [getElem_store address bytes m a h, List.getD_eq_getElem?_getD,
    List.getElem?_eq_none hbehind, Option.getD_none]

/-- What has been stored is read back. -/
theorem bytesAt_store (address : UInt16) (bytes : List UInt8) (m : Memory)
    (h : bytes.length ≤ 4096) : (m.store address bytes).bytesAt address bytes.length = bytes := by
  induction bytes generalizing address m with
  | nil => rfl
  | cons byte rest ih =>
      have hfirst : (m.store address (byte :: rest))[Address.ofWord address] = byte :=
        getElem_store_of_lt m h List.getElem?_cons_zero rfl
      rw [List.length_cons] at h ⊢
      rw [bytesAt, hfirst, store, ih _ _ (by omega)]

@[simp] theorem addressFault?_loose (address : UInt16) :
    addressFault? false address = none := by
  simp [addressFault?]

@[simp] theorem spanFault?_loose (address : UInt16) (length : Nat) :
    spanFault? false address length = none := by
  induction length generalizing address with
  | zero => rfl
  | succ length ih => simp only [spanFault?, addressFault?_loose, ih, Option.or_none]

theorem resolve_eq_guard (address : UInt16) (m : Memory) :
    m.resolve address = Fault.guard (addressFault? m.strict address) (Address.ofWord address) := by
  unfold resolve addressFault?
  split <;> rfl

theorem read_eq_guard (address : UInt16) (m : Memory) :
    m.read address =
      Fault.guard (addressFault? m.strict address) m[Address.ofWord address] := by
  unfold read
  rw [resolve_eq_guard]
  cases addressFault? m.strict address <;> rfl

theorem run_write (address : UInt16) (byte : UInt8) (m : Memory) :
    (write address byte).run m =
      Fault.settle (addressFault? m.strict address) m () (m.put address byte) := by
  simp only [write, resolve_eq_guard, EStateM.run_bind, EStateM.run_get,
    Action.run_ofExcept_guard]
  cases addressFault? m.strict address <;> rfl

theorem readBytes_eq_guard (address : UInt16) (length : Nat) (m : Memory) :
    m.readBytes address length =
      Fault.guard (spanFault? m.strict address length) (m.bytesAt address length) := by
  induction length generalizing address with
  | zero => rfl
  | succ length ih =>
      simp only [readBytes, read_eq_guard, ih, spanFault?, bytesAt]
      cases addressFault? m.strict address with
      | some fault => rfl
      | none => cases spanFault? m.strict (address + 1) length <;> rfl

theorem readWord_eq_guard (address : UInt16) (m : Memory) :
    m.readWord address = Fault.guard (spanFault? m.strict address 2)
      (Word.ofBytes m[Address.ofWord address] m[Address.ofWord (address + 1)]) := by
  simp only [readWord, read_eq_guard, spanFault?, Option.or_none]
  cases addressFault? m.strict address with
  | some fault => rfl
  | none => cases addressFault? m.strict (address + 1) <;> rfl

/-- The first refused address is the start of a span or the first one past the
end of memory. -/
theorem spanFault?_eq (strict : Bool) (address : UInt16) (length : Nat) :
    spanFault? strict address length =
      if strict = true ∧ 0 < length ∧ 0xFFF < address.toNat + length - 1 then
        some (.addressOutOfRange (if 0xFFF < address.toNat then address else 0x1000))
      else none := by
  induction length generalizing address with
  | zero => simp [spanFault?]
  | succ length ih =>
      have hlt := address.toNat_lt
      rw [spanFault?, addressFault?]
      by_cases hbad : strict = true ∧ 0xFFF < address.toNat
      · -- The first address is refused, so no later one is looked at.
        have hspan : strict = true ∧ 0 < length + 1 ∧
            0xFFF < address.toNat + (length + 1) - 1 := ⟨hbad.1, by omega, by omega⟩
        rw [if_pos hbad, if_pos hspan, if_pos hbad.2, Option.some_or]
      · rw [if_neg hbad, Option.none_or, ih]
        by_cases hs : strict = true
        · have hle : address.toNat ≤ 0xFFF := by
            have : ¬ 0xFFF < address.toNat := fun h => hbad ⟨hs, h⟩
            omega
          have hnext : (address + 1).toNat = address.toNat + 1 := by
            rw [UInt16.toNat_add]
            have : (1 : UInt16).toNat = 1 := rfl
            omega
          have hfirst : (if 0xFFF < (address + 1).toNat then address + 1 else 0x1000) =
              (if 0xFFF < address.toNat then address else 0x1000) := by
            rw [if_neg (by omega : ¬ 0xFFF < address.toNat)]
            split
            · apply UInt16.toNat_inj.mp
              have : (0x1000 : UInt16).toNat = 0x1000 := rfl
              omega
            · rfl
          have hiff : (strict = true ∧ 0 < length ∧ 0xFFF < (address + 1).toNat + length - 1) ↔
              (strict = true ∧ 0 < length + 1 ∧ 0xFFF < address.toNat + (length + 1) - 1) := by
            simp only [hs, true_and, hnext]
            omega
          simp only [hfirst, hiff]
        · simp only [hs, false_and, if_false, Bool.false_eq_true]

/-- The check of a span in advance agrees with reading or writing its bytes one
after the other, down to the fault. -/
theorem checkSpan_eq_guard (address : UInt16) (length : Nat) (m : Memory) :
    m.checkSpan address length = Fault.guard (spanFault? m.strict address length) () := by
  rw [checkSpan, spanFault?_eq]
  split <;> rfl

end Memory

end Chip8
