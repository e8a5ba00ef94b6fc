import Chip8.Proofs.Effect

namespace Chip8

namespace Registers

theorem getElem?_upTo (x : Reg) (k : Nat) :
    (upTo x)[k]? = if h : k ≤ x.val then some ⟨k, Nat.lt_of_le_of_lt h x.isLt⟩ else none := by
  rw [upTo, List.getElem?_take]
  by_cases h : k ≤ x.val
  · have hk : k < 16 := Nat.lt_of_le_of_lt h x.isLt
    have hlen : k < (List.finRange 16).length := by rwa [List.length_finRange]
    rw [if_pos (Nat.lt_succ_of_le h), dif_pos h, List.getElem?_eq_getElem hlen,
      List.getElem_finRange]
    rfl
  · rw [if_neg (fun hlt => h (Nat.le_of_lt_succ hlt)), dif_neg h]

theorem length_map_upTo {α : Type} (x : Reg) (f : Reg → α) :
    ((upTo x).map f).length = x.val + 1 := by
  rw [List.length_map, length_upTo]

theorem getElem?_map_upTo {α : Type} {x j : Reg} (h : j ≤ x) (f : Reg → α) :
    ((upTo x).map f)[j.val]? = some (f j) := by
  rw [List.getElem?_map, getElem?_upTo, dif_pos (Fin.le_def.mp h)]
  rfl

/-- What is in the registers after a load of those with the numbers from `k` on. -/
theorem getElem_load {registers : List Reg} {k : Nat}
    (h : ∀ i r, registers[i]? = some r → r.val = k + i) {bytes : List UInt8}
    (hlen : bytes.length ≤ registers.length) (v : Registers) (j : Reg) :
    (v.load registers bytes)[j] = if k ≤ j.val then bytes.getD (j.val - k) v[j] else v[j] := by
  induction registers generalizing k bytes v with
  | nil =>
      obtain rfl : bytes = [] := List.eq_nil_of_length_eq_zero (Nat.le_zero.mp hlen)
      rw [List.getD_nil, ite_self]
      rfl
  | cons x rest ih =>
      cases bytes with
      | nil =>
          rw [List.getD_nil, ite_self]
          rfl
      | cons byte bytes =>
          have hx : x.val = k := h 0 x rfl
          have hrest : ∀ i r, rest[i]? = some r → r.val = k + 1 + i := by
            intro i r hr
            have hnext : r.val = k + (i + 1) := h (i + 1) r hr
            omega
          rw [List.length_cons, List.length_cons, Nat.add_le_add_iff_right] at hlen
          rw [load, ih hrest hlen, getElem_set]
          -- The rest are behind `x`, so nothing that follows touches it again.
          rcases Nat.lt_trichotomy j.val k with hbefore | hhere | hbehind
          · have hne : x ≠ j := Fin.ne_of_val_ne (by omega)
            rw [if_neg (by omega), if_neg hne, if_neg (by omega)]
          · have hsame : x = j := Fin.ext (hx.trans hhere.symm)
            rw [if_neg (by omega), if_pos hsame, if_pos (by omega), hhere, Nat.sub_self,
              List.getD_cons_zero]
          · have hnext : j.val - k = j.val - (k + 1) + 1 := by omega
            have hne : x ≠ j := Fin.ne_of_val_ne (by omega)
            rw [if_pos (by omega), if_neg hne, if_pos (by omega), hnext, List.getD_cons_succ]

theorem getElem_load_upTo {x : Reg} {bytes : List UInt8} (hlen : bytes.length ≤ x.val + 1)
    (v : Registers) (j : Reg) : (v.load (upTo x) bytes)[j] = bytes.getD j.val v[j] := by
  have hnumbers : ∀ i r, (upTo x)[i]? = some r → r.val = 0 + i := by
    intro i r hr
    rw [getElem?_upTo] at hr
    split at hr
    · rw [← Option.some.inj hr, Nat.zero_add]
    · contradiction
  rw [← length_upTo x] at hlen
  rw [getElem_load hnumbers hlen, if_pos (Nat.zero_le _), Nat.sub_zero]

/-- To load what has been taken from registers `0` to `x` puts it back there. -/
theorem getElem_load_map {x j : Reg} (v w : Registers) :
    (v.load (upTo x) ((upTo x).map (w[·])))[j] = if j ≤ x then w[j] else v[j] := by
  have hlen := length_map_upTo x (w[·])
  rw [getElem_load_upTo (Nat.le_of_eq hlen), List.getD_eq_getElem?_getD]
  split
  · rename_i h
    rw [getElem?_map_upTo h, Option.getD_some]
  · rename_i h
    have hbehind : ((upTo x).map (w[·])).length ≤ j.val := by
      rw [hlen]
      exact Nat.lt_of_not_le h
    rw [List.getElem?_eq_none hbehind, Option.getD_none]

/-- What a load puts into the registers is taken from them again. -/
theorem map_load {x : Reg} {bytes : List UInt8} (hlen : bytes.length = x.val + 1)
    (v : Registers) : (upTo x).map ((v.load (upTo x) bytes)[·]) = bytes := by
  apply List.ext_getElem?
  intro k
  rw [List.getElem?_map, getElem?_upTo]
  split
  · rename_i hk
    have hlt : k < bytes.length := by omega
    rw [Option.map_some, getElem_load_upTo (Nat.le_of_eq hlen), List.getD_eq_getElem?_getD,
      List.getElem?_eq_getElem hlt, Option.getD_some]
  · rw [Option.map_none, List.getElem?_eq_none (by omega)]

end Registers

namespace Machine

open Registers

/-- The machine lets a transfer of registers `0` to `x` happen: it does not check
addresses, or the last of them is in memory. -/
def Accepts (m : Machine) (x : Reg) : Prop :=
  m.memory.strict = true → m.index.toNat + x.val ≤ 0xFFF

/-- Registers `0` to `x` have been stored from the index on, and nothing else has changed. -/
structure Stored (m : Machine) (x : Reg) (n : Machine) : Prop where
  rest : n = { m with memory := n.memory, index := n.index }
  index : n.index.toNat = (m.index.toNat + x.val + 1) % 65536
  cells : ∀ j ≤ x, ∀ a : Address, a.val = (m.index.toNat + j.val) % 4096 → n.memory[a] = m.v[j]
  others : ∀ a : Address, (∀ j ≤ x, a.val ≠ (m.index.toNat + j.val) % 4096) →
    n.memory[a] = m.memory[a]
  strict : n.memory.strict = m.memory.strict

/-- Registers `0` to `x` have been loaded from the index on, and nothing else has changed. -/
structure Loaded (m : Machine) (x : Reg) (n : Machine) : Prop where
  rest : n = { m with v := n.v, index := n.index }
  index : n.index.toNat = (m.index.toNat + x.val + 1) % 65536
  registers : ∀ j ≤ x, ∀ a : Address, a.val = (m.index.toNat + j.val) % 4096 →
    n.v[j] = m.memory[a]
  above : ∀ j, x < j → n.v[j] = m.v[j]

variable {m : Machine} {x : Reg}

theorem spanFault?_eq_none_iff_accepts :
    Memory.spanFault? m.memory.strict m.index (x.val + 1) = none ↔ m.Accepts x := by
  rw [Memory.spanFault?_eq, Accepts]
  have hlast : 0 < x.val + 1 ∧ 0xFFF < m.index.toNat + (x.val + 1) - 1 ↔
      0xFFF < m.index.toNat + x.val := by omega
  simp only [ite_eq_right_iff, reduceCtorEq, imp_false, hlast, not_and, Nat.not_lt]

theorem run_storeRegisters (m : Machine) (x : Reg) :
    (storeRegisters x).run m =
      Fault.settle (Memory.spanFault? m.memory.strict m.index (x.val + 1)) m ()
        ((Instruction.storeRegisters x).effect m) :=
  run_execute (.storeRegisters x) m

theorem run_loadRegisters (m : Machine) (x : Reg) :
    (loadRegisters x).run m =
      Fault.settle (Memory.spanFault? m.memory.strict m.index (x.val + 1)) m ()
        ((Instruction.loadRegisters x).effect m) :=
  run_execute (.loadRegisters x) m

theorem toNat_index_add (index : UInt16) (x : Reg) :
    (index + UInt16.ofNat (x.val + 1)).toNat = (index.toNat + x.val + 1) % 65536 := by
  rw [UInt16.toNat_add, UInt16.toNat_ofNat']
  omega

theorem stored_effect (m : Machine) (x : Reg) :
    m.Stored x ((Instruction.storeRegisters x).effect m) where
  rest := rfl
  index := toNat_index_add m.index x
  cells j hj a ha := by
    have hlen : ((upTo x).map (m.v[·])).length ≤ 4096 := by
      rw [length_map_upTo]
      omega
    exact Memory.getElem_store_of_lt m.memory hlen (getElem?_map_upTo hj _) ha
  others a ha := by
    have hlen := length_map_upTo x (m.v[·])
    apply Memory.getElem_store_of_ne m.memory (by omega)
    intro k hk
    rw [hlen] at hk
    exact ha ⟨k, by omega⟩ (Nat.le_of_lt_succ hk)
  strict := Memory.strict_store _ _ _

theorem loaded_effect (m : Machine) (x : Reg) :
    m.Loaded x ((Instruction.loadRegisters x).effect m) where
  rest := rfl
  index := toNat_index_add m.index x
  registers j hj a ha := by
    have hlen := Memory.length_bytesAt m.index (x.val + 1) m.memory
    have hcell : Address.ofWord (m.index + UInt16.ofNat j.val) = a :=
      Fin.ext ((Memory.val_ofWord_add m.index j.val).trans ha.symm)
    change (m.v.load (upTo x) (m.memory.bytesAt m.index (x.val + 1)))[j] = m.memory[a]
    rw [getElem_load_upTo (Nat.le_of_eq hlen), List.getD_eq_getElem?_getD,
      Memory.getElem?_bytesAt, if_pos (Nat.lt_succ_of_le hj), hcell, Option.getD_some]
  above j hj := by
    have hlen := Memory.length_bytesAt m.index (x.val + 1) m.memory
    change (m.v.load (upTo x) (m.memory.bytesAt m.index (x.val + 1)))[j] = m.v[j]
    rw [getElem_load_upTo (Nat.le_of_eq hlen), List.getD_eq_getElem?_getD,
      Memory.getElem?_bytesAt, if_neg (Nat.not_lt.mpr hj), Option.getD_none]

/-- A load that goes back to where a store began finds what was stored. -/
theorem run_load_stored (haccepts : m.Accepts x) (v : Registers) :
    let n := (Instruction.storeRegisters x).effect m
    (loadRegisters x).run { n with index := m.index, v } =
      .ok () { n with v := v.load (upTo x) ((upTo x).map (m.v[·])) } := by
  intro n
  have hlen := length_map_upTo x (m.v[·])
  have hbytes : n.memory.bytesAt m.index (x.val + 1) = (upTo x).map (m.v[·]) := by
    rw [← hlen]
    exact Memory.bytesAt_store m.index _ m.memory (by omega)
  have hstrict : n.memory.strict = m.memory.strict := Memory.strict_store _ _ _
  rw [run_loadRegisters]
  simp only [hstrict, spanFault?_eq_none_iff_accepts.mpr haccepts, Fault.settle,
    Instruction.effect, hbytes]
  rfl

/-- A store that goes back to where a load began puts back what is there. -/
theorem run_store_loaded (haccepts : m.Accepts x) :
    let n := (Instruction.loadRegisters x).effect m
    (storeRegisters x).run { n with index := m.index } = .ok () n := by
  intro n
  have hlen := Memory.length_bytesAt m.index (x.val + 1) m.memory
  have hmemory : m.memory.store m.index ((upTo x).map (n.v[·])) = m.memory := by
    change m.memory.store m.index ((upTo x).map
      ((m.v.load (upTo x) (m.memory.bytesAt m.index (x.val + 1)))[·])) = m.memory
    rw [map_load hlen, Memory.store_bytesAt]
  have hfault : Memory.spanFault? n.memory.strict m.index (x.val + 1) = none :=
    spanFault?_eq_none_iff_accepts.mpr haccepts
  have heffect : (Instruction.storeRegisters x).effect { n with index := m.index } =
      { n with memory := m.memory.store m.index ((upTo x).map (n.v[·])) } := rfl
  rw [run_storeRegisters, heffect, hmemory]
  simp only [hfault, Fault.settle]
  rfl

/-- A transfer happens exactly when the machine accepts it, and it moves the registers
to or from successive addresses. A load after a store from the same index restores
the registers, and a store after a load leaves memory as it was, also where the
addresses go round the end of memory or of the index. -/
theorem transfer_round_trip (m : Machine) (x : Reg) :
    ((∃ n, (storeRegisters x).run m = .ok () n) ↔ m.Accepts x) ∧
    ((∃ n, (loadRegisters x).run m = .ok () n) ↔ m.Accepts x) ∧
    (∀ n, (storeRegisters x).run m = .ok () n → m.Stored x n ∧
      ∀ v : Registers, ∃ k, (loadRegisters x).run { n with index := m.index, v } = .ok () k ∧
        (∀ j ≤ x, k.v[j] = m.v[j]) ∧ (∀ j, x < j → k.v[j] = v[j]) ∧ k.memory = n.memory) ∧
    (∀ n, (loadRegisters x).run m = .ok () n → m.Loaded x n ∧
      ∃ k, (storeRegisters x).run { n with index := m.index } = .ok () k ∧
        k.memory = m.memory ∧ k.v = n.v) := by
  refine ⟨?_, ?_, ?_, ?_⟩
  · rw [run_storeRegisters, ← spanFault?_eq_none_iff_accepts, Fault.exists_settle_eq_ok_iff]
  · rw [run_loadRegisters, ← spanFault?_eq_none_iff_accepts, Fault.exists_settle_eq_ok_iff]
  · intro n hrun
    rw [run_storeRegisters] at hrun
    obtain ⟨hfault, -, rfl⟩ := Fault.of_settle_eq_ok hrun
    have haccepts := spanFault?_eq_none_iff_accepts.mp hfault
    refine ⟨stored_effect m x, fun v => ⟨_, run_load_stored haccepts v, ?_, ?_, rfl⟩⟩
    · intro j hj
      exact (getElem_load_map v m.v).trans (if_pos hj)
    · intro j hj
      exact (getElem_load_map v m.v).trans (if_neg (Fin.not_le.mpr hj))
  · intro n hrun
    rw [run_loadRegisters] at hrun
    obtain ⟨hfault, -, rfl⟩ := Fault.of_settle_eq_ok hrun
    have haccepts := spanFault?_eq_none_iff_accepts.mp hfault
    exact ⟨loaded_effect m x, _, run_store_loaded haccepts, rfl, rfl⟩

/-- Six registers around the end of the index, which is an end of memory as well. -/
theorem transfer_round_trip_last_cells :
    let m : Machine :=
      { config := {}, random := .ofSeed 0, v := Registers.zero.set 3 0x2A, index := 0xFFFE }
    ∃ n, (storeRegisters 5).run m = .ok () n ∧ n.memory[(1 : Address)] = 0x2A ∧
      n.index.toNat = 4 ∧
      ∃ k, (loadRegisters 5).run { n with index := m.index, v := .zero } = .ok () k ∧
        k.v[(3 : Reg)] = 0x2A ∧ k.memory = n.memory := by
  intro m
  have haccepts : m.Accepts 5 := nofun
  obtain ⟨hstores, -, hstored, -⟩ := transfer_round_trip m 5
  obtain ⟨n, hrun⟩ := hstores.mpr haccepts
  obtain ⟨hn, hload⟩ := hstored n hrun
  obtain ⟨k, hback, hvalues, -, hmemory⟩ := hload .zero
  have hvalue : m.v[(3 : Reg)] = 0x2A := by decide
  refine ⟨n, hrun, ?_, hn.index.trans (by decide), k, hback, ?_, hmemory⟩
  · exact (hn.cells 3 (by decide) 1 (by decide)).trans hvalue
  · exact (hvalues 3 (by decide)).trans hvalue

end Machine

end Chip8
