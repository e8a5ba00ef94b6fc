import Chip8.Proofs.Bounds
import Mathlib.Data.List.Basic
import Mathlib.Order.Bounds.Basic

namespace Chip8.CallStack

/-- A strict stack that holds the values of a list, the last pushed first, in the slots
below its stack pointer. -/
structure Holds (held : List UInt16) (s : CallStack) : Prop where
  strict : s.strict = true
  sp : s.sp.toNat = held.length
  length_le : held.length ≤ 16
  entries : ∀ (k : Slot) (value : UInt16), held.reverse[k.val]? = some value → s[k] = value

theorem holds_nil (entries : Vector UInt16 16) :
    ({ entries, sp := 0, strict := true } : CallStack).Holds [] where
  strict := rfl
  sp := rfl
  length_le := Nat.zero_le 16
  entries k value h := by
    rw [List.reverse_nil, List.getElem?_nil] at h
    contradiction

namespace Holds

variable {s : CallStack} {held : List UInt16} {value : UInt16}

theorem pushed (h : s.Holds held) (value : UInt16) (hlt : held.length < 16) :
    (s.pushed value).Holds (value :: held) where
  strict := h.strict
  sp := by
    have hsp := h.sp
    rw [toNat_sp_pushed value (by omega), hsp, List.length_cons]
  length_le := hlt
  entries k w hw := by
    have hsp := h.sp
    have hslot : (slot s.sp).val = s.sp.toNat := val_slot (by omega)
    rw [List.reverse_cons] at hw
    change (s.put (slot s.sp) value)[k] = w
    rw [getElem_put]
    split
    · rename_i hk
      have hlast : k.val = held.reverse.length := by
        rw [← hk, hslot, hsp, List.length_reverse]
      rw [hlast, List.getElem?_concat_length, Option.some.injEq] at hw
      exact hw
    · rename_i hk
      obtain ⟨hle, -⟩ := List.getElem?_eq_some_iff.mp hw
      have hne : k.val ≠ s.sp.toNat := fun heq => hk (Fin.ext (hslot.trans heq.symm))
      rw [List.length_append, List.length_singleton, List.length_reverse] at hle
      rw [List.getElem?_append_left (by rw [List.length_reverse]; omega)] at hw
      exact h.entries k w hw

theorem top (h : s.Holds (value :: held)) : s.top = value := by
  have hsp := h.sp
  have hle := h.length_le
  rw [List.length_cons] at hsp hle
  have hpopped : s.popped.sp.toNat + 1 = s.sp.toNat := toNat_sp_popped (by omega)
  have hslot : (slot s.popped.sp).val = held.reverse.length := by
    rw [val_slot (by omega), List.length_reverse]
    omega
  apply h.entries (slot s.popped.sp)
  rw [hslot, List.reverse_cons, List.getElem?_concat_length]

theorem popped (h : s.Holds (value :: held)) : s.popped.Holds held where
  strict := h.strict
  sp := by
    have hsp := h.sp
    rw [List.length_cons] at hsp
    have hpopped : s.popped.sp.toNat + 1 = s.sp.toNat := toNat_sp_popped (by omega)
    omega
  length_le := Nat.le_of_succ_le h.length_le
  entries k w hw := by
    apply h.entries k w
    rw [List.reverse_cons, List.getElem?_append_left (List.getElem?_eq_some_iff.mp hw).1]
    exact hw

theorem pushFault?_eq (h : s.Holds held) :
    s.pushFault? = if held.length < 16 then none else some (.stackOverflow 16) := by
  have hsp := h.sp
  have hle := h.length_le
  cases hfault : s.pushFault? with
  | some fault =>
      obtain ⟨hfull, rfl⟩ := (pushFault?_eq_some_iff h.strict).mp hfault
      have hsixteen : s.sp = 16 := by
        apply UInt16.toNat_inj.mp
        change s.sp.toNat = 16
        omega
      rw [if_neg (by omega), hsixteen]
  | none =>
      have hlt := sp_lt_of_pushFault? h.strict hfault
      rw [if_pos (by omega)]

theorem popFault?_eq (h : s.Holds held) :
    s.popFault? = if held = [] then some .stackUnderflow else none := by
  have hsp := h.sp
  have hle := h.length_le
  cases hfault : s.popFault? with
  | some fault =>
      obtain ⟨hzero, rfl⟩ := (popFault?_eq_some_iff h.strict (by omega)).mp hfault
      rw [hzero] at hsp
      rw [if_pos (List.eq_nil_of_length_eq_zero hsp.symm)]
  | none =>
      have hpos := sp_pos_of_popFault? h.strict hfault
      rw [if_neg (List.ne_nil_of_length_pos (by omega))]

theorem run_push_eq_error_iff (h : s.Holds held) {fault : Fault} {after : CallStack} :
    (push value).run s = .error fault after ↔
      held.length = 16 ∧ fault = .stackOverflow 16 ∧ after = s := by
  have hle := h.length_le
  rw [run_push, Fault.settle_eq_error_iff, h.pushFault?_eq]
  split
  · have hne : held.length ≠ 16 := by omega
    simp [hne]
  · have heq : held.length = 16 := by omega
    simp [heq, eq_comm]

theorem run_pop_eq_error_iff (h : s.Holds held) {fault : Fault} {after : CallStack} :
    pop.run s = .error fault after ↔ held = [] ∧ fault = .stackUnderflow ∧ after = s := by
  rw [run_pop, Fault.settle_eq_error_iff, h.popFault?_eq]
  split
  · rename_i hnil
    simp [hnil, eq_comm]
  · rename_i hne
    simp [hne]

theorem exists_run_pop_eq_ok_iff (h : s.Holds held) :
    (∃ after, pop.run s = .ok value after) ↔ held.head? = some value := by
  rw [run_pop, h.popFault?_eq]
  cases held with
  | nil => simp [Fault.settle]
  | cons first rest => simp [Fault.settle, h.top]

end Holds

/-- What a stack answers to an operation. Only a pop answers with a value. -/
abbrev Answer := Except Fault (Option UInt16)

inductive Operation where
  | push (value : UInt16)
  | pop

namespace Operation

def isPush : Operation → Bool
  | push _ => true
  | pop => false

def isPop : Operation → Bool
  | push _ => false
  | pop => true

def act : Operation → Action CallStack (Option UInt16)
  | push value => do
      CallStack.push value
      return none
  | pop => do return some (← CallStack.pop)

def perform (op : Operation) (s : CallStack) : Answer × CallStack :=
  match op.act.run s with
  | .ok value? next => (.ok value?, next)
  | .error fault next => (.error fault, next)

/-- The operation on a list of at most sixteen values, the last pushed first. -/
def performOnList (op : Operation) (held : List UInt16) : Answer × List UInt16 :=
  match op, held with
  | push value, held =>
      if held.length < 16 then (.ok none, value :: held) else (.error (.stackOverflow 16), held)
  | pop, [] => (.error .stackUnderflow, [])
  | pop, value :: rest => (.ok (some value), rest)

/-- Operations one after the other: all answers, and what is left. A refused operation
does not keep the next one from being tried. -/
def runAll {σ : Type} (perform : Operation → σ → Answer × σ) (ops : List Operation) (s : σ) :
    List Answer × σ :=
  match ops with
  | [] => ([], s)
  | op :: rest =>
      let (answer, next) := perform op s
      let (answers, last) := runAll perform rest next
      (answer :: answers, last)

section Runs

variable {σ : Type} (perform : Operation → σ → Answer × σ)

theorem runAll_cons (op : Operation) (rest : List Operation) (s : σ) :
    (runAll perform (op :: rest) s).2 = (runAll perform rest (perform op s).2).2 := rfl

theorem runAll_append (first second : List Operation) (s : σ) :
    (runAll perform (first ++ second) s).2 =
      (runAll perform second (runAll perform first s).2).2 := by
  induction first generalizing s with
  | nil => rfl
  | cons op rest ih => exact ih _

theorem getElem?_runAll (before after : List Operation) (op : Operation) (s : σ) :
    (runAll perform (before ++ op :: after) s).1[before.length]? =
      some (perform op (runAll perform before s).2).1 := by
  induction before generalizing s with
  | nil => rfl
  | cons first rest ih => exact ih _

end Runs

theorem perform_push (value : UInt16) (s : CallStack) :
    (push value).perform s =
      match s.pushFault? with
      | some fault => (.error fault, s)
      | none => (.ok none, s.pushed value) := by
  rw [perform, act, EStateM.run_bind, run_push]
  cases s.pushFault? with
  | some fault => rfl
  | none => rfl

theorem perform_pop (s : CallStack) :
    pop.perform s =
      match s.popFault? with
      | some fault => (.error fault, s)
      | none => (.ok (some s.top), s.popped) := by
  rw [perform, act, EStateM.run_bind, run_pop]
  cases s.popFault? with
  | some fault => rfl
  | none => rfl

section Strict

variable {s : CallStack} {held : List UInt16}

theorem refines_perform (h : s.Holds held) (op : Operation) :
    (op.perform s).1 = (op.performOnList held).1 ∧
      (op.perform s).2.Holds (op.performOnList held).2 := by
  cases op with
  | push value =>
      rw [perform_push, h.pushFault?_eq, performOnList]
      by_cases hlt : held.length < 16
      · rw [if_pos hlt, if_pos hlt]
        exact ⟨rfl, h.pushed value hlt⟩
      · rw [if_neg hlt, if_neg hlt]
        exact ⟨rfl, h⟩
  | pop =>
      rw [perform_pop, h.popFault?_eq]
      cases held with
      | nil => exact ⟨rfl, h⟩
      | cons value rest =>
          rw [h.top]
          exact ⟨rfl, h.popped⟩

theorem refines_runAll (h : s.Holds held) (ops : List Operation) :
    (runAll perform ops s).1 = (runAll performOnList ops held).1 ∧
      (runAll perform ops s).2.Holds (runAll performOnList ops held).2 := by
  induction ops generalizing s held with
  | nil => exact ⟨rfl, h⟩
  | cons op rest ih =>
      obtain ⟨hanswer, hnext⟩ := refines_perform h op
      obtain ⟨hanswers, hlast⟩ := ih hnext
      exact ⟨congrArg₂ List.cons hanswer hanswers, hlast⟩

end Strict

/-- One of the operations pushes a value to slot `k`. -/
def PushesTo (k : Slot) (ops : List Operation) (s : CallStack) : Prop :=
  ∃ before value after, ops = before ++ push value :: after ∧
    slot (runAll perform before s).2.sp = k

/-- The last value that the operations push to slot `k`, or what the slot held before
them if they push none. -/
def LastPushed (k : Slot) (ops : List Operation) (s : CallStack) (value : UInt16) : Prop :=
  (∃ before after, ops = before ++ push value :: after ∧
      slot (runAll perform before s).2.sp = k ∧
        ¬ PushesTo k after (runAll perform (before ++ [push value]) s).2) ∨
    ¬ PushesTo k ops s ∧ value = s[k]

section Loose

variable {s : CallStack} {k : Slot}

theorem perform_push_of_loose (hs : s.strict = false) (value : UInt16) :
    (push value).perform s = (.ok none, s.pushed value) := by
  have hfault : s.pushFault? = none := by simp [pushFault?, hs]
  rw [perform_push, hfault]

theorem perform_pop_of_loose (hs : s.strict = false) :
    pop.perform s = (.ok (some s.top), s.popped) := by
  have hfault : s.popFault? = none := by simp [popFault?, hs]
  rw [perform_pop, hfault]

theorem loose_perform (hs : s.strict = false) (op : Operation) :
    (op.perform s).2.strict = false := by
  cases op with
  | push value =>
      rw [perform_push_of_loose hs]
      exact hs
  | pop =>
      rw [perform_pop_of_loose hs]
      exact hs

theorem loose_runAll (hs : s.strict = false) (ops : List Operation) :
    (runAll perform ops s).2.strict = false := by
  induction ops generalizing s with
  | nil => exact hs
  | cons op rest ih => exact ih (loose_perform hs op)

theorem toNat_sp_perform_push (hs : s.strict = false) (value : UInt16) :
    ((push value).perform s).2.sp.toNat = (s.sp.toNat + 1) % 65536 := by
  rw [perform_push_of_loose hs]
  exact UInt16.toNat_add _ _

theorem exists_ok_of_mem_runAll (hs : s.strict = false) {ops : List Operation} {answer : Answer}
    (h : answer ∈ (runAll perform ops s).1) : ∃ value?, answer = .ok value? := by
  induction ops generalizing s with
  | nil => contradiction
  | cons op rest ih =>
      rcases List.mem_cons.mp h with rfl | hrest
      · cases op with
        | push value => exact ⟨none, congrArg Prod.fst (perform_push_of_loose hs value)⟩
        | pop => exact ⟨some s.top, congrArg Prod.fst (perform_pop_of_loose hs)⟩
      · exact ih (loose_perform hs op) hrest

theorem toNat_sp_runAll (hs : s.strict = false) (ops : List Operation) :
    ((runAll perform ops s).2.sp.toNat : Int) =
      (s.sp.toNat + ops.countP isPush - ops.countP isPop) % 65536 := by
  have hlt := s.sp.toNat_lt
  induction ops generalizing s with
  | nil =>
      change (s.sp.toNat : Int) = (s.sp.toNat + 0 - 0) % 65536
      omega
  | cons op rest ih =>
      refine (ih (loose_perform hs op) (UInt16.toNat_lt _)).trans ?_
      cases op with
      | push value =>
          rw [toNat_sp_perform_push hs, List.countP_cons_of_pos rfl,
            List.countP_cons_of_neg Bool.false_ne_true]
          omega
      | pop =>
          rw [perform_pop_of_loose hs, List.countP_cons_of_neg Bool.false_ne_true,
            List.countP_cons_of_pos rfl]
          have hone : (1 : UInt16).toNat = 1 := rfl
          simp only [popped, UInt16.toNat_sub, hone]
          omega

theorem pushesTo_cons (op : Operation) (rest : List Operation) :
    PushesTo k (op :: rest) s ↔
      (op.isPush = true ∧ slot s.sp = k) ∨ PushesTo k rest (op.perform s).2 := by
  constructor
  · rintro ⟨before, value, after, heq, hk⟩
    cases before with
    | nil =>
        cases heq
        exact .inl ⟨rfl, hk⟩
    | cons first before =>
        cases heq
        exact .inr ⟨before, value, after, rfl, hk⟩
  · rintro (⟨hpush, hk⟩ | ⟨before, value, after, rfl, hk⟩)
    · cases op with
      | push value => exact ⟨[], value, rest, rfl, hk⟩
      | pop => contradiction
    · exact ⟨op :: before, value, after, rfl, hk⟩

theorem getElem_perform_push (hs : s.strict = false) (value : UInt16) (k : Slot) :
    ((push value).perform s).2[k] = if slot s.sp = k then value else s[k] := by
  rw [perform_push_of_loose hs]
  exact getElem_put _ _ _ _

theorem lastPushed_runAll (hs : s.strict = false) (k : Slot) (ops : List Operation) :
    LastPushed k ops s (runAll perform ops s).2[k] := by
  induction ops generalizing s with
  | nil =>
      refine .inr ⟨?_, rfl⟩
      rintro ⟨before, value, after, hnil, -⟩
      exact List.append_ne_nil_of_right_ne_nil before (List.cons_ne_nil _ _) hnil.symm
  | cons op rest ih =>
      change LastPushed k (op :: rest) s (runAll perform rest (op.perform s).2).2[k]
      rcases ih (loose_perform hs op) with ⟨before, after, hrest, hk, hlast⟩ | ⟨hnone, hkept⟩
      · exact .inl ⟨op :: before, after, congrArg (op :: ·) hrest, hk, hlast⟩
      · -- Nothing behind `op` goes to the slot, so `op` itself decides.
        rw [hkept, LastPushed, pushesTo_cons]
        cases op with
        | push value =>
            rw [getElem_perform_push hs]
            split
            · rename_i hk
              exact .inl ⟨[], rest, rfl, hk, hnone⟩
            · rename_i hk
              exact .inr ⟨not_or.mpr ⟨fun h => hk h.2, hnone⟩, rfl⟩
        | pop =>
            rw [perform_pop_of_loose hs] at hnone ⊢
            exact .inr ⟨not_or.mpr ⟨fun h => Bool.false_ne_true h.1, hnone⟩, rfl⟩

theorem getElem_runAll_of_not_pushesTo (hs : s.strict = false) {ops : List Operation}
    (h : ¬ PushesTo k ops s) : (runAll perform ops s).2[k] = s[k] := by
  rcases lastPushed_runAll hs k ops with ⟨before, after, heq, hk, -⟩ | ⟨-, hkept⟩
  · exact absurd ⟨before, _, after, heq, hk⟩ h
  · exact hkept

theorem pushesTo_pushes_iff (hs : s.strict = false) (values : List UInt16) (n : Nat) :
    PushesTo k (values.map push ++ List.replicate n pop) s ↔
      ∃ i < values.length, (s.sp.toNat + i) % 16 = k.val := by
  induction values generalizing s with
  | nil =>
      constructor
      · rintro ⟨before, value, after, heq, -⟩
        have hmem : push value ∈ List.replicate n pop := by
          change List.replicate n pop = _ at heq
          simp [heq]
        cases List.eq_of_mem_replicate hmem
      · rintro ⟨i, hi, -⟩
        contradiction
  | cons value rest ih =>
      rw [List.map_cons, List.cons_append, pushesTo_cons, ih (loose_perform hs _),
        toNat_sp_perform_push hs]
      constructor
      · rintro (⟨-, hk⟩ | ⟨i, hi, hk⟩)
        · exact ⟨0, Nat.zero_lt_succ _, congrArg Fin.val hk⟩
        · exact ⟨i + 1, Nat.succ_lt_succ hi, by omega⟩
      · rintro ⟨i, hi, hk⟩
        cases i with
        | zero => exact .inl ⟨rfl, Fin.ext hk⟩
        | succ i => exact .inr ⟨i, Nat.lt_of_succ_lt_succ hi, by omega⟩

theorem toNat_sp_runAll_pushes (hs : s.strict = false) (values : List UInt16) (n : Nat) :
    ((runAll perform (values.map push ++ List.replicate n pop) s).2.sp.toNat : Int) =
      (s.sp.toNat + values.length - n) % 65536 := by
  have hpush : isPush ∘ push = fun _ => true := rfl
  have hpop : isPop ∘ push = fun _ => false := rfl
  rw [toNat_sp_runAll hs]
  simp [List.countP_map, List.countP_replicate, hpush, hpop, isPush, isPop]

/-- After some pushes and `n` pops, the next pop reads the last value that was pushed a
multiple of sixteen places before the one that it would read on an endless stack. -/
theorem top_runAll_pushes (hs : s.strict = false) (earlier later : List UInt16) (value : UInt16)
    {n : Nat} (hlater : later.length = n % 16) :
    (runAll perform ((earlier ++ value :: later).map push ++ List.replicate n pop) s).2.top =
      value := by
  have hat := toNat_sp_runAll_pushes hs earlier 0
  have hend := toNat_sp_runAll_pushes hs (earlier ++ value :: later) n
  rw [List.replicate_zero, List.append_nil] at hat
  rw [List.length_append, List.length_cons] at hend
  have hloose := loose_runAll hs (earlier.map push)
  rw [List.map_append, List.map_cons, List.append_assoc, List.cons_append, runAll_append,
    runAll_cons] at hend ⊢
  generalize (runAll perform (earlier.map push) s).2 = u at hat hend hloose ⊢
  have hkept : ¬ PushesTo (slot u.sp) (later.map push ++ List.replicate n pop)
      ((push value).perform u).2 := by
    rw [pushesTo_pushes_iff (loose_perform hloose _), toNat_sp_perform_push hloose]
    rintro ⟨i, hi, hk⟩
    change _ = u.sp.toNat % 16 at hk
    omega
  have hread := getElem_runAll_of_not_pushesTo (loose_perform hloose _) hkept
  generalize (runAll perform (later.map push ++ List.replicate n pop)
    ((push value).perform u).2).2 = t at hend hread ⊢
  have hslot : slot (t.sp - 1) = slot u.sp := by
    apply Fin.ext
    have hone : (1 : UInt16).toNat = 1 := rfl
    simp only [slot, UInt16.toNat_sub, hone]
    omega
  rw [top, hslot, hread, getElem_perform_push hloose, if_pos rfl]

theorem pop_runAll_pushes (hs : s.strict = false) (values : List UInt16) {j : Nat} (hpos : 1 ≤ j)
    (hj : j ≤ values.length) :
    ∃ m value, IsGreatest {m | 1 ≤ m ∧ m ≤ values.length ∧
        m % 16 = (values.length - j + 1) % 16} m ∧ values[m - 1]? = some value ∧
      (runAll perform (values.map push ++ List.replicate values.length pop) s).1[
        values.length + j - 1]? = some (.ok (some value)) := by
  obtain ⟨n, rfl⟩ := Nat.exists_eq_add_of_le' hpos
  obtain ⟨r, hr⟩ := Nat.exists_eq_add_of_le hj
  obtain ⟨i, hi⟩ : ∃ i, values.length = i + 1 + n % 16 :=
    ⟨values.length - n % 16 - 1, by omega⟩
  have hlt : i < values.length := by omega
  have hsplit : values.take i ++ values[i] :: values.drop (i + 1) = values := by
    rw [← List.drop_eq_getElem_cons hlt, List.take_append_drop]
  have hlater : (values.drop (i + 1)).length = n % 16 := by
    rw [List.length_drop]
    omega
  have htop := top_runAll_pushes hs (values.take i) (values.drop (i + 1)) values[i] hlater
  rw [hsplit] at htop
  refine ⟨i + 1, values[i], ⟨⟨by omega, by omega, by omega⟩, ?_⟩,
    List.getElem?_eq_getElem hlt, ?_⟩
  · rintro m ⟨-, hle, hm⟩
    omega
  · have hops : values.map push ++ List.replicate values.length pop =
        (values.map push ++ List.replicate n pop) ++ pop :: List.replicate r pop := by
      rw [hr, Nat.add_assoc, Nat.add_comm 1 r, List.replicate_add, List.append_assoc]
      rfl
    have hlen : values.length + (n + 1) - 1 =
        (values.map push ++ List.replicate n pop).length := by simp
    rw [hops, hlen, getElem?_runAll, perform_pop_of_loose (loose_runAll hs _), htop]

end Loose

/-- A strict stack that starts empty answers as a list of at most sixteen values does. A
loose one never refuses and goes round its slots, whatever its stack pointer counts. -/
theorem runAll_as_list_or_ring (ops : List Operation) (entries : Vector UInt16 16) :
    (let list := runAll performOnList ops []
      let stack := runAll perform ops { entries, sp := 0, strict := true }
      stack.1 = list.1 ∧ stack.2.sp.toNat = list.2.length ∧ list.2.length ≤ 16 ∧
        (∀ value fault after, (CallStack.push value).run stack.2 = .error fault after ↔
          list.2.length = 16 ∧ fault = .stackOverflow 16 ∧ after = stack.2) ∧
        (∀ fault after, CallStack.pop.run stack.2 = .error fault after ↔
          list.2 = [] ∧ fault = .stackUnderflow ∧ after = stack.2) ∧
        ∀ value, (∃ after, CallStack.pop.run stack.2 = .ok value after) ↔
          list.2.head? = some value) ∧
    ∀ sp, let start : CallStack := { entries, sp, strict := false }
      (∀ answer ∈ (runAll perform ops start).1, ∃ value?, answer = .ok value?) ∧
      ((runAll perform ops start).2.sp.toNat : Int) =
        (sp.toNat + ops.countP isPush - ops.countP isPop) % 65536 ∧
      (∀ before after, ops = before ++ pop :: after →
        ∃ value, (runAll perform ops start).1[before.length]? = some (.ok (some value)) ∧
          LastPushed (slot ((runAll perform before start).2.sp - 1)) before start value) ∧
      ∀ values : List UInt16, ∀ j ≤ values.length, 1 ≤ j →
        ∃ m value, IsGreatest {m | 1 ≤ m ∧ m ≤ values.length ∧
            m % 16 = (values.length - j + 1) % 16} m ∧ values[m - 1]? = some value ∧
          (runAll perform (values.map push ++ List.replicate values.length pop) start).1[
            values.length + j - 1]? = some (.ok (some value)) := by
  constructor
  · intro list stack
    obtain ⟨hanswers, hholds⟩ := refines_runAll (holds_nil entries) ops
    refine ⟨hanswers, hholds.sp, hholds.length_le, ?_, ?_, ?_⟩
    · exact fun value fault after => hholds.run_push_eq_error_iff
    · exact fun fault after => hholds.run_pop_eq_error_iff
    · exact fun value => hholds.exists_run_pop_eq_ok_iff
  · intro sp start
    have hstart : start.strict = false := rfl
    refine ⟨?_, toNat_sp_runAll hstart ops, ?_, ?_⟩
    · exact fun answer => exists_ok_of_mem_runAll hstart
    · rintro before after rfl
      refine ⟨_, ?_, lastPushed_runAll hstart _ before⟩
      rw [getElem?_runAll, perform_pop_of_loose (loose_runAll hstart before)]
      rfl
    · intro values j hj hpos
      exact pop_runAll_pushes hstart values hpos hj

/-- The seventeenth value. A strict stack refuses it. On a loose one it replaces the
first, and comes back at the seventeenth pop as at the first. -/
theorem runAll_as_list_or_ring_seventeen :
    let values : List UInt16 := List.replicate 16 0x200 ++ [0x220]
    (runAll perform (values.map push) { strict := true }).1[16]? =
        some (.error (.stackOverflow 16)) ∧
      ∀ j ∈ [1, 17], (runAll perform (values.map push ++ List.replicate 17 pop)
        { sp := 0xFFFF, strict := false }).1[17 + j - 1]? = some (.ok (some 0x220)) := by
  intro values
  obtain ⟨⟨hlist, -⟩, hring⟩ := runAll_as_list_or_ring (values.map push) (Vector.replicate 16 0)
  constructor
  · rw [hlist]
    rfl
  · intro j hj
    have hbounds : 1 ≤ j ∧ j ≤ values.length ∧ 17 % 16 = (values.length - j + 1) % 16 := by
      rcases List.mem_pair.mp hj with rfl | rfl <;> decide
    obtain ⟨hpos, hle, hsame⟩ := hbounds
    obtain ⟨-, -, -, hpops⟩ := hring 0xFFFF
    obtain ⟨m, value, ⟨⟨-, hm, -⟩, hgreatest⟩, hvalue, hanswer⟩ := hpops values j hle hpos
    obtain rfl : m = 17 := Nat.le_antisymm hm (hgreatest ⟨by decide, Nat.le_refl 17, hsame⟩)
    obtain rfl : 0x220 = value := Option.some.inj hvalue
    exact hanswer

end Operation

end Chip8.CallStack
