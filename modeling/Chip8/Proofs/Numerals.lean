import Chip8.Text.Numeral
import Mathlib.Data.List.Forall2
import Mathlib.Data.Nat.Digits.Defs

namespace Chip8

theorem map_eq_ok_iff {ε α β : Type} {x : Except ε α} {f : α → β} {b : β} :
    x.map f = .ok b ↔ ∃ a, x = .ok a ∧ f a = b := by
  cases x with
  | error e => simp [Except.map]
  | ok a => simp [Except.map]

namespace Text.Numeral

/-- A digit below a radix, in either case, and its value. -/
def Digit (radix : Nat) (c : Char) (d : Nat) : Prop :=
  d < radix ∧ (c = Nat.digitChar d ∨ c = (Nat.digitChar d).toUpper)

instance (radix : Nat) (c : Char) (d : Nat) : Decidable (Digit radix c d) :=
  inferInstanceAs (Decidable (_ ∧ _))

/-- One or more digits, the most significant first, and the number that they write. -/
def Writes (radix : Nat) (digits : List Char) (n : Nat) : Prop :=
  digits ≠ [] ∧
    ∃ values, List.Forall₂ (Digit radix) digits values ∧ Nat.ofDigits radix values.reverse = n

section

variable {radix : Nat}

/-- The codes of a digit of either case: letters follow letters, but not the numerals. -/
theorem digit_iff (hradix : radix ≤ 16) (c : Char) (d : Nat) :
    Digit radix c d ↔ d < radix ∧ ((d < 10 ∧ c.toNat = 48 + d) ∨
      (10 ≤ d ∧ (c.toNat = 87 + d ∨ c.toNat = 55 + d))) := by
  have hcodes : ∀ e : Fin 16,
      (Nat.digitChar e.val).toNat = (if e.val < 10 then 48 + e.val else 87 + e.val) ∧
      (Nat.digitChar e.val).toUpper.toNat = if e.val < 10 then 48 + e.val else 55 + e.val := by
    decide
  rw [Digit, ← Char.toNat_inj, ← Char.toNat_inj]
  by_cases hd : d < 16
  · obtain ⟨hlower, hupper⟩ := hcodes ⟨d, hd⟩
    simp only at hlower hupper
    rw [hlower, hupper]
    by_cases hten : d < 10
    · rw [if_pos hten, if_pos hten]
      omega
    · rw [if_neg hten, if_neg hten]
      omega
  · omega

theorem digit?_eq_some_iff (hradix : radix ≤ 16) (c : Char) (d : Nat) :
    digit? radix c = some d ↔ Digit radix c d := by
  have hnumeral : '0' ≤ c ∧ c ≤ '9' ↔ 48 ≤ c.toNat ∧ c.toNat ≤ 57 := Iff.rfl
  have hlower : 'a' ≤ c ∧ c ≤ 'f' ↔ 97 ≤ c.toNat ∧ c.toNat ≤ 102 := Iff.rfl
  have hupper : 'A' ≤ c ∧ c ≤ 'F' ↔ 65 ≤ c.toNat ∧ c.toNat ≤ 70 := Iff.rfl
  have hzero : '0'.toNat = 48 := rfl
  have ha : 'a'.toNat = 97 := rfl
  have hA : 'A'.toNat = 65 := rfl
  rw [digit_iff hradix, digit?, Option.filter_eq_some_iff, decide_eq_true_eq]
  simp only [hnumeral, hlower, hupper, hzero, ha, hA]
  split
  · rw [Option.some.injEq]
    omega
  · split
    · rw [Option.some.injEq]
      omega
    · split
      · rw [Option.some.injEq]
        omega
      · simp only [reduceCtorEq, false_and, false_iff]
        omega

theorem not_digit_of_digit? (hradix : radix ≤ 16) {c : Char} (h : digit? radix c = none)
    (d : Nat) : ¬ Digit radix c d := by
  rw [← digit?_eq_some_iff hradix, h]
  simp only [reduceCtorEq, not_false_eq_true]

theorem le_foldl_digits (hradix : 0 < radix) (values : List Nat) (value : Nat) :
    value ≤ values.foldl (fun v d => v * radix + d) value := by
  induction values generalizing value with
  | nil => exact Nat.le_refl value
  | cons d rest ih =>
      have hfirst : value ≤ value * radix + d :=
        Nat.le_add_right_of_le (Nat.le_mul_of_pos_right value hradix)
      exact Nat.le_trans hfirst (ih _)

/-- Digits are read from the left onto the value of those before them, which never
goes down, so that the limit is exceeded at some digit just when it is in the end. -/
theorem digits_eq_ok_iff (hpos : 0 < radix) (hradix : radix ≤ 16) {limit value n : Nat}
    (beyond : NumeralError) (text : List Char) (hvalue : value ≤ limit) :
    digits radix limit beyond value text = .ok n ↔ n ≤ limit ∧
      ∃ values, List.Forall₂ (Digit radix) text values ∧
        values.foldl (fun v d => v * radix + d) value = n := by
  induction text generalizing value with
  | nil =>
      rw [digits, Except.ok.injEq]
      constructor
      · rintro rfl
        exact ⟨hvalue, [], .nil, rfl⟩
      · rintro ⟨-, values, hvalues, hn⟩
        rw [List.forall₂_nil_left_iff.mp hvalues] at hn
        exact hn
  | cons c rest ih =>
      simp only [List.forall₂_cons_left_iff, ← digit?_eq_some_iff hradix]
      rw [digits]
      cases hdigit : digit? radix c with
      | none => simp
      | some d =>
          simp only
          split
          · rename_i hnext
            rw [ih hnext]
            simp
          · rename_i hnext
            simp only [reduceCtorEq, false_iff]
            rintro ⟨hn, values, ⟨e, rest', he, -, rfl⟩, rfl⟩
            cases he
            have hle := le_foldl_digits hpos rest' (value * radix + d)
            exact hnext (Nat.le_trans hle hn)

theorem foldl_digits_eq_ofDigits (values : List Nat) :
    values.foldl (fun v d => v * radix + d) 0 = Nat.ofDigits radix values.reverse := by
  rw [Nat.ofDigits_eq_foldr, List.foldr_reverse]
  congr 1
  funext v d
  rw [Nat.mul_comm, Nat.add_comm]
  rfl

theorem digits_eq_ok_iff_writes (hpos : 0 < radix) (hradix : radix ≤ 16) {limit n : Nat}
    (beyond : NumeralError) {text : List Char} (h : text ≠ []) :
    digits radix limit beyond 0 text = .ok n ↔ n ≤ limit ∧ Writes radix text n := by
  rw [digits_eq_ok_iff hpos hradix _ _ (Nat.zero_le limit)]
  simp only [foldl_digits_eq_ofDigits, Writes, ne_eq, h, not_false_eq_true, true_and]

theorem signed_eq_ok_iff (hpos : 0 < radix) (hradix : radix ≤ 16) {limit n : Nat}
    (beyond : NumeralError) (text : List Char) :
    signed radix limit beyond text = .ok n ↔ n ≤ limit ∧ Writes radix text n := by
  rw [signed]
  split
  · rename_i hempty
    rw [List.isEmpty_iff.mp hempty]
    simp [Writes]
  · rename_i hdigits
    exact digits_eq_ok_iff_writes hpos hradix beyond
      fun h => hdigits (List.isEmpty_iff.mpr h)

theorem exists_digit_of_writes {c : Char} {digits : List Char} {n : Nat}
    (h : Writes radix digits n) (hc : c ∈ digits) : ∃ d, Digit radix c d := by
  obtain ⟨-, values, hvalues, -⟩ := h
  induction hvalues with
  | nil => contradiction
  | cons hd _ ih =>
      rcases List.mem_cons.mp hc with rfl | hrest
      · exact ⟨_, hd⟩
      · exact ih hrest

/-- No sign is a digit, so that a sign in a text is the one in front of the digits. -/
theorem Writes.of_sign (hradix : radix ≤ 16) {s : Char} {rest sign digits : List Char} {n : Nat}
    (h : Writes radix digits n) (hs : s = '+' ∨ s = '-') (htext : s :: rest = sign ++ digits)
    (hsign : sign = [] ∨ ∃ c, sign = [c]) : sign = [s] ∧ Writes radix rest n := by
  rcases hsign with rfl | ⟨c, rfl⟩
  · have hmem : s ∈ digits := by
      rw [← List.nil_append digits, ← htext]
      exact List.mem_cons_self
    obtain ⟨d, hd⟩ := exists_digit_of_writes h hmem
    have hnone : digit? radix s = none := by
      rcases hs with rfl | rfl <;> rfl
    exact absurd hd (not_digit_of_digit? hradix hnone d)
  · rw [List.singleton_append, List.cons.injEq] at htext
    obtain ⟨rfl, rfl⟩ := htext
    exact ⟨rfl, h⟩

/-- A natural number is written by its digits, which may have a plus sign in front. -/
theorem natural_eq_ok_iff (hpos : 0 < radix) (hradix : radix ≤ 16) {limit n : Nat}
    (text : List Char) :
    natural radix limit text = .ok n ↔ n ≤ limit ∧ ∃ sign digits, text = sign ++ digits ∧
      (sign = [] ∨ sign = ['+']) ∧ Writes radix digits n := by
  rw [natural.eq_def]
  split
  · -- Without a digit there is no number.
    simp only [reduceCtorEq, false_iff]
    rintro ⟨-, sign, digits, htext, -, hdigits, -⟩
    exact hdigits (List.append_eq_nil_iff.mp htext.symm).2
  · rename_i rest
    rw [signed_eq_ok_iff hpos hradix]
    apply and_congr_right'
    constructor
    · intro hwrites
      exact ⟨['+'], rest, rfl, .inr rfl, hwrites⟩
    · rintro ⟨sign, digits, htext, hsign, hwrites⟩
      exact (hwrites.of_sign hradix (.inl rfl) htext (hsign.imp_right fun h => ⟨_, h⟩)).2
  · rename_i hne hplus
    rw [digits_eq_ok_iff_writes hpos hradix _ hne]
    apply and_congr_right'
    constructor
    · intro hwrites
      exact ⟨[], text, rfl, .inl rfl, hwrites⟩
    · rintro ⟨sign, digits, htext, rfl | rfl, hwrites⟩
      · exact htext ▸ hwrites
      · exact absurd htext (hplus digits)

end

/-- A number from zero up is written by its digits behind a plus sign or none. Behind
a minus sign there is zero. -/
theorem integer_eq_ok_iff {n : Nat} (hn : n < half) (text : List Char) :
    integer text = .ok (n : Int) ↔ ∃ sign digits, text = sign ++ digits ∧
      (sign = [] ∨ sign = ['+'] ∨ sign = ['-'] ∧ n = 0) ∧ Writes 10 digits n := by
  have hten : 10 ≤ 16 := by decide
  have hlimit : n ≤ half - 1 := Nat.le_sub_one_of_lt hn
  have hone : ∀ {sign : List Char}, (sign = [] ∨ sign = ['+'] ∨ sign = ['-'] ∧ n = 0) →
      sign = [] ∨ ∃ c, sign = [c] := by
    rintro sign (rfl | rfl | ⟨rfl, -⟩)
    · exact .inl rfl
    · exact .inr ⟨_, rfl⟩
    · exact .inr ⟨_, rfl⟩
  have hmap : ∀ x : Except NumeralError Nat, x.map Int.ofNat = .ok (n : Int) ↔ x = .ok n := by
    intro x
    simp [map_eq_ok_iff]
  have hneg : ∀ x : Except NumeralError Nat,
      (x.map fun k => -(k : Int)) = .ok (n : Int) ↔ x = .ok 0 ∧ n = 0 := by
    intro x
    cases x with
    | error e => simp [Except.map]
    | ok k =>
        change Except.ok (-(k : Int)) = .ok (n : Int) ↔ Except.ok k = .ok 0 ∧ n = 0
        rw [Except.ok.injEq, Except.ok.injEq]
        omega
  rw [integer.eq_def]
  split
  · simp only [reduceCtorEq, false_iff]
    rintro ⟨sign, digits, htext, -, hdigits, -⟩
    exact hdigits (List.append_eq_nil_iff.mp htext.symm).2
  · rename_i rest
    rw [hneg, signed_eq_ok_iff (by decide) hten]
    constructor
    · rintro ⟨⟨-, hwrites⟩, rfl⟩
      exact ⟨['-'], rest, rfl, .inr (.inr ⟨rfl, rfl⟩), hwrites⟩
    · rintro ⟨sign, digits, htext, hsign, hwrites⟩
      obtain ⟨rfl, hrest⟩ := hwrites.of_sign hten (.inr rfl) htext (hone hsign)
      obtain rfl : n = 0 := by simpa using hsign
      exact ⟨⟨Nat.zero_le _, hrest⟩, rfl⟩
  · rename_i rest
    rw [hmap, signed_eq_ok_iff (by decide) hten]
    constructor
    · rintro ⟨-, hwrites⟩
      exact ⟨['+'], rest, rfl, .inr (.inl rfl), hwrites⟩
    · rintro ⟨sign, digits, htext, hsign, hwrites⟩
      exact ⟨hlimit, (hwrites.of_sign hten (.inl rfl) htext (hone hsign)).2⟩
  · rename_i hne hminus hplus
    rw [hmap, digits_eq_ok_iff_writes (by decide) hten _ hne]
    constructor
    · rintro ⟨-, hwrites⟩
      exact ⟨[], text, rfl, .inl rfl, hwrites⟩
    · rintro ⟨sign, digits, htext, rfl | rfl | ⟨rfl, rfl⟩, hwrites⟩
      · exact ⟨hlimit, htext ▸ hwrites⟩
      · exact absurd htext (hplus digits)
      · exact absurd htext (hminus digits)

end Text.Numeral

end Chip8
