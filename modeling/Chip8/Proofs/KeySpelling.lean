import Chip8.CommandLine.KeyNumeral
import Chip8.Proofs.Numerals

namespace Chip8

namespace Key

open Text.Numeral

/-- A text for a number: any number of marks `0x`, perhaps a plus sign, and one or more
hexadecimal digits. -/
def Spells (text : String) (n : Nat) : Prop :=
  ∃ marks sign digits,
    text.toList = (List.replicate marks ['0', 'x']).flatten ++ (sign ++ digits) ∧
      (sign = [] ∨ sign = ['+']) ∧ Writes 16 digits n

/-- The answer to a text that is no key. -/
def Refused (text message : String) : Prop :=
  ∃ e, parse text = .error e ∧ e.message = message

theorem exists_marks (text : List Char) :
    ∃ marks, text = (List.replicate marks ['0', 'x']).flatten ++ unmarked text := by
  fun_induction unmarked text with
  | case1 rest ih =>
      obtain ⟨marks, hmarks⟩ := ih
      refine ⟨marks + 1, ?_⟩
      rw [List.replicate_succ, List.flatten_cons, List.append_assoc, ← hmarks]
      rfl
  | case2 text => exact ⟨0, rfl⟩

theorem unmarked_marks (marks : Nat) {text : List Char} (h : ∀ rest, text ≠ '0' :: 'x' :: rest) :
    unmarked ((List.replicate marks ['0', 'x']).flatten ++ text) = text := by
  induction marks with
  | zero =>
      rw [List.replicate_zero, List.flatten_nil, List.nil_append, unmarked.eq_def]
      split
      · rename_i rest
        exact absurd rfl (h rest)
      · rfl
  | succ marks ih =>
      rw [List.replicate_succ, List.flatten_cons, List.append_assoc]
      exact ih

/-- No text that may follow the marks starts with another one. -/
theorem unmarked_of_writes (marks : Nat) {sign digits : List Char} {n : Nat}
    (hsign : sign = [] ∨ sign = ['+']) (hwrites : Writes 16 digits n) :
    unmarked ((List.replicate marks ['0', 'x']).flatten ++ (sign ++ digits)) = sign ++ digits := by
  apply unmarked_marks
  intro rest htext
  rcases hsign with rfl | rfl
  · have hx : 'x' ∈ digits := by
      rw [← List.nil_append digits, htext]
      exact List.mem_cons_of_mem _ List.mem_cons_self
    obtain ⟨d, hd⟩ := exists_digit_of_writes hwrites hx
    exact not_digit_of_digit? (by decide) rfl d hd
  · rw [List.singleton_append, List.cons.injEq] at htext
    exact absurd htext.1 (by decide)

theorem natural_unmarked_eq_ok_iff (limit : Nat) (text : String) (n : Nat) :
    natural 16 limit (unmarked text.toList) = .ok n ↔ n ≤ limit ∧ Spells text n := by
  rw [natural_eq_ok_iff (by decide) (by decide)]
  apply and_congr_right'
  constructor
  · rintro ⟨sign, digits, htext, hsign, hwrites⟩
    obtain ⟨marks, hmarks⟩ := exists_marks text.toList
    exact ⟨marks, sign, digits, htext ▸ hmarks, hsign, hwrites⟩
  · rintro ⟨marks, sign, digits, htext, hsign, hwrites⟩
    refine ⟨sign, digits, ?_, hsign, hwrites⟩
    rw [htext, unmarked_of_writes marks hsign hwrites]

theorem Spells.unique {text : String} {n k : Nat} (hn : Spells text n) (hk : Spells text k) :
    n = k := by
  have hleft := (natural_unmarked_eq_ok_iff (max n k) text n).mpr ⟨Nat.le_max_left n k, hn⟩
  have hright := (natural_unmarked_eq_ok_iff (max n k) text k).mpr ⟨Nat.le_max_right n k, hk⟩
  exact Except.ok.inj (hleft.symm.trans hright)

/-- What a text spells decides the answer to it. -/
theorem parse_cases (text : String) :
    (∃ key : Key, Spells text key.val ∧ parse text = .ok key) ∨
    (∃ n, Spells text n ∧ 16 ≤ n ∧ n ≤ 255 ∧ parse text = .error (.noSuchKey text)) ∨
    (∃ cause, (∀ n, Spells text n → 255 < n) ∧ parse text = .error (.notByte text cause)) := by
  rw [parse]
  cases hnatural : natural 16 255 (unmarked text.toList) with
  | error cause =>
      refine .inr (.inr ⟨cause, fun n hn => ?_, rfl⟩)
      by_contra hle
      have hok := (natural_unmarked_eq_ok_iff 255 text n).mpr ⟨Nat.le_of_not_lt hle, hn⟩
      rw [hnatural] at hok
      contradiction
  | ok n =>
      obtain ⟨hle, hn⟩ := (natural_unmarked_eq_ok_iff 255 text n).mp hnatural
      by_cases hlt : n < 16
      · exact .inl ⟨⟨n, hlt⟩, hn, dif_pos hlt⟩
      · exact .inr (.inl ⟨n, hn, Nat.le_of_not_lt hlt, hle, dif_neg hlt⟩)

theorem message_noSuchKey_ne_notByte (text : String) (cause : Text.NumeralError) :
    (KeyError.noSuchKey text).message ≠ (KeyError.notByte text cause).message := by
  intro h
  have hk : "key ".toList.head? = some 'k' := rfl
  have hi : "invalid key ".toList.head? = some 'i' := rfl
  have hhead := congrArg (fun message : String => message.toList.head?) h
  simp only [KeyError.message, toString, String.toList_append, List.head?_append, hk, hi,
    Option.some_or] at hhead
  exact absurd hhead (by decide)

theorem parse_eq_ok_iff (text : String) (key : Key) :
    parse text = .ok key ↔ Spells text key.val := by
  rcases parse_cases text with ⟨k, hk, hparse⟩ | ⟨n, hn, hlow, -, hparse⟩ | ⟨c, hnone, hparse⟩
  · rw [hparse, Except.ok.injEq]
    constructor
    · rintro rfl
      exact hk
    · intro hkey
      exact Fin.ext (hk.unique hkey)
  · rw [hparse]
    simp only [reduceCtorEq, false_iff]
    intro hkey
    have hsame := hn.unique hkey
    omega
  · rw [hparse]
    simp only [reduceCtorEq, false_iff]
    intro hkey
    have hlarge := hnone _ hkey
    omega

theorem refused_noSuchKey_iff (text : String) :
    Refused text (KeyError.noSuchKey text).message ↔ ∃ n, Spells text n ∧ 16 ≤ n ∧ n ≤ 255 := by
  constructor
  · rintro ⟨e, he, hmessage⟩
    rcases parse_cases text with ⟨k, -, hparse⟩ | ⟨n, hn, hlow, hhigh, -⟩ | ⟨c, -, hparse⟩
    · rw [hparse] at he
      contradiction
    · exact ⟨n, hn, hlow, hhigh⟩
    · rw [hparse, Except.error.injEq] at he
      subst he
      exact absurd hmessage.symm (message_noSuchKey_ne_notByte text c)
  · rintro ⟨n, hn, hlow, hhigh⟩
    rcases parse_cases text with ⟨k, hk, -⟩ | ⟨-, -, -, -, hparse⟩ | ⟨c, hnone, -⟩
    · have hsame := hn.unique hk
      omega
    · exact ⟨_, hparse, rfl⟩
    · have hlarge := hnone n hn
      omega

theorem exists_refused_notByte_iff (text : String) :
    (∃ cause, Refused text (KeyError.notByte text cause).message) ↔
      ∀ n, Spells text n → 255 < n := by
  constructor
  · rintro ⟨cause, e, he, hmessage⟩
    rcases parse_cases text with ⟨k, -, hparse⟩ | ⟨-, -, -, -, hparse⟩ | ⟨-, hnone, -⟩
    · rw [hparse] at he
      contradiction
    · rw [hparse, Except.error.injEq] at he
      subst he
      exact absurd hmessage (message_noSuchKey_ne_notByte text cause)
    · exact hnone
  · intro hnone
    rcases parse_cases text with ⟨k, hk, -⟩ | ⟨n, hn, -, hhigh, -⟩ | ⟨cause, -, hparse⟩
    · have hlarge := hnone _ hk
      omega
    · have hlarge := hnone n hn
      omega
    · exact ⟨cause, _, hparse, rfl⟩

theorem toNat_toByte (key : Key) : key.toByte.toNat = key.val := by
  rw [toByte, UInt8.toNat_ofNat']
  omega

theorem ofByte_toByte (key : Key) : ofByte key.toByte = key := by
  apply Fin.ext
  change key.toByte.toNat % 16 = key.val
  rw [toNat_toByte]
  omega

/-- A text is accepted as a key just when the number that it spells is one, and the key
that is held for it is that one. A number that is a byte but no key is refused in one
way, and everything else in another. -/
theorem parse_accepts_marked_numerals (text : String) :
    (∀ key : Key, parse text = .ok key ↔ Spells text key.val) ∧
    (∀ key, parse text = .ok key →
      key.toByte.toNat ≤ 15 ∧ Spells text (ofByte key.toByte).val) ∧
    (Refused text s!"key {Text.quoted text} is not in 0-f" ↔
      ∃ n, Spells text n ∧ 16 ≤ n ∧ n ≤ 255) ∧
    ((∃ cause : Text.NumeralError,
        Refused text s!"invalid key {Text.quoted text}: {cause.message}") ↔
      ∀ n, Spells text n → 255 < n) ∧
    ∀ n k, Spells text n → Spells text k → n = k := by
  refine ⟨parse_eq_ok_iff text, ?_, refused_noSuchKey_iff text, exists_refused_notByte_iff text,
    fun n k => Spells.unique⟩
  intro key hparse
  rw [ofByte_toByte, toNat_toByte]
  exact ⟨by omega, (parse_eq_ok_iff text key).mp hparse⟩

/-- Marks in a row, a sign and leading zeros do no harm. The first number past the keys
and the first past the bytes are refused differently. -/
theorem parse_accepts_marked_numerals_bounds :
    parse "0x0x+00F" = .ok 15 ∧ Spells "0x0x+00F" (ofByte (toByte 15)).val ∧
    Refused "10" (KeyError.noSuchKey "10").message ∧
    ∃ cause, Refused "100" (KeyError.notByte "100" cause).message := by
  have hkey : Spells "0x0x+00F" 15 :=
    ⟨2, ['+'], ['0', '0', 'F'], rfl, .inr rfl, by decide, [0, 0, 15],
      .cons (by decide) (.cons (by decide) (.cons (by decide) .nil)), rfl⟩
  have hbyte : Spells "10" 16 :=
    ⟨0, [], ['1', '0'], rfl, .inl rfl, by decide, [1, 0],
      .cons (by decide) (.cons (by decide) .nil), rfl⟩
  have hlarge : Spells "100" 256 :=
    ⟨0, [], ['1', '0', '0'], rfl, .inl rfl, by decide, [1, 0, 0],
      .cons (by decide) (.cons (by decide) (.cons (by decide) .nil)), rfl⟩
  obtain ⟨haccepts, hholds, -⟩ := parse_accepts_marked_numerals "0x0x+00F"
  obtain ⟨-, -, hrefuses, -⟩ := parse_accepts_marked_numerals "10"
  obtain ⟨-, -, -, hexceeds, hunique⟩ := parse_accepts_marked_numerals "100"
  have hparse : parse "0x0x+00F" = .ok 15 := (haccepts 15).mpr hkey
  refine ⟨hparse, (hholds 15 hparse).2, ?_, ?_⟩
  · exact hrefuses.mpr ⟨16, hbyte, by decide, by decide⟩
  · apply hexceeds.mpr
    intro n hn
    rw [hunique n 256 hn hlarge]
    decide

end Key

end Chip8
