import DialogScript.Json.Printer
import DialogScript.Json.Reader
import Mathlib.Algebra.Group.Nat.Defs

/-! Reading a printed string or whole number gives it back. -/

namespace DialogScript

theorem hexValue?_hexDigit : ∀ n < 16, hexValue? (hexDigit n) = some n := by decide

namespace Json

namespace Quoted

theorem readHex_digits (h : n < 0x20) (rest : Text) :
    readHex ('0' :: '0' :: hexDigit (n / 16) :: hexDigit (n % 16) :: rest) = .ok (n, rest) := by
  have hzero : hexValue? '0' = some 0 := by decide
  have hhigh := hexValue?_hexDigit (n / 16) (by omega)
  have hlow := hexValue?_hexDigit (n % 16) (by omega)
  simp only [readHex, hzero, hhigh, hlow]
  congr 2
  omega

theorem readUnit_digits (strict : Bool) (h : n < 0x20) (rest : Text) :
    readUnit strict ('0' :: '0' :: hexDigit (n / 16) :: hexDigit (n % 16) :: rest) =
      .ok (some (Char.ofNat n), rest) := by
  have hhigh : isHigh n = false := by
    rw [isHigh, Bool.and_eq_false_iff]
    exact .inl (decide_eq_false (by omega))
  have hlow : isLow n = false := by
    rw [isLow, Bool.and_eq_false_iff]
    exact .inl (decide_eq_false (by omega))
  rw [readUnit, readHex_digits h]
  simp [bind, Except.bind, hhigh, hlow]

theorem read_backslash (strict : Bool) (fuel : Nat) (text : Text)
    (h : readEscape strict text = .ok (some c, rest))
    (hread : read strict fuel rest = .ok (some found, left)) :
    read strict (fuel + 1) ('\\' :: text) = .ok (some (c :: found), left) := by
  rw [read, h]
  simp [bind, Except.bind, hread]

theorem read_plain (strict : Bool) (fuel : Nat) (hquote : c ≠ '"') (hslash : c ≠ '\\')
    (hcontrol : ¬ c.toNat < 0x20) (hread : read strict fuel rest = .ok (some found, left)) :
    read strict (fuel + 1) (c :: rest) = .ok (some (c :: found), left) := by
  rw [read.eq_5 _ _ _ _ hquote hslash, if_neg hcontrol, hread]
  rfl

/-- A character is read back from the way it is written. -/
theorem read_escape (strict : Bool) (fuel : Nat) (c : Char)
    (hread : read strict fuel rest = .ok (some found, left)) :
    read strict (fuel + 1) (escape c ++ rest) = .ok (some (c :: found), left) := by
  fun_cases escape c with
  | case1 | case2 | case3 | case4 | case5 | case6 | case7 =>
    subst_vars
    exact read_backslash strict fuel _ rfl hread
  | case8 _ _ _ _ _ _ _ hcontrol =>
    have hunit := readUnit_digits strict hcontrol rest
    rw [Char.ofNat_toNat] at hunit
    exact read_backslash strict fuel _ hunit hread
  | case9 hquote hslash _ _ _ _ _ hcontrol =>
    exact read_plain strict fuel hquote hslash hcontrol hread

theorem read_printed (strict : Bool) (text rest : Text) (h : text.length < fuel) :
    read strict fuel (text.flatMap escape ++ '"' :: rest) = .ok (some text, rest) := by
  induction text generalizing fuel with
  | nil =>
    cases fuel with
    | zero => cases h
    | succ fuel => rfl
  | cons c text ih =>
    cases fuel with
    | zero => cases h
    | succ fuel =>
      rw [List.flatMap_cons, List.append_assoc]
      exact read_escape strict fuel c (ih (Nat.lt_of_succ_lt_succ h))

end Quoted

theorem escape_ne_nil (c : Char) : escape c ≠ [] := by
  fun_cases escape c <;> exact List.cons_ne_nil _ _

theorem length_le_length_flatMap_escape (text : Text) :
    text.length ≤ (text.flatMap escape).length := by
  induction text with
  | nil => exact Nat.le_refl 0
  | cons c text ih =>
    have hc := List.length_pos_iff.2 (escape_ne_nil c)
    rw [List.flatMap_cons, List.length_append, List.length_cons]
    omega

/-- A printed string is read back from behind its opening quote. -/
theorem readString_printed (strict : Bool) (text rest : Text) :
    readString strict (text.flatMap escape ++ '"' :: rest) = .ok (some text, rest) := by
  apply Quoted.read_printed
  have hlength := length_le_length_flatMap_escape text
  rw [List.length_append, List.length_cons]
  omega

namespace Number

/-- The value of a decimal digit. -/
def digit (c : Char) : Nat := c.toNat - '0'.toNat

theorem spanDigits_append {digits rest : Text} (hdigits : ∀ c ∈ digits, c.isDigit)
    (hrest : ∀ c ∈ rest.head?, ¬ c.isDigit) :
    spanDigits (digits ++ rest) = (digits.map digit, rest) := by
  induction digits with
  | nil =>
    cases rest with
    | nil => rfl
    | cons c rest =>
      rw [List.nil_append, spanDigits, if_neg (hrest c rfl)]
      rfl
  | cons c digits ih =>
    rw [List.forall_mem_cons] at hdigits
    rw [List.cons_append, spanDigits, if_pos hdigits.1, ih hdigits.2]
    rfl

end Number

theorem appendDigits_of_lt {digits : Text} (h : Nat.ofDigitChars 10 digits acc < bound) :
    appendDigits bound acc (digits.map Number.digit) = (Nat.ofDigitChars 10 digits acc, []) := by
  induction digits generalizing acc with
  | nil => rfl
  | cons c digits ih =>
    rw [Nat.ofDigitChars_cons, Nat.mul_comm] at h
    have hle : acc * 10 + Number.digit c ≤
        Nat.ofDigitChars 10 digits (acc * 10 + Number.digit c) := by
      rw [Nat.ofDigitChars_eq_ofDigitChars_zero]
      have hpos : 0 < 10 ^ digits.length := Nat.pow_pos (by decide)
      exact Nat.le_trans (Nat.le_mul_of_pos_left _ hpos) (Nat.le_add_right _ _)
    rw [List.map_cons, appendDigits, if_pos (Nat.lt_of_le_of_lt hle h), Nat.ofDigitChars_cons,
      Nat.mul_comm 10]
    exact ih h

/-- What may stand behind a value in compact text. -/
def Ends (rest : Text) : Prop := ∀ c ∈ rest.head?, c = ',' ∨ c = ']' ∨ c = '}'

namespace Number

theorem digits_toDigits (n : Nat) : (Nat.toDigits 10 n).map digit ≠ 0 :: d :: rest := by
  induction n using Nat.strongRecOn generalizing d rest with
  | ind n ih =>
    rw [Nat.toDigits_eq_if (by decide)]
    split
    next =>
      intro h
      cases (List.cons_eq_cons.1 h).2
    next hn =>
      have hvalue : Nat.ofDigitChars 10 (Nat.toDigits 10 (n / 10)) 0 = n / 10 :=
        Nat.ofDigitChars_ten_toDigits
      intro h
      match hdigits : Nat.toDigits 10 (n / 10), h with
      | [], _ => exact Nat.toDigits_ne_nil hdigits
      | [c], h =>
        have hzero : digit c = 0 := (List.cons_eq_cons.1 h).1
        rw [hdigits, Nat.ofDigitChars_cons, Nat.ofDigitChars_nil] at hvalue
        change 10 * 0 + digit c = n / 10 at hvalue
        omega
      | c :: d' :: more, h =>
        have hzero : digit c = 0 := (List.cons_eq_cons.1 h).1
        have hmore : (Nat.toDigits 10 (n / 10)).map digit = 0 :: digit d' :: more.map digit := by
          rw [hdigits, List.map_cons, List.map_cons, hzero]
        exact ih (n / 10) (by omega) hmore

theorem isDigit_toDigits (n : Nat) : ∀ c ∈ Nat.toDigits 10 n, c.isDigit = true := by
  intro c hc
  exact Nat.isDigit_of_mem_toDigits (by decide) (by decide) hc

theorem readWhole_toDigits (n : Nat) (hrest : ∀ c ∈ rest.head?, ¬ c.isDigit) :
    readWhole (Nat.toDigits 10 n ++ rest) = .ok ((Nat.toDigits 10 n).map digit, rest) := by
  have hspan := spanDigits_append (isDigit_toDigits n) hrest
  have hread : readDigits (Nat.toDigits 10 n ++ rest) =
      .ok ((Nat.toDigits 10 n).map digit, rest) := by
    rw [readDigits, hspan]
    split
    next h => exact (Nat.toDigits_ne_nil (List.map_eq_nil_iff.1 (Prod.mk.inj h).1)).elim
    next => rfl
  rw [readWhole, hread]
  split
  next h => exact (digits_toDigits n (Prod.mk.inj (Except.ok.inj h)).1).elim
  next => rfl

end Number

theorem Ends.not_isDigit (h : Ends rest) : ∀ c ∈ rest.head?, ¬ c.isDigit := by
  intro c hc
  rcases h c hc with rfl | rfl | rfl
  · decide
  · decide
  · decide

theorem Ends.readFraction (h : Ends rest) : Number.readFraction rest = .ok ([], rest) := by
  match rest, h with
  | [], _ => rfl
  | c :: rest, h =>
    rcases h c rfl with rfl | rfl | rfl
    · rfl
    · rfl
    · rfl

theorem Ends.readExponent (h : Ends rest) : Number.readExponent rest = .ok (none, rest) := by
  match rest, h with
  | [], _ => rfl
  | c :: rest, h =>
    rcases h c rfl with rfl | rfl | rfl
    · rfl
    · rfl
    · rfl

/-- The digits of a number of 64 bits are read back from behind its sign. -/
theorem Number.read_toDigits (strict negative : Bool) (hn : n < 2 ^ 64) (hrest : Ends rest) :
    Number.read strict negative (Nat.toDigits 10 n ++ rest) =
      .ok (.number (some (Numeral.whole64 negative n)), rest) := by
  have hvalue : appendDigits (Nat.pow 2 64) 0 ((Nat.toDigits 10 n).map Number.digit) = (n, []) := by
    have hdigits : Nat.ofDigitChars 10 (Nat.toDigits 10 n) 0 = n := Nat.ofDigitChars_ten_toDigits
    rw [appendDigits_of_lt (by rw [hdigits]; exact hn), hdigits]
  have hnumeral : Numeral.value { negative, whole := (Nat.toDigits 10 n).map Number.digit } =
      .ok (Numeral.whole64 negative n) := by
    simp only [Numeral.value, hvalue]
    rfl
  rw [Number.read, Number.readWhole_toDigits n hrest.not_isDigit]
  simp only [bind, Except.bind, hrest.readFraction, hrest.readExponent, hnumeral]

end Json

end DialogScript
