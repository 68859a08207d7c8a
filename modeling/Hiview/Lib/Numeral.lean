import Mathlib.Data.Nat.Bitwise
import Mathlib.Data.Nat.Digits.Lemmas

/-! Numbers as text: what the standard streams extract from characters, and
decimal output read back by `strtoll`. A string is its list of bytes. -/
namespace Hiview.Numeral
open List

/-- The bytes of an ASCII literal. -/
def ascii (text : String) : List UInt8 := text.toList.map fun char => UInt8.ofNat char.toNat

def isSpace (char : UInt8) : Bool := char = 32 || (9 ≤ char && char ≤ 13)

def digit (base : Nat) (char : UInt8) : Option Nat :=
  let code := char.toNat
  let value :=
    if 48 ≤ code ∧ code ≤ 57 then code - 48
    else if 97 ≤ code ∧ code ≤ 102 then code - 87
    else if 65 ≤ code ∧ code ≤ 70 then code - 55
    else base
  if value < base then some value else none

/-- The digits a text starts with. -/
def digits (base : Nat) : List UInt8 → List Nat
  | [] => []
  | char :: rest => match digit base char with
    | some value => value :: digits base rest
    | none => []

def number (base : Nat) (digits : List Nat) : Nat :=
  digits.foldl (fun high low => base * high + low) 0

/-- The sign before a number, if any, and what follows it. -/
def sign : List UInt8 → Bool × List UInt8
  | 45 :: rest => (true, rest)
  | 43 :: rest => (false, rest)
  | text => (false, text)

/-- Hexadecimal input may announce its base. -/
def announced (base : Nat) : List UInt8 → List UInt8
  | 48 :: char :: rest => if base = 16 ∧ (char = 120 ∨ char = 88) then rest else 48 :: char :: rest
  | text => text

/-- Formatted extraction of an integer: sign and magnitude, or nothing when no
digit is found. -/
def extract (base : Nat) (text : List UInt8) : Option (Bool × Nat) :=
  let (negative, rest) := sign (text.dropWhile isSpace)
  match digits base (announced base rest) with
  | [] => none
  | found => some (negative, number base found)

/-- What is stored in an unsigned variable of `width` bits: zero when nothing
was extracted, the maximum on overflow, and a negated number modulo the width. -/
def toUnsigned (width : Nat) : Option (Bool × Nat) → Nat
  | none => 0
  | some (negative, magnitude) =>
    if magnitude ≥ 2 ^ width then 2 ^ width - 1
    else if negative then (2 ^ width - magnitude) % 2 ^ width
    else magnitude

/-- What is stored in a signed variable of `width` bits: zero when nothing was
extracted, the nearest value on overflow. -/
def toSigned (width : Nat) : Option (Bool × Nat) → Int
  | none => 0
  | some (negative, magnitude) =>
    let value : Int := if negative then -magnitude else magnitude
    max (-2 ^ (width - 1)) (min value (2 ^ (width - 1) - 1))

example : toUnsigned 32 (extract 16 (ascii " 0x1Fz")) = 31 := by decide
example : toUnsigned 64 (extract 10 (ascii "-1")) = 2 ^ 64 - 1 := by decide

/-- The character of a decimal digit. -/
def figure (value : Nat) : UInt8 := UInt8.ofNat (48 + value)

/-- A number in decimal, without leading zeros. -/
def decimal (num : Nat) : List UInt8 :=
  if num = 0 then [48] else (Nat.digits 10 num).reverse.map figure

def toString (num : Int) : List UInt8 :=
  if num < 0 then 45 :: decimal num.natAbs else decimal num.natAbs

/-- The character of a hexadecimal digit, as the standard streams print it. -/
def hexFigure (value : Nat) : UInt8 := UInt8.ofNat (if value < 10 then 48 + value else 87 + value)

/-- A number in hexadecimal, without leading zeros. -/
def hexadecimal (num : Nat) : List UInt8 :=
  if num = 0 then [48] else (Nat.digits 16 num).reverse.map hexFigure

/-- A magnitude whose base is announced as in a program text. -/
def literal : List UInt8 → Nat
  | 48 :: char :: rest =>
    if char = 120 ∨ char = 88 then number 16 (digits 16 rest) else number 8 (digits 8 (char :: rest))
  | text => number 10 (digits 10 text)

/-- The nearest value of a signed type of 64 bits. -/
def clamp (num : Int) : Int := max (-9223372036854775808) (min num 9223372036854775807)

/-- `strtoll` in base 0 on a string that ends with its first zero byte. -/
def strtoll (text : List UInt8) : Int :=
  let signed := sign ((text.takeWhile (· ≠ 0)).dropWhile isSpace)
  clamp (if signed.1 then -(literal signed.2 : Int) else literal signed.2)

/-- The minus before a number, if any, and what follows it. -/
def minus : List UInt8 → Bool × List UInt8
  | 45 :: rest => (true, rest)
  | text => (false, text)

/-- The value, if a signed type of so many bits has it. -/
def signedRange (width : Nat) (value : Int) : Option Int :=
  if -2 ^ (width - 1) ≤ value ∧ value ≤ 2 ^ (width - 1) - 1 then some value else none

/-- `std::from_chars` in base ten to a signed type of so many bits. -/
def fromChars (width : Nat) (text : List UInt8) : Option Int :=
  let (negative, rest) := minus text
  match digits 10 rest with
  | [] => none
  | found => signedRange width (if negative then -number 10 found else number 10 found)

theorem signedRange_wider (order : width ≤ wider) (inside : signedRange width num = some value) :
    signedRange wider num = some value := by
  have power : (2 : Int) ^ (width - 1) ≤ 2 ^ (wider - 1) := by
    exact_mod_cast Nat.pow_le_pow_right (by decide) (Nat.sub_le_sub_right order 1)
  rw [signedRange] at inside ⊢
  split at inside
  · case isTrue both =>
    rw [if_pos ⟨by omega, by omega⟩]
    exact inside
  · cases inside

theorem fromChars_wider (order : width ≤ wider) (read : fromChars width text = some value) :
    fromChars wider text = some value := by
  simp only [fromChars] at read ⊢
  split at read
  · cases read
  · exact signedRange_wider order read

theorem toNat_figure (small : value < 10) : (figure value).toNat = 48 + value := by
  rw [figure, UInt8.toNat_ofNat', Nat.mod_eq_of_lt (by omega)]

theorem digits_figures (small : ∀ value ∈ values, value < 10) :
    digits 10 (values.map figure) = values := by
  induction values with
  | nil => rfl
  | cons value rest ih =>
    rw [forall_mem_cons] at small
    have decoded : digit 10 (figure value) = some value := by
      have inside : 48 ≤ 48 + value ∧ 48 + value ≤ 57 := by omega
      simp only [digit, toNat_figure small.1, if_pos inside, Nat.add_sub_cancel_left,
        if_pos small.1]
    rw [map_cons, digits, decoded]
    exact congrArg _ (ih small.2)

theorem number_reverse (base : Nat) (values : List Nat) :
    number base values.reverse = Nat.ofDigits base values := by
  induction values with
  | nil => rfl
  | cons value rest ih =>
    rw [number, foldl_reverse] at ih
    rw [number, foldl_reverse, foldr_cons, ih, Nat.ofDigits_cons, Nat.add_comm]

/-- The digits of a number from the first one on, which is not zero. -/
theorem digits_cons {base : Nat} (large : 1 < base) (positive : num ≠ 0) :
    ∃ value rest, (Nat.digits base num).reverse = value :: rest ∧ value ≠ 0 ∧
      (∀ digit ∈ value :: rest, digit < base) ∧ number base (value :: rest) = num := by
  have leading := Nat.getLast_digit_ne_zero base positive
  cases shape : (Nat.digits base num).reverse with
  | nil =>
    rw [reverse_eq_nil_iff, Nat.digits_eq_nil_iff_eq_zero] at shape
    exact absurd shape positive
  | cons value rest =>
    refine ⟨value, rest, rfl, ?_, ?_, ?_⟩
    · rw [getLast_eq_head_reverse] at leading
      simpa only [shape, head_cons] using leading
    · rw [← shape]
      exact fun digit member => Nat.digits_lt_base large (mem_reverse.mp member)
    · rw [← shape, number_reverse, Nat.ofDigits_digits]

theorem decimal_eq (positive : num ≠ 0) : ∃ value rest, value ≠ 0 ∧ value < 10 ∧
    (∀ digit ∈ rest, digit < 10) ∧ decimal num = figure value :: rest.map figure ∧
    number 10 (value :: rest) = num := by
  obtain ⟨value, rest, shape, leading, small, total⟩ := digits_cons (show 1 < 10 by decide) positive
  rw [forall_mem_cons] at small
  refine ⟨value, rest, leading, small.1, small.2, ?_, total⟩
  rw [decimal, if_neg positive, shape, map_cons]

theorem literal_decimal (num : Nat) : literal (decimal num) = num := by
  by_cases zero : num = 0
  · subst zero
    decide
  · obtain ⟨value, rest, nonzero, small, others, text, total⟩ := decimal_eq zero
    have all : ∀ digit ∈ value :: rest, digit < 10 := forall_mem_cons.mpr ⟨small, others⟩
    have first : figure value ≠ 48 := by
      intro same
      have code := toNat_figure small
      rw [same] at code
      exact nonzero (Nat.add_left_cancel (code.symm.trans rfl))
    rw [text, literal]
    · rw [← map_cons, digits_figures all, total]
    · intro char tail same
      exact absurd (List.cons.inj same).1 first

theorem decimal_chars (num : Nat) : ∀ char ∈ decimal num, 48 ≤ char.toNat ∧ char.toNat ≤ 57 := by
  by_cases zero : num = 0
  · rw [decimal, if_pos zero, forall_mem_singleton]
    decide
  · obtain ⟨value, rest, -, small, others, text, -⟩ := decimal_eq zero
    rw [text, ← map_cons, forall_mem_map]
    have all : ∀ digit ∈ value :: rest, digit < 10 := forall_mem_cons.mpr ⟨small, others⟩
    intro digit member
    have bound := all digit member
    rw [toNat_figure bound]
    omega

theorem minus_notMem_decimal (num : Nat) : 45 ∉ decimal num :=
  fun member => absurd (decimal_chars num 45 member).1 (by decide)

theorem decimal_cons (num : Nat) : ∃ char rest, decimal num = char :: rest ∧ 48 ≤ char.toNat := by
  have chars := decimal_chars num
  cases shape : decimal num with
  | nil =>
    by_cases zero : num = 0
    · subst zero
      cases shape
    · obtain ⟨value, rest, -, -, -, text, -⟩ := decimal_eq zero
      rw [text] at shape
      cases shape
  | cons char rest =>
    rw [shape, forall_mem_cons] at chars
    exact ⟨char, rest, rfl, chars.1.1⟩

theorem ne_of_toNat (large : 48 ≤ char.toNat) (small : code < 48) : char ≠ UInt8.ofNat code := by
  intro same
  rw [same, UInt8.toNat_ofNat', Nat.mod_eq_of_lt (by omega)] at large
  omega

theorem isSpace_of_large (large : 48 ≤ char.toNat) : isSpace char = false := by
  have above : ¬ char ≤ 13 := by
    exact fun low => absurd (Nat.le_trans large low) (by decide)
  have other : char ≠ 32 := ne_of_toNat large (show 32 < 48 by decide)
  rw [isSpace, decide_eq_false other, decide_eq_false above, Bool.and_false, Bool.or_false]

theorem sign_plain (rest : List UInt8) (large : 48 ≤ char.toNat) :
    sign ((char :: rest).dropWhile isSpace) = (false, char :: rest) := by
  rw [dropWhile_cons, isSpace_of_large large, if_neg Bool.false_ne_true, sign]
  · intro tail same
    exact ne_of_toNat large (show 45 < 48 by decide) (List.cons.inj same).1
  · intro tail same
    exact ne_of_toNat large (show 43 < 48 by decide) (List.cons.inj same).1

theorem sign_toString (num : Int) :
    sign ((toString num).dropWhile isSpace) = (decide (num < 0), decimal num.natAbs) := by
  obtain ⟨char, rest, text, large⟩ := decimal_cons num.natAbs
  by_cases negative : num < 0
  · rw [toString, if_pos negative, decide_eq_true negative]
    rfl
  · rw [toString, if_neg negative, decide_eq_false negative, text, sign_plain rest large]

theorem strtoll_toString (low : -9223372036854775808 ≤ num) (high : num ≤ 9223372036854775807) (rest : List UInt8) :
    strtoll (toString num ++ 0 :: rest) = num := by
  have clean : ∀ char ∈ toString num, decide (char ≠ 0) = true := by
    have plain : ∀ char ∈ decimal num.natAbs, decide (char ≠ 0) = true := fun char member =>
      decide_eq_true (ne_of_toNat (decimal_chars _ char member).1 (show 0 < 48 by decide))
    rw [toString]
    split
    · exact forall_mem_cons.mpr ⟨by decide, plain⟩
    · exact plain
  rw [strtoll, takeWhile_append_of_pos clean, takeWhile_cons_of_neg (by decide), append_nil]
  simp only [sign_toString, literal_decimal, clamp]
  by_cases negative : num < 0
  · rw [decide_eq_true negative, if_pos rfl]
    omega
  · rw [decide_eq_false negative, if_neg Bool.false_ne_true]
    omega

theorem announced_ten (text : List UInt8) : announced 10 text = text := by
  unfold announced
  split
  · rw [if_neg (fun both => absurd both.1 (by decide))]
  · rfl

theorem extract_toString (num : Int) :
    extract 10 (toString num) = some (decide (num < 0), num.natAbs) := by
  have found : number 10 (digits 10 (decimal num.natAbs)) = num.natAbs ∧
      digits 10 (decimal num.natAbs) ≠ [] := by
    by_cases zero : num.natAbs = 0
    · rw [zero]
      decide
    · obtain ⟨value, rest, -, small, others, text, total⟩ := decimal_eq zero
      have all : ∀ digit ∈ value :: rest, digit < 10 := forall_mem_cons.mpr ⟨small, others⟩
      rw [text, ← map_cons, digits_figures all]
      exact ⟨total, cons_ne_nil _ _⟩
  simp only [extract, sign_toString, announced_ten]
  split
  · rename_i none
    exact absurd none found.2
  · rw [found.1]

theorem toNat_hexFigure (small : value < 16) :
    (hexFigure value).toNat = if value < 10 then 48 + value else 87 + value := by
  rw [hexFigure, UInt8.toNat_ofNat', Nat.mod_eq_of_lt (by split <;> omega)]

theorem digit_hexFigure (small : value < 16) : digit 16 (hexFigure value) = some value := by
  rw [digit, toNat_hexFigure small]
  by_cases decimal : value < 10
  · have inside : 48 ≤ 48 + value ∧ 48 + value ≤ 57 := by omega
    simp only [if_pos decimal, if_pos inside, Nat.add_sub_cancel_left, if_pos small]
  · have outside : ¬ (48 ≤ 87 + value ∧ 87 + value ≤ 57) := by omega
    have inside : 97 ≤ 87 + value ∧ 87 + value ≤ 102 := by omega
    simp only [if_neg decimal, if_neg outside, if_pos inside, Nat.add_sub_cancel_left, if_pos small]

theorem digits_hexFigures (small : ∀ value ∈ values, value < 16) :
    digits 16 (values.map hexFigure) = values := by
  induction values with
  | nil => rfl
  | cons value rest ih =>
    rw [forall_mem_cons] at small
    rw [map_cons, digits, digit_hexFigure small.1]
    exact congrArg _ (ih small.2)

theorem hexFigure_plain (small : value < 16) : 48 ≤ (hexFigure value).toNat ∧
    (hexFigure value).toNat ≠ 120 ∧ (hexFigure value).toNat ≠ 88 := by
  rw [toNat_hexFigure small]
  split <;> omega

theorem extract_hexadecimal (num : Nat) : extract 16 (hexadecimal num) = some (false, num) := by
  by_cases zero : num = 0
  · subst zero
    decide
  · obtain ⟨value, rest, shape, -, small, total⟩ := digits_cons (show 1 < 16 by decide) zero
    have read := digits_hexFigures small
    rw [hexadecimal, if_neg zero, shape]
    have plain := hexFigure_plain (small value mem_cons_self)
    have bare : announced 16 ((value :: rest).map hexFigure) = (value :: rest).map hexFigure := by
      cases rest with
      | nil =>
        rw [map_cons, map_nil, announced]
        intro char tail same
        cases (List.cons.inj same).2
      | cons second tail =>
        have next := hexFigure_plain (small second (mem_cons_of_mem _ mem_cons_self))
        rw [map_cons, map_cons, announced.eq_def]
        split
        · rename_i char after same
          obtain ⟨first, others⟩ := List.cons.inj same
          obtain ⟨rfl, rfl⟩ := List.cons.inj others
          rw [if_neg]
          · rw [first]
          · rintro ⟨-, letter | letter⟩
            · exact next.2.1 (by rw [letter]; rfl)
            · exact next.2.2 (by rw [letter]; rfl)
        · rfl
    rw [map_cons] at bare read ⊢
    simp only [extract, sign_plain _ plain.1, bare, read, total]

theorem digits_zeros (count : Nat) (text : List UInt8) :
    digits 10 (List.replicate count 48 ++ text) = List.replicate count 0 ++ digits 10 text := by
  induction count with
  | zero => rfl
  | succ count ih =>
    rw [replicate_succ, replicate_succ, cons_append, cons_append, digits, ← ih]
    rfl

theorem number_zeros (count : Nat) (values : List Nat) :
    number 10 (List.replicate count 0 ++ values) = number 10 values := by
  induction count with
  | zero => rfl
  | succ count ih =>
    rw [← ih, replicate_succ, cons_append]
    rfl

theorem extract_padded (count num : Nat) :
    extract 10 (List.replicate count 48 ++ decimal num) = some (false, num) := by
  have plain := extract_toString (num : Int)
  have nonneg : ¬ ((num : Int) < 0) := by omega
  have text : toString (num : Int) = decimal num := by
    rw [toString, if_neg nonneg, Int.natAbs_natCast]
  rw [text, Int.natAbs_natCast, decide_eq_false nonneg] at plain
  cases count with
  | zero => exact plain
  | succ count =>
    obtain ⟨char, rest, shape, large⟩ := decimal_cons num
    rw [shape] at plain
    simp only [extract, sign_plain rest large, announced_ten] at plain
    rw [shape, replicate_succ, cons_append]
    simp only [extract, sign_plain _ (show 48 ≤ (48 : UInt8).toNat by decide), announced_ten]
    have total : number 10 (digits 10 (char :: rest)) = num := by
      split at plain
      · cases plain
      · cases Option.some.inj plain
        rfl
    have padded := number_zeros (count + 1) (digits 10 (char :: rest))
    rw [replicate_succ, cons_append] at padded
    rw [← cons_append, ← replicate_succ, digits_zeros, replicate_succ, cons_append]
    simp only [padded, total]

example : strtoll (toString 1234 ++ [0, 57, 57]) = 1234 := by decide

theorem toNat_toUInt64 {val : Int64} (nonneg : 0 ≤ val.toInt) : (val.toUInt64.toNat : Int) = val.toInt := by
  have word : val.toUInt64.toNat = val.toBitVec.toNat := rfl
  have value : val.toInt = val.toBitVec.toInt := rfl
  rw [value, BitVec.toInt_eq_toNat_cond] at nonneg ⊢
  rw [word]
  split at nonneg
  · case isTrue low => rw [if_pos low]
  · omega

end Hiview.Numeral
