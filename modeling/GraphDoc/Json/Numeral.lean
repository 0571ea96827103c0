import GraphDoc.Json.Scan

/-!
# Numerals

A numeral without fraction and exponent that fits in 64 bits is an integer; every other one is a
float. Of the digits of a float only those that fit in a word of 64 bits are kept. The digits before
the point that do not fit count as powers of ten, those after it are passed over.
-/
namespace GraphDoc.Json

def digitValue (c : Char) : Nat := c.toNat - '0'.toNat

def greatestWord : Nat := 18446744073709551615

/-- The greatest power of ten that an exponent is read to. -/
def greatestExponent : Nat := 2147483647

/-- The number reached by appending digits, how many were appended, and what is left. -/
structure DigitRun where
  value : Nat
  taken : Nat
  rest : List Char

/-- Appends digits to `n` while it stays within `bound`. -/
def takeDigits (bound n : Nat) : List Char → DigitRun
  | [] => ⟨n, 0, []⟩
  | c :: rest =>
    if c.isDigit ∧ n * 10 + digitValue c ≤ bound then
      let run := takeDigits bound (n * 10 + digitValue c) rest
      { run with taken := run.taken + 1 }
    else ⟨n, 0, c :: rest⟩

theorem length_takeDigits_le (bound n : Nat) (text : List Char) :
    (takeDigits bound n text).rest.length ≤ text.length := by
  induction text generalizing n with
  | nil => exact Nat.le_refl _
  | cons c text ih =>
    rw [takeDigits]
    split
    · exact Nat.le_succ_of_le (ih _)
    · exact Nat.le_refl _

def skipDigits (text : List Char) : List Char := text.dropWhile Char.isDigit

theorem length_skipDigits_le (text : List Char) : (skipDigits text).length ≤ text.length :=
  (List.dropWhile_sublist Char.isDigit).length_le

def startsWithDigit : List Char → Bool
  | [] => false
  | c :: _ => c.isDigit

/-- The float `digits · 10 ^ exponent`, unless it is too large. -/
def floatNumeral (negative : Bool) (digits : Nat) (exponent : Int) (rest : List Char) :
    Scan JsonNumber :=
  match Binary64.ofDecimal digits exponent with
  | some magnitude => .ok (.float negative magnitude, rest)
  | none => .error (.here .numberOutOfRange rest)

/-- An exponent after its sign. -/
def exponentDigits (negative : Bool) (digits : Nat) (exponent : Int) (down : Bool) :
    List Char → Scan JsonNumber
  | [] => .error (.here .endInValue [])
  | c :: rest =>
    if ¬ c.isDigit then .error (.next .invalidNumber (c :: rest))
    else
      let power := takeDigits greatestExponent (digitValue c) rest
      if startsWithDigit power.rest then
        if digits ≠ 0 ∧ ¬ down then .error (.here .numberOutOfRange (power.rest.drop 1))
        else .ok (.float negative .zero, skipDigits power.rest)
      else
        floatNumeral negative digits
          (if down then exponent - power.value else exponent + power.value) power.rest

/-- The rest of a float after its fraction. -/
def exponentPart (negative : Bool) (digits : Nat) (exponent : Int) (text : List Char) :
    Scan JsonNumber :=
  match text with
  | [] => floatNumeral negative digits exponent []
  | c :: rest =>
    if c = 'e' ∨ c = 'E' then
      match rest with
      | [] => .error (.here .endInValue [])
      | sign :: digitsText =>
        if sign = '+' then exponentDigits negative digits exponent false digitsText
        else if sign = '-' then exponentDigits negative digits exponent true digitsText
        else exponentDigits negative digits exponent false rest
    else floatNumeral negative digits exponent (c :: rest)

/-- The rest of a float after the digits before its point. -/
def fractionPart (negative : Bool) (digits : Nat) (exponent : Int) (text : List Char) :
    Scan JsonNumber :=
  match text with
  | [] => floatNumeral negative digits exponent []
  | c :: rest =>
    if c = '.' then
      if startsWithDigit rest then
        let fraction := takeDigits greatestWord digits rest
        exponentPart negative fraction.value (exponent - fraction.taken) (skipDigits fraction.rest)
      else if rest.isEmpty then .error (.here .endInValue [])
      else .error (.next .invalidNumber rest)
    else exponentPart negative digits exponent (c :: rest)

/-- The number that an integer numeral stands for: a negative zero, or a negative number below the
64-bit range, is a float. -/
def integerNumeral (negative : Bool) (n : Nat) (rest : List Char) : Scan JsonNumber :=
  if ¬ negative then .ok (.integer n, rest)
  else if n = 0 ∨ n > 9223372036854775808 then floatNumeral true n 0 rest
  else .ok (.integer (-n), rest)

/-- A numeral after its first digits, which all fit in a word. -/
def numeralTail (negative : Bool) (n : Nat) (text : List Char) : Scan JsonNumber :=
  match text with
  | [] => integerNumeral negative n []
  | c :: rest =>
    if c = '.' ∨ c = 'e' ∨ c = 'E' then fractionPart negative n 0 (c :: rest)
    else integerNumeral negative n (c :: rest)

/-- A numeral after its sign. A leading zero stands alone. -/
def numeral (negative : Bool) : List Char → Scan JsonNumber
  | [] => .error (.here .endInValue [])
  | c :: rest =>
    if c = '0' then
      if startsWithDigit rest then .error (.next .invalidNumber rest)
      else numeralTail negative 0 rest
    else if c.isDigit then
      let whole := takeDigits greatestWord (digitValue c) rest
      if startsWithDigit whole.rest then
        let after := skipDigits whole.rest
        fractionPart negative whole.value (whole.rest.length - after.length : Nat) after
      else numeralTail negative whole.value whole.rest
    else .error (.next .invalidNumber (c :: rest))

/-! ## A numeral leaves less than it was given -/

theorem rest_of_floatNumeral {negative : Bool} {digits : Nat} {exponent : Int}
    {text rest : List Char} {n : JsonNumber}
    (h : floatNumeral negative digits exponent text = .ok (n, rest)) : rest = text := by
  unfold floatNumeral at h
  split at h
  · exact (Prod.mk.inj (Except.ok.inj h)).2.symm
  · cases h

theorem length_lt_of_exponentDigits {negative down : Bool} {digits : Nat} {exponent : Int}
    {text rest : List Char} {n : JsonNumber}
    (h : exponentDigits negative digits exponent down text = .ok (n, rest)) :
    rest.length < text.length := by
  cases text with
  | nil => cases h
  | cons c text =>
    have taken := length_takeDigits_le greatestExponent (digitValue c) text
    rw [exponentDigits] at h
    split at h
    · cases h
    · simp only at h
      split at h
      · split at h
        · cases h
        · obtain ⟨_, rfl⟩ := Prod.mk.inj (Except.ok.inj h)
          have := length_skipDigits_le (takeDigits greatestExponent (digitValue c) text).rest
          simp only [List.length_cons]
          omega
      · rw [rest_of_floatNumeral h]
        simp only [List.length_cons]
        omega

theorem length_le_of_exponentPart {negative : Bool} {digits : Nat} {exponent : Int}
    {text rest : List Char} {n : JsonNumber}
    (h : exponentPart negative digits exponent text = .ok (n, rest)) :
    rest.length ≤ text.length := by
  unfold exponentPart at h
  split at h
  · exact Nat.le_of_eq (congrArg List.length (rest_of_floatNumeral h))
  · split at h
    · split at h
      · cases h
      · split at h
        · have := length_lt_of_exponentDigits h
          simp only [List.length_cons]
          omega
        · split at h
          · have := length_lt_of_exponentDigits h
            simp only [List.length_cons]
            omega
          · have := length_lt_of_exponentDigits h
            simp only [List.length_cons] at this ⊢
            omega
    · exact Nat.le_of_eq (congrArg List.length (rest_of_floatNumeral h))

theorem length_le_of_fractionPart {negative : Bool} {digits : Nat} {exponent : Int}
    {text rest : List Char} {n : JsonNumber}
    (h : fractionPart negative digits exponent text = .ok (n, rest)) :
    rest.length ≤ text.length := by
  unfold fractionPart at h
  split at h
  · exact Nat.le_of_eq (congrArg List.length (rest_of_floatNumeral h))
  · rename_i c text'
    split at h
    · split at h
      · have taken := length_takeDigits_le greatestWord digits text'
        have skipped := length_skipDigits_le (takeDigits greatestWord digits text').rest
        have := length_le_of_exponentPart h
        simp only [List.length_cons]
        omega
      · split at h <;> cases h
    · exact length_le_of_exponentPart h

theorem rest_of_integerNumeral {negative : Bool} {k : Nat} {text rest : List Char} {n : JsonNumber}
    (h : integerNumeral negative k text = .ok (n, rest)) : rest = text := by
  unfold integerNumeral at h
  split at h
  · exact (Prod.mk.inj (Except.ok.inj h)).2.symm
  · split at h
    · exact rest_of_floatNumeral h
    · exact (Prod.mk.inj (Except.ok.inj h)).2.symm

theorem length_le_of_numeralTail {negative : Bool} {k : Nat} {text rest : List Char}
    {n : JsonNumber} (h : numeralTail negative k text = .ok (n, rest)) :
    rest.length ≤ text.length := by
  unfold numeralTail at h
  split at h
  · exact Nat.le_of_eq (congrArg List.length (rest_of_integerNumeral h))
  · split at h
    · exact length_le_of_fractionPart h
    · exact Nat.le_of_eq (congrArg List.length (rest_of_integerNumeral h))

theorem length_lt_of_numeral {negative : Bool} {text rest : List Char} {n : JsonNumber}
    (h : numeral negative text = .ok (n, rest)) : rest.length < text.length := by
  cases text with
  | nil => cases h
  | cons c text =>
    rw [numeral] at h
    simp only [List.length_cons]
    split at h
    · split at h
      · cases h
      · have := length_le_of_numeralTail h
        omega
    · split at h
      · have taken := length_takeDigits_le greatestWord (digitValue c) text
        simp only at h
        split at h
        · have := length_skipDigits_le (takeDigits greatestWord (digitValue c) text).rest
          have := length_le_of_fractionPart h
          omega
        · have := length_le_of_numeralTail h
          omega
      · cases h

end GraphDoc.Json
