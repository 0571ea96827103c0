import GraphDoc.Json.Numeral

/-!
# Passing over a value

The value of a key that nobody asked for is only checked for its form. It may be nested to any
depth, its numbers may be of any size, and its escapes need not pair up.
-/
namespace GraphDoc.Json

/-! ## Strings and numerals -/

/-- Passes over one character of a string whose next character is `c`. -/
def skipChar (c : Char) (rest : List Char) : Except Failure (List Char) :=
  if c = '\\' then
    match rest with
    | [] => .error (.here .endInString [])
    | d :: after =>
      if d = 'u' then (hexFour after).map (·.2)
      else if (simpleEscape? d).isSome then .ok after
      else .error (.next .invalidEscape (d :: after))
  else if c < ' ' then .error (.here .controlCharacter (c :: rest))
  else .ok rest

theorem length_le_of_skipChar {c : Char} {text rest : List Char} (h : skipChar c text = .ok rest) :
    rest.length ≤ text.length := by
  unfold skipChar at h
  split at h
  · split at h
    · cases h
    · split at h
      · rename_i after _
        cases hex : hexFour after with
        | error => rw [hex] at h; cases h
        | ok p =>
          obtain ⟨n, left⟩ := p
          rw [hex] at h
          cases h
          have := length_lt_of_hexFour hex
          simp only [List.length_cons]
          omega
      · split at h
        · cases h
          simp
        · cases h
  · split at h
    · cases h
    · cases h
      exact Nat.le_refl _

/-- Passes over a string after its opening quote. -/
def skipStringTail : (text : List Char) → Except Failure (List Char)
  | [] => .error (.here .endInString [])
  | c :: rest =>
    if c = '"' then .ok rest
    else
      match _h : skipChar c rest with
      | .error failure => .error failure
      | .ok rest => skipStringTail rest
termination_by text => text.length
decreasing_by
  have := length_le_of_skipChar _h
  simp only [List.length_cons]
  omega

theorem length_lt_of_skipStringTail {text rest : List Char} (h : skipStringTail text = .ok rest) :
    rest.length < text.length := by
  fun_induction skipStringTail text with
  | case1 => cases h
  | case2 => cases h; simp
  | case3 => cases h
  | case4 c text _ text₁ char ih =>
    have := length_le_of_skipChar char
    have := ih h
    simp only [List.length_cons]
    omega

def skipSign : List Char → List Char
  | [] => []
  | c :: rest => if c = '+' ∨ c = '-' then rest else c :: rest

/-- Passes over an exponent after its letter. -/
def skipExponent (text : List Char) : Except Failure (List Char) :=
  if startsWithDigit (skipSign text) then .ok (skipDigits (skipSign text))
  else .error (.next .invalidNumber (skipSign text))

/-- Passes over what follows the fraction, or the digits where there is none. -/
def skipExponentPart : List Char → Except Failure (List Char)
  | [] => .ok []
  | c :: rest => if c = 'e' ∨ c = 'E' then skipExponent rest else .ok (c :: rest)

/-- Passes over what follows the digits before the point. -/
def skipFraction : List Char → Except Failure (List Char)
  | [] => .ok []
  | c :: rest =>
    if c = '.' then
      if startsWithDigit rest then skipExponentPart (skipDigits rest)
      else .error (.next .invalidNumber rest)
    else skipExponentPart (c :: rest)

/-- Passes over a numeral after its sign. -/
def skipNumeral : List Char → Except Failure (List Char)
  | [] => .error (.here .invalidNumber [])
  | c :: rest =>
    if c = '0' then
      if startsWithDigit rest then .error (.next .invalidNumber rest) else skipFraction rest
    else if c.isDigit then skipFraction (skipDigits rest)
    else .error (.next .invalidNumber (c :: rest))

theorem length_skipSign_le (text : List Char) : (skipSign text).length ≤ text.length := by
  cases text with
  | nil => exact Nat.le_refl _
  | cons c text =>
    rw [skipSign]
    split
    · exact Nat.le_succ _
    · exact Nat.le_refl _

theorem length_le_of_skipExponent {text rest : List Char} (h : skipExponent text = .ok rest) :
    rest.length ≤ text.length := by
  unfold skipExponent at h
  split at h
  · cases h
    exact Nat.le_trans (length_skipDigits_le _) (length_skipSign_le text)
  · cases h

theorem length_le_of_skipExponentPart {text rest : List Char}
    (h : skipExponentPart text = .ok rest) : rest.length ≤ text.length := by
  unfold skipExponentPart at h
  split at h
  · cases h
    exact Nat.le_refl _
  · split at h
    · exact Nat.le_succ_of_le (length_le_of_skipExponent h)
    · cases h
      exact Nat.le_refl _

theorem length_le_of_skipFraction {text rest : List Char} (h : skipFraction text = .ok rest) :
    rest.length ≤ text.length := by
  unfold skipFraction at h
  split at h
  · cases h
    exact Nat.le_refl _
  · split at h
    · split at h
      · exact Nat.le_succ_of_le
          (Nat.le_trans (length_le_of_skipExponentPart h) (length_skipDigits_le _))
      · cases h
    · exact length_le_of_skipExponentPart h

theorem length_lt_of_skipNumeral {text rest : List Char} (h : skipNumeral text = .ok rest) :
    rest.length < text.length := by
  cases text with
  | nil => cases h
  | cons c text =>
    rw [skipNumeral] at h
    split at h
    · split at h
      · cases h
      · exact Nat.lt_succ_of_le (length_le_of_skipFraction h)
    · split at h
      · exact Nat.lt_succ_of_le
          (Nat.le_trans (length_le_of_skipFraction h) (length_skipDigits_le text))
      · cases h

/-! ## Values -/

inductive Enclosure where
  | list
  | object
deriving DecidableEq, Repr

namespace Enclosure

def ofOpening? (c : Char) : Option Enclosure :=
  if c = '[' then some list else if c = '{' then some object else none

def closing : Enclosure → Char
  | list => ']'
  | object => '}'

def endCause : Enclosure → Cause
  | list => .endInList
  | object => .endInObject

def commaCause : Enclosure → Cause
  | list => .expectedListCommaOrEnd
  | object => .expectedObjectCommaOrEnd

end Enclosure

/-- Reads the colon between a key and its value. -/
def colon (text : List Char) : Except Failure (List Char) :=
  match skipBlanks text with
  | [] => .error (.here .endInObject [])
  | c :: rest => if c = ':' then .ok rest else .error (.next .expectedColon (c :: rest))

theorem length_lt_of_colon {text rest : List Char} (h : colon text = .ok rest) :
    rest.length < text.length := by
  unfold colon at h
  split at h
  · cases h
  · rename_i blanks
    split at h
    · cases h
      exact length_lt_of_skipBlanks blanks
    · cases h

/-- Passes over a key and its colon. -/
def skipKey (text : List Char) : Except Failure (List Char) :=
  match skipBlanks text with
  | [] => .error (.here .endInObject [])
  | c :: rest =>
    if c = '"' then
      match skipStringTail rest with
      | .error failure => .error failure
      | .ok rest => colon rest
    else .error (.next .keyNotString (c :: rest))

theorem length_lt_of_skipKey {text rest : List Char} (h : skipKey text = .ok rest) :
    rest.length < text.length := by
  unfold skipKey at h
  split at h
  · cases h
  · rename_i blanks
    have := length_lt_of_skipBlanks blanks
    split at h
    · split at h
      · cases h
      · rename_i key
        have := length_lt_of_skipStringTail key
        have := length_lt_of_colon h
        omega
    · cases h

/-- Passes over what stands before the value of an item. -/
def Enclosure.skipToValue : Enclosure → List Char → Except Failure (List Char)
  | list, text => .ok text
  | object, text => skipKey text

theorem Enclosure.length_le_of_skipToValue {e : Enclosure} {text rest : List Char}
    (h : e.skipToValue text = .ok rest) : rest.length ≤ text.length := by
  cases e with
  | list =>
    cases h
    exact Nat.le_refl _
  | object => exact Nat.le_of_lt (length_lt_of_skipKey h)

/-- Passes over a value that is no list or object and starts with `c`. -/
def skipScalar (c : Char) (rest : List Char) : Except Failure (List Char) :=
  if c = 'n' then word ['u', 'l', 'l'] rest
  else if c = 't' then word ['r', 'u', 'e'] rest
  else if c = 'f' then word ['a', 'l', 's', 'e'] rest
  else if c = '"' then skipStringTail rest
  else if c = '-' then skipNumeral rest
  else if c.isDigit then skipNumeral (c :: rest)
  else .error (.next .expectedValue (c :: rest))

theorem length_le_of_skipScalar {c : Char} {text rest : List Char}
    (h : skipScalar c text = .ok rest) : rest.length ≤ text.length := by
  unfold skipScalar at h
  split at h
  · exact length_le_of_word h
  · split at h
    · exact length_le_of_word h
    · split at h
      · exact length_le_of_word h
      · split at h
        · exact Nat.le_of_lt (length_lt_of_skipStringTail h)
        · split at h
          · exact Nat.le_of_lt (length_lt_of_skipNumeral h)
          · split at h
            · exact Nat.le_of_lt_succ (length_lt_of_skipNumeral h)
            · cases h

mutual

/-- Passes over a value and all that follows it up to the end of the outermost of the enclosures
that are open around it, innermost first. -/
def skipValue (outer : List Enclosure) (text : List Char) : Except Failure (List Char) :=
  match _blanks : skipBlanks text with
  | [] => .error (.here .endInValue [])
  | c :: rest =>
    match Enclosure.ofOpening? c with
    | none =>
      match _scalar : skipScalar c rest with
      | .error failure => .error failure
      | .ok rest => skipAfter outer rest
    | some e =>
      match _inner : skipBlanks rest with
      | [] => .error (.here e.endCause [])
      | d :: after =>
        if d = e.closing then skipAfter outer after
        else
          match _key : e.skipToValue (d :: after) with
          | .error failure => .error failure
          | .ok rest => skipValue (e :: outer) rest
termination_by text.length
decreasing_by
  all_goals
    have := length_lt_of_skipBlanks _blanks
  · have := length_le_of_skipScalar _scalar
    omega
  · have := length_lt_of_skipBlanks _inner
    omega
  · have := length_lt_of_skipBlanks _inner
    have := Enclosure.length_le_of_skipToValue _key
    simp only [List.length_cons] at this
    omega

/-- Passes over what follows an item of the innermost open enclosure. -/
def skipAfter (outer : List Enclosure) (text : List Char) : Except Failure (List Char) :=
  match outer with
  | [] => .ok text
  | e :: outer =>
    match _blanks : skipBlanks text with
    | [] => .error (.here e.endCause [])
    | c :: rest =>
      if c = ',' then
        match _key : e.skipToValue rest with
        | .error failure => .error failure
        | .ok rest => skipValue (e :: outer) rest
      else if c = e.closing then skipAfter outer rest
      else .error (.next e.commaCause (c :: rest))
termination_by text.length
decreasing_by
  all_goals
    have := length_lt_of_skipBlanks _blanks
  · have := Enclosure.length_le_of_skipToValue _key
    omega
  · omega

end

/-- Both halves of the pass shorten the text, by induction on a bound of its length. -/
theorem length_skip (bound : Nat) : ∀ {outer : List Enclosure} {text rest : List Char},
    text.length < bound →
      (skipValue outer text = .ok rest → rest.length < text.length) ∧
        (skipAfter outer text = .ok rest → rest.length ≤ text.length) := by
  induction bound with
  | zero => intro _ _ _ h; omega
  | succ bound ih =>
    intro outer text rest bounded
    constructor
    · intro h
      unfold skipValue at h
      split at h
      · cases h
      · rename_i blanks
        have := length_lt_of_skipBlanks blanks
        split at h
        · split at h
          · cases h
          · rename_i scalar
            have := length_le_of_skipScalar scalar
            have := (ih (by omega)).2 h
            omega
        · split at h
          · cases h
          · rename_i inner
            have := length_lt_of_skipBlanks inner
            split at h
            · have := (ih (by omega)).2 h
              omega
            · split at h
              · cases h
              · rename_i key
                have key := Enclosure.length_le_of_skipToValue key
                simp only [List.length_cons] at key
                have := (ih (by omega)).1 h
                omega
    · intro h
      unfold skipAfter at h
      split at h
      · cases h
        exact Nat.le_refl _
      · split at h
        · cases h
        · rename_i blanks
          have := length_lt_of_skipBlanks blanks
          split at h
          · split at h
            · cases h
            · rename_i key
              have := Enclosure.length_le_of_skipToValue key
              have := (ih (by omega)).1 h
              omega
          · split at h
            · have := (ih (by omega)).2 h
              omega
            · cases h

theorem length_lt_of_skipValue {outer : List Enclosure} {text rest : List Char}
    (h : skipValue outer text = .ok rest) : rest.length < text.length :=
  (length_skip _ (Nat.lt_succ_self _)).1 h

end GraphDoc.Json
