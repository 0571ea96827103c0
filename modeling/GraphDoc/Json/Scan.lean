import GraphDoc.Json.Fault

/-!
# Blanks, words and strings

The smallest scans of the reader. Each takes the text that is left and answers what it read together
with what is left after it, which is never longer; the loops of the reader end because of that.
-/
namespace GraphDoc.Json

abbrev Scan (α : Type) := Except Failure (α × List Char)

/-! ## Blanks and words -/

def isBlank (c : Char) : Bool := c = ' ' || c = '\n' || c = '\t' || c = '\r'

def skipBlanks (text : List Char) : List Char := text.dropWhile isBlank

theorem length_skipBlanks_le (text : List Char) : (skipBlanks text).length ≤ text.length :=
  (List.dropWhile_sublist isBlank).length_le

theorem length_lt_of_skipBlanks {text rest : List Char} {c : Char}
    (h : skipBlanks text = c :: rest) : rest.length < text.length := by
  have := length_skipBlanks_le text
  rwa [h] at this

/-- Reads exactly the given letters. -/
def word : (letters text : List Char) → Except Failure (List Char)
  | [], text => .ok text
  | _ :: _, [] => .error (.here .endInValue [])
  | letter :: letters, c :: rest =>
    if c = letter then word letters rest else .error (.next .expectedIdent (c :: rest))

theorem length_le_of_word {letters text rest : List Char} (h : word letters text = .ok rest) :
    rest.length ≤ text.length := by
  induction letters generalizing text with
  | nil => cases h; exact Nat.le_refl _
  | cons letter letters ih =>
    cases text with
    | nil => cases h
    | cons c text =>
      rw [word] at h
      split at h
      · have := ih h
        simp only [List.length_cons]
        omega
      · cases h

/-! ## Strings -/

def hexValue? (c : Char) : Option Nat :=
  if '0' ≤ c ∧ c ≤ '9' then some (c.toNat - '0'.toNat)
  else if 'a' ≤ c ∧ c ≤ 'f' then some (c.toNat - 'a'.toNat + 10)
  else if 'A' ≤ c ∧ c ≤ 'F' then some (c.toNat - 'A'.toNat + 10)
  else none

/-- The four hexadecimal digits of an escape. Four bytes are taken before they are looked at. -/
def hexFour : List Char → Scan Nat
  | a :: b :: c :: d :: rest =>
    match hexValue? a, hexValue? b, hexValue? c, hexValue? d with
    | some a, some b, some c, some d => .ok (((a * 16 + b) * 16 + c) * 16 + d, rest)
    | _, _, _, _ => .error (.located .invalidEscape ⟨a :: b :: c :: d :: rest, 4⟩)
  | text =>
    if byteCount text < 4 then .error (.here .endInString [])
    else .error (.located .invalidEscape ⟨text, 4⟩)

theorem length_lt_of_hexFour {text rest : List Char} {n : Nat} (h : hexFour text = .ok (n, rest)) :
    rest.length < text.length := by
  unfold hexFour at h
  split at h
  · split at h
    · cases h
      simp only [List.length_cons]
      omega
    · cases h
  · split at h <;> cases h

/-- The characters that a backslash and a single letter stand for. -/
def simpleEscape? (c : Char) : Option Char :=
  if c = '"' then some '"'
  else if c = '\\' then some '\\'
  else if c = '/' then some '/'
  else if c = 'b' then some '\x08'
  else if c = 'f' then some '\x0c'
  else if c = 'n' then some '\n'
  else if c = 'r' then some '\r'
  else if c = 't' then some '\t'
  else none

/-- The second half of a surrogate pair, after its first half. -/
def lowSurrogate (high : Nat) : List Char → Scan Char
  | [] => .error (.here .endInString [])
  | c :: rest =>
    if c ≠ '\\' then .error (.next .endOfEscape (c :: rest))
    else
      match rest with
      | [] => .error (.here .endInString [])
      | c :: rest =>
        if c ≠ 'u' then .error (.next .endOfEscape (c :: rest))
        else
          match hexFour rest with
          | .error failure => .error failure
          | .ok (low, rest) =>
            if 0xDC00 ≤ low ∧ low ≤ 0xDFFF then
              .ok (Char.ofNat ((high - 0xD800) * 0x400 + (low - 0xDC00) + 0x10000), rest)
            else .error (.here .loneSurrogate rest)

theorem length_lt_of_lowSurrogate {high : Nat} {text rest : List Char} {c : Char}
    (h : lowSurrogate high text = .ok (c, rest)) : rest.length < text.length := by
  unfold lowSurrogate at h
  split at h
  · cases h
  · split at h
    · cases h
    · split at h
      · cases h
      · split at h
        · cases h
        · split at h
          · cases h
          · rename_i hex
            have := length_lt_of_hexFour hex
            split at h
            · obtain ⟨_, rfl⟩ := Prod.mk.inj (Except.ok.inj h)
              simp only [List.length_cons]
              omega
            · cases h

/-- The character of an escape, after its backslash. -/
def escape : List Char → Scan Char
  | [] => .error (.here .endInString [])
  | c :: rest =>
    if c = 'u' then
      match hexFour rest with
      | .error failure => .error failure
      | .ok (n, rest) =>
        if 0xDC00 ≤ n ∧ n ≤ 0xDFFF then .error (.here .loneSurrogate rest)
        else if 0xD800 ≤ n ∧ n ≤ 0xDBFF then lowSurrogate n rest
        else .ok (Char.ofNat n, rest)
    else
      match simpleEscape? c with
      | some c => .ok (c, rest)
      | none => .error (.next .invalidEscape (c :: rest))

theorem length_lt_of_escape {text rest : List Char} {c : Char} (h : escape text = .ok (c, rest)) :
    rest.length < text.length := by
  unfold escape at h
  split at h
  · cases h
  · split at h
    · split at h
      · cases h
      · rename_i hex
        have := length_lt_of_hexFour hex
        split at h
        · cases h
        · split at h
          · have := length_lt_of_lowSurrogate h
            simp only [List.length_cons]
            omega
          · cases h
            simp only [List.length_cons]
            omega
    · split at h
      · cases h
        simp
      · cases h

/-- One character of a string whose next character is `c`, with its escape undone. -/
def stringChar (c : Char) (rest : List Char) : Scan Char :=
  if c = '\\' then escape rest
  else if c < ' ' then .error (.next .controlCharacter (c :: rest))
  else .ok (c, rest)

theorem length_le_of_stringChar {c d : Char} {text rest : List Char}
    (h : stringChar c text = .ok (d, rest)) : rest.length ≤ text.length := by
  unfold stringChar at h
  split at h
  · exact Nat.le_of_lt (length_lt_of_escape h)
  · split at h
    · cases h
    · cases h
      exact Nat.le_refl _

/-- The characters of a string, after its opening quote. -/
def stringTail : (text : List Char) → Scan (List Char)
  | [] => .error (.here .endInString [])
  | c :: rest =>
    if c = '"' then .ok ([], rest)
    else
      match _h : stringChar c rest with
      | .error failure => .error failure
      | .ok (c, rest) =>
        match stringTail rest with
        | .error failure => .error failure
        | .ok (cs, rest) => .ok (c :: cs, rest)
termination_by text => text.length
decreasing_by
  have := length_le_of_stringChar _h
  simp only [List.length_cons]
  omega

theorem length_lt_of_stringTail {text rest cs : List Char} (h : stringTail text = .ok (cs, rest)) :
    rest.length < text.length := by
  fun_induction stringTail text generalizing cs rest with
  | case1 => cases h
  | case2 => cases h; simp
  | case3 => cases h
  | case4 => cases h
  | case5 c text _ d text₁ char cs text₂ tail ih =>
    cases h
    have := length_le_of_stringChar char
    have := ih tail
    simp only [List.length_cons]
    omega

end GraphDoc.Json
