import GraphDoc.Json.Skip

/-!
# Readers

A reader takes one value off the front of a text, and always takes something. Readers of larger
values are put together from readers of their parts. What may open an array or an object gets the
readers of its inside as an option: there is none once the nesting limit has been reached.
-/
namespace GraphDoc.Json

structure Reader (α : Type) where
  run : List Char → Scan α
  shorter : ∀ {text rest : List Char} {a : α}, run text = .ok (a, rest) →
    rest.length < text.length

/-! ## Faults of a reader -/

/-- The fault of a text that starts with `c` where another type of value is expected. A literal,
numeral or string is read to its end before it is refused. -/
def mismatch (expected : String) (c : Char) (rest : List Char) : Failure :=
  let literal (letters : List Char) (found : Found) : Failure :=
    match word letters rest with
    | .error failure => failure
    | .ok rest => .here (.invalidType found expected) rest
  let number (scan : Scan JsonNumber) : Failure :=
    match scan with
    | .error failure => failure
    | .ok (n, rest) => .here (.invalidType (.number n) expected) rest
  if c = 'n' then literal ['u', 'l', 'l'] .null
  else if c = 't' then literal ['r', 'u', 'e'] (.bool true)
  else if c = 'f' then literal ['a', 'l', 's', 'e'] (.bool false)
  else if c = '-' then number (numeral true rest)
  else if c.isDigit then number (numeral false (c :: rest))
  else if c = '"' then
    match stringTail rest with
    | .error failure => failure
    | .ok (cs, rest) => .here (.invalidType (.string (String.ofList cs)) expected) rest
  else if c = '[' then .here (.invalidType .sequence expected) (c :: rest)
  else if c = '{' then .here (.invalidType .map expected) (c :: rest)
  else .next .expectedValue (c :: rest)

/-- What is left when an array or object has been left: its own fault, if it is not closed properly,
and the text after the attempt. -/
structure Closing where
  failure : Option Failure
  rest : List Char

def closeArray (text : List Char) : Closing :=
  match skipBlanks text with
  | [] => ⟨some (.here .endInList []), []⟩
  | c :: rest =>
    if c = ']' then ⟨none, rest⟩
    else if c = ',' then
      match skipBlanks rest with
      | [] => ⟨some (.here .trailingCharacters []), []⟩
      | d :: after =>
        ⟨some (.next (if d = ']' then .trailingComma else .trailingCharacters) (d :: after)),
          d :: after⟩
    else ⟨some (.next .trailingCharacters (c :: rest)), c :: rest⟩

def closeObject (text : List Char) : Closing :=
  match skipBlanks text with
  | [] => ⟨some (.here .endInObject []), []⟩
  | c :: rest =>
    if c = '}' then ⟨none, rest⟩
    else
      ⟨some (.next (if c = ',' then .trailingComma else .trailingCharacters) (c :: rest)),
        c :: rest⟩

theorem length_closeArray_le (text : List Char) : (closeArray text).rest.length ≤ text.length := by
  unfold closeArray
  split
  · exact Nat.zero_le _
  · rename_i blanks
    have := length_lt_of_skipBlanks blanks
    split
    · exact Nat.le_of_lt this
    · split
      · split
        · exact Nat.zero_le _
        · rename_i inner
          have := length_lt_of_skipBlanks inner
          simp only [List.length_cons]
          omega
      · exact this

theorem length_closeObject_le (text : List Char) :
    (closeObject text).rest.length ≤ text.length := by
  unfold closeObject
  split
  · exact Nat.zero_le _
  · rename_i blanks
    have := length_lt_of_skipBlanks blanks
    split
    · exact Nat.le_of_lt this
    · exact this

/-- Leaves an array or object after its inside has been read. A fault that is still pending takes
the place where the attempt to leave ended. -/
def enclosed {α : Type} (close : List Char → Closing) (inside : Scan α) : Scan α :=
  match inside with
  | .ok (a, rest) =>
    match (close rest).failure with
    | none => .ok (a, (close rest).rest)
    | some failure => .error failure
  | .error (.pending cause rest) => .error (.here cause (close rest).rest)
  | .error failure => .error failure

theorem inside_of_enclosed {α : Type} {close : List Char → Closing} {inside : Scan α} {a : α}
    {rest : List Char} (h : enclosed close inside = .ok (a, rest)) :
    ∃ before, inside = .ok (a, before) ∧ (close before).rest = rest := by
  unfold enclosed at h
  split at h
  · split at h
    · cases h
      exact ⟨_, rfl, rfl⟩
    · cases h
  · cases h
  · cases h

/-! ## Items of an array, members of an object -/

/-- Whether another item follows, and the text from there on. -/
inductive Next where
  | item (text : List Char)
  | done (text : List Char)

def nextElement (isFirst : Bool) (text : List Char) : Except Failure Next :=
  match skipBlanks text with
  | [] => .error (.here .endInList [])
  | c :: rest =>
    if c = ']' then .ok (.done (c :: rest))
    else if isFirst then .ok (.item (c :: rest))
    else if c = ',' then
      match skipBlanks rest with
      | [] => .error (.here .endInValue [])
      | d :: after =>
        if d = ']' then .error (.next .trailingComma (d :: after)) else .ok (.item (d :: after))
    else .error (.next .expectedListCommaOrEnd (c :: rest))

/-- The key of the next member starts after the opening quote. -/
def nextKey (isFirst : Bool) (text : List Char) : Except Failure Next :=
  match skipBlanks text with
  | [] => .error (.here .endInObject [])
  | c :: rest =>
    if c = '}' then .ok (.done (c :: rest))
    else if isFirst then
      if c = '"' then .ok (.item rest) else .error (.next .keyNotString (c :: rest))
    else if c = ',' then
      match skipBlanks rest with
      | [] => .error (.here .endInValue [])
      | d :: after =>
        if d = '"' then .ok (.item after)
        else .error (.next (if d = '}' then .trailingComma else .keyNotString) (d :: after))
    else .error (.next .expectedObjectCommaOrEnd (c :: rest))

theorem length_le_of_nextElement {isFirst : Bool} {text rest : List Char}
    (h : nextElement isFirst text = .ok (.item rest) ∨
      nextElement isFirst text = .ok (.done rest)) :
    rest.length ≤ text.length := by
  unfold nextElement at h
  split at h
  · simp at h
  · rename_i blanks
    have := length_lt_of_skipBlanks blanks
    split at h
    · simp at h
      subst h
      exact this
    · split at h
      · simp at h
        subst h
        exact this
      · split at h
        · split at h
          · simp at h
          · rename_i inner
            have := length_lt_of_skipBlanks inner
            split at h
            · simp at h
            · simp at h
              subst h
              simp only [List.length_cons]
              omega
        · simp at h

theorem length_le_of_nextKey {isFirst : Bool} {text rest : List Char}
    (h : nextKey isFirst text = .ok (.item rest) ∨ nextKey isFirst text = .ok (.done rest)) :
    rest.length ≤ text.length := by
  unfold nextKey at h
  split at h
  · simp at h
  · rename_i blanks
    have := length_lt_of_skipBlanks blanks
    split at h
    · simp at h
      subst h
      exact this
    · split at h
      · split at h
        · simp at h
          subst h
          exact Nat.le_of_lt this
        · simp at h
      · split at h
        · split at h
          · simp at h
          · rename_i inner
            have := length_lt_of_skipBlanks inner
            split at h
            · simp at h
              subst h
              omega
            · simp at h
        · simp at h

/-- The elements of an array, after its opening bracket. -/
def elements {α : Type} (element : Reader α) (isFirst : Bool) (text : List Char) :
    Scan (List α) :=
  match _next : nextElement isFirst text with
  | .error failure => .error failure
  | .ok (.done rest) => .ok ([], rest)
  | .ok (.item rest) =>
    match _read : element.run rest with
    | .error failure => .error failure
    | .ok (a, rest) =>
      match elements element false rest with
      | .error failure => .error failure
      | .ok (as, rest) => .ok (a :: as, rest)
termination_by text.length
decreasing_by
  have := length_le_of_nextElement (.inl _next)
  have := element.shorter _read
  omega

theorem length_le_of_elements {α : Type} {element : Reader α} {isFirst : Bool}
    {text rest : List Char} {as : List α} (h : elements element isFirst text = .ok (as, rest)) :
    rest.length ≤ text.length := by
  fun_induction elements element isFirst text generalizing as rest with
  | case1 => cases h
  | case2 _ _ _ next =>
    cases h
    exact length_le_of_nextElement (.inr next)
  | case3 => cases h
  | case4 => cases h
  | case5 _ _ _ next _ _ read _ _ more ih =>
    cases h
    have := length_le_of_nextElement (.inl next)
    have := element.shorter read
    have := ih more
    omega

/-! ## Scalars -/

/-- Hands the text without its blanks to `body`; a text that has ended there is at fault. -/
def onValue {α : Type} (text : List Char) (body : Char → List Char → Scan α) : Scan α :=
  match skipBlanks text with
  | [] => .error (.here .endInValue [])
  | c :: rest => body c rest

theorem shorter_of_onValue {α : Type} {body : Char → List Char → Scan α}
    (h : ∀ {c : Char} {text rest : List Char} {a : α}, body c text = .ok (a, rest) →
      rest.length ≤ text.length)
    {text rest : List Char} {a : α} (read : onValue text body = .ok (a, rest)) :
    rest.length < text.length := by
  unfold onValue at read
  split at read
  · cases read
  · rename_i blanks
    exact Nat.lt_of_le_of_lt (h read) (length_lt_of_skipBlanks blanks)

/-- Reads the given letters as the value `a`. -/
def literal {α : Type} (letters : List Char) (a : α) (text : List Char) : Scan α :=
  match word letters text with
  | .error failure => .error failure
  | .ok rest => .ok (a, rest)

theorem length_le_of_literal {α : Type} {letters text rest : List Char} {a b : α}
    (h : literal letters a text = .ok (b, rest)) : rest.length ≤ text.length := by
  unfold literal at h
  split at h
  · cases h
  · rename_i read
    cases h
    exact length_le_of_word read

namespace Reader

variable {α β : Type}

def map (f : α → β) (reader : Reader α) : Reader β where
  run text :=
    match reader.run text with
    | .error failure => .error failure
    | .ok (a, rest) => .ok (f a, rest)
  shorter h := by
    split at h
    · cases h
    · rename_i read
      cases h
      exact reader.shorter read

/-- Reads a value and then decides on it; a refusal is pending until something around it is left. -/
def filterMap (f : α → Except Cause β) (reader : Reader α) : Reader β where
  run text :=
    match reader.run text with
    | .error failure => .error failure
    | .ok (a, rest) =>
      match f a with
      | .error cause => .error (.pending cause rest)
      | .ok b => .ok (b, rest)
  shorter h := by
    split at h
    · cases h
    · rename_i read
      split at h
      · cases h
      · cases h
        exact reader.shorter read

def boolean : Reader Bool where
  run text := onValue text fun c rest =>
    if c = 't' then literal ['r', 'u', 'e'] true rest
    else if c = 'f' then literal ['a', 'l', 's', 'e'] false rest
    else .error (mismatch "a boolean" c rest)
  shorter := shorter_of_onValue fun h => by
    split at h
    · exact length_le_of_literal h
    · split at h
      · exact length_le_of_literal h
      · cases h

/-- Reads `null`. -/
def unit : Reader Unit where
  run text := onValue text fun c rest =>
    if c = 'n' then literal ['u', 'l', 'l'] () rest else .error (mismatch "unit" c rest)
  shorter := shorter_of_onValue fun h => by
    split at h
    · exact length_le_of_literal h
    · cases h

def string : Reader String where
  run text := onValue text fun c rest =>
    if c = '"' then
      match stringTail rest with
      | .error failure => .error failure
      | .ok (cs, rest) => .ok (String.ofList cs, rest)
    else .error (mismatch "a string" c rest)
  shorter := shorter_of_onValue fun h => by
    split at h
    · split at h
      · cases h
      · rename_i read
        cases h
        exact Nat.le_of_lt (length_lt_of_stringTail read)
    · cases h

/-- What a number stands for where a signed word is expected. -/
def toWord (n : JsonNumber) : Except Cause Int64 :=
  match n with
  | .integer value =>
    if Int64.minValue.toInt ≤ value ∧ value ≤ Int64.maxValue.toInt then .ok (Int64.ofInt value)
    else .error (.invalidValue (.number n) "i64")
  | .float .. => .error (.invalidType (.number n) "i64")

/-- Finishes an integer: a number that is none is refused where it ends. -/
def integerOf (scan : Scan JsonNumber) : Scan Int64 :=
  match scan with
  | .error failure => .error failure
  | .ok (n, rest) =>
    match toWord n with
    | .error cause => .error (.here cause rest)
    | .ok value => .ok (value, rest)

theorem number_of_integerOf {scan : Scan JsonNumber} {value : Int64} {rest : List Char}
    (h : integerOf scan = .ok (value, rest)) : ∃ n, scan = .ok (n, rest) := by
  unfold integerOf at h
  split at h
  · cases h
  · split at h
    · cases h
    · cases h
      exact ⟨_, rfl⟩

def integer : Reader Int64 where
  run text := onValue text fun c rest =>
    if c = '-' then integerOf (numeral true rest)
    else if c.isDigit then integerOf (numeral false (c :: rest))
    else .error (mismatch "i64" c rest)
  shorter := shorter_of_onValue fun h => by
    split at h
    · obtain ⟨_, read⟩ := number_of_integerOf h
      exact Nat.le_of_lt (length_lt_of_numeral read)
    · split at h
      · obtain ⟨_, read⟩ := number_of_integerOf h
        exact Nat.le_of_lt_succ (length_lt_of_numeral read)
      · cases h

/-- Reads `null` as no value. -/
def optional (reader : Reader α) : Reader (Option α) where
  run text :=
    match skipBlanks text with
    | 'n' :: rest => literal ['u', 'l', 'l'] none rest
    | _ => (reader.map some).run text
  shorter h := by
    split at h
    · rename_i blanks
      exact Nat.lt_of_le_of_lt (length_le_of_literal h) (length_lt_of_skipBlanks blanks)
    · exact (reader.map some).shorter h

/-! ## Lists -/

/-- Reads an array whose elements `element` reads. -/
def list (element : Option (Reader α)) : Reader (List α) where
  run text := onValue text fun c rest =>
    if c = '[' then
      match element with
      | none => .error (.next .recursionLimit (c :: rest))
      | some element => enclosed closeArray (elements element true rest)
    else .error (mismatch "a sequence" c rest)
  shorter := shorter_of_onValue fun h => by
    split at h
    · split at h
      · cases h
      · obtain ⟨before, read, rfl⟩ := inside_of_enclosed h
        exact Nat.le_trans (length_closeArray_le before) (length_le_of_elements read)
    · cases h

end Reader

end GraphDoc.Json
