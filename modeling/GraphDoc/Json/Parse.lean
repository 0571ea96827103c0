import GraphDoc.Json.Reader

/-!
# Reading whole texts

A text is one value with blanks around it. The reader for loose values accepts any JSON: of two
members with one key the later counts, and members are ordered by key.
-/
namespace GraphDoc.Json

/-- How many arrays and objects may stand inside one another. -/
def nestingLimit : Nat := 127

/-- Reads the whole text as one value. -/
def Reader.readAll {α : Type} (reader : Reader α) (text : String) : Except ReadError α :=
  let chars := text.toList
  match reader.run chars with
  | .error failure => .error (failure.toReadError chars)
  | .ok (a, rest) =>
    match skipBlanks rest with
    | [] => .ok a
    | rest => .error ((Failure.next .trailingCharacters rest).toReadError chars)

/-- The members of a loose object, after its opening brace. -/
def looseMembers (value : Reader Json) (isFirst : Bool) (known : List (String × Json))
    (text : List Char) : Scan (List (String × Json)) :=
  match _next : nextKey isFirst text with
  | .error failure => .error failure
  | .ok (.done rest) => .ok (known, rest)
  | .ok (.item rest) =>
    match _key : stringTail rest with
    | .error failure => .error failure
    | .ok (key, rest) =>
      match _colon : colon rest with
      | .error failure => .error failure
      | .ok rest =>
        match _value : value.run rest with
        | .error failure => .error failure
        | .ok (json, rest) =>
          looseMembers value false (insertMember (String.ofList key) json known) rest
termination_by text.length
decreasing_by
  have := length_le_of_nextKey (.inl _next)
  have := length_lt_of_stringTail _key
  have := length_lt_of_colon _colon
  have := value.shorter _value
  omega

theorem length_le_of_looseMembers {value : Reader Json} {isFirst : Bool}
    {known members : List (String × Json)} {text rest : List Char}
    (h : looseMembers value isFirst known text = .ok (members, rest)) :
    rest.length ≤ text.length := by
  fun_induction looseMembers value isFirst known text with
  | case1 => cases h
  | case2 _ _ _ _ next =>
    cases h
    exact length_le_of_nextKey (.inr next)
  | case3 => cases h
  | case4 => cases h
  | case5 => cases h
  | case6 _ _ _ _ next _ _ key _ colon _ _ read ih =>
    have := length_le_of_nextKey (.inl next)
    have := length_lt_of_stringTail key
    have := length_lt_of_colon colon
    have := value.shorter read
    have := ih h
    omega

/-- A loose value that starts with `c`; `inner` reads what stands inside arrays and objects. -/
def looseValue (inner : Option (Reader Json)) (c : Char) (rest : List Char) : Scan Json :=
  let onOk {α : Type} (scan : Scan α) (f : α → Json) : Scan Json := scan.map fun p => (f p.1, p.2)
  if c = 'n' then literal ['u', 'l', 'l'] .null rest
  else if c = 't' then literal ['r', 'u', 'e'] (.bool true) rest
  else if c = 'f' then literal ['a', 'l', 's', 'e'] (.bool false) rest
  else if c = '-' then onOk (numeral true rest) .number
  else if c.isDigit then onOk (numeral false (c :: rest)) .number
  else if c = '"' then onOk (stringTail rest) fun cs => .string (String.ofList cs)
  else if c = '[' then
    match inner with
    | none => .error (.next .recursionLimit (c :: rest))
    | some inner => onOk (enclosed closeArray (elements inner true rest)) .array
  else if c = '{' then
    match inner with
    | none => .error (.next .recursionLimit (c :: rest))
    | some inner => onOk (enclosed closeObject (looseMembers inner true [] rest)) .object
  else .error (.next .expectedValue (c :: rest))

theorem length_le_of_map {α : Type} {scan : Scan α} {f : α → Json} {bound : Nat}
    (h : ∀ {a : α} {rest : List Char}, scan = .ok (a, rest) → rest.length ≤ bound)
    {json : Json} {rest : List Char} (read : scan.map (fun p => (f p.1, p.2)) = .ok (json, rest)) :
    rest.length ≤ bound := by
  cases scan with
  | error => cases read
  | ok p =>
    obtain ⟨a, left⟩ := p
    cases read
    exact h rfl

theorem length_le_of_looseValue {inner : Option (Reader Json)} {c : Char} {text rest : List Char}
    {json : Json} (h : looseValue inner c text = .ok (json, rest)) :
    rest.length ≤ text.length := by
  unfold looseValue at h
  simp only at h
  split at h
  · exact length_le_of_literal h
  · split at h
    · exact length_le_of_literal h
    · split at h
      · exact length_le_of_literal h
      · split at h
        · exact length_le_of_map (fun read => Nat.le_of_lt (length_lt_of_numeral read)) h
        · split at h
          · refine length_le_of_map (fun read => ?_) h
            have := length_lt_of_numeral read
            simp only [List.length_cons] at this
            omega
          · split at h
            · refine length_le_of_map (f := fun cs => .string (String.ofList cs)) (fun read => ?_) h
              exact Nat.le_of_lt (length_lt_of_stringTail read)
            · split at h
              · split at h
                · cases h
                · refine length_le_of_map (fun read => ?_) h
                  obtain ⟨before, inside, rfl⟩ := inside_of_enclosed read
                  exact Nat.le_trans (length_closeArray_le before) (length_le_of_elements inside)
              · split at h
                · split at h
                  · cases h
                  · refine length_le_of_map (fun read => ?_) h
                    obtain ⟨before, inside, rfl⟩ := inside_of_enclosed read
                    exact Nat.le_trans (length_closeObject_le before)
                      (length_le_of_looseMembers inside)
                · cases h

/-- The reader of loose values that may open `levels` more arrays and objects inside one another. -/
def looseReader : (levels : Nat) → Reader Json
  | 0 => ⟨fun text => onValue text (looseValue none), shorter_of_onValue length_le_of_looseValue⟩
  | levels + 1 =>
    ⟨fun text => onValue text (looseValue (some (looseReader levels))),
      shorter_of_onValue length_le_of_looseValue⟩

/-- Reads a text as any JSON value. -/
def parse (text : String) : Except ReadError Json := (looseReader nestingLimit).readAll text

end GraphDoc.Json
