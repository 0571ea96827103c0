import GraphDoc.Json.Reader

/-!
# Records and variants

A record is read from an object, by key and in any order, or from an array, by position. It is
gathered in a draft: each part says how its value changes the draft, and the finished draft either
makes a node or misses a part. A variant is read from an object with its name as only key, or from
its bare name.
-/
namespace GraphDoc.Json

/-- A named part of a record that is gathered in drafts of type `δ`. -/
structure Part (δ : Type) where
  key : String
  isSet : δ → Bool
  read : Reader (δ → δ)

structure Shape (δ α : Type) where
  parts : List (Part δ)
  start : δ
  /-- The node that a draft makes, or the key of the first part that it misses. -/
  finish : δ → Except String α

variable {δ α τ : Type}

/-- The parts in order, as long as there are elements. -/
def positions : List (Part δ) → (isFirst : Bool) → δ → List Char → Scan δ
  | [], _, draft, text => .ok (draft, text)
  | part :: parts, isFirst, draft, text =>
    match nextElement isFirst text with
    | .error failure => .error failure
    | .ok (.done rest) => .ok (draft, rest)
    | .ok (.item rest) =>
      match part.read.run rest with
      | .error failure => .error failure
      | .ok (change, rest) => positions parts false (change draft) rest

theorem length_le_of_positions {parts : List (Part δ)} {isFirst : Bool} {start draft : δ}
    {text rest : List Char} (h : positions parts isFirst start text = .ok (draft, rest)) :
    rest.length ≤ text.length := by
  induction parts generalizing isFirst start text with
  | nil =>
    cases h
    exact Nat.le_refl _
  | cons part parts ih =>
    rw [positions] at h
    split at h
    · cases h
    · rename_i next
      cases h
      exact length_le_of_nextElement (.inr next)
    · rename_i next
      have := length_le_of_nextElement (.inl next)
      split at h
      · cases h
      · rename_i read
        have := part.read.shorter read
        have := ih h
        omega

/-- The value of a key, after its colon. A key that no part has is passed over; one that was there
before is at fault at once. -/
def memberValue (parts : List (Part δ)) (key : String) (draft : δ) (text : List Char) : Scan δ :=
  match parts.find? (·.key == key) with
  | none =>
    match colon text with
    | .error failure => .error failure
    | .ok rest =>
      match skipValue [] rest with
      | .error failure => .error failure
      | .ok rest => .ok (draft, rest)
  | some part =>
    if part.isSet draft then .error (.pending (.duplicateField part.key) text)
    else
      match colon text with
      | .error failure => .error failure
      | .ok rest =>
        match part.read.run rest with
        | .error failure => .error failure
        | .ok (change, rest) => .ok (change draft, rest)

theorem length_lt_of_memberValue {parts : List (Part δ)} {key : String} {start draft : δ}
    {text rest : List Char} (h : memberValue parts key start text = .ok (draft, rest)) :
    rest.length < text.length := by
  unfold memberValue at h
  split at h
  · split at h
    · cases h
    · rename_i before
      have := length_lt_of_colon before
      split at h
      · cases h
      · rename_i skipped
        cases h
        have := length_lt_of_skipValue skipped
        omega
  · split at h
    · cases h
    · split at h
      · cases h
      · rename_i before
        have := length_lt_of_colon before
        split at h
        · cases h
        · rename_i read
          cases h
          have := Reader.shorter _ read
          omega

/-- The members of an object, after its opening brace. -/
def members (parts : List (Part δ)) (isFirst : Bool) (draft : δ) (text : List Char) : Scan δ :=
  match _next : nextKey isFirst text with
  | .error failure => .error failure
  | .ok (.done rest) => .ok (draft, rest)
  | .ok (.item rest) =>
    match _key : stringTail rest with
    | .error failure => .error failure
    | .ok (key, rest) =>
      match _value : memberValue parts (String.ofList key) draft rest with
      | .error failure => .error failure
      | .ok (draft, rest) => members parts false draft rest
termination_by text.length
decreasing_by
  have := length_le_of_nextKey (.inl _next)
  have := length_lt_of_stringTail _key
  have := length_lt_of_memberValue _value
  omega

theorem length_le_of_members {parts : List (Part δ)} {isFirst : Bool} {start draft : δ}
    {text rest : List Char} (h : members parts isFirst start text = .ok (draft, rest)) :
    rest.length ≤ text.length := by
  fun_induction members parts isFirst start text with
  | case1 => cases h
  | case2 _ _ _ _ next =>
    cases h
    exact length_le_of_nextKey (.inr next)
  | case3 => cases h
  | case4 => cases h
  | case5 _ _ _ _ next _ _ key _ _ value ih =>
    have := length_le_of_nextKey (.inl next)
    have := length_lt_of_stringTail key
    have := length_lt_of_memberValue value
    have := ih h
    omega

/-- Finishes a draft; what it misses is noticed at the end of the record. -/
def finished (shape : Shape δ α) (missing : String → Cause) (scan : Scan δ) : Scan α :=
  match scan with
  | .error failure => .error failure
  | .ok (draft, rest) =>
    match shape.finish draft with
    | .ok a => .ok (a, rest)
    | .error key => .error (.pending (missing key) rest)

theorem draft_of_finished {shape : Shape δ α} {missing : String → Cause} {scan : Scan δ} {a : α}
    {rest : List Char} (h : finished shape missing scan = .ok (a, rest)) :
    ∃ draft, scan = .ok (draft, rest) := by
  unfold finished at h
  split at h
  · cases h
  · split at h
    · cases h
      exact ⟨_, rfl⟩
    · cases h

/-- In an array a missing part shows as a length that ends before its position. -/
def missingPosition (title : String) (shape : Shape δ α) (key : String) : Cause :=
  .invalidLength (shape.parts.findIdx (·.key == key))
    (title ++ " with " ++ toString shape.parts.length ++ " elements")

namespace Reader

/-- Reads a record of the given title, from an object or from an array. -/
def record (title : String) (shape : Option (Shape δ α)) : Reader α where
  run text := onValue text fun c rest =>
    if c = '[' then
      match shape with
      | none => .error (.next .recursionLimit (c :: rest))
      | some shape =>
        enclosed closeArray <| finished shape (missingPosition title shape)
          (positions shape.parts true shape.start rest)
    else if c = '{' then
      match shape with
      | none => .error (.next .recursionLimit (c :: rest))
      | some shape =>
        enclosed closeObject <| finished shape .missingField
          (members shape.parts true shape.start rest)
    else .error (mismatch title c rest)
  shorter := shorter_of_onValue fun h => by
    split at h
    · split at h
      · cases h
      · obtain ⟨before, finish, rfl⟩ := inside_of_enclosed h
        obtain ⟨draft, read⟩ := draft_of_finished finish
        exact Nat.le_trans (length_closeArray_le before) (length_le_of_positions read)
    · split at h
      · split at h
        · cases h
        · obtain ⟨before, finish, rfl⟩ := inside_of_enclosed h
          obtain ⟨draft, read⟩ := draft_of_finished finish
          exact Nat.le_trans (length_closeObject_le before) (length_le_of_members read)
      · cases h

end Reader

/-! ## Variants -/

/-- The name of a variant after its opening quote. A name that is not among the known ones is at
fault after its closing quote. -/
def variantName (known : List (String × τ)) (text : List Char) : Scan τ :=
  match stringTail text with
  | .error failure => .error failure
  | .ok (cs, rest) =>
    match known.lookup (String.ofList cs) with
    | some tag => .ok (tag, rest)
    | none => .error (.here (.unknownVariant (String.ofList cs) (known.map (·.1))) rest)

theorem length_lt_of_variantName {known : List (String × τ)} {text rest : List Char} {tag : τ}
    (h : variantName known text = .ok (tag, rest)) : rest.length < text.length := by
  unfold variantName at h
  split at h
  · cases h
  · rename_i read
    split at h
    · cases h
      exact length_lt_of_stringTail read
    · cases h

/-- The brace that ends a variant. -/
def closeVariant (text : List Char) : Except Failure (List Char) :=
  match skipBlanks text with
  | [] => .error (.here .endInObject [])
  | c :: rest => if c = '}' then .ok rest else .error (.here .expectedValue (c :: rest))

theorem length_lt_of_closeVariant {text rest : List Char} (h : closeVariant text = .ok rest) :
    rest.length < text.length := by
  unfold closeVariant at h
  split at h
  · cases h
  · rename_i blanks
    split at h
    · cases h
      exact length_lt_of_skipBlanks blanks
    · cases h

/-- A variant with content, after its opening brace. -/
def variantBody (known : List (String × τ)) (content : τ → Reader α) (text : List Char) : Scan α :=
  match skipBlanks text with
  | [] => .error (.here .endInObject [])
  | c :: rest =>
    if c = '"' then
      match variantName known rest with
      | .error failure => .error failure
      | .ok (tag, rest) =>
        match colon rest with
        | .error failure => .error failure
        | .ok rest =>
          match (content tag).run rest with
          | .error failure => .error failure
          | .ok (a, rest) =>
            match closeVariant rest with
            | .error failure => .error failure
            | .ok rest => .ok (a, rest)
    else .error (.next (if c = '}' then .expectedValue else .keyNotString) (c :: rest))

theorem length_le_of_variantBody {known : List (String × τ)} {content : τ → Reader α}
    {text rest : List Char} {a : α} (h : variantBody known content text = .ok (a, rest)) :
    rest.length ≤ text.length := by
  unfold variantBody at h
  split at h
  · cases h
  · rename_i blanks
    have := length_lt_of_skipBlanks blanks
    split at h
    · split at h
      · cases h
      · rename_i name
        have := length_lt_of_variantName name
        split at h
        · cases h
        · rename_i before
          have := length_lt_of_colon before
          split at h
          · cases h
          · rename_i read
            have := (content _).shorter read
            split at h
            · cases h
            · rename_i close
              cases h
              have := length_lt_of_closeVariant close
              omega
    · cases h

/-- What stands for itself by a bare name, or the reason why nothing does. -/
def bareVariant (known : List (String × τ)) (bare : τ → Except Cause α) (text : List Char) :
    Scan α :=
  match variantName known text with
  | .error failure => .error failure
  | .ok (tag, rest) =>
    match bare tag with
    | .ok a => .ok (a, rest)
    | .error cause => .error (.pending cause rest)

theorem length_le_of_bareVariant {known : List (String × τ)} {bare : τ → Except Cause α}
    {text rest : List Char} {a : α} (h : bareVariant known bare text = .ok (a, rest)) :
    rest.length ≤ text.length := by
  unfold bareVariant at h
  split at h
  · cases h
  · rename_i name
    split at h
    · cases h
      exact Nat.le_of_lt (length_lt_of_variantName name)
    · cases h

/-- Reads one of the known variants. -/
def Reader.variant (known : List (String × τ)) (bare : τ → Except Cause α)
    (content : Option (τ → Reader α)) : Reader α where
  run text := onValue text fun c rest =>
    if c = '{' then
      match content with
      | none => .error (.next .recursionLimit (c :: rest))
      | some content => variantBody known content rest
    else if c = '"' then bareVariant known bare rest
    else .error (.next .expectedValue (c :: rest))
  shorter := shorter_of_onValue fun h => by
    split at h
    · split at h
      · cases h
      · exact length_le_of_variantBody h
    · split at h
      · exact length_le_of_bareVariant h
      · cases h

end GraphDoc.Json
