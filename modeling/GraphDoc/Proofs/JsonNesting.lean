import GraphDoc.Proofs.JsonScanning

/-!
# The nesting of a text

How deep arrays and objects stand inside one another can be counted over the characters of a text,
with the strings left out. For the written text of a value that is the nesting of the value.
-/
namespace GraphDoc.Json

/-! ## Nesting -/

mutual

/-- How many arrays and objects stand inside one another. -/
def nesting : Json → Nat
  | null | bool _ | number _ | string _ => 0
  | array elements => nestingAll elements + 1
  | object members => nestingMembers members + 1

def nestingAll : List Json → Nat
  | [] => 0
  | element :: elements => max (nesting element) (nestingAll elements)

def nestingMember : String × Json → Nat
  | (_, value) => nesting value

def nestingMembers : List (String × Json) → Nat
  | [] => 0
  | member :: members => max (nestingMember member) (nestingMembers members)

end

/-! ## Counting over a text -/

/-- Where a scan over the characters of a text stands. -/
inductive ScanState where
  | outside
  | inString
  /-- After a backslash in a string. -/
  | escaped
deriving DecidableEq

/-- The most arrays and objects that are open at once, from a place with `depth` of them open. -/
def deepest : ScanState → (depth : Nat) → List Char → Nat
  | _, depth, [] => depth
  | .outside, depth, c :: rest =>
    if c = '"' then deepest .inString depth rest
    else if c = '[' ∨ c = '{' then deepest .outside (depth + 1) rest
    else if c = ']' ∨ c = '}' then max depth (deepest .outside (depth - 1) rest)
    else deepest .outside depth rest
  | .inString, depth, c :: rest =>
    if c = '"' then deepest .outside depth rest
    else if c = '\\' then deepest .escaped depth rest
    else deepest .inString depth rest
  | .escaped, depth, _ :: rest => deepest .inString depth rest

/-- How many arrays and objects stand inside one another in the text. -/
def textNesting (text : String) : Nat := deepest .outside 0 text.toList

theorem le_deepest (state : ScanState) (depth : Nat) (text : List Char) :
    depth ≤ deepest state depth text := by
  induction text generalizing state depth with
  | nil => cases state <;> exact Nat.le_refl depth
  | cons c text ih =>
    cases state with
    | outside =>
      rw [deepest]
      split
      · exact ih _ _
      · split
        · exact Nat.le_of_succ_le (ih _ _)
        · split
          · exact Nat.le_max_left _ _
          · exact ih _ _
    | inString =>
      rw [deepest]
      split
      · exact ih _ _
      · split <;> exact ih _ _
    | escaped => exact ih _ _

/-! ### Characters that open and close nothing -/

/-- A character outside strings that the count passes over. -/
def isPlain (c : Char) : Bool := c != '"' && c != '[' && c != ']' && c != '{' && c != '}'

theorem deepest_plain {text : List Char} (h : text.all isPlain = true) (depth : Nat)
    (rest : List Char) :
    deepest .outside depth (text ++ rest) = deepest .outside depth rest := by
  induction text with
  | nil => rfl
  | cons c text ih =>
    rw [List.all_cons, Bool.and_eq_true] at h
    obtain ⟨hc, htext⟩ := h
    simp only [isPlain, Bool.and_eq_true, bne_iff_ne] at hc
    obtain ⟨⟨⟨⟨hquote, hlist⟩, hlist'⟩, hobject⟩, hobject'⟩ := hc
    rw [List.cons_append, deepest, if_neg hquote, if_neg (by simp [hlist, hobject]),
      if_neg (by simp [hlist', hobject'])]
    exact ih htext

theorem deepest_escapeChar (c : Char) (depth : Nat) (rest : List Char) :
    deepest .inString depth (escapeChar c ++ rest) = deepest .inString depth rest := by
  have hhex : ∀ n, hexDigit (n % 16) ≠ '"' ∧ hexDigit (n % 16) ≠ '\\' := by
    have hall : ∀ n < 16, hexDigit n ≠ '"' ∧ hexDigit n ≠ '\\' := by decide
    exact fun n => hall (n % 16) (Nat.mod_lt n (by decide))
  rcases escapeChar_cases c with ⟨e, hw, _⟩ | ⟨hw, hc⟩ | ⟨hw, hquote, hslash, _⟩
  · rw [hw]
    rfl
  · have hn : c.toNat < 32 := hc
    have hhigh := hhex (c.toNat / 16)
    rw [Nat.mod_eq_of_lt (by omega)] at hhigh
    have hlow := hhex c.toNat
    rw [hw]
    simp only [List.cons_append, List.nil_append]
    simp [deepest, hhigh, hlow]
  · rw [hw, List.cons_append, deepest, if_neg hquote, if_neg hslash, List.nil_append]

theorem deepest_writeString (text : String) (depth : Nat) (rest : List Char) :
    deepest .outside depth (writeString text ++ rest) = deepest .outside depth rest := by
  have hchars : ∀ cs : List Char, deepest .inString depth (cs.flatMap escapeChar ++ '"' :: rest) =
      deepest .outside depth rest := by
    intro cs
    induction cs with
    | nil => rfl
    | cons c cs ih => rw [List.flatMap_cons, List.append_assoc, deepest_escapeChar, ih]
  rw [writeString, List.cons_append, List.append_assoc]
  exact hchars text.toList

/-! ### Numbers -/

def PlainText (text : String) : Prop := text.toList.all isPlain = true

theorem PlainText.append {first second : String} (h : PlainText first) (k : PlainText second) :
    PlainText (first ++ second) := by
  rw [PlainText, String.toList_append, List.all_append, Bool.and_eq_true]
  exact ⟨h, k⟩

theorem plainText_ofList {digits : List Char} (h : ∀ c ∈ digits, c.isDigit = true) :
    PlainText (String.ofList digits) := by
  rw [PlainText, String.toList_ofList, List.all_eq_true]
  intro c hc
  have hd := h c hc
  simp [isPlain, ne_of_isDigit hd (d := '"') rfl, ne_of_isDigit hd (d := '[') rfl,
    ne_of_isDigit hd (d := ']') rfl, ne_of_isDigit hd (d := '{') rfl,
    ne_of_isDigit hd (d := '}') rfl]

theorem plainText_nat (n : Nat) : PlainText (toString n) := by
  have hn : toString n = String.ofList (Nat.toDigits 10 n) := Nat.toString_eq_ofList_toDigits
  rw [hn]
  exact plainText_ofList fun c => isDigit_of_mem_toDigits

theorem plainText_int (n : Int) : PlainText (toString n) := by
  by_cases h : 0 ≤ n
  · have hn : toString n = String.ofList (Nat.toDigits 10 n.toNat) := by
      rw [← toList_toString_of_nonneg h, String.ofList_toList]
    rw [hn]
    exact plainText_ofList fun c => isDigit_of_mem_toDigits
  · have hn : toString n = "-" ++ String.ofList (Nat.toDigits 10 (-n).toNat) := by
      rw [← String.toList_inj, toList_toString_of_neg (by omega), String.toList_append]
      exact congrArg (List.cons '-') String.toList_ofList.symm
    rw [hn]
    exact .append rfl (plainText_ofList fun c => isDigit_of_mem_toDigits)

theorem plainText_zeros (n : Nat) : PlainText (Decimal.zeros n) :=
  plainText_ofList fun c hc => by
    rw [List.eq_of_mem_replicate hc]
    rfl

section

variable {digits : List Char} (h : ∀ c ∈ digits, c.isDigit = true) (lead : Int)
include h

theorem plainText_plain : PlainText (Decimal.plain digits lead) := by
  have htake : ∀ n, PlainText (String.ofList (digits.take n)) := fun n =>
    plainText_ofList fun c hc => h c (List.mem_of_mem_take hc)
  have hdrop : ∀ n, PlainText (String.ofList (digits.drop n)) := fun n =>
    plainText_ofList fun c hc => h c (List.mem_of_mem_drop hc)
  unfold Decimal.plain
  split
  · exact .append (.append rfl (plainText_zeros _)) (plainText_ofList h)
  · refine .append (.append (.append (htake _) (plainText_zeros _)) rfl) ?_
    split
    · rfl
    · exact hdrop _

theorem plainText_scientific : PlainText (Decimal.scientific digits lead) := by
  have htake : PlainText (String.ofList (digits.take 1)) :=
    plainText_ofList fun c hc => h c (List.mem_of_mem_take hc)
  have hdrop : PlainText (String.ofList (digits.drop 1)) :=
    plainText_ofList fun c hc => h c (List.mem_of_mem_drop hc)
  unfold Decimal.scientific
  refine .append (.append (.append (.append htake ?_) rfl) ?_) (plainText_nat _)
  · split
    · rfl
    · exact .append rfl hdrop
  · split <;> rfl

end

theorem plainText_number (n : JsonNumber) : PlainText n.text := by
  cases n with
  | integer value => exact plainText_int value
  | float negative magnitude =>
    have hdigits : ∀ c ∈ Nat.toDigits 10 (Decimal.shortest magnitude).digits, c.isDigit = true :=
      fun c => isDigit_of_mem_toDigits
    unfold JsonNumber.text Decimal.Layout.write
    refine .append ?_ ?_
    · split <;> rfl
    · simp only
      split
      · exact plainText_plain hdigits _
      · exact plainText_scientific hdigits _

/-! ### Values -/

theorem deepest_close {c : Char} (h : c = ']' ∨ c = '}') (depth : Nat) (rest : List Char) :
    deepest .outside (depth + 1) (c :: rest) = max (depth + 1) (deepest .outside depth rest) := by
  rcases h with rfl | rfl <;> rfl

/-- The inside of an array or object is counted one deeper, up to its end. -/
theorem deepest_wrapped {opening closing : Char} (ho : opening = '[' ∨ opening = '{')
    (hc : closing = ']' ∨ closing = '}') {inside : List Char} {n : Nat}
    (h : ∀ depth rest, deepest .outside depth (inside ++ rest) =
      max (depth + n) (deepest .outside depth rest)) (depth : Nat) (rest : List Char) :
    deepest .outside depth (opening :: (inside ++ closing :: rest)) =
      max (depth + (n + 1)) (deepest .outside depth rest) := by
  have hopen : ∀ text, deepest .outside depth (opening :: text) =
      deepest .outside (depth + 1) text := by
    rcases ho with rfl | rfl <;> exact fun _ => rfl
  rw [hopen, h, deepest_close hc]
  omega

theorem deepest_comma (depth : Nat) (text : List Char) :
    deepest .outside depth (',' :: text) = deepest .outside depth text := rfl

theorem deepest_colon (depth : Nat) (text : List Char) :
    deepest .outside depth (':' :: text) = deepest .outside depth text := rfl

mutual

theorem deepest_write : ∀ (json : Json) (depth : Nat) (rest : List Char),
    deepest .outside depth (json.write ++ rest) =
      max (depth + json.nesting) (deepest .outside depth rest)
  | .null, depth, rest => (Nat.max_eq_right (le_deepest _ depth rest)).symm
  | .bool true, depth, rest | .bool false, depth, rest =>
    (Nat.max_eq_right (le_deepest _ depth rest)).symm
  | .number n, depth, rest =>
    (deepest_plain (plainText_number n) depth rest).trans
      (Nat.max_eq_right (le_deepest _ depth rest)).symm
  | .string text, depth, rest =>
    (deepest_writeString text depth rest).trans
      (Nat.max_eq_right (le_deepest _ depth rest)).symm
  | .array elements, depth, rest => by
    rw [write, nesting, List.cons_append, List.append_assoc]
    exact deepest_wrapped (.inl rfl) (.inl rfl) (deepest_writeElements elements) depth rest
  | .object members, depth, rest => by
    rw [write, nesting, List.cons_append, List.append_assoc]
    exact deepest_wrapped (.inr rfl) (.inr rfl) (deepest_writeMembers members) depth rest

theorem deepest_writeElements : ∀ (elements : List Json) (depth : Nat) (rest : List Char),
    deepest .outside depth (writeElements elements ++ rest) =
      max (depth + nestingAll elements) (deepest .outside depth rest)
  | [], depth, rest => (Nat.max_eq_right (le_deepest _ depth rest)).symm
  | element :: elements, depth, rest => by
    rw [writeElements, nestingAll, List.append_assoc, deepest_write element,
      deepest_writeMoreElements elements]
    omega

theorem deepest_writeMoreElements : ∀ (elements : List Json) (depth : Nat) (rest : List Char),
    deepest .outside depth (writeMoreElements elements ++ rest) =
      max (depth + nestingAll elements) (deepest .outside depth rest)
  | [], depth, rest => (Nat.max_eq_right (le_deepest _ depth rest)).symm
  | element :: elements, depth, rest => by
    rw [writeMoreElements, nestingAll, List.cons_append, deepest_comma, List.append_assoc,
      deepest_write element, deepest_writeMoreElements elements]
    omega

theorem deepest_writeMember : ∀ (member : String × Json) (depth : Nat) (rest : List Char),
    deepest .outside depth (writeMember member ++ rest) =
      max (depth + nestingMember member) (deepest .outside depth rest)
  | (key, value), depth, rest => by
    rw [writeMember, nestingMember, List.append_assoc, deepest_writeString, List.cons_append,
      deepest_colon, deepest_write value]

theorem deepest_writeMembers : ∀ (members : List (String × Json)) (depth : Nat)
    (rest : List Char), deepest .outside depth (writeMembers members ++ rest) =
      max (depth + nestingMembers members) (deepest .outside depth rest)
  | [], depth, rest => (Nat.max_eq_right (le_deepest _ depth rest)).symm
  | member :: members, depth, rest => by
    rw [writeMembers, nestingMembers, List.append_assoc, deepest_writeMember member,
      deepest_writeMoreMembers members]
    omega

theorem deepest_writeMoreMembers : ∀ (members : List (String × Json)) (depth : Nat)
    (rest : List Char), deepest .outside depth (writeMoreMembers members ++ rest) =
      max (depth + nestingMembers members) (deepest .outside depth rest)
  | [], depth, rest => (Nat.max_eq_right (le_deepest _ depth rest)).symm
  | member :: members, depth, rest => by
    rw [writeMoreMembers, nestingMembers, List.cons_append, deepest_comma, List.append_assoc,
      deepest_writeMember member, deepest_writeMoreMembers members]
    omega

end

/-- The nesting of a value is that of its text. -/
theorem textNesting_text (json : Json) : textNesting json.text = json.nesting := by
  have h := deepest_write json 0 []
  rw [List.append_nil] at h
  rw [textNesting, Json.text, String.toList_ofList, h]
  exact (Nat.max_eq_left (Nat.zero_le _)).trans (Nat.zero_add _)

end GraphDoc.Json
