import GraphDoc.Proofs.IntegerText
import GraphDoc.Proofs.Visible

/-!
# Literals and layouts

A value is written as a literal, as a list of literals, as an object or as an argument, and its
first token tells which. A literal or a list of them can be read back to the visible part of the
value that it stands for.
-/
namespace GraphDoc

/-! ## Literals -/

inductive LiteralKind where
  | bool
  | int
  | string
deriving DecidableEq

def literalKind (text : String) : LiteralKind :=
  if text.toList.head? = some '"' then .string
  else if text.toList.head? = some 't' ∨ text.toList.head? = some 'f' then .bool
  else .int

def boolOfText (text : String) : Bool := text == "true"

def wordOfText (text : String) : Int64 := .ofInt (integerOfText text.toList)

/-- The text between the quotes. -/
def unquoted (text : String) : String := .ofList text.toList.tail.dropLast

/-- The visible value that is written as the literal. -/
def literalValue (text : String) : Value :=
  match literalKind text with
  | .bool => .bool (boolOfText text)
  | .int => .int (wordOfText text)
  | .string => .string (unquoted text)

/-- The visible value that is written as a list of literals of the given kind. -/
def literalsValue (kind : LiteralKind) (texts : List String) : Value :=
  match kind with
  | .bool => .bools (texts.map boolOfText)
  | .int => .ints (texts.map wordOfText)
  | .string => .strings (texts.map unquoted)

/-- The visible value that is written as the list of literals, which the first of them tells. -/
def listValue : List String → Value
  | [] => .strings []
  | text :: texts => literalsValue (literalKind text) (text :: texts)

theorem literalKind_boolToken (value : Bool) : literalKind (boolToken value).text = .bool := by
  cases value <;> decide

theorem literalKind_intToken (value : Int64) : literalKind (intToken value).text = .int := by
  obtain ⟨c, cs, ht, hc⟩ := exists_toList_toString_eq_cons value.toInt
  have hh : (intToken value).text.toList.head? = some c := by
    rw [intToken, Token.text, ht]
    rfl
  have hne : ∀ d : Char, d.isDigit = false → d ≠ '-' → c ≠ d := by
    intro d hd hm
    rcases hc with rfl | hc
    · exact hm.symm
    · exact ne_of_isDigit hc hd
  rw [literalKind, hh]
  simp [hne '"' (by decide) (by decide), hne 't' (by decide) (by decide),
    hne 'f' (by decide) (by decide)]

theorem toList_stringToken (text : String) :
    (stringToken text).text.toList = '"' :: (text.toList ++ ['"']) := by
  simp [stringToken, Token.text]

theorem literalKind_stringToken (text : String) :
    literalKind (stringToken text).text = .string := by
  rw [literalKind, toList_stringToken]
  rfl

theorem boolOfText_boolToken (value : Bool) : boolOfText (boolToken value).text = value := by
  cases value <;> decide

theorem wordOfText_intToken (value : Int64) : wordOfText (intToken value).text = value := by
  rw [wordOfText, intToken, Token.text, integerOfText_toString, Int64.ofInt_toInt]

theorem unquoted_stringToken (text : String) : unquoted (stringToken text).text = text := by
  rw [unquoted, toList_stringToken, List.tail_cons, List.dropLast_concat, String.ofList_toList]

/-! ## Values by their first token -/

/-- How a value is laid out in tokens; each layout has a first token of its own. -/
inductive Layout where
  | literal (text : String)
  | list (texts : List String)
  | object (arguments : List Argument)
  | argument (argument : Argument)

def Layout.tokens : Layout → List Token
  | literal text => [.literal text]
  | list texts => listTokens (texts.map .literal)
  | object arguments => .braceOpen :: (commaTokens (arguments.map Argument.tokens) ++ [.braceClose])
  | argument arg => arg.tokens

namespace Value

def layout : Value → Layout
  | bool value => .literal (boolToken value).text
  | int value => .literal (intToken value).text
  | string text | regex text => .literal (stringToken text).text
  | bools values => .list (values.map fun value => (boolToken value).text)
  | ints values => .list (values.map fun value => (intToken value).text)
  | strings texts => .list (texts.map fun text => (stringToken text).text)
  | object arguments => .object arguments
  | argument arg => .argument arg

theorem tokens_eq_layout (value : Value) : value.tokens = value.layout.tokens := by
  cases value with
  | bool value => exact tokens_bool value
  | int value => exact tokens_int value
  | string text => exact tokens_string text
  | regex pattern => exact tokens_regex pattern
  | bools values => rw [tokens_bools, layout, Layout.tokens, List.map_map]; rfl
  | ints values => rw [tokens_ints, layout, Layout.tokens, List.map_map]; rfl
  | strings texts => rw [tokens_strings, layout, Layout.tokens, List.map_map]; rfl
  | object arguments => exact tokens_object arguments
  | argument arg => exact tokens_argument arg

theorem visible_of_literal {value : Value} {text : String} (h : value.layout = .literal text) :
    value.visible = literalValue text := by
  cases value <;> cases h
  · rw [literalValue, literalKind_boolToken, boolOfText_boolToken, visible]
  · rw [literalValue, literalKind_intToken, wordOfText_intToken, visible]
  · rw [literalValue, literalKind_stringToken, unquoted_stringToken, visible]
  · rw [literalValue, literalKind_stringToken, unquoted_stringToken, visible]

theorem map_map_text {α : Type} {write : α → String} {read : String → α}
    (h : ∀ a, read (write a) = a) (elements : List α) :
    (elements.map write).map read = elements := by
  rw [List.map_map]
  exact (List.map_congr_left fun a _ => h a).trans (List.map_id elements)

theorem listValue_map_cons {α : Type} {write : α → String} {kind : LiteralKind}
    (h : ∀ a, literalKind (write a) = kind) (a : α) (as : List α) :
    listValue ((a :: as).map write) = literalsValue kind ((a :: as).map write) := by
  rw [List.map_cons, listValue, h]

theorem visible_of_list {value : Value} {texts : List String} (h : value.layout = .list texts) :
    value.visible = listValue texts := by
  cases value with
  | bools values =>
    obtain rfl := Layout.list.inj h
    cases values with
    | nil => rfl
    | cons value values =>
      rw [listValue_map_cons literalKind_boolToken, literalsValue,
        map_map_text boolOfText_boolToken]
      rfl
  | ints values =>
    obtain rfl := Layout.list.inj h
    cases values with
    | nil => rfl
    | cons value values =>
      rw [listValue_map_cons literalKind_intToken, literalsValue, map_map_text wordOfText_intToken]
      rfl
  | strings texts =>
    obtain rfl := Layout.list.inj h
    cases texts with
    | nil => rfl
    | cons text texts =>
      rw [listValue_map_cons literalKind_stringToken, literalsValue,
        map_map_text unquoted_stringToken]
      rfl
  | _ => cases h

end Value

end GraphDoc
