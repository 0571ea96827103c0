import GraphDoc.Json.Basic
import GraphDoc.Value

/-!
# Coercion of loose values

A JSON value becomes an argument value if it is a boolean, an integer of 64 bits, a string, or an
array of one of these. The first element decides which array it has to be; an empty one counts as a
list of strings.
-/
namespace GraphDoc

/-- A JSON value that no argument value stands for. -/
structure UnsupportedValue where
  value : Json

def UnsupportedValue.message (unsupported : UnsupportedValue) : String :=
  "Argument value type is not supported: `" ++ unsupported.value.text ++ "`"

namespace Json

def bool? : Json → Option Bool
  | bool value => some value
  | _ => none

/-- The value as an integer, if it is one and fits in 64 bits with a sign. -/
def word? : Json → Option Int64
  | number (.integer value) =>
    if Int64.minValue.toInt ≤ value ∧ value ≤ Int64.maxValue.toInt then some (.ofInt value)
    else none
  | _ => none

def string? : Json → Option String
  | string text => some text
  | _ => none

end Json

namespace Value

def listOfJson? (elements : List Json) : Option Value :=
  match elements with
  | [] => some (.strings [])
  | .bool _ :: _ => (elements.mapM Json.bool?).map .bools
  | .number _ :: _ => (elements.mapM Json.word?).map .ints
  | .string _ :: _ => (elements.mapM Json.string?).map .strings
  | _ => none

def ofJson? : Json → Option Value
  | .bool value => some (.bool value)
  | .number value => (Json.number value).word?.map .int
  | .string text => some (.string text)
  | .array elements => listOfJson? elements
  | .null | .object _ => none

/-- The value that a loose value stands for; one that stands for none is handed back. -/
def ofJson (json : Json) : Except UnsupportedValue Value :=
  match ofJson? json with
  | some value => .ok value
  | none => .error ⟨json⟩

end Value

/-- A pair of a name and a loose value. -/
def Argument.ofJson (name : String) (json : Json) : Except UnsupportedValue Argument :=
  (Value.ofJson json).map (.pair name)

end GraphDoc
