import GraphDoc.Json.Basic
import GraphDoc.Operation
import GraphDoc.Validation

/-!
# Writing descriptions

The JSON description of a node. A record is an object with all its keys, in the order of the array
form; a value is an object whose only key names its kind.
-/
namespace GraphDoc

/-- The kinds of values, as descriptions name them. -/
inductive ValueKind where
  | bool
  | int
  | string
  | regex
  | bools
  | ints
  | strings
  | object
  | argument
deriving DecidableEq, Repr

namespace ValueKind

def name : ValueKind → String
  | bool => "Bool"
  | int => "Int"
  | string => "String"
  | regex => "Regex"
  | bools => "BoolList"
  | ints => "IntList"
  | strings => "StringList"
  | object => "Object"
  | argument => "Argument"

def all : List ValueKind := [bool, int, string, regex, bools, ints, strings, object, argument]

def known : List (String × ValueKind) := all.map fun kind => (kind.name, kind)

end ValueKind

namespace OperationKind

def name : OperationKind → String
  | graphPattern => "GraphPattern"
  | mutation => "Mutation"
  | query => "Query"
  | subscription => "Subscription"

def all : List OperationKind := [graphPattern, mutation, query, subscription]

def known : List (String × OperationKind) := all.map fun kind => (kind.name, kind)

end OperationKind

namespace NameKind

def name : NameKind → String
  | fieldAlias => "Alias"
  | field => "Field"
  | operation => "Operation"

def all : List NameKind := [fieldAlias, field, operation]

def known : List (String × NameKind) := all.map fun kind => (kind.name, kind)

end NameKind

namespace Json

def ofStrings (texts : List String) : Json := .array (texts.map .string)

end Json

mutual

def Value.toJson : Value → Json
  | .bool value => .object [(ValueKind.bool.name, .bool value)]
  | .int value => .object [(ValueKind.int.name, .number (.integer value.toInt))]
  | .string text => .object [(ValueKind.string.name, .string text)]
  | .regex pattern => .object [(ValueKind.regex.name, .string pattern)]
  | .bools values => .object [(ValueKind.bools.name, .array (values.map .bool))]
  | .ints values =>
    .object [(ValueKind.ints.name, .array (values.map fun n => .number (.integer n.toInt)))]
  | .strings texts => .object [(ValueKind.strings.name, .ofStrings texts)]
  | .object arguments => .object [(ValueKind.object.name, .array (Argument.listToJson arguments))]
  | .argument argument => .object [(ValueKind.argument.name, argument.toJson)]

def Argument.toJson : Argument → Json
  | .pair name value =>
    .object [("name", .string name), ("value", value.toJson), ("is_function_style", .bool false)]
  | .call name value =>
    .object [("name", .string name), ("value", value.toJson), ("is_function_style", .bool true)]

def Argument.listToJson : List Argument → List Json
  | [] => []
  | argument :: arguments => argument.toJson :: Argument.listToJson arguments

end

theorem Argument.listToJson_eq_map (arguments : List Argument) :
    Argument.listToJson arguments = arguments.map Argument.toJson := by
  induction arguments with
  | nil => rfl
  | cons argument arguments ih => rw [Argument.listToJson, ih, List.map_cons]

def Clause.toJson (clause : Clause) : Json :=
  .object [("operators", .ofStrings clause.operators),
    ("predicates", .array (Argument.listToJson clause.predicates))]

mutual

def Field.toJson : Field → Json
  | ⟨alias?, operators, arguments, children, filter, isFunction, name⟩ =>
    .object [("alias", alias?.elim .null .string),
      ("argument_operators", .ofStrings operators),
      ("arguments", .array (Argument.listToJson arguments)),
      ("children", .array (Field.listToJson children)),
      ("filter", filter.elim .null Clause.toJson),
      ("is_function_field", .bool isFunction),
      ("name", .string name)]

def Field.listToJson : List Field → List Json
  | [] => []
  | field :: fields => field.toJson :: Field.listToJson fields

end

theorem Field.listToJson_eq_map (fields : List Field) :
    Field.listToJson fields = fields.map Field.toJson := by
  induction fields with
  | nil => rfl
  | cons field fields ih => rw [Field.listToJson, ih, List.map_cons]

def Operation.toJson (o : Operation) : Json :=
  .object [("fields", .array (Field.listToJson o.fields)), ("kind", .string o.kind.name),
    ("name", .string o.name)]

/-! ## The text of a description -/

def Value.description (value : Value) : String := value.toJson.text

def Argument.description (argument : Argument) : String := argument.toJson.text

def Clause.description (clause : Clause) : String := clause.toJson.text

def Field.description (f : Field) : String := f.toJson.text

def Operation.description (o : Operation) : String := o.toJson.text

end GraphDoc
