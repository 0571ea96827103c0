import GraphDoc.Description.Writing
import GraphDoc.Json.Record
import GraphDoc.Json.Parse

/-!
# Reading descriptions

The readers of the nodes. Each takes the number of arrays and objects that its text may still open
inside one another; a reader without any left refuses the next one. Keys may come in any order, and
those with a default may be left out.
-/
namespace GraphDoc

open Json

/-- A list of elements that open nothing themselves. -/
def Json.Reader.flatList {α : Type} (levels : Nat) (element : Reader α) : Reader (List α) :=
  .list (if levels = 0 then none else some element)

/-! ## Kinds -/

/-- A kind is its bare name, or its name with `null`. -/
def kindReader {κ : Type} (known : List (String × κ)) (levels : Nat) : Reader κ :=
  .variant known .ok (if levels = 0 then none else some fun kind => Reader.unit.map fun _ => kind)

/-! ## Values and arguments -/

structure ArgumentDraft where
  name : Option String := none
  value : Option Value := none
  isCall : Option Bool := none

def argumentShape (value : Reader Value) : Shape ArgumentDraft Argument where
  parts := [
    ⟨"name", (·.name.isSome), Reader.string.map fun name d => { d with name := some name }⟩,
    ⟨"value", (·.value.isSome), value.map fun value d => { d with value := some value }⟩,
    ⟨"is_function_style", (·.isCall.isSome),
      Reader.boolean.map fun isCall d => { d with isCall := some isCall }⟩]
  start := {}
  finish draft :=
    match draft.name, draft.value with
    | some name, some value => .ok (.ofParts name value (draft.isCall.getD false))
    | none, _ => .error "name"
    | some _, none => .error "value"

/-- A value never goes by its bare kind. -/
def bareValue (_ : ValueKind) : Except Cause Value :=
  .error (.invalidType .unitVariant "newtype variant")

def argumentTitle : String := "struct Argument"

mutual

def valueReader : (levels : Nat) → Reader Value
  | 0 => .variant ValueKind.known bareValue none
  | levels + 1 => .variant ValueKind.known bareValue <| some fun
    | .bool => Reader.boolean.map .bool
    | .int => Reader.integer.map .int
    | .string => Reader.string.map .string
    | .regex => Reader.string.map .regex
    | .bools => (Reader.flatList levels Reader.boolean).map .bools
    | .ints => (Reader.flatList levels Reader.integer).map .ints
    | .strings => (Reader.flatList levels Reader.string).map .strings
    | .object =>
      (Reader.list (match levels with
        | 0 => none
        | levels + 1 => some (argumentReader levels))).map .object
    | .argument => (argumentReader levels).map .argument

def argumentReader : (levels : Nat) → Reader Argument
  | 0 => .record (δ := ArgumentDraft) argumentTitle none
  | levels + 1 => .record argumentTitle (some (argumentShape (valueReader levels)))

end

def argumentListReader (levels : Nat) : Reader (List Argument) :=
  .list (if levels = 0 then none else some (argumentReader (levels - 1)))

/-! ## Clauses -/

structure ClauseDraft where
  operators : Option (List String) := none
  predicates : Option (List Argument) := none

def clauseShape (levels : Nat) : Shape ClauseDraft (List String × List Argument) where
  parts := [
    ⟨"operators", (·.operators.isSome), (Reader.flatList levels Reader.string).map
      fun operators d => { d with operators := some operators }⟩,
    ⟨"predicates", (·.predicates.isSome), (argumentListReader levels).map
      fun predicates d => { d with predicates := some predicates }⟩]
  start := {}
  finish draft :=
    match draft.predicates with
    | some predicates => .ok (draft.operators.getD [], predicates)
    | none => .error "predicates"

/-- Operators and predicates whose counts make no clause are refused once both are read. -/
def clauseOfLists (lists : List String × List Argument) : Except Cause Clause :=
  (Clause.ofLists lists.1 lists.2).mapError fun mismatch => .rejected mismatch.message

def clauseReader (levels : Nat) : Reader Clause :=
  (Reader.record "struct BooleanClauseParts"
    (if levels = 0 then none else some (clauseShape (levels - 1)))).filterMap clauseOfLists

/-! ## Fields -/

structure FieldDraft where
  alias? : Option (Option String) := none
  argumentOperators : Option (List String) := none
  arguments : Option (List Argument) := none
  children : Option (List Field) := none
  filter : Option (Option Clause) := none
  isFunction : Option Bool := none
  name : Option String := none

def fieldShape (levels : Nat) (children : Reader (List Field)) : Shape FieldDraft Field where
  parts := [
    ⟨"alias", (·.alias?.isSome), Reader.string.optional.map
      fun label? d => { d with alias? := some label? }⟩,
    ⟨"argument_operators", (·.argumentOperators.isSome),
      (Reader.flatList levels Reader.string).map
        fun operators d => { d with argumentOperators := some operators }⟩,
    ⟨"arguments", (·.arguments.isSome), (argumentListReader levels).map
      fun arguments d => { d with arguments := some arguments }⟩,
    ⟨"children", (·.children.isSome), children.map
      fun children d => { d with children := some children }⟩,
    ⟨"filter", (·.filter.isSome), (clauseReader levels).optional.map
      fun filter d => { d with filter := some filter }⟩,
    ⟨"is_function_field", (·.isFunction.isSome), Reader.boolean.map
      fun isFunction d => { d with isFunction := some isFunction }⟩,
    ⟨"name", (·.name.isSome), Reader.string.map fun name d => { d with name := some name }⟩]
  start := {}
  finish draft :=
    match draft.name with
    | some name => .ok {
        alias? := draft.alias?.getD none
        argumentOperators := draft.argumentOperators.getD []
        arguments := draft.arguments.getD []
        children := draft.children.getD []
        filter := draft.filter.getD none
        isFunction := draft.isFunction.getD false
        name }
    | none => .error "name"

def fieldTitle : String := "struct Field"

mutual

def fieldReader : (levels : Nat) → Reader Field
  | 0 => .record (δ := FieldDraft) fieldTitle none
  | levels + 1 => .record fieldTitle (some (fieldShape levels (fieldListReader levels)))

def fieldListReader : (levels : Nat) → Reader (List Field)
  | 0 => .list none
  | levels + 1 => .list (some (fieldReader levels))

end

/-! ## Operations -/

structure OperationDraft where
  fields : Option (List Field) := none
  kind : Option OperationKind := none
  name : Option String := none

def operationShape (levels : Nat) : Shape OperationDraft Operation where
  parts := [
    ⟨"fields", (·.fields.isSome), (fieldListReader levels).map
      fun fields d => { d with fields := some fields }⟩,
    ⟨"kind", (·.kind.isSome), (kindReader OperationKind.known levels).map
      fun kind d => { d with kind := some kind }⟩,
    ⟨"name", (·.name.isSome), Reader.string.map fun name d => { d with name := some name }⟩]
  start := {}
  finish draft :=
    match draft.kind with
    | some kind => .ok { fields := draft.fields.getD [], kind, name := draft.name.getD "" }
    | none => .error "kind"

def operationReader (levels : Nat) : Reader Operation :=
  .record "struct Operation" (if levels = 0 then none else some (operationShape (levels - 1)))

/-! ## Whole descriptions -/

def Value.ofDescription (text : String) : Except ReadError Value :=
  (valueReader nestingLimit).readAll text

def Argument.ofDescription (text : String) : Except ReadError Argument :=
  (argumentReader nestingLimit).readAll text

def Clause.ofDescription (text : String) : Except ReadError Clause :=
  (clauseReader nestingLimit).readAll text

def Field.ofDescription (text : String) : Except ReadError Field :=
  (fieldReader nestingLimit).readAll text

def Operation.ofDescription (text : String) : Except ReadError Operation :=
  (operationReader nestingLimit).readAll text

def OperationKind.ofDescription (text : String) : Except ReadError OperationKind :=
  (kindReader known nestingLimit).readAll text

def NameKind.ofDescription (text : String) : Except ReadError NameKind :=
  (kindReader known nestingLimit).readAll text

end GraphDoc
