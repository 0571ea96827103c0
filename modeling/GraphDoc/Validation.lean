import GraphDoc.Name
import GraphDoc.Operation

/-!
# Validation

What makes a document unfit to be sent. A check stops at the first offence in document order: the
operation's name, then each field before its children.
-/
namespace GraphDoc

inductive NameKind where
  | fieldAlias
  | field
  | operation
deriving DecidableEq, Repr

def NameKind.text : NameKind → String
  | fieldAlias => "alias"
  | field => "field"
  | operation => "operation"

inductive Offence where
  | invalidName (kind : NameKind) (name : String)
  | booleanArguments (field : String) (mismatch : CountMismatch)
deriving DecidableEq, Repr

namespace Offence

def message : Offence → String
  | invalidName kind name =>
    "'" ++ name ++ "' is an invalid " ++ kind.text ++
      " name in GraphQL. A valid name matches /[_A-Za-z][_0-9A-Za-z]*/, see: http://facebook.github.io/graphql/October2016/#sec-Names"
  | booleanArguments field _ => "Field `" ++ field ++ "` has mismatched boolean arguments"

/-- The messages of what underlies the offence. -/
def causes : Offence → List String
  | invalidName .. => []
  | booleanArguments _ mismatch => [mismatch.message]

end Offence

def checkName (kind : NameKind) (name : String) : Except Offence Unit :=
  if Name.isValid name then .ok () else .error (.invalidName kind name)

/-- Argument operators, where there are any, must be one fewer than the arguments. -/
def Field.checkArguments (f : Field) : Except Offence Unit :=
  if !f.argumentOperators.isEmpty && f.argumentOperators.length + 1 != f.arguments.length then
    .error (.booleanArguments f.name ⟨f.argumentOperators.length, f.arguments.length⟩)
  else .ok ()

/-- The checks on a field itself: name and alias where names count, then the arguments. -/
def Field.checkSelf (checkNames : Bool) (f : Field) : Except Offence Unit := do
  if checkNames then
    checkName .field f.name
    if let some label := f.alias? then
      checkName .fieldAlias label
  f.checkArguments

mutual

def Field.check (checkNames : Bool) : Field → Except Offence Unit
  | f@⟨_, _, _, children, _, _, _⟩ =>
    match f.checkSelf checkNames with
    | .ok () => Field.checkAll checkNames children
    | .error offence => .error offence

def Field.checkAll (checkNames : Bool) : List Field → Except Offence Unit
  | [] => .ok ()
  | field :: fields =>
    match Field.check checkNames field with
    | .ok () => Field.checkAll checkNames fields
    | .error offence => .error offence

end

/-- Checks the field and all its descendants, names included. -/
def Field.validate (f : Field) : Except Offence Unit := f.check true

/-- Graph patterns may use any field names; all other documents are held to the name grammar. -/
def OperationKind.checksNames : OperationKind → Bool
  | graphPattern => false
  | mutation | query | subscription => true

/-- An operation may go without a name, but a name that it has must be valid. -/
def Operation.validate (o : Operation) : Except Offence Unit := do
  if let some name := o.name? then
    checkName .operation name
  Field.checkAll o.kind.checksNames o.fields

end GraphDoc
