import GraphDoc.Description.Writing
import GraphDoc.Proofs.Spelling

/-!
# The spellings of a node

What a description of a clause, a field or an operation spells are its parts, in which the operators
and predicates of a filter need not make a clause. A node is spelled as its parts are.
-/
namespace GraphDoc

open Json

/-! ## Values and arguments -/

def Argument.partSpellings (name : String) (value : Spelling) (isCall : Bool) :
    List PartSpelling := [
  ⟨"name", False, SpelledString name⟩,
  ⟨"value", False, value⟩,
  ⟨"is_function_style", isCall = false, Written (.bool isCall)⟩]

mutual

def Value.spelling : Value → Spelling
  | .bool value => SpelledVariant ValueKind.bool.name (Written (.bool value))
  | .int value => SpelledVariant ValueKind.int.name (Written (.number (.integer value.toInt)))
  | .string text => SpelledVariant ValueKind.string.name (SpelledString text)
  | .regex pattern => SpelledVariant ValueKind.regex.name (SpelledString pattern)
  | .bools values =>
    SpelledVariant ValueKind.bools.name
      (SpelledList (values.map fun value => Written (.bool value)))
  | .ints values =>
    SpelledVariant ValueKind.ints.name
      (SpelledList (values.map fun value => Written (.number (.integer value.toInt))))
  | .strings texts =>
    SpelledVariant ValueKind.strings.name (SpelledList (texts.map SpelledString))
  | .object arguments =>
    SpelledVariant ValueKind.object.name (SpelledList (Argument.spellings arguments))
  | .argument argument => SpelledVariant ValueKind.argument.name argument.spelling

def Argument.spelling : Argument → Spelling
  | .pair name value => SpelledRecord (Argument.partSpellings name value.spelling false)
  | .call name value => SpelledRecord (Argument.partSpellings name value.spelling true)

def Argument.spellings : List Argument → List Spelling
  | [] => []
  | argument :: arguments => argument.spelling :: Argument.spellings arguments

end

theorem Argument.spellings_eq_map (arguments : List Argument) :
    Argument.spellings arguments = arguments.map Argument.spelling := by
  induction arguments with
  | nil => rfl
  | cons argument arguments ih => rw [Argument.spellings, ih, List.map_cons]

theorem Argument.spelling_eq (argument : Argument) : argument.spelling =
    SpelledRecord (partSpellings argument.name argument.value.spelling argument.isCall) := by
  cases argument <;> rw [spelling] <;> rfl

/-! ## Parts of clauses, fields and operations -/

/-- The unchecked shape of a clause. -/
structure ClauseParts where
  operators : List String
  predicates : List Argument

/-- A field whose filter is unchecked, and so are those of its children. -/
structure FieldParts where
  alias? : Option String := none
  argumentOperators : List String := []
  arguments : List Argument := []
  children : List FieldParts := []
  filter : Option ClauseParts := none
  isFunction : Bool := false
  name : String

structure OperationParts where
  fields : List FieldParts := []
  kind : OperationKind
  name : String := ""

def ClauseParts.partSpellings (clause : ClauseParts) : List PartSpelling := [
  ⟨"operators", clause.operators = [], SpelledList (clause.operators.map SpelledString)⟩,
  ⟨"predicates", False, SpelledList (clause.predicates.map Argument.spelling)⟩]

def ClauseParts.spelling (clause : ClauseParts) : Spelling := SpelledRecord clause.partSpellings

namespace FieldParts

def partSpellings (f : FieldParts) (children : List Spelling) : List PartSpelling := [
  ⟨"alias", f.alias? = none, optionalSpelling (f.alias?.map SpelledString)⟩,
  ⟨"argument_operators", f.argumentOperators = [],
    SpelledList (f.argumentOperators.map SpelledString)⟩,
  ⟨"arguments", f.arguments = [], SpelledList (f.arguments.map Argument.spelling)⟩,
  ⟨"children", f.children = [], SpelledList children⟩,
  ⟨"filter", f.filter = none, optionalSpelling (f.filter.map ClauseParts.spelling)⟩,
  ⟨"is_function_field", f.isFunction = false, Written (.bool f.isFunction)⟩,
  ⟨"name", False, SpelledString f.name⟩]

mutual

def spelling : FieldParts → Spelling
  | ⟨alias?, operators, arguments, children, filter, isFunction, name⟩ =>
    SpelledRecord (partSpellings ⟨alias?, operators, arguments, children, filter, isFunction, name⟩
      (spellings children))

def spellings : List FieldParts → List Spelling
  | [] => []
  | field :: fields => field.spelling :: spellings fields

end

theorem spellings_eq_map (fields : List FieldParts) : spellings fields = fields.map spelling := by
  induction fields with
  | nil => rfl
  | cons field fields ih => rw [spellings, ih, List.map_cons]

theorem spelling_eq (f : FieldParts) :
    f.spelling = SpelledRecord (f.partSpellings (f.children.map spelling)) := by
  cases f
  rw [spelling, spellings_eq_map]

end FieldParts

/-- A kind is its bare name, or its name with `null`. -/
def OperationKind.spelling (kind : OperationKind) : Spelling := fun text depth =>
  SpelledString kind.name text depth ∨ SpelledVariant kind.name (Written .null) text depth

def OperationParts.partSpellings (o : OperationParts) : List PartSpelling := [
  ⟨"fields", o.fields = [], SpelledList (o.fields.map FieldParts.spelling)⟩,
  ⟨"kind", False, o.kind.spelling⟩,
  ⟨"name", o.name = "", SpelledString o.name⟩]

def OperationParts.spelling (o : OperationParts) : Spelling := SpelledRecord o.partSpellings

/-! ### Checking parts -/

def ClauseParts.check (clause : ClauseParts) : Option Clause :=
  (Clause.ofLists clause.operators clause.predicates).toOption

namespace FieldParts

mutual

/-- The field of the parts, if every filter in it is a clause. -/
def check : FieldParts → Option Field
  | ⟨alias?, argumentOperators, arguments, children, filter, isFunction, name⟩ => do
    let children ← checkAll children
    let filter ← filter.mapM ClauseParts.check
    return { alias?, argumentOperators, arguments, children, filter, isFunction, name }

def checkAll : List FieldParts → Option (List Field)
  | [] => some []
  | field :: fields => do
    let field ← field.check
    let fields ← checkAll fields
    return field :: fields

end

theorem checkAll_eq_mapM (fields : List FieldParts) : checkAll fields = fields.mapM check := by
  induction fields with
  | nil => rfl
  | cons field fields ih =>
    rw [checkAll, ih, List.mapM_cons]

theorem check_eq (f : FieldParts) : f.check =
    (f.children.mapM check).bind fun children =>
      (f.filter.mapM ClauseParts.check).map fun filter =>
        ⟨f.alias?, f.argumentOperators, f.arguments, children, filter, f.isFunction, f.name⟩ := by
  obtain ⟨_, _, _, children, filter, _, _⟩ := f
  rw [check, checkAll_eq_mapM]
  simp only [Option.map_eq_bind]
  rfl

end FieldParts

def OperationParts.check (o : OperationParts) : Option Operation :=
  (o.fields.mapM FieldParts.check).map fun fields => ⟨fields, o.kind, o.name⟩

/-! ### The parts of a node -/

def Clause.parts (clause : Clause) : ClauseParts := ⟨clause.operators, clause.predicates⟩

mutual

def Field.parts : Field → FieldParts
  | ⟨alias?, operators, arguments, children, filter, isFunction, name⟩ =>
    ⟨alias?, operators, arguments, Field.allParts children, filter.map Clause.parts, isFunction,
      name⟩

def Field.allParts : List Field → List FieldParts
  | [] => []
  | field :: fields => field.parts :: Field.allParts fields

end

def Operation.parts (o : Operation) : OperationParts := ⟨Field.allParts o.fields, o.kind, o.name⟩

theorem Clause.check_parts (clause : Clause) : clause.parts.check = some clause := by
  have hlists : ofLists clause.operators clause.predicates = .ok clause :=
    ofLists_eq_ok_iff.mpr ⟨rfl, rfl⟩
  rw [ClauseParts.check, parts, hlists]
  rfl

theorem Clause.check_optionalParts (filter : Option Clause) :
    (filter.map Clause.parts).mapM ClauseParts.check = some filter := by
  cases filter with
  | none => rfl
  | some clause =>
    have hcheck := clause.check_parts
    rw [Option.map_some, Option.mapM_some, hcheck]
    rfl

mutual

theorem Field.check_parts : ∀ f : Field, f.parts.check = some f
  | ⟨_, _, _, children, filter, _, _⟩ => by
    rw [Field.parts, FieldParts.check, Field.check_allParts children,
      Clause.check_optionalParts filter]
    rfl

theorem Field.check_allParts : ∀ fields : List Field,
    FieldParts.checkAll (Field.allParts fields) = some fields
  | [] => rfl
  | field :: fields => by
    rw [Field.allParts, FieldParts.checkAll, field.check_parts, Field.check_allParts fields]
    rfl

end

theorem Operation.check_parts (o : Operation) : o.parts.check = some o := by
  rw [parts, OperationParts.check, ← FieldParts.checkAll_eq_mapM, Field.check_allParts]
  rfl

end GraphDoc
