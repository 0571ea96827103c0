import GraphDoc.Clause

/-!
# Fields

A named selection with optional arguments, filter and child selections. The arguments are separated
by commas, or joined by `argumentOperators` where there are any.
-/
namespace GraphDoc

structure Field where
  alias? : Option String := none
  argumentOperators : List String := []
  arguments : List Argument := []
  children : List Field := []
  filter : Option Clause := none
  /-- Whether arguments are added as the selector of a function field. -/
  isFunction : Bool := false
  name : String := ""

instance : Inhabited Field := ⟨{}⟩

/-! ## Equality -/

mutual

def Field.same : (f g : Field) → Bool
  | ⟨alias?, operators, arguments, children, filter, isFunction, name⟩, g =>
    alias? == g.alias? && operators == g.argumentOperators && arguments == g.arguments &&
      Field.sameLists children g.children && filter == g.filter && isFunction == g.isFunction &&
      name == g.name

def Field.sameLists : (fs gs : List Field) → Bool
  | [], [] => true
  | f :: fs, g :: gs => Field.same f g && Field.sameLists fs gs
  | _, _ => false

end

mutual

theorem Field.same_iff : ∀ (f g : Field), Field.same f g = true ↔ f = g
  | ⟨_, _, _, children, _, _, _⟩, ⟨_, _, _, children', _, _, _⟩ => by
    simp [Field.same, Field.sameLists_iff children children', and_assoc]

theorem Field.sameLists_iff : ∀ (fs gs : List Field), Field.sameLists fs gs = true ↔ fs = gs
  | [], gs => by cases gs <;> simp [Field.sameLists]
  | f :: fs, gs => by
    cases gs with
    | nil => simp [Field.sameLists]
    | cons g gs => simp [Field.sameLists, Field.same_iff f g, Field.sameLists_iff fs gs]

end

instance : DecidableEq Field := fun f g => decidable_of_iff _ (Field.same_iff f g)

namespace Field

/-! ## Building -/

def new (name : String) : Field := { name }

/-- A function field: an argument added to it becomes its `func:` selector. -/
def function (name : String) : Field := { name, isFunction := true }

/-- The name under which a function field carries its selector. -/
def selectorName : String := "func"

def withAlias (f : Field) (label : String) : Field := { f with alias? := some label }

/-- Adds an argument after those that the field has. -/
def withArgument (f : Field) (argument : Argument) : Field :=
  let argument := if f.isFunction then .pair selectorName (.argument argument) else argument
  { f with arguments := f.arguments ++ [argument] }

def withArguments (f : Field) (arguments : List Argument) : Field :=
  arguments.foldl withArgument f

/-- Makes the clause the field's arguments, in place of those that it has. -/
def withBooleanArguments (f : Field) (clause : Clause) : Field :=
  { f with argumentOperators := clause.operators, arguments := clause.predicates }

def withFilter (f : Field) (clause : Clause) : Field := { f with filter := some clause }

/-- Adds child fields after those that the field has. -/
def withFields (f : Field) (fields : List Field) : Field :=
  { f with children := f.children ++ fields }

def withField (f : Field) (field : Field) : Field := f.withFields [field]

/-- Adds a plain child for each of the names. -/
def withNames (f : Field) (names : List String) : Field := f.withFields (names.map new)

/-! ## Looking up -/

/-- The first direct child of the given name. -/
def field? (f : Field) (name : String) : Option Field := f.children.find? (·.name == name)

end Field

end GraphDoc
