/-!
# Values and arguments

An argument names a value and is written either as a pair, `name:value`, or as a call,
`name(…)`. Values hold arguments in turn: an object is a list of them, and an argument can stand
as a value by itself.
-/
namespace GraphDoc

mutual

inductive Value where
  | bool (value : Bool)
  | int (value : Int64)
  | string (text : String)
  /-- A regular expression; it is written like a string. -/
  | regex (pattern : String)
  | bools (values : List Bool)
  | ints (values : List Int64)
  | strings (texts : List String)
  | object (arguments : List Argument)
  | argument (argument : Argument)

inductive Argument where
  | pair (name : String) (value : Value)
  | call (name : String) (value : Value)

end

instance : Inhabited Value := ⟨.bool false⟩

/-! ## Equality -/

mutual

def Value.same : (a b : Value) → Bool
  | .bool a, .bool b => a == b
  | .int a, .int b => a == b
  | .string a, .string b => a == b
  | .regex a, .regex b => a == b
  | .bools a, .bools b => a == b
  | .ints a, .ints b => a == b
  | .strings a, .strings b => a == b
  | .object a, .object b => Argument.sameLists a b
  | .argument a, .argument b => Argument.same a b
  | _, _ => false

def Argument.same : (a b : Argument) → Bool
  | .pair a v, .pair b w => a == b && Value.same v w
  | .call a v, .call b w => a == b && Value.same v w
  | _, _ => false

def Argument.sameLists : (as bs : List Argument) → Bool
  | [], [] => true
  | a :: as, b :: bs => Argument.same a b && Argument.sameLists as bs
  | _, _ => false

end

mutual

theorem Value.same_iff : ∀ (a b : Value), Value.same a b = true ↔ a = b
  | .object as, b => by
    cases b <;> simp [Value.same]
    exact Argument.sameLists_iff as _
  | .argument a, b => by
    cases b <;> simp [Value.same]
    exact Argument.same_iff a _
  | .bool _, b | .int _, b | .string _, b | .regex _, b | .bools _, b | .ints _, b
  | .strings _, b => by cases b <;> simp [Value.same]

theorem Argument.same_iff : ∀ (a b : Argument), Argument.same a b = true ↔ a = b
  | .pair n v, b => by
    cases b <;> simp [Argument.same]
    exact fun _ => Value.same_iff v _
  | .call n v, b => by
    cases b <;> simp [Argument.same]
    exact fun _ => Value.same_iff v _

theorem Argument.sameLists_iff : ∀ (as bs : List Argument),
    Argument.sameLists as bs = true ↔ as = bs
  | [], bs => by cases bs <;> simp [Argument.sameLists]
  | a :: as, bs => by
    cases bs with
    | nil => simp [Argument.sameLists]
    | cons b bs =>
      simp [Argument.sameLists, Argument.same_iff a b, Argument.sameLists_iff as bs]

end

instance : DecidableEq Value := fun a b => decidable_of_iff _ (Value.same_iff a b)

instance : DecidableEq Argument := fun a b => decidable_of_iff _ (Argument.same_iff a b)

/-! ## Arguments -/

namespace Argument

def name : Argument → String
  | pair name _ | call name _ => name

def value : Argument → Value
  | pair _ value | call _ value => value

def isCall : Argument → Bool
  | pair .. => false
  | call .. => true

def ofParts (name : String) (value : Value) (isCall : Bool) : Argument :=
  if isCall then call name value else pair name value

theorem ofParts_eq (a : Argument) : ofParts a.name a.value a.isCall = a := by
  cases a <;> rfl

def bool (name : String) (value : Bool) : Argument := pair name (.bool value)

def int (name : String) (value : Int64) : Argument := pair name (.int value)

def string (name text : String) : Argument := pair name (.string text)

def regex (name pattern : String) : Argument := pair name (.regex pattern)

def bools (name : String) (values : List Bool) : Argument := pair name (.bools values)

def ints (name : String) (values : List Int64) : Argument := pair name (.ints values)

def strings (name : String) (texts : List String) : Argument := pair name (.strings texts)

/-- A pair whose value is an object, `name:{a:1,b:2}`. -/
def object (name : String) (arguments : List Argument) : Argument := pair name (.object arguments)

/-- A call of the function `name` with the given arguments. -/
def function (name : String) (arguments : List Argument) : Argument := call name (.object arguments)

end Argument

end GraphDoc
