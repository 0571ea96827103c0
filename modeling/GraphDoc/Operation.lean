import GraphDoc.Field

/-!
# Operations

The root of a document: its kind, an optional name and the top-level fields.
-/
namespace GraphDoc

inductive OperationKind where
  /-- A graph-pattern query: it has no keyword, and its field names are free. -/
  | graphPattern
  | mutation
  | query
  | subscription
deriving DecidableEq, Repr

/-- The word that a document of this kind starts with. -/
def OperationKind.keyword? : OperationKind → Option String
  | graphPattern => none
  | mutation => some "mutation"
  | query => some "query"
  | subscription => some "subscription"

structure Operation where
  fields : List Field := []
  kind : OperationKind
  /-- Empty for an operation without a name. -/
  name : String := ""
deriving DecidableEq

namespace Operation

def new (kind : OperationKind) : Operation := { kind }

def graphPattern : Operation := new .graphPattern

def mutation : Operation := new .mutation

def query : Operation := new .query

def subscription : Operation := new .subscription

def name? (o : Operation) : Option String := if o.name.isEmpty then none else some o.name

def withName (o : Operation) (name : String) : Operation := { o with name }

/-- Adds top-level fields after those that the operation has. -/
def withFields (o : Operation) (fields : List Field) : Operation :=
  { o with fields := o.fields ++ fields }

def withField (o : Operation) (field : Field) : Operation := o.withFields [field]

/-- The first top-level field of the given name. -/
def field? (o : Operation) (name : String) : Option Field := o.fields.find? (·.name == name)

/-- Changes the first element that satisfies `p`, if there is one. -/
def modifyFirst? {α : Type} (p : α → Bool) (change : α → α) : List α → Option (List α)
  | [] => none
  | a :: as => if p a then some (change a :: as) else (modifyFirst? p change as).map (a :: ·)

/-- Changes the first top-level field of the given name in place, if there is one. -/
def modifyField? (o : Operation) (name : String) (change : Field → Field) : Option Operation :=
  (modifyFirst? (·.name == name) change o.fields).map fun fields => { o with fields }

end Operation

end GraphDoc
