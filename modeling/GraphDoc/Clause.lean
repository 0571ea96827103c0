import GraphDoc.Value

/-!
# Boolean clauses

Predicates joined by boolean operators, `p₀ op₀ p₁ op₁ … pₙ`. Operator `i` stands between
predicates `i` and `i + 1`, so a clause has exactly one more predicate than operators.
-/
namespace GraphDoc

/-- Operators and predicates that do not fit together. -/
structure CountMismatch where
  operators : Nat
  predicates : Nat
deriving DecidableEq, Repr

def CountMismatch.message (mismatch : CountMismatch) : String :=
  s!"A boolean clause needs exactly one more predicate than operators, but found {mismatch.operators} operator(s) and {mismatch.predicates} predicate(s)"

structure Clause where
  operators : List String
  predicates : List Argument
  balanced : predicates.length = operators.length + 1
deriving DecidableEq

namespace Clause

/-- The clause of the given operators and predicates, if their counts allow one. -/
def ofLists (operators : List String) (predicates : List Argument) :
    Except CountMismatch Clause :=
  if balanced : predicates.length = operators.length + 1 then
    .ok { operators, predicates, balanced }
  else
    .error { operators := operators.length, predicates := predicates.length }

def single (predicate : Argument) : Clause where
  operators := []
  predicates := [predicate]
  balanced := rfl

theorem ofLists_eq_ok_iff {operators : List String} {predicates : List Argument} {c : Clause} :
    ofLists operators predicates = .ok c ↔
      c.operators = operators ∧ c.predicates = predicates := by
  unfold ofLists
  split
  · rename_i h
    constructor
    · intro e
      cases e
      exact ⟨rfl, rfl⟩
    · rintro ⟨rfl, rfl⟩
      rfl
  · rename_i h
    constructor
    · intro e
      cases e
    · rintro ⟨rfl, rfl⟩
      exact absurd c.balanced h

end Clause

end GraphDoc
