import GraphDoc.Proofs.Histories
import Mathlib.Data.List.DropRight

/-!
# The normal form of builder calls

A field that was built by any calls is known without running them. The last alias and the last
filter stand, the children are all there in the order of the calls, and the arguments are the
predicates of the last clause with all that was added since behind them. So calls that are about
different parts of a field can be made in any order.
-/
namespace GraphDoc

namespace Origin

def name : Origin → String
  | new name | function name => name
  | default => ""

def isFunction : Origin → Bool
  | function _ => true
  | new _ | default => false

/-- An argument as it is added: only in a function field is it put under `func`. -/
def taken (origin : Origin) (argument : Argument) : Argument :=
  match origin with
  | function _ => .pair "func" (.argument argument)
  | new _ | default => argument

end Origin

/-- What a builder call is about. -/
inductive Aspect where
  | label
  | arguments
  | filter
  | children
deriving DecidableEq, Repr

namespace BuilderCall

variable {α : Type}

def aspect : BuilderCall α → Aspect
  | setAlias _ => .label
  | addArgument _ | addArguments _ | setBooleanArguments _ => .arguments
  | setFilter _ => .filter
  | addField _ | addFields _ | addNames _ => .children

/-! ## The normal form -/

/-- The clause that the arguments were last set to. -/
def lastClause? (calls : List (BuilderCall α)) : Option Clause :=
  (calls.filterMap clause?).getLast?

/-- The arguments that were added after the last clause was set, or at all where none was. -/
def addedSince (calls : List (BuilderCall α)) : List Argument :=
  (calls.rtakeWhile (·.clause? == none)).flatMap added

variable (build : α → Field)

/-- The field that the calls end in, each part from the calls that are about it. -/
def normalForm (origin : Origin) (calls : List (BuilderCall α)) : Field where
  alias? := (calls.filterMap label?).getLast?
  argumentOperators := (lastClause? calls).elim [] Clause.operators
  arguments := (lastClause? calls).elim [] Clause.predicates ++ (addedSince calls).map origin.taken
  children := calls.flatMap (children build)
  filter := (calls.filterMap filter?).getLast?
  isFunction := origin.isFunction
  name := origin.name

/-- The last result is that of the last call that has one. -/
theorem getLast?_filterMap_concat {β : Type} (f : BuilderCall α → Option β)
    (calls : List (BuilderCall α)) (call : BuilderCall α) :
    ((calls ++ [call]).filterMap f).getLast? = (f call).or (calls.filterMap f).getLast? := by
  rw [List.filterMap_append, List.getLast?_append]
  cases h : f call <;> simp [h]

theorem addedSince_concat (calls : List (BuilderCall α)) {call : BuilderCall α}
    (h : call.clause? = none) : addedSince (calls ++ [call]) = addedSince calls ++ call.added := by
  rw [addedSince, List.rtakeWhile_concat_pos _ _ _ (by simp [h]), List.flatMap_append,
    List.flatMap_singleton]
  rfl

theorem addedSince_clause (calls : List (BuilderCall α)) (clause : Clause) :
    addedSince (calls ++ [.setBooleanArguments clause]) = [] := by
  rw [addedSince, List.rtakeWhile_concat_neg _ _ _ (by simp [clause?])]
  rfl

theorem wrapped_normalForm (origin : Origin) (calls : List (BuilderCall α)) :
    (normalForm build origin calls).wrapped = origin.taken := by
  funext argument
  cases origin <;> rfl

theorem normalForm_of_no_clause (origin : Origin) (calls : List (BuilderCall α))
    {call : BuilderCall α} (h : call.clause? = none) :
    normalForm build origin (calls ++ [call]) = { normalForm build origin calls with
      alias? := call.label?.or (normalForm build origin calls).alias?
      arguments := (normalForm build origin calls).arguments ++ call.added.map origin.taken
      children := (normalForm build origin calls).children ++ call.children build
      filter := call.filter?.or (normalForm build origin calls).filter } := by
  have hclause : lastClause? (calls ++ [call]) = lastClause? calls := by
    rw [lastClause?, getLast?_filterMap_concat, h, Option.none_or]
    rfl
  unfold normalForm
  rw [hclause, addedSince_concat calls h, getLast?_filterMap_concat, getLast?_filterMap_concat,
    List.flatMap_append, List.flatMap_singleton, List.map_append, List.append_assoc]

theorem normalForm_clause (origin : Origin) (calls : List (BuilderCall α)) (clause : Clause) :
    normalForm build origin (calls ++ [.setBooleanArguments clause]) =
      { normalForm build origin calls with
        argumentOperators := clause.operators
        arguments := clause.predicates } := by
  have hclause : lastClause? (calls ++ [.setBooleanArguments clause]) = some clause :=
    getLast?_filterMap_concat clause? calls _
  unfold normalForm
  rw [hclause, addedSince_clause, getLast?_filterMap_concat, getLast?_filterMap_concat,
    List.flatMap_append, List.flatMap_singleton]
  simp [label?, filter?, children]

/-- One more call changes the normal form as it changes the field. -/
theorem normalForm_concat (origin : Origin) (calls : List (BuilderCall α)) (call : BuilderCall α) :
    normalForm build origin (calls ++ [call]) = call.run build (normalForm build origin calls) := by
  cases hclause : call.clause? with
  | none =>
    rw [normalForm_of_no_clause build origin calls hclause, run_of_no_clause build _ hclause,
      wrapped_normalForm]
  | some clause =>
    cases call <;> cases hclause
    exact normalForm_clause build origin calls clause

/-- Calls end in their normal form. -/
theorem foldl_run_eq_normalForm (origin : Origin) (calls : List (BuilderCall α)) :
    calls.foldl (run build) origin.field = normalForm build origin calls := by
  -- the last call is the one to take off: it decides which clause and which additions count
  induction calls using List.reverseRecOn with
  | nil => cases origin <;> rfl
  | append_singleton calls call ih =>
    rw [List.foldl_append, ih, normalForm_concat]
    rfl

/-! ## Calls about one part -/

/-- Whatever the calls about one part yield, they yield alone. -/
theorem flatMap_filter_aspect {β : Type} {f : BuilderCall α → List β} {a : Aspect}
    (h : ∀ call, call.aspect ≠ a → f call = []) (calls : List (BuilderCall α)) :
    (calls.filter (·.aspect = a)).flatMap f = calls.flatMap f := by
  induction calls with
  | nil => rfl
  | cons call calls ih =>
    by_cases ha : call.aspect = a
    · rw [List.filter_cons_of_pos (by simpa using ha), List.flatMap_cons, List.flatMap_cons, ih]
    · rw [List.filter_cons_of_neg (by simpa using ha), List.flatMap_cons, h call ha, ih,
        List.nil_append]

theorem filterMap_filter_aspect {β : Type} {f : BuilderCall α → Option β} {a : Aspect}
    (h : ∀ call, call.aspect ≠ a → f call = none) (calls : List (BuilderCall α)) :
    (calls.filter (·.aspect = a)).filterMap f = calls.filterMap f := by
  rw [List.filterMap_eq_flatMap_toList, List.filterMap_eq_flatMap_toList]
  exact flatMap_filter_aspect (fun call ha => by rw [h call ha]; rfl) calls

/-- A call about something else neither ends the added arguments nor is one of them. -/
theorem addedSince_filter_aspect (calls : List (BuilderCall α)) :
    addedSince (calls.filter (·.aspect = .arguments)) = addedSince calls := by
  induction calls using List.reverseRecOn with
  | nil => rfl
  | append_singleton calls call ih =>
    rw [List.filter_append]
    cases call with
    | setBooleanArguments clause =>
      exact (addedSince_clause _ clause).trans (addedSince_clause calls clause).symm
    | addArgument _ | addArguments _ =>
      rw [addedSince_concat calls rfl, ← ih]
      exact addedSince_concat _ rfl
    | setAlias _ | setFilter _ | addField _ | addFields _ | addNames _ =>
      rw [addedSince_concat calls rfl, ← ih]
      simp [aspect, added]

theorem label?_eq_none (call : BuilderCall α) (h : call.aspect ≠ .label) : call.label? = none := by
  cases call <;> simp_all [aspect, label?]

theorem clause?_eq_none (call : BuilderCall α) (h : call.aspect ≠ .arguments) :
    call.clause? = none := by
  cases call <;> simp_all [aspect, clause?]

theorem filter?_eq_none (call : BuilderCall α) (h : call.aspect ≠ .filter) :
    call.filter? = none := by
  cases call <;> simp_all [aspect, filter?]

theorem children_eq_nil (call : BuilderCall α) (h : call.aspect ≠ .children) :
    call.children build = [] := by
  cases call <;> simp_all [aspect, children]

/-- The normal form is already known from the calls about each part, apart from each other. -/
theorem normalForm_eq_of_aspects (origin : Origin) {calls others : List (BuilderCall α)}
    (h : ∀ a : Aspect, calls.filter (·.aspect = a) = others.filter (·.aspect = a)) :
    normalForm build origin calls = normalForm build origin others := by
  have hlabel : calls.filterMap label? = others.filterMap label? := by
    rw [← filterMap_filter_aspect label?_eq_none, h, filterMap_filter_aspect label?_eq_none]
  have hclause : calls.filterMap clause? = others.filterMap clause? := by
    rw [← filterMap_filter_aspect clause?_eq_none, h, filterMap_filter_aspect clause?_eq_none]
  have hadded : addedSince calls = addedSince others := by
    rw [← addedSince_filter_aspect, h, addedSince_filter_aspect]
  have hfilter : calls.filterMap filter? = others.filterMap filter? := by
    rw [← filterMap_filter_aspect filter?_eq_none, h, filterMap_filter_aspect filter?_eq_none]
  have hchildren : calls.flatMap (children build) = others.flatMap (children build) := by
    rw [← flatMap_filter_aspect (children_eq_nil build), h,
      flatMap_filter_aspect (children_eq_nil build)]
  unfold normalForm lastClause?
  rw [hlabel, hclause, hadded, hfilter, hchildren]

/-- Calls on a new field end in their normal form, and they end in the same field in whatever way
the calls about different parts stand between each other. -/
theorem calls_normalize (origin : Origin) (calls : List (BuilderCall α)) :
    calls.foldl (run build) origin.field = normalForm build origin calls ∧
    ∀ others : List (BuilderCall α),
      (∀ a : Aspect, calls.filter (·.aspect = a) = others.filter (·.aspect = a)) →
      calls.foldl (run build) origin.field = others.foldl (run build) origin.field := by
  refine ⟨foldl_run_eq_normalForm build origin calls, fun others h => ?_⟩
  rw [foldl_run_eq_normalForm, foldl_run_eq_normalForm, normalForm_eq_of_aspects build origin h]

/-- A function field that gets a clause between two arguments and two aliases. -/
def mixedCalls : List (BuilderCall Field) :=
  [.addArgument (.int "lost" 0), .setAlias "k", .addNames ["x"],
    .setBooleanArguments Operation.bothPresent, .addField { name := "y" }, .setAlias "l",
    .addArguments [.int "n" 1]]

/-- The same calls, with those about the arguments last. -/
def sortedCalls : List (BuilderCall Field) :=
  [.addNames ["x"], .addField { name := "y" }, .setAlias "k", .setAlias "l",
    .addArgument (.int "lost" 0), .setBooleanArguments Operation.bothPresent,
    .addArguments [.int "n" 1]]

theorem mixedCalls_normalize :
    (∀ a : Aspect, mixedCalls.filter (·.aspect = a) = sortedCalls.filter (·.aspect = a)) ∧
    mixedCalls.foldl (run id) (Field.function "all") =
      sortedCalls.foldl (run id) (Field.function "all") ∧
    sortedCalls.foldl (run id) (Field.function "all") =
      { alias? := some "l", argumentOperators := ["AND"],
        arguments := [.call "has" (.string "a"), .call "has" (.string "b"),
          .pair "func" (.argument (.int "n" 1))],
        children := [{ name := "x" }, { name := "y" }], isFunction := true, name := "all" } := by
  have hsame : ∀ a : Aspect,
      mixedCalls.filter (·.aspect = a) = sortedCalls.filter (·.aspect = a) := by
    intro a
    cases a <;> rfl
  have hmixed := (calls_normalize id (.function "all") mixedCalls).2 sortedCalls hsame
  have hsorted := (calls_normalize id (.function "all") sortedCalls).1
  exact ⟨hsame, hmixed, hsorted.trans rfl⟩

end BuilderCall

end GraphDoc
