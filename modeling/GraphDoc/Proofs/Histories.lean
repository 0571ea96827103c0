import GraphDoc.Proofs.ArgumentJoining

/-!
# Fields and the calls that built them

A field is started and then changed by builder calls, each of which may bring in children that were
built in the same way. Only one of the calls sets operators, and it sets arguments along with them;
arguments that are added later have no operator. So the history of a field tells whether its
operators fit, and the histories of all fields of a tree tell whether it can be sent.
-/
namespace GraphDoc

namespace Field

theorem preorderAll_append (fs gs : List Field) :
    preorderAll (fs ++ gs) = preorderAll fs ++ preorderAll gs := by
  rw [preorderAll_eq_flatMap, preorderAll_eq_flatMap, preorderAll_eq_flatMap, List.flatMap_append]

theorem preorderAll_map_new (names : List String) :
    preorderAll (names.map new) = names.map new := by
  induction names with
  | nil => rfl
  | cons name names ih =>
    rw [List.map_cons, preorderAll, ih, preorder_eq]
    rfl

end Field

/-! ## Builder calls -/

/-- What a field is before the first call. -/
inductive Origin where
  | new (name : String)
  | function (name : String)
  | default

def Origin.field : Origin → Field
  | new name => .new name
  | function name => .function name
  | default => {}

/-- A builder call. Children are whatever stands for a field. -/
inductive BuilderCall (α : Type) where
  | setAlias (label : String)
  | addArgument (argument : Argument)
  | addArguments (arguments : List Argument)
  | setBooleanArguments (clause : Clause)
  | setFilter (clause : Clause)
  | addField (child : α)
  | addFields (children : List α)
  | addNames (names : List String)

namespace BuilderCall

variable {α : Type}

/-- What the call makes of a field. -/
def run (build : α → Field) (f : Field) : BuilderCall α → Field
  | setAlias label => f.withAlias label
  | addArgument argument => f.withArgument argument
  | addArguments arguments => f.withArguments arguments
  | setBooleanArguments clause => f.withBooleanArguments clause
  | setFilter clause => f.withFilter clause
  | addField child => f.withField (build child)
  | addFields children => f.withFields (children.map build)
  | addNames names => f.withNames names

/-- The arguments that the call adds. -/
def added : BuilderCall α → List Argument
  | addArgument argument => [argument]
  | addArguments arguments => arguments
  | _ => []

/-- The clause that the call makes the arguments. -/
def clause? : BuilderCall α → Option Clause
  | setBooleanArguments clause => some clause
  | _ => none

def label? : BuilderCall α → Option String
  | setAlias label => some label
  | _ => none

def filter? : BuilderCall α → Option Clause
  | setFilter clause => some clause
  | _ => none

/-- The children that the call adds. -/
def children (build : α → Field) : BuilderCall α → List Field
  | addField child => [build child]
  | addFields children => children.map build
  | addNames names => names.map .new
  | _ => []

/-- Arguments were added after the last clause was set, and that clause has operators. -/
def Overfilled (calls : List (BuilderCall α)) : Prop :=
  ∃ before clause after, calls = before ++ .setBooleanArguments clause :: after ∧
    (∀ call ∈ after, call.clause? = none) ∧ clause.operators ≠ [] ∧ ∃ call ∈ after, call.added ≠ []

end BuilderCall

/-! ## What calls keep -/

namespace Field

/-- An argument as the field takes it in. -/
def wrapped (f : Field) (argument : Argument) : Argument :=
  if f.isFunction then .pair selectorName (.argument argument) else argument

/-- The field has the operators of another one and, behind its arguments, the given ones. -/
structure Extends (f g : Field) (added : List Argument) : Prop where
  isFunction : g.isFunction = f.isFunction
  operators : g.argumentOperators = f.argumentOperators
  arguments : g.arguments = f.arguments ++ added.map f.wrapped

theorem withArguments_eq (f : Field) (arguments : List Argument) :
    f.withArguments arguments = { f with arguments := f.arguments ++ arguments.map f.wrapped } := by
  induction arguments generalizing f with
  | nil =>
    cases f
    simp [withArguments]
  | cons argument arguments ih =>
    have hcons : f.withArguments (argument :: arguments) =
        (f.withArgument argument).withArguments arguments := rfl
    have hwrapped : (f.withArgument argument).wrapped = f.wrapped := rfl
    have harguments : (f.withArgument argument).arguments = f.arguments ++ [f.wrapped argument] :=
      rfl
    rw [hcons, ih, hwrapped, harguments, List.append_assoc, List.map_cons]
    rfl

namespace Extends

theorem of_eq {f g : Field} (hi : g.isFunction = f.isFunction)
    (ho : g.argumentOperators = f.argumentOperators) (ha : g.arguments = f.arguments) :
    Extends f g [] := ⟨hi, ho, by rw [ha, List.map_nil, List.append_nil]⟩

theorem trans {f g h : Field} {xs ys : List Argument} (hfg : Extends f g xs)
    (hgh : Extends g h ys) : Extends f h (xs ++ ys) := by
  have hwrapped : g.wrapped = f.wrapped := by
    funext argument
    rw [wrapped, wrapped, hfg.isFunction]
  refine ⟨hgh.isFunction.trans hfg.isFunction, hgh.operators.trans hfg.operators, ?_⟩
  rw [hgh.arguments, hfg.arguments, hwrapped, List.map_append, List.append_assoc]

end Extends

end Field

namespace BuilderCall

variable {α : Type} (build : α → Field)

/-- All that a call can change where it sets no clause. -/
theorem run_of_no_clause (f : Field) {call : BuilderCall α} (h : call.clause? = none) :
    call.run build f = { f with
      alias? := call.label?.or f.alias?
      arguments := f.arguments ++ call.added.map f.wrapped
      children := f.children ++ call.children build
      filter := call.filter?.or f.filter } := by
  cases call with
  | setBooleanArguments clause => cases h
  | addArguments arguments =>
    rw [run, Field.withArguments_eq]
    simp [added, children, label?, filter?]
  | addArgument _ | setAlias _ | setFilter _ | addField _ | addFields _ | addNames _ =>
    simp [run, added, children, label?, filter?, Field.withArgument, Field.wrapped, Field.withAlias,
      Field.withFilter, Field.withField, Field.withFields, Field.withNames]

/-- A call that sets no clause adds its arguments and leaves the operators as they are. -/
theorem extends_run (f : Field) {call : BuilderCall α} (h : call.clause? = none) :
    Field.Extends f (call.run build f) call.added := by
  rw [run_of_no_clause build f h]
  exact ⟨rfl, rfl, rfl⟩

theorem extends_foldl (f : Field) {calls : List (BuilderCall α)}
    (h : ∀ call ∈ calls, call.clause? = none) :
    Field.Extends f (calls.foldl (run build) f) (calls.flatMap added) := by
  induction calls generalizing f with
  | nil => exact .of_eq rfl rfl rfl
  | cons call calls ih =>
    obtain ⟨hc, hs⟩ := List.forall_mem_cons.mp h
    exact (extends_run build f hc).trans (ih (call.run build f) hs)

/-- After the last clause, the operators are those of the clause, and all arguments beyond its
predicates are added ones. -/
theorem counts_of_last_clause (f : Field) (before : List (BuilderCall α)) (clause : Clause)
    {after : List (BuilderCall α)} (h : ∀ call ∈ after, call.clause? = none) :
    let g := (before ++ .setBooleanArguments clause :: after).foldl (run build) f
    g.argumentOperators = clause.operators ∧
      g.arguments.length = clause.operators.length + 1 + (after.flatMap added).length := by
  intro g
  let start := (before.foldl (run build) f).withBooleanArguments clause
  have hg : g = after.foldl (run build) start := by
    rw [show g = (before ++ .setBooleanArguments clause :: after).foldl (run build) f from rfl,
      List.foldl_append, List.foldl_cons]
    rfl
  have hextends : Field.Extends start g (after.flatMap added) :=
    hg ▸ extends_foldl build start h
  refine ⟨hextends.operators, ?_⟩
  rw [hextends.arguments, List.length_append, List.length_map, ← clause.balanced]
  rfl

theorem last_clause (calls : List (BuilderCall α)) :
    (∀ call ∈ calls, call.clause? = none) ∨
      ∃ before clause after, calls = before ++ .setBooleanArguments clause :: after ∧
        ∀ call ∈ after, call.clause? = none := by
  induction calls with
  | nil => exact .inl (by simp)
  | cons call calls ih =>
    rcases ih with hnone | ⟨before, clause, after, rfl, hafter⟩
    · cases call with
      | setBooleanArguments clause => exact .inr ⟨[], clause, calls, rfl, hnone⟩
      | _ => exact .inl (List.forall_mem_cons.mpr ⟨rfl, hnone⟩)
    · exact .inr ⟨call :: before, clause, after, rfl, hafter⟩

/-- The operators fit the arguments in the end exactly when no argument came too late. -/
theorem fits_iff_not_overfilled {f : Field} (hf : f.argumentOperators = [])
    (calls : List (BuilderCall α)) :
    Fits (calls.foldl (run build) f).argumentOperators (calls.foldl (run build) f).arguments ↔
      ¬ Overfilled calls := by
  constructor
  · rintro hfits ⟨before, clause, after, rfl, hafter, hoperators, call, hcall, hadded⟩
    obtain ⟨hops, hargs⟩ := counts_of_last_clause build f before clause hafter
    rw [Fits, hops, hargs] at hfits
    have hnone := List.eq_nil_of_length_eq_zero (l := after.flatMap added)
      (by have := hfits.resolve_left hoperators; omega)
    exact hadded (List.flatMap_eq_nil_iff.mp hnone call hcall)
  · intro hover
    rcases last_clause calls with hnone | ⟨before, clause, after, rfl, hafter⟩
    · exact .inl ((extends_foldl build f hnone).operators.trans hf)
    · obtain ⟨hops, hargs⟩ := counts_of_last_clause build f before clause hafter
      rw [Fits, hops, hargs]
      refine or_iff_not_imp_left.mpr fun hoperators => ?_
      have hnone : after.flatMap added = [] := by
        rw [List.flatMap_eq_nil_iff]
        intro call hcall
        by_contra hadded
        exact hover ⟨before, clause, after, rfl, hafter, hoperators, call, hcall, hadded⟩
      rw [hnone]
      rfl

end BuilderCall

/-! ## Histories -/

/-- How a field was built: what it started from, and all the calls, with the histories of the
children that they brought in. -/
inductive History where
  | mk (origin : Origin) (calls : List (BuilderCall History))

namespace History

def calls : History → List (BuilderCall History)
  | ⟨_, calls⟩ => calls

mutual

/-- The field that was built in the end. -/
def build : History → Field
  | ⟨origin, calls⟩ => buildOn origin.field calls

def buildOn : Field → List (BuilderCall History) → Field
  | f, [] => f
  | f, call :: calls => buildOn (runOn f call) calls

def runOn (f : Field) : BuilderCall History → Field
  | .setAlias label => f.withAlias label
  | .addArgument argument => f.withArgument argument
  | .addArguments arguments => f.withArguments arguments
  | .setBooleanArguments clause => f.withBooleanArguments clause
  | .setFilter clause => f.withFilter clause
  | .addField child => f.withField child.build
  | .addFields children => f.withFields (buildAll children)
  | .addNames names => f.withNames names

def buildAll : List History → List Field
  | [] => []
  | history :: histories => history.build :: buildAll histories

end

mutual

/-- The history and those of all descendants, each before its children. -/
def preorder : History → List History
  | h@⟨_, calls⟩ => h :: preorderOn calls

def preorderOn : List (BuilderCall History) → List History
  | [] => []
  | call :: calls => preorderOf call ++ preorderOn calls

def preorderOf : BuilderCall History → List History
  | .addField child => child.preorder
  | .addFields children => preorderAll children
  | .addNames names => names.map fun name => ⟨.new name, []⟩
  | .setAlias _ | .addArgument _ | .addArguments _ | .setBooleanArguments _ | .setFilter _ => []

def preorderAll : List History → List History
  | [] => []
  | history :: histories => history.preorder ++ preorderAll histories

end

theorem buildAll_eq_map (histories : List History) : buildAll histories = histories.map build := by
  induction histories with
  | nil => rfl
  | cons history histories ih => rw [buildAll, ih, List.map_cons]

theorem runOn_eq (f : Field) (call : BuilderCall History) : runOn f call = call.run build f := by
  cases call with
  | addFields children => rw [runOn, buildAll_eq_map, BuilderCall.run]
  | _ => rfl

theorem buildOn_eq_foldl (f : Field) (calls : List (BuilderCall History)) :
    buildOn f calls = calls.foldl (BuilderCall.run build) f := by
  induction calls generalizing f with
  | nil => rfl
  | cons call calls ih => rw [buildOn, ih, runOn_eq, List.foldl_cons]

theorem fits_build_iff (h : History) :
    Fits h.build.argumentOperators h.build.arguments ↔ ¬ BuilderCall.Overfilled h.calls := by
  obtain ⟨origin, calls⟩ := h
  have horigin : origin.field.argumentOperators = [] := by cases origin <;> rfl
  rw [build, buildOn_eq_foldl]
  exact BuilderCall.fits_iff_not_overfilled build horigin calls

/-! ### The fields of the built tree -/

mutual

/-- The fields of the built tree are those that the histories in it built, in the same order. -/
theorem preorder_build : ∀ h : History, h.build.preorder = h.preorder.map build
  | ⟨origin, calls⟩ => by
    have horigin : origin.field.children = [] := by cases origin <;> rfl
    have hcalls := preorderAll_buildOn origin.field calls
    rw [horigin] at hcalls
    rw [Field.preorder_eq, preorder, List.map_cons, build, hcalls]
    rfl

theorem preorderAll_buildOn : ∀ (f : Field) (calls : List (BuilderCall History)),
    Field.preorderAll (buildOn f calls).children =
      Field.preorderAll f.children ++ (preorderOn calls).map build
  | f, [] => (List.append_nil _).symm
  | f, call :: calls => by
    rw [buildOn, preorderAll_buildOn (runOn f call) calls, preorderAll_runOn f call, preorderOn,
      List.map_append, List.append_assoc]

theorem preorderAll_runOn : ∀ (f : Field) (call : BuilderCall History),
    Field.preorderAll (runOn f call).children =
      Field.preorderAll f.children ++ (preorderOf call).map build
  | f, .addField child => by
    have hchildren : (runOn f (.addField child)).children = f.children ++ [child.build] := rfl
    rw [hchildren, Field.preorderAll_append, Field.preorderAll, preorder_build child, preorderOf,
      Field.preorderAll, List.append_nil]
  | f, .addFields children => by
    have hchildren : (runOn f (.addFields children)).children = f.children ++ buildAll children :=
      rfl
    rw [hchildren, Field.preorderAll_append, preorderAll_buildAll children, preorderOf]
  | f, .addNames names => by
    have hchildren : (runOn f (.addNames names)).children = f.children ++ names.map .new := rfl
    have hbuilt : (preorderOf (.addNames names)).map build = names.map .new := by
      rw [preorderOf, List.map_map]
      rfl
    rw [hchildren, Field.preorderAll_append, Field.preorderAll_map_new, hbuilt]
  | f, .addArguments arguments => by
    rw [runOn, Field.withArguments_eq]
    exact (List.append_nil _).symm
  | f, .setAlias _ | f, .addArgument _ | f, .setBooleanArguments _ | f, .setFilter _ =>
    (List.append_nil _).symm

theorem preorderAll_buildAll : ∀ histories : List History,
    Field.preorderAll (buildAll histories) = (preorderAll histories).map build
  | [] => rfl
  | history :: histories => by
    rw [buildAll, Field.preorderAll, preorder_build history, preorderAll_buildAll histories,
      preorderAll, List.map_append]

end

end History

/-! ## Which histories end in a valid operation -/

namespace Operation

/-- A graph pattern with a fit name only has to have fitting operators. -/
theorem validate_graphPattern_iff {o : Operation} (hk : o.kind = .graphPattern)
    (hn : o.name = "" ∨ Name.isValid o.name = true) :
    o.validate = .ok () ↔
      ∀ f ∈ Field.preorderAll o.fields, Fits f.argumentOperators f.arguments := by
  have hname : (if o.name = "" then [] else nameOffences .operation o.name) = [] := by
    split
    · rfl
    · rename_i hne
      exact if_pos ((Name.isValid_iff o.name).mp (hn.resolve_left hne))
  have hkind : decide (o.kind ∈ [OperationKind.query, .mutation, .subscription]) = false := by
    rw [hk]
    decide
  rw [validate_eq, firstOffence_eq_ok_iff, offences, hname, hkind, List.nil_append,
    List.flatMap_eq_nil_iff]
  refine forall₂_congr fun f _ => ?_
  rw [Field.offences, if_neg Bool.false_ne_true, List.nil_append]
  exact f.argumentOffences_eq_nil_iff

theorem exists_error_iff (o : Operation) :
    (∃ offence, o.validate = .error offence) ↔ o.validate ≠ .ok () := by
  cases o.validate <;> simp

/-- A built graph pattern fails to validate exactly when, in the history of some field in it,
arguments were added after the last clause and that clause has operators. -/
theorem validate_built {o : Operation} {histories : List History} (hk : o.kind = .graphPattern)
    (hn : o.name = "" ∨ Name.isValid o.name = true) (hf : o.fields = histories.map History.build) :
    Field.preorderAll o.fields = (History.preorderAll histories).map History.build ∧
    ((∃ offence, o.validate = .error offence) ↔
      ∃ h ∈ History.preorderAll histories, BuilderCall.Overfilled h.calls) ∧
    (o.validate = .ok () ↔
      ∀ h ∈ History.preorderAll histories, ¬ BuilderCall.Overfilled h.calls) := by
  have hpreorder : Field.preorderAll o.fields =
      (History.preorderAll histories).map History.build := by
    rw [hf, ← History.buildAll_eq_map, History.preorderAll_buildAll]
  have hvalid : o.validate = .ok () ↔
      ∀ h ∈ History.preorderAll histories, ¬ BuilderCall.Overfilled h.calls := by
    rw [validate_graphPattern_iff hk hn, hpreorder, List.forall_mem_map]
    exact forall₂_congr fun h _ => h.fits_build_iff
  refine ⟨hpreorder, ?_, hvalid⟩
  rw [exists_error_iff, ne_eq, hvalid]
  simp only [not_forall, not_not, exists_prop]

/-- Two predicates with an operator between them. -/
def bothPresent : Clause := ⟨["AND"], [.call "has" (.string "a"), .call "has" (.string "b")], rfl⟩

/-- A child with an argument behind a clause, and a field whose last clause has a single predicate. -/
def lateArgument : List History :=
  [⟨.function "all", [.addArgument (.int "n" 1), .addFields [⟨.new "c",
      [.setBooleanArguments bothPresent, .setAlias "k", .addArguments [.int "n" 1]]⟩]]⟩,
    ⟨.default, [.setBooleanArguments bothPresent, .addArgument (.int "n" 1),
      .setBooleanArguments (.single (.int "m" 2)), .addArgument (.int "n" 1), .addNames ["x"]]⟩]

theorem validate_lateArgument :
    let o : Operation :=
      { kind := .graphPattern, name := "q", fields := lateArgument.map History.build }
    let settled : Operation := { o with fields := lateArgument.tail.map History.build }
    (o.kind = .graphPattern ∧ Name.isValid o.name = true ∧
      o.fields = lateArgument.map History.build ∧ ∃ offence, o.validate = .error offence) ∧
    settled.validate = .ok () ∧
      ∀ h ∈ History.preorderAll lateArgument.tail, ¬ BuilderCall.Overfilled h.calls := by
  intro o settled
  have hname : Name.isValid o.name = true := by decide
  have hlate : ∃ h ∈ History.preorderAll lateArgument, BuilderCall.Overfilled h.calls := by
    refine ⟨⟨.new "c", [.setBooleanArguments bothPresent, .setAlias "k",
      .addArguments [.int "n" 1]]⟩, List.mem_cons_of_mem _ (List.mem_cons_self ..), ?_⟩
    refine ⟨[], bothPresent, _, rfl, by simp [BuilderCall.clause?], List.cons_ne_nil _ _, ?_⟩
    exact ⟨.addArguments [.int "n" 1], by simp, List.cons_ne_nil _ _⟩
  obtain ⟨_, hfails, _⟩ := validate_built (o := o) rfl (.inr hname) rfl
  obtain ⟨_, _, hpasses⟩ := validate_built (o := settled) rfl (.inr hname) rfl
  have hsettled : settled.validate = .ok () := by decide
  exact ⟨⟨rfl, hname, rfl, hfails.mpr hlate⟩, hsettled, hpasses.mp hsettled⟩

end Operation

end GraphDoc
