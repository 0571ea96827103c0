import GraphDoc.Description.Reading
import GraphDoc.Proofs.RecordReading

/-!
# Descriptions are read back

The description of a node is read back as the same node as long as it is nested within the limit,
and refused for its nesting otherwise. The nodes are taken in the order in which they hold one
another; what a reader of one needs to know is that its parts are read with any number of levels.
-/
namespace GraphDoc

open Json

/-! ## Values and arguments -/

theorem ValueKind.lookup_name (kind : ValueKind) : known.lookup kind.name = some kind := by
  cases kind <;> rfl

/-- The reader of what a kind of value holds. -/
def valueContent (levels : Nat) : ValueKind → Reader Value
  | .bool => Reader.boolean.map .bool
  | .int => Reader.integer.map .int
  | .string => Reader.string.map .string
  | .regex => Reader.string.map .regex
  | .bools => (Reader.listWithin (fun _ => .boolean) levels).map .bools
  | .ints => (Reader.listWithin (fun _ => .integer) levels).map .ints
  | .strings => (Reader.listWithin (fun _ => .string) levels).map .strings
  | .object => (Reader.listWithin argumentReader levels).map .object
  | .argument => (argumentReader levels).map .argument

theorem valueReader_eq (levels : Nat) :
    valueReader levels = .variantWithin ValueKind.known bareValue valueContent levels := by
  cases levels with
  | zero => rfl
  | succ levels =>
    unfold valueReader
    refine congrArg (fun content => Reader.variant _ _ (some content)) (funext fun kind => ?_)
    cases kind with
    | object => cases levels <;> rfl
    | _ => rfl

theorem argumentReader_eq (levels : Nat) :
    argumentReader levels =
      .recordWithin argumentTitle (fun levels => argumentShape (valueReader levels)) levels := by
  cases levels with
  | zero => rfl
  | succ levels => rw [argumentReader]; rfl

theorem Argument.toJson_eq (argument : Argument) :
    argument.toJson = .object [("name", .string argument.name), ("value", argument.value.toJson),
      ("is_function_style", .bool argument.isCall)] := by
  cases argument <;> rw [toJson] <;> rfl

theorem Argument.reads_of_value (argument : Argument)
    (h : ∀ levels, Reads (valueReader levels) levels argument.value.toJson argument.value)
    (levels : Nat) : Reads (argumentReader levels) levels argument.toJson argument := by
  rw [argumentReader_eq, toJson_eq]
  refine Reads.recordWithin ⟨some argument.name, some argument.value, some argument.isCall⟩
    (fun levels => ?_) (fun levels => ?_) levels
  · refine .cons rfl rfl ((Reads.string levels argument.name).map _) ?_
    refine .cons rfl rfl ((h levels).map _) ?_
    exact .cons rfl rfl ((Reads.boolean levels argument.isCall).map _) (.nil _)
  · exact congrArg Except.ok argument.ofParts_eq

namespace Value

theorem reads_of_content (kind : ValueKind) {json : Json} {value : Value}
    (h : ∀ levels, Reads (valueContent levels kind) levels json value) (levels : Nat) :
    Reads (valueReader levels) levels (.object [(kind.name, json)]) value := by
  rw [valueReader_eq]
  exact .variantWithin kind.lookup_name h levels

theorem reads_object {arguments : List Argument} (h : ∀ argument ∈ arguments, ∀ levels,
    Reads (argumentReader levels) levels argument.toJson argument) (levels : Nat) :
    Reads (valueReader levels) levels (object arguments).toJson (object arguments) := by
  rw [toJson, Argument.listToJson_eq_map]
  exact reads_of_content .object (fun levels => (Reads.listWithin h levels).map object) levels

end Value

mutual

theorem Value.reads : ∀ (value : Value) (levels : Nat),
    Reads (valueReader levels) levels value.toJson value
  | .bool value, levels =>
    Value.reads_of_content .bool (fun levels => (Reads.boolean levels value).map Value.bool) levels
  | .int value, levels =>
    Value.reads_of_content .int (fun levels => (Reads.integer levels value).map Value.int) levels
  | .string text, levels =>
    Value.reads_of_content .string (fun levels => (Reads.string levels text).map Value.string)
      levels
  | .regex pattern, levels =>
    Value.reads_of_content .regex (fun levels => (Reads.string levels pattern).map Value.regex)
      levels
  | .bools values, levels =>
    Value.reads_of_content .bools
      (fun levels => (Reads.flatList Reads.boolean values levels).map Value.bools) levels
  | .ints values, levels =>
    Value.reads_of_content .ints
      (fun levels => (Reads.flatList Reads.integer values levels).map Value.ints) levels
  | .strings texts, levels =>
    Value.reads_of_content .strings
      (fun levels => (Reads.flatList Reads.string texts levels).map Value.strings) levels
  | .object arguments, levels => Value.reads_object (Argument.all_reads arguments) levels
  | .argument argument, levels =>
    Value.reads_of_content .argument (fun levels => (argument.reads levels).map Value.argument)
      levels

theorem Argument.reads : ∀ (argument : Argument) (levels : Nat),
    Reads (argumentReader levels) levels argument.toJson argument
  | .pair name value, levels => Argument.reads_of_value (.pair name value) value.reads levels
  | .call name value, levels => Argument.reads_of_value (.call name value) value.reads levels

theorem Argument.all_reads : ∀ (arguments : List Argument), ∀ argument ∈ arguments, ∀ levels,
    Reads (argumentReader levels) levels argument.toJson argument
  | [] => by simp
  | argument :: arguments =>
    List.forall_mem_cons.mpr ⟨argument.reads, Argument.all_reads arguments⟩

end

theorem reads_argumentList (arguments : List Argument) (levels : Nat) :
    Reads (argumentListReader levels) levels (.array (Argument.listToJson arguments))
      arguments := by
  rw [Argument.listToJson_eq_map]
  exact Reads.listWithin (Argument.all_reads arguments) levels

/-! ## Clauses -/

theorem Clause.reads (clause : Clause) (levels : Nat) :
    Reads (clauseReader levels) levels clause.toJson clause := by
  have hlists : clauseOfLists (clause.operators, clause.predicates) = .ok clause := by
    have hc : ofLists clause.operators clause.predicates = .ok clause :=
      ofLists_eq_ok_iff.mpr ⟨rfl, rfl⟩
    rw [clauseOfLists, hc]
    rfl
  refine Reads.filterMap (Reads.recordWithin ⟨some clause.operators, some clause.predicates⟩
    (fun levels => ?_) (fun levels => ?_) levels) hlists
  · refine .cons rfl rfl ((Reads.flatList Reads.string clause.operators levels).map _) ?_
    exact .cons rfl rfl ((reads_argumentList clause.predicates levels).map _) (.nil _)
  · rfl

/-! ## Fields -/

theorem reads_optionalString (text? : Option String) (levels : Nat) :
    Reads Reader.string.optional levels (text?.elim .null .string) text? := by
  cases text? with
  | none => exact .null _ levels
  | some text => exact (Reads.string levels text).optional ⟨_, _, rfl, rfl, by decide⟩

theorem reads_optionalClause (clause? : Option Clause) (levels : Nat) :
    Reads (clauseReader levels).optional levels (clause?.elim .null Clause.toJson) clause? := by
  cases clause? with
  | none => exact .null _ levels
  | some clause => exact (clause.reads levels).optional ⟨_, _, rfl, rfl, by decide⟩

namespace Field

theorem listReader_eq (levels : Nat) :
    fieldListReader levels = .listWithin fieldReader levels := by
  cases levels with
  | zero => rfl
  | succ levels => rw [fieldListReader]; rfl

theorem reads_list {fields : List Field}
    (h : ∀ f ∈ fields, ∀ levels, Reads (fieldReader levels) levels f.toJson f) (levels : Nat) :
    Reads (fieldListReader levels) levels (.array (fields.map toJson)) fields := by
  rw [listReader_eq]
  exact Reads.listWithin h levels

theorem reader_eq (levels : Nat) :
    fieldReader levels = .recordWithin fieldTitle
      (fun levels => fieldShape levels (fieldListReader levels)) levels := by
  cases levels with
  | zero => rfl
  | succ levels => rw [fieldReader]; rfl

theorem reads_of_children (f : Field)
    (h : ∀ child ∈ f.children, ∀ levels, Reads (fieldReader levels) levels child.toJson child)
    (levels : Nat) : Reads (fieldReader levels) levels f.toJson f := by
  obtain ⟨label?, operators, arguments, children, filter, isFunction, name⟩ := f
  rw [reader_eq, toJson, listToJson_eq_map]
  refine Reads.recordWithin ⟨some label?, some operators, some arguments, some children,
    some filter, some isFunction, some name⟩ (fun levels => ?_) (fun levels => ?_) levels
  · refine .cons rfl rfl ((reads_optionalString label? levels).map _) ?_
    refine .cons rfl rfl ((Reads.flatList Reads.string operators levels).map _) ?_
    refine .cons rfl rfl ((reads_argumentList arguments levels).map _) ?_
    refine .cons rfl rfl ((reads_list h levels).map _) ?_
    refine .cons rfl rfl ((reads_optionalClause filter levels).map _) ?_
    refine .cons rfl rfl ((Reads.boolean levels isFunction).map _) ?_
    exact .cons rfl rfl ((Reads.string levels name).map _) (.nil _)
  · rfl

mutual

theorem reads : ∀ (f : Field) (levels : Nat), Reads (fieldReader levels) levels f.toJson f
  | ⟨_, _, _, children, _, _, _⟩, levels => reads_of_children _ (all_reads children) levels

theorem all_reads : ∀ (fields : List Field), ∀ f ∈ fields, ∀ levels,
    Reads (fieldReader levels) levels f.toJson f
  | [] => by simp
  | field :: fields => List.forall_mem_cons.mpr ⟨field.reads, all_reads fields⟩

end

end Field

/-! ## Operations -/

theorem OperationKind.lookup_name (kind : OperationKind) :
    known.lookup kind.name = some kind := by
  cases kind <;> rfl

theorem Operation.reads (o : Operation) (levels : Nat) :
    Reads (operationReader levels) levels o.toJson o := by
  rw [toJson, Field.listToJson_eq_map]
  refine Reads.recordWithin ⟨some o.fields, some o.kind, some o.name⟩
    (fun levels => ?_) (fun levels => ?_) levels
  · refine .cons rfl rfl ((Field.reads_list (Field.all_reads o.fields) levels).map _) ?_
    refine .cons rfl rfl ((Reads.bareVariant o.kind.lookup_name rfl _ levels).map _) ?_
    exact .cons rfl rfl ((Reads.string levels o.name).map _) (.nil _)
  · rfl

/-! ## Whole descriptions -/

/-- Loading the text gives the node, as long as arrays and objects are nested within the limit, and
fails for their nesting otherwise. -/
structure ReadsBack {α : Type} (load : String → Except ReadError α) (text : String) (a : α) :
    Prop where
  within : textNesting text ≤ nestingLimit → load text = .ok a
  beyond : nestingLimit < textNesting text →
    ∃ position, load text = .error ⟨.recursionLimit, some position⟩

theorem readsBack_of_reads {α : Type} {reader : Reader α} {json : Json} {a : α}
    (h : Reads reader nestingLimit json a) : ReadsBack reader.readAll json.text a := by
  have htext : json.text.toList = json.write ++ [] := by
    rw [Json.text, String.toList_ofList, List.append_nil]
  constructor
  · intro hn
    rw [textNesting_text] at hn
    have hrun := h.taken hn [] (by simp [EndsNumeral])
    rw [Reader.readAll, htext, hrun]
    rfl
  · intro hn
    rw [textNesting_text] at hn
    obtain ⟨place, hrun⟩ := h.refused hn []
    rw [Reader.readAll, htext, hrun]
    exact ⟨_, rfl⟩

/-- Every node is read back from its description, or its description is refused for its nesting. -/
theorem descriptions_read_back :
    (∀ value : Value, ReadsBack Value.ofDescription value.description value) ∧
    (∀ argument : Argument, ReadsBack Argument.ofDescription argument.description argument) ∧
    (∀ clause : Clause, ReadsBack Clause.ofDescription clause.description clause) ∧
    (∀ f : Field, ReadsBack Field.ofDescription f.description f) ∧
    (∀ o : Operation, ReadsBack Operation.ofDescription o.description o) := by
  refine ⟨?_, ?_, ?_, ?_, ?_⟩
  · intro value
    exact readsBack_of_reads (value.reads nestingLimit)
  · intro argument
    exact readsBack_of_reads (argument.reads nestingLimit)
  · intro clause
    exact readsBack_of_reads (clause.reads nestingLimit)
  · intro f
    exact readsBack_of_reads (f.reads nestingLimit)
  · intro o
    exact readsBack_of_reads (o.reads nestingLimit)

/-- A value that holds the given number of arguments inside one another. -/
def Value.tower : Nat → Value
  | 0 => .string "\u0000\"\\"
  | height + 1 => .argument (.pair "é" (tower height))

theorem Value.nesting_tower (height : Nat) : (tower height).toJson.nesting = 2 * height + 1 := by
  induction height with
  | zero => rfl
  | succ height ih =>
    simp only [tower, toJson, Argument.toJson, nesting, nestingMembers, nestingMember, ih]
    omega

theorem tower_read_back :
    Value.ofDescription (Value.tower 63).description = .ok (Value.tower 63) ∧
      ∃ position, Argument.ofDescription (Argument.call "é" (Value.tower 63)).description =
        .error ⟨.recursionLimit, some position⟩ := by
  have hvalue : textNesting (Value.tower 63).description = 127 :=
    (textNesting_text _).trans (Value.nesting_tower 63)
  have hargument : textNesting (Argument.call "é" (Value.tower 63)).description = 128 := by
    rw [Argument.description, textNesting_text]
    simp only [Argument.toJson, nesting, nestingMembers, nestingMember, Value.nesting_tower]
    rfl
  obtain ⟨hvalues, harguments, _⟩ := descriptions_read_back
  exact ⟨(hvalues _).within (by rw [hvalue]; decide),
    (harguments _).beyond (by rw [hargument]; decide)⟩

end GraphDoc
