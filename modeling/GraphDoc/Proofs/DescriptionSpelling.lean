import GraphDoc.Proofs.NodeSpelling
import GraphDoc.Proofs.RecordSpelling
import GraphDoc.Proofs.RoundTrip

/-!
# Spelled descriptions are read

Every spelling of a node is read as that node, as long as it is nested within the limit. The nodes
are taken in the order in which they hold one another, with the parts of fields and operations in
their place; parts that make no node have no spelling that is read.
-/
namespace GraphDoc

open Json

/-! ## Reading values and arguments -/

namespace Argument

/-- What a draft of the argument holds once these keys have been read. -/
def draft (argument : Argument) (keys : Keys) : ArgumentDraft where
  name := slot (keys "name") (some argument.name)
  value := slot (keys "value") (some argument.value)
  isCall := slot (keys "is_function_style") (some argument.isCall)

theorem fitting (argument : Argument) {value : Reader Value} {levels : Nat}
    (h : Accepts value levels argument.value.spelling (some argument.value)) :
    Fitting argument.draft (some argument) levels (argumentShape value)
      (partSpellings argument.name argument.value.spelling argument.isCall) where
  start := rfl
  nodup := by
    have hkeys : ["name", "value", "is_function_style"].Nodup := by decide
    exact hkeys
  fits := by
    refine .cons ?_ (.cons ?_ (.cons ?_ .nil))
    · exact Fits.of_some (.string levels argument.name) (fun _ => rfl) (fun _ => rfl)
    · exact Fits.of_some h (fun _ => rfl) (fun _ => rfl)
    · exact Fits.of_some (.boolean levels argument.isCall) (fun _ => rfl) (fun _ => rfl)
  finish keys hread _ := by
    simp only [partSpellings, List.forall_mem_cons, or_false] at hread
    obtain ⟨hname, hvalue, hcall, _⟩ := hread
    refine ⟨argument, rfl, ?_⟩
    simp only [argumentShape, draft, hname, hvalue, slot_true]
    rw [getD_slot hcall]
    exact congrArg Except.ok argument.ofParts_eq

theorem accepts_of_value (argument : Argument)
    (h : ∀ levels, Accepts (valueReader levels) levels argument.value.spelling
      (some argument.value)) (levels : Nat) :
    Accepts (argumentReader levels) levels argument.spelling (some argument) := by
  rw [argumentReader_eq, spelling_eq]
  exact .recordWithin (fun levels => argument.fitting (h levels)) levels

end Argument

namespace Value

theorem accepts_of_content (kind : ValueKind) {spelling : Spelling} {value : Value}
    (h : ∀ levels, Accepts (valueContent levels kind) levels spelling (some value))
    (levels : Nat) :
    Accepts (valueReader levels) levels (SpelledVariant kind.name spelling) (some value) := by
  rw [valueReader_eq]
  exact .variantWithin kind.lookup_name h levels

theorem accepts_object {arguments : List Argument} (h : ∀ argument ∈ arguments, ∀ levels,
    Accepts (argumentReader levels) levels argument.spelling (some argument)) (levels : Nat) :
    Accepts (valueReader levels) levels (object arguments).spelling (some (object arguments)) := by
  rw [spelling, Argument.spellings_eq_map]
  exact accepts_of_content .object (fun levels => (Accepts.allListed h levels).map object) levels

end Value

mutual

theorem Value.accepts : ∀ (value : Value) (levels : Nat),
    Accepts (valueReader levels) levels value.spelling (some value)
  | .bool value, levels =>
    Value.accepts_of_content .bool (fun levels => (Accepts.boolean levels value).map Value.bool)
      levels
  | .int value, levels =>
    Value.accepts_of_content .int (fun levels => (Accepts.integer levels value).map Value.int)
      levels
  | .string text, levels =>
    Value.accepts_of_content .string (fun levels => (Accepts.string levels text).map Value.string)
      levels
  | .regex pattern, levels =>
    Value.accepts_of_content .regex (fun levels => (Accepts.string levels pattern).map Value.regex)
      levels
  | .bools values, levels =>
    Value.accepts_of_content .bools
      (fun levels => (Accepts.flatList Accepts.boolean values levels).map Value.bools) levels
  | .ints values, levels =>
    Value.accepts_of_content .ints
      (fun levels => (Accepts.flatList Accepts.integer values levels).map Value.ints) levels
  | .strings texts, levels =>
    Value.accepts_of_content .strings
      (fun levels => (Accepts.flatList Accepts.string texts levels).map Value.strings) levels
  | .object arguments, levels => Value.accepts_object (Argument.all_accepts arguments) levels
  | .argument argument, levels =>
    Value.accepts_of_content .argument
      (fun levels => (argument.accepts levels).map Value.argument) levels

theorem Argument.accepts : ∀ (argument : Argument) (levels : Nat),
    Accepts (argumentReader levels) levels argument.spelling (some argument)
  | .pair name value, levels => Argument.accepts_of_value (.pair name value) value.accepts levels
  | .call name value, levels => Argument.accepts_of_value (.call name value) value.accepts levels

theorem Argument.all_accepts : ∀ (arguments : List Argument), ∀ argument ∈ arguments, ∀ levels,
    Accepts (argumentReader levels) levels argument.spelling (some argument)
  | [] => by simp
  | argument :: arguments =>
    List.forall_mem_cons.mpr ⟨argument.accepts, Argument.all_accepts arguments⟩

end

theorem accepts_argumentList (arguments : List Argument) (levels : Nat) :
    Accepts (argumentListReader levels) levels (SpelledList (arguments.map Argument.spelling))
      (some arguments) :=
  Accepts.allListed (Argument.all_accepts arguments) levels

/-! ## Reading clauses -/

namespace ClauseParts

def draft (clause : ClauseParts) (keys : Keys) : ClauseDraft where
  operators := slot (keys "operators") (some clause.operators)
  predicates := slot (keys "predicates") (some clause.predicates)

theorem fitting (clause : ClauseParts) (levels : Nat) :
    Fitting clause.draft (some (clause.operators, clause.predicates)) levels (clauseShape levels)
      clause.partSpellings where
  start := rfl
  nodup := by
    have hkeys : ["operators", "predicates"].Nodup := by decide
    exact hkeys
  fits := by
    refine .cons ?_ (.cons ?_ .nil)
    · exact Fits.of_some (Accepts.flatList Accepts.string clause.operators levels)
        (fun _ => rfl) (fun _ => rfl)
    · exact Fits.of_some (accepts_argumentList clause.predicates levels)
        (fun _ => rfl) (fun _ => rfl)
  finish keys hread _ := by
    simp only [partSpellings, List.forall_mem_cons, or_false] at hread
    obtain ⟨hoperators, hpredicates, _⟩ := hread
    refine ⟨_, rfl, ?_⟩
    simp only [clauseShape, draft, hpredicates, slot_true]
    rw [getD_slot hoperators]

theorem accepts (clause : ClauseParts) (levels : Nat) :
    Accepts (clauseReader levels) levels clause.spelling clause.check := by
  have hlists : Accepts (Reader.recordWithin "struct BooleanClauseParts" clauseShape levels)
      levels clause.spelling (some (clause.operators, clause.predicates)) := by
    exact .recordWithin (fun levels => clause.fitting levels) levels
  have hcheck : clause.check = (some (clause.operators, clause.predicates)).bind fun lists =>
      (clauseOfLists lists).toOption := by
    rw [check, Option.bind_some, clauseOfLists]
    cases Clause.ofLists clause.operators clause.predicates <;> rfl
  rw [hcheck]
  exact hlists.filterMap clauseOfLists

end ClauseParts

/-! ## Reading fields -/

theorem accepts_optionalString (text? : Option String) (levels : Nat) :
    Accepts Reader.string.optional levels (optionalSpelling (text?.map SpelledString))
      (some text?) := by
  cases text? with
  | none => exact .null fun hb text => (Accepts.string levels "").skips hb text
  | some text =>
    refine (Accepts.string levels text).optional fun hs => ?_
    cases hs
    simp

theorem accepts_optionalClause (filter : Option ClauseParts) (levels : Nat) :
    Accepts (clauseReader levels).optional levels
      (optionalSpelling (filter.map ClauseParts.spelling)) (filter.mapM ClauseParts.check) := by
  cases filter with
  | none => exact .null fun hb text => (ClauseParts.accepts ⟨[], []⟩ levels).skips hb text
  | some clause =>
    have hcheck : (some clause).mapM ClauseParts.check = clause.check.map some := by
      rw [Option.mapM_some]
      rfl
    rw [hcheck]
    refine (clause.accepts levels).optional fun hs => ?_
    cases hs with
    | object _ held | array _ _ _ held =>
      cases held
      simp [Enclosure.opening]

namespace FieldParts

/-- What a draft of the field holds once these keys have been read. Children and filter are only
there if they pass their check. -/
def draft (f : FieldParts) (keys : Keys) : FieldDraft where
  alias? := slot (keys "alias") (some f.alias?)
  argumentOperators := slot (keys "argument_operators") (some f.argumentOperators)
  arguments := slot (keys "arguments") (some f.arguments)
  children := slot (keys "children") (f.children.mapM check)
  filter := slot (keys "filter") (f.filter.mapM ClauseParts.check)
  isFunction := slot (keys "is_function_field") (some f.isFunction)
  name := slot (keys "name") (some f.name)

theorem fitting (f : FieldParts) {levels : Nat}
    (h : Accepts (fieldListReader levels) levels (SpelledList (f.children.map spelling))
      (f.children.mapM check)) :
    Fitting f.draft f.check levels (fieldShape levels (fieldListReader levels))
      (f.partSpellings (f.children.map spelling)) where
  start := rfl
  nodup := by
    have hkeys : ["alias", "argument_operators", "arguments", "children", "filter",
        "is_function_field", "name"].Nodup := by decide
    exact hkeys
  fits := by
    refine .cons ?_ (.cons ?_ (.cons ?_ (.cons ?_ (.cons ?_ (.cons ?_ (.cons ?_ .nil))))))
    · exact Fits.of_some (accepts_optionalString f.alias? levels) (fun _ => rfl) (fun _ => rfl)
    · exact Fits.of_some (Accepts.flatList Accepts.string f.argumentOperators levels)
        (fun _ => rfl) (fun _ => rfl)
    · exact Fits.of_some (accepts_argumentList f.arguments levels) (fun _ => rfl) (fun _ => rfl)
    · refine Fits.of_value h (fun children hchildren keys => ?_) (fun _ => rfl) (fun hnone => ?_)
      · have hslot : some children = slot true (f.children.mapM check) := hchildren.symm
        simp only [hslot]
        rfl
      · rw [check_eq, hnone]
        rfl
    · refine Fits.of_value (accepts_optionalClause f.filter levels) (fun filter hfilter keys => ?_)
        (fun _ => rfl) (fun hnone => ?_)
      · have hslot : some filter = slot true (f.filter.mapM ClauseParts.check) := hfilter.symm
        simp only [hslot]
        rfl
      · rw [check_eq, hnone]
        cases f.children.mapM check <;> rfl
    · exact Fits.of_some (.boolean levels f.isFunction) (fun _ => rfl) (fun _ => rfl)
    · exact Fits.of_some (.string levels f.name) (fun _ => rfl) (fun _ => rfl)
  finish keys hread hset := by
    simp only [partSpellings, List.forall_mem_cons, or_false] at hread
    simp only [fieldShape, List.forall_mem_cons] at hset
    obtain ⟨halias, hoperators, harguments, hchildren, hfilter, hfunction, hname, _⟩ := hread
    obtain ⟨_, _, _, hsetChildren, hsetFilter, _⟩ := hset
    have hnil : f.children = [] → f.children.mapM check = some [] := by
      intro he
      rw [he]
      rfl
    have hnone : f.filter = none → f.filter.mapM ClauseParts.check = some none := by
      intro he
      rw [he]
      rfl
    obtain ⟨children, hcheck, hchildren⟩ := exists_of_slot hchildren hsetChildren hnil
    obtain ⟨filter, hcheckFilter, hfilter⟩ := exists_of_slot hfilter hsetFilter hnone
    refine ⟨⟨f.alias?, f.argumentOperators, f.arguments, children, filter, f.isFunction, f.name⟩,
      ?_, ?_⟩
    · rw [check_eq, hcheck, hcheckFilter]
      rfl
    · simp only [fieldShape, draft, hname, slot_true, hcheck, hcheckFilter]
      rw [getD_slot halias, getD_slot hoperators, getD_slot harguments, getD_slot hchildren,
        getD_slot hfilter, getD_slot hfunction]

theorem accepts_list {fields : List FieldParts}
    (h : ∀ f ∈ fields, ∀ levels, Accepts (fieldReader levels) levels f.spelling f.check)
    (levels : Nat) : Accepts (fieldListReader levels) levels (SpelledList (fields.map spelling))
      (fields.mapM check) := by
  rw [Field.listReader_eq]
  exact Accepts.listWithin h levels

theorem accepts_of_children (f : FieldParts)
    (h : ∀ child ∈ f.children, ∀ levels,
      Accepts (fieldReader levels) levels child.spelling child.check) (levels : Nat) :
    Accepts (fieldReader levels) levels f.spelling f.check := by
  rw [Field.reader_eq, spelling_eq]
  exact .recordWithin (fun levels => f.fitting (accepts_list h levels)) levels

mutual

theorem accepts : ∀ (f : FieldParts) (levels : Nat),
    Accepts (fieldReader levels) levels f.spelling f.check
  | ⟨_, _, _, children, _, _, _⟩, levels => accepts_of_children _ (all_accepts children) levels

theorem all_accepts : ∀ (fields : List FieldParts), ∀ f ∈ fields, ∀ levels,
    Accepts (fieldReader levels) levels f.spelling f.check
  | [] => by simp
  | field :: fields => List.forall_mem_cons.mpr ⟨field.accepts, all_accepts fields⟩

end

end FieldParts

/-! ## Reading operations -/

theorem OperationKind.accepts (kind : OperationKind) (levels : Nat) :
    Accepts (kindReader known levels) levels kind.spelling (some kind) := by
  have hbare : Accepts (kindReader known levels) levels (SpelledString kind.name) (some kind) :=
    .bareVariant kind.lookup_name rfl _ levels
  have hreader : kindReader known levels =
      .variantWithin known .ok (fun _ kind => Reader.unit.map fun _ => kind) levels := rfl
  have hnull : Accepts (kindReader known levels) levels
      (SpelledVariant kind.name (Written .null)) (some kind) := by
    rw [hreader]
    exact .variantWithin kind.lookup_name (fun levels => (Accepts.unit levels).map _) levels
  exact hbare.or hnull

namespace OperationParts

def draft (o : OperationParts) (keys : Keys) : OperationDraft where
  fields := slot (keys "fields") (o.fields.mapM FieldParts.check)
  kind := slot (keys "kind") (some o.kind)
  name := slot (keys "name") (some o.name)

theorem fitting (o : OperationParts) (levels : Nat) :
    Fitting o.draft o.check levels (operationShape levels) o.partSpellings where
  start := rfl
  nodup := by
    have hkeys : ["fields", "kind", "name"].Nodup := by decide
    exact hkeys
  fits := by
    refine .cons ?_ (.cons ?_ (.cons ?_ .nil))
    · refine Fits.of_value (FieldParts.accepts_list (FieldParts.all_accepts o.fields) levels)
        (fun fields hfields keys => ?_) (fun _ => rfl) (fun hnone => ?_)
      · have hslot : some fields = slot true (o.fields.mapM FieldParts.check) := hfields.symm
        simp only [hslot]
        rfl
      · rw [check, hnone]
        rfl
    · exact Fits.of_some (o.kind.accepts levels) (fun _ => rfl) (fun _ => rfl)
    · exact Fits.of_some (.string levels o.name) (fun _ => rfl) (fun _ => rfl)
  finish keys hread hset := by
    simp only [partSpellings, List.forall_mem_cons, or_false] at hread
    simp only [operationShape, List.forall_mem_cons] at hset
    obtain ⟨hfields, hkind, hname, _⟩ := hread
    have hnil : o.fields = [] → o.fields.mapM FieldParts.check = some [] := by
      intro he
      rw [he]
      rfl
    obtain ⟨fields, hcheck, hfields⟩ := exists_of_slot hfields hset.1 hnil
    refine ⟨⟨fields, o.kind, o.name⟩, ?_, ?_⟩
    · rw [check, hcheck]
      rfl
    · simp only [operationShape, draft, hkind, slot_true, hcheck]
      rw [getD_slot hfields, getD_slot hname]

theorem accepts (o : OperationParts) (levels : Nat) :
    Accepts (operationReader levels) levels o.spelling o.check :=
  .recordWithin o.fitting levels

end OperationParts

/-! ## Whole descriptions -/

section

variable {α : Type} {reader : Reader α} {spelling : Spelling} {outcome : Option α}
  (h : Accepts reader nestingLimit spelling outcome) {text : String} {depth : Nat}
  (hs : Spells spelling text depth)
include h hs

theorem Json.Accepts.yields_text : ∃ after, Blanks after ∧
    Yields (reader.run text.toList) (within nestingLimit depth outcome) after := by
  cases hs with
  | @between before inside after blanksBefore spelled blanksAfter text_eq =>
    have hends : EndsNumeral (after ++ []) :=
      endsNumeral_append blanksAfter (by simp [EndsNumeral])
    rw [List.append_nil] at hends
    rw [text_eq, h.skips blanksBefore]
    exact ⟨after, blanksAfter, h.yields spelled hends⟩

theorem Json.Accepts.readAll_eq_ok {a : α} (ha : outcome = some a) (hd : depth ≤ nestingLimit) :
    reader.readAll text = .ok a := by
  obtain ⟨after, hafter, hyields⟩ := h.yields_text hs
  rw [within, if_pos hd, ha] at hyields
  have hrun : reader.run text.toList = .ok (a, after) := hyields
  have hend : skipBlanks after = [] := by
    have hskip := skipBlanks_append hafter []
    rwa [List.append_nil] at hskip
  rw [Reader.readAll, hrun]
  simp only
  rw [hend]

theorem Json.Accepts.readAll_eq_error (ha : outcome = none) :
    ∃ error, reader.readAll text = .error error := by
  obtain ⟨after, _, hyields⟩ := h.yields_text hs
  rw [ha, within_none] at hyields
  obtain ⟨failure, hrun⟩ := hyields
  rw [Reader.readAll, hrun]
  exact ⟨_, rfl⟩

end

/-- Every spelling of a node is read as that node, as long as it is nested within the limit. -/
theorem spellings_read :
    (∀ (argument : Argument) (text : String) (depth : Nat),
      Spells argument.spelling text depth → depth ≤ nestingLimit →
        Argument.ofDescription text = .ok argument) ∧
    (∀ (clause : Clause) (text : String) (depth : Nat),
      Spells clause.parts.spelling text depth → depth ≤ nestingLimit →
        Clause.ofDescription text = .ok clause) ∧
    (∀ (f : Field) (text : String) (depth : Nat),
      Spells f.parts.spelling text depth → depth ≤ nestingLimit →
        Field.ofDescription text = .ok f) ∧
    (∀ (o : Operation) (text : String) (depth : Nat),
      Spells o.parts.spelling text depth → depth ≤ nestingLimit →
        Operation.ofDescription text = .ok o) := by
  refine ⟨?_, ?_, ?_, ?_⟩
  · intro argument text depth hs hd
    exact (argument.accepts nestingLimit).readAll_eq_ok hs rfl hd
  · intro clause text depth hs hd
    exact (clause.parts.accepts nestingLimit).readAll_eq_ok hs clause.check_parts hd
  · intro f text depth hs hd
    exact (f.parts.accepts nestingLimit).readAll_eq_ok hs f.check_parts hd
  · intro o text depth hs hd
    exact (o.parts.accepts nestingLimit).readAll_eq_ok hs o.check_parts hd

/-- A query with its kind before its fields, an unknown key, no name, and a field as an array. -/
theorem spelled_query_read :
    Operation.ofDescription (" \x7b\"kind\":\"Query\", \"x\":[-1.5e3]," ++
        "\"fields\":[[\"a\",[],[],[],null,false,\"f\"]]\x7d\n") =
      .ok { fields := [{ alias? := some "a", name := "f" }], kind := .query } := by
  have hnone : Blanks [] := by decide
  have hspace : Blanks [' '] := by decide
  have hnewline : Blanks ['\n'] := by decide
  have hnamed (key : String) (value : List Char) (h : Unescaped key.toList) :
      MemberText.Named ⟨key.toList, [], [], value⟩ key := ⟨⟨hnone, hnone⟩, .plain h⟩
  have hone : WholeText ['1'] := .digits rfl (by decide) (List.forall_mem_nil _)
  have hhalf : FractionText ['.', '5'] := .digits (by decide)
  have hpower : ExponentText ['e', '3'] := .digits (.inl rfl) (.inl rfl) (by decide)
  have hunknown : JsonText _ := .array
    (List.forall_mem_singleton.mpr (.number (.parts (.inr rfl) hone hhalf hpower)))
    (.listed (.compact true _))
  let f : FieldParts := { alias? := some "a", name := "f" }
  have hlist : SpelledList [] _ 1 := .compact .nil
  have hnull : Written .null _ 0 := .compact
  have hfalse : Written (.bool false) _ 0 := .compact
  have hf : f.spelling _ _ := SpelledRecord.compact <|
    .cons (.plain "a" (by decide)) <| .cons hlist <| .cons hlist <| .cons hlist <| .cons hnull <|
      .cons hfalse <| .cons (.plain "f" (by decide)) .nil
  let fields : PartSpelling := ⟨"fields", [f] = [], SpelledList [f.spelling]⟩
  let kind : PartSpelling := ⟨"kind", False, OperationKind.query.spelling⟩
  let name : PartSpelling := ⟨"name", "" = "", SpelledString ""⟩
  let parts := [fields, kind, name]
  have hmembers : SpelledMembers (parts.map (·.key)) parts _ _ :=
    .part [fields] [name] kind (hnamed "kind" _ (by decide)) (.inl (.plain "Query" (by decide))) <|
      .unknown (by simp [parts, fields, kind, name]) (hnamed "x" _ (by decide)) hunknown <|
        .part [] [name] fields (hnamed "fields" _ (by decide)) (.compact (.cons hf .nil)) <|
          .nil (List.forall_mem_singleton.mpr rfl)
  have hrecord := SpelledRecord.object hmembers <| .listed <|
    .cons hnone hnone <| .cons hnone hspace <| .cons hnone hnone <| .nil hnone
  exact spellings_read.2.2.2 _ _ _ (.between hspace hrecord hnewline rfl) (by decide)

end GraphDoc
