import GraphDoc.Proofs.DescriptionSpelling
import GraphDoc.Proofs.RenderedText
import GraphDoc.Proofs.UnambiguousArguments

/-!
# Clauses are balanced

A clause has one predicate more than operators, wherever it comes from: operators and predicates
that do not fit together make no clause, and a description with such a filter anywhere in it is not
read. That is why each operator of a clause is rendered between two predicates.
-/
namespace GraphDoc

open Json

/-! ## Making clauses -/

theorem Clause.ofLists_ok_iff {operators : List String} {predicates : List Argument}
    {clause : Clause} : ofLists operators predicates = .ok clause ↔
      predicates.length = operators.length + 1 ∧
        clause.operators = operators ∧ clause.predicates = predicates := by
  rw [ofLists_eq_ok_iff]
  constructor
  · rintro ⟨rfl, rfl⟩
    exact ⟨clause.balanced, rfl, rfl⟩
  · exact And.right

theorem Clause.ofLists_error_iff {operators : List String} {predicates : List Argument}
    {mismatch : CountMismatch} : ofLists operators predicates = .error mismatch ↔
      predicates.length ≠ operators.length + 1 ∧
        mismatch = ⟨operators.length, predicates.length⟩ := by
  unfold ofLists
  by_cases h : predicates.length = operators.length + 1
  · simp [h]
  · simp [h, eq_comm]

/-! ## Clauses in descriptions -/

def ClauseParts.Balanced (clause : ClauseParts) : Prop :=
  clause.predicates.length = clause.operators.length + 1

instance (clause : ClauseParts) : Decidable clause.Balanced :=
  inferInstanceAs (Decidable (_ = _))

mutual

/-- The filters of a field and of its children, at any depth. -/
def FieldParts.filters : FieldParts → List ClauseParts
  | ⟨_, _, _, children, filter, _, _⟩ => filter.toList ++ FieldParts.allFilters children

def FieldParts.allFilters : List FieldParts → List ClauseParts
  | [] => []
  | field :: fields => field.filters ++ FieldParts.allFilters fields

end

def OperationParts.filters (o : OperationParts) : List ClauseParts := FieldParts.allFilters o.fields

theorem ClauseParts.isSome_check (clause : ClauseParts) :
    clause.check.isSome = true ↔ clause.Balanced := by
  unfold check Clause.ofLists Balanced
  by_cases h : clause.predicates.length = clause.operators.length + 1
  · simp [h, Except.toOption]
  · simp [h, Except.toOption]

theorem ClauseParts.isSome_checkOptional (filter : Option ClauseParts) :
    (filter.mapM check).isSome = true ↔ ∀ clause ∈ filter.toList, clause.Balanced := by
  cases filter with
  | none => simp
  | some clause => simp [isSome_check]

namespace FieldParts

mutual

/-- A field passes its check exactly when every filter in it is balanced. -/
theorem isSome_check : ∀ f : FieldParts,
    f.check.isSome = true ↔ ∀ clause ∈ f.filters, clause.Balanced
  | ⟨_, _, _, children, filter, _, _⟩ => by
    have hchildren := isSome_checkAll children
    have hfilter := ClauseParts.isSome_checkOptional filter
    rw [check, filters, List.forall_mem_append, ← hchildren, ← hfilter]
    cases checkAll children <;> cases filter.mapM ClauseParts.check <;> simp

theorem isSome_checkAll : ∀ fields : List FieldParts,
    (checkAll fields).isSome = true ↔ ∀ clause ∈ allFilters fields, clause.Balanced
  | [] => by simp [checkAll, allFilters]
  | field :: fields => by
    have hfield := isSome_check field
    have hfields := isSome_checkAll fields
    rw [checkAll, allFilters, List.forall_mem_append, ← hfield, ← hfields]
    cases field.check <;> cases checkAll fields <;> simp

end

theorem check_eq_none {f : FieldParts} (h : ∃ clause ∈ f.filters, ¬ clause.Balanced) :
    f.check = none := by
  obtain ⟨clause, hmem, hbalanced⟩ := h
  rw [← Option.not_isSome_iff_eq_none, f.isSome_check]
  exact fun hall => hbalanced (hall clause hmem)

end FieldParts

theorem OperationParts.isSome_check (o : OperationParts) :
    o.check.isSome = true ↔ ∀ clause ∈ o.filters, clause.Balanced := by
  rw [check, Option.isSome_map, ← FieldParts.checkAll_eq_mapM]
  exact FieldParts.isSome_checkAll o.fields

theorem OperationParts.check_eq_none {o : OperationParts}
    (h : ∃ clause ∈ o.filters, ¬ clause.Balanced) : o.check = none := by
  obtain ⟨clause, hmem, hbalanced⟩ := h
  rw [← Option.not_isSome_iff_eq_none, o.isSome_check]
  exact fun hall => hbalanced (hall clause hmem)

theorem Field.filters_balanced (f : Field) : ∀ clause ∈ f.parts.filters, clause.Balanced := by
  have hcheck : f.parts.check.isSome = true := by rw [f.check_parts]; rfl
  exact f.parts.isSome_check.mp hcheck

theorem Operation.filters_balanced (o : Operation) :
    ∀ clause ∈ o.parts.filters, clause.Balanced := by
  have hcheck : o.parts.check.isSome = true := by rw [o.check_parts]; rfl
  exact o.parts.isSome_check.mp hcheck

/-! ## Rendering clauses -/

theorem operatorTokens_cons {operators : List String} {first : Argument} {others : List Argument}
    (h : operators.length = others.length) : operatorTokens operators (first :: others) =
      first.tokens ++
        (operators.zip others).flatMap fun joint => .operator joint.1 :: joint.2.tokens := by
  have hlength : (operators.map Token.operator).length = others.length := by
    rw [List.length_map, h]
  have hgaps := argumentItem.gapTokens_eq_behind hlength
  rw [Item.behind, List.zip_map_left, List.flatMap_map] at hgaps
  exact congrArg (first.tokens ++ ·) hgaps

/-- The text of predicates behind their operators. -/
theorem textOfTokens_joints (joints : List (String × Argument)) :
    textOfTokens (joints.flatMap fun joint => .operator joint.1 :: joint.2.tokens) =
      (String.join (joints.map fun joint => " " ++ joint.1 ++ " " ++ joint.2.render)).toList := by
  induction joints with
  | nil => simp
  | cons joint joints ih =>
    simp only [List.flatMap_cons, textOfTokens_append, textOfTokens_cons, Token.shown,
      List.map_cons, String.join_cons, String.toList_append, ih,
      Argument.toList_render]

theorem Clause.exists_predicates (clause : Clause) : ∃ first others,
    clause.predicates = first :: others ∧ clause.operators.length = others.length := by
  have hbalanced := clause.balanced
  cases hpredicates : clause.predicates with
  | nil =>
    rw [hpredicates] at hbalanced
    cases hbalanced
  | cons first others =>
    rw [hpredicates] at hbalanced
    exact ⟨first, others, rfl, (Nat.succ.inj hbalanced).symm⟩

theorem Clause.tokens_eq_joints {clause : Clause} {first : Argument} {others : List Argument}
    (hp : clause.predicates = first :: others) (hl : clause.operators.length = others.length) :
    clause.tokens = first.tokens ++
      (clause.operators.zip others).flatMap fun joint => .operator joint.1 :: joint.2.tokens := by
  rw [tokens_eq, hp, operatorTokens_cons hl]

theorem Clause.render_eq_joints {clause : Clause} {first : Argument} {others : List Argument}
    (hp : clause.predicates = first :: others) (hl : clause.operators.length = others.length) :
    clause.render = first.render ++ String.join
      ((clause.operators.zip others).map fun joint => " " ++ joint.1 ++ " " ++ joint.2.render) := by
  rw [← String.toList_inj, clause.toList_render, tokens_eq_joints hp hl, textOfTokens_append,
    textOfTokens_joints, String.toList_append, first.toList_render]

/-! ## Balanced from end to end -/

/-- Every clause has one predicate more than operators, however it came about; nothing else can be
made into a clause or read as one; and each operator is rendered between two predicates. -/
theorem clauses_balanced :
    (∀ (operators : List String) (predicates : List Argument) (clause : Clause),
      Clause.ofLists operators predicates = .ok clause ↔
        predicates.length = operators.length + 1 ∧
          clause.operators = operators ∧ clause.predicates = predicates) ∧
    (∀ (operators : List String) (predicates : List Argument) (mismatch : CountMismatch),
      Clause.ofLists operators predicates = .error mismatch ↔
        predicates.length ≠ operators.length + 1 ∧
          mismatch = ⟨operators.length, predicates.length⟩) ∧
    (∀ predicate : Argument, Clause.ofLists [] [predicate] = .ok (.single predicate)) ∧
    (∀ clause : Clause, clause.parts.Balanced) ∧
    (∀ f : Field, ∀ clause ∈ f.parts.filters, clause.Balanced) ∧
    (∀ o : Operation, ∀ clause ∈ o.parts.filters, clause.Balanced) ∧
    (∀ (clause : ClauseParts) (text : String) (depth : Nat),
      Spells clause.spelling text depth → ¬ clause.Balanced →
        ∃ error, Clause.ofDescription text = .error error) ∧
    (∀ (f : FieldParts) (text : String) (depth : Nat),
      Spells f.spelling text depth → (∃ clause ∈ f.filters, ¬ clause.Balanced) →
        ∃ error, Field.ofDescription text = .error error) ∧
    (∀ (o : OperationParts) (text : String) (depth : Nat),
      Spells o.spelling text depth → (∃ clause ∈ o.filters, ¬ clause.Balanced) →
        ∃ error, Operation.ofDescription text = .error error) ∧
    (∀ clause : Clause, ∃ first others,
      clause.predicates = first :: others ∧ clause.operators.length = others.length ∧
      clause.tokens = first.tokens ++
        (clause.operators.zip others).flatMap (fun joint => .operator joint.1 :: joint.2.tokens) ∧
      clause.render = first.render ++ String.join ((clause.operators.zip others).map
        fun joint => " " ++ joint.1 ++ " " ++ joint.2.render)) := by
  refine ⟨fun _ _ _ => Clause.ofLists_ok_iff, fun _ _ _ => Clause.ofLists_error_iff, ?_,
    Clause.balanced, Field.filters_balanced, Operation.filters_balanced, ?_, ?_, ?_, ?_⟩
  · intro predicate
    exact Clause.ofLists_eq_ok_iff.mpr ⟨rfl, rfl⟩
  · intro clause text depth hs hbalanced
    have hcheck : clause.check = none := by
      rw [← Option.not_isSome_iff_eq_none, clause.isSome_check]
      exact hbalanced
    exact (clause.accepts nestingLimit).readAll_eq_error hs hcheck
  · intro f text depth hs hbalanced
    exact (f.accepts nestingLimit).readAll_eq_error hs (FieldParts.check_eq_none hbalanced)
  · intro o text depth hs hbalanced
    exact (o.accepts nestingLimit).readAll_eq_error hs (OperationParts.check_eq_none hbalanced)
  · intro clause
    obtain ⟨first, others, hp, hl⟩ := clause.exists_predicates
    exact ⟨first, others, hp, hl, Clause.tokens_eq_joints hp hl, Clause.render_eq_joints hp hl⟩

/-- A filter without predicates, in a child of the only field. -/
theorem unbalanced_filter_refused :
    ∃ error, Operation.ofDescription
      "[[[null,[],[],[[null,[],[],[],[[],[]],false,\"g\"]],null,false,\"f\"]],\"Query\"]" =
        .error error := by
  have hlist : SpelledList [] _ 1 := .compact .nil
  have hnull : Written .null _ 0 := .compact
  have hfalse : Written (.bool false) _ 0 := .compact
  let filter : ClauseParts := ⟨[], []⟩
  have hfilter : filter.spelling _ _ := SpelledRecord.compact (.cons hlist (.cons hlist .nil))
  let g : FieldParts := { filter := some filter, name := "g" }
  have hg : g.spelling _ _ := SpelledRecord.compact <|
    .cons hnull <| .cons hlist <| .cons hlist <| .cons hlist <| .cons hfilter <| .cons hfalse <|
      .cons (.plain "g" (by decide)) .nil
  let f : FieldParts := { children := [g], name := "f" }
  have hf : f.spelling _ _ := SpelledRecord.compact <|
    .cons hnull <| .cons hlist <| .cons hlist <| .cons (SpelledList.compact (.cons hg .nil)) <|
      .cons hnull <| .cons hfalse <| .cons (.plain "f" (by decide)) .nil
  let o : OperationParts := ⟨[f], .query, ""⟩
  have hkind : OperationKind.query.spelling _ _ := .inl (.plain "Query" (by decide))
  have ho : o.spelling _ _ := SpelledRecord.array (List.take_append_drop 2 o.partSpellings).symm
    (List.forall_mem_singleton.mpr rfl)
    (.cons (SpelledList.compact (.cons hf .nil)) (.cons hkind .nil)) (.listed (.compact true _))
  have hblank : Blanks [] := by decide
  have hunbalanced : ∃ clause ∈ o.filters, ¬ clause.Balanced :=
    ⟨filter, List.mem_singleton.mpr rfl, by decide⟩
  obtain ⟨_, _, _, _, _, _, _, _, hrefused, _⟩ := clauses_balanced
  exact hrefused o _ _ (.between hblank ho hblank rfl) hunbalanced

end GraphDoc
