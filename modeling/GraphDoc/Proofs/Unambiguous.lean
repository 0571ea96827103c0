import GraphDoc.Proofs.Offences
import GraphDoc.Proofs.UnambiguousArguments

/-!
# Tokens determine the tree

Where no call stands anywhere, the tokens of a valid operation can be read back in one way only, up
to what they do not show. The optional parts of a field are told apart by their first tokens, in
the order in which they may follow its name.
-/
namespace GraphDoc

/-! ## Trees without calls -/

/-- No call stands in the arguments or in the filter of the field itself. -/
def Field.callFree (f : Field) : Bool :=
  Argument.allCallFree f.arguments &&
    f.filter.all fun filter => Argument.allCallFree filter.predicates

/-- No call stands anywhere in the operation. -/
def Operation.callFree (o : Operation) : Bool := (Field.preorderAll o.fields).all Field.callFree

/-! ## The parts of a field -/

namespace Field

theorem argumentTokens_eq_joinedTokens (f : Field) :
    f.argumentTokens = joinedTokens f.argumentOperators f.arguments := by
  unfold argumentTokens joinedTokens
  cases f.argumentOperators <;> rfl

theorem startsAt_childPart (children : List Field) {r : List Token} (hr : StartsAt 4 r) :
    StartsAt 3 (childPart children ++ r) := by
  unfold childPart
  split
  · exact hr.mono (by decide)
  · exact .cons (by decide) _

theorem startsAt_filterPart (f : Field) {r : List Token} (hr : StartsAt 3 r) :
    StartsAt 2 (f.filterPart ++ r) := by
  unfold filterPart
  split
  · exact .cons (by decide) _
  · exact hr.mono (by decide)

theorem startsAt_argumentPart (f : Field) {r : List Token} (hr : StartsAt 2 r) :
    StartsAt 1 (f.argumentPart ++ r) := by
  unfold argumentPart
  split
  · exact hr.mono (by decide)
  · exact .cons (by decide) _

theorem told_label {f g : Field} {r s : List Token} (hr : StartsAt 1 r) (hs : StartsAt 1 s)
    (h : f.labelTokens ++ r = g.labelTokens ++ s) :
    f.alias? = g.alias? ∧ f.name = g.name ∧ r = s := by
  unfold labelTokens at h
  cases hf : f.alias? <;> cases hg : g.alias? <;> rw [hf, hg] at h <;>
    simp only [List.cons_append, List.nil_append, List.cons.injEq, Token.name.injEq, true_and] at h
  · exact ⟨rfl, h⟩
  · exact absurd h.2 (hr.ne_cons (by decide) _)
  · exact absurd h.2.symm (hs.ne_cons (by decide) _)
  · rw [h.1]
    exact ⟨rfl, h.2⟩

/-- The field itself has operators that fit its arguments and holds no call. -/
def Plain (f : Field) : Prop := Fits f.argumentOperators f.arguments ∧ f.callFree = true

theorem told_argumentPart {f g : Field} {r s : List Token} (hf : f.Plain) (hg : g.Plain)
    (hr : StartsAt 2 r) (hs : StartsAt 2 s) (h : f.argumentPart ++ r = g.argumentPart ++ s) :
    f.argumentOperators = g.argumentOperators ∧
      f.arguments.map Argument.visible = g.arguments.map Argument.visible ∧ r = s := by
  obtain ⟨hff, hcf⟩ := hf
  obtain ⟨hfg, hcg⟩ := hg
  obtain ⟨hcf, _⟩ := Bool.and_eq_true_iff.mp hcf
  obtain ⟨hcg, _⟩ := Bool.and_eq_true_iff.mp hcg
  unfold argumentPart at h
  rw [argumentTokens_eq_joinedTokens, argumentTokens_eq_joinedTokens] at h
  cases ha : f.arguments with
  | nil =>
    rw [ha] at h hff
    cases hb : g.arguments with
    | nil =>
      rw [hb] at h hfg
      rw [hff.resolve_right (Nat.succ_ne_zero _), hfg.resolve_right (Nat.succ_ne_zero _)]
      exact ⟨rfl, rfl, h⟩
    | cons second more =>
      rw [hb] at h
      exact absurd h (hr.ne_cons (by decide) _)
  | cons first arguments =>
    rw [ha] at h hff hcf
    cases hb : g.arguments with
    | nil =>
      rw [hb] at h
      exact absurd h.symm (hs.ne_cons (by decide) _)
    | cons second more =>
      rw [hb] at h hfg hcg
      simp only [List.isEmpty_cons, Bool.false_eq_true, if_false, List.cons_append,
        List.append_assoc, List.nil_append, List.cons.injEq, true_and] at h
      exact told_joinedTokens hff hfg hcf hcg h

end Field

theorem Clause.exists_predicates_eq_cons (clause : Clause) :
    ∃ first more, clause.predicates = first :: more :=
  List.exists_cons_of_length_eq_add_one clause.balanced

theorem Clause.tokens_eq_joinedTokens (clause : Clause) :
    clause.tokens = joinedTokens clause.operators clause.predicates := by
  rw [tokens_eq]
  unfold joinedTokens
  split
  · rename_i ho
    obtain ⟨first, hp⟩ := List.length_eq_one_iff.mp (ho ▸ clause.balanced)
    rw [ho, hp]
    rfl
  · rfl

/-- A clause, up to the closing parenthesis, can be told from any other. -/
theorem Clause.told {clause other : Clause} {r s : List Token}
    (hc : Argument.allCallFree clause.predicates = true)
    (ho : Argument.allCallFree other.predicates = true)
    (h : clause.tokens ++ .parenClose :: r = other.tokens ++ .parenClose :: s) :
    clause.visible = other.visible ∧ r = s := by
  have hf : Fits clause.operators clause.predicates := .inr clause.balanced.symm
  have hg : Fits other.operators other.predicates := .inr other.balanced.symm
  obtain ⟨first, more, hp⟩ := clause.exists_predicates_eq_cons
  obtain ⟨second, rest, hq⟩ := other.exists_predicates_eq_cons
  rw [tokens_eq_joinedTokens, tokens_eq_joinedTokens] at h
  rw [hp] at hf hc h
  rw [hq] at hg ho h
  obtain ⟨hops, hargs, h⟩ := told_joinedTokens hf hg hc ho h
  refine ⟨?_, h⟩
  unfold visible
  rw [Clause.mk.injEq, hp, hq]
  exact ⟨hops, hargs⟩

namespace Field

theorem told_filterPart {f g : Field} {r s : List Token} (hf : f.Plain) (hg : g.Plain)
    (hr : StartsAt 3 r) (hs : StartsAt 3 s) (h : f.filterPart ++ r = g.filterPart ++ s) :
    f.filter.map Clause.visible = g.filter.map Clause.visible ∧ r = s := by
  obtain ⟨_, hcf⟩ := Bool.and_eq_true_iff.mp hf.2
  obtain ⟨_, hcg⟩ := Bool.and_eq_true_iff.mp hg.2
  unfold filterPart at h
  cases hff : f.filter <;> cases hfg : g.filter <;> rw [hff, hfg] at h
  · exact ⟨rfl, h⟩
  · exact absurd h (hr.ne_cons (by decide) _)
  · exact absurd h.symm (hs.ne_cons (by decide) _)
  · rw [hff] at hcf
    rw [hfg] at hcg
    simp only [List.cons_append, List.append_assoc, List.nil_append, List.cons.injEq,
      true_and] at h
    obtain ⟨hv, h⟩ := Clause.told hcf hcg h
    rw [Option.map_some, Option.map_some, hv]
    exact ⟨rfl, h⟩

end Field

/-! ## Fields -/

def fieldItem : Item Field where
  tokens := Field.tokens
  visible := Field.visible
  Plain f := ∀ g ∈ f.preorder, g.Plain
  starts f := by
    rw [Field.tokens_eq, List.append_assoc, List.append_assoc, Field.labelTokens]
    cases f.alias? <;> exact ⟨_, _, rfl, rfl⟩

namespace Field

theorem told_childPart {children others : List Field} {r s : List Token}
    (hc : ∀ child ∈ children, fieldItem.Told child) (ho : ∀ child ∈ others, fieldItem.Plain child)
    (hr : StartsAt 4 r) (hs : StartsAt 4 s) (h : childPart children ++ r = childPart others ++ s) :
    children.map visible = others.map visible ∧ r = s := by
  unfold childPart at h
  cases children with
  | nil =>
    cases others with
    | nil => exact ⟨rfl, h⟩
    | cons other others =>
      exact absurd h (hr.ne_cons (by decide) _)
  | cons child children =>
    cases others with
    | nil =>
      exact absurd h.symm (hs.ne_cons (by decide) _)
    | cons other others =>
      simp only [List.isEmpty_cons, Bool.false_eq_true, if_false, List.cons_append,
        List.append_assoc, List.nil_append, List.cons.injEq, true_and] at h
      obtain ⟨hm, h⟩ := fieldItem.told_commas hc ho (closes_closing .brace r)
        (closes_closing .brace s) h
      exact ⟨hm, (List.cons.inj h).2⟩

theorem visible_eq_of_parts {f g : Field} (halias : f.alias? = g.alias?)
    (hname : f.name = g.name) (hops : f.argumentOperators = g.argumentOperators)
    (hargs : f.arguments.map Argument.visible = g.arguments.map Argument.visible)
    (hfilter : f.filter.map Clause.visible = g.filter.map Clause.visible)
    (hchildren : f.children.map visible = g.children.map visible) : f.visible = g.visible := by
  cases f
  cases g
  rw [visible, visible, visibleAll_eq_map, visibleAll_eq_map, mk.injEq]
  exact ⟨halias, hops, hargs, hchildren, hfilter, rfl, hname⟩

theorem plain_child {f child : Field} (hf : fieldItem.Plain f) (hc : child ∈ f.children) :
    fieldItem.Plain child := by
  intro g hg
  refine hf g ?_
  rw [preorder_eq, preorderAll_eq_flatMap]
  exact List.mem_cons_of_mem f (List.mem_flatMap.mpr ⟨child, hc, hg⟩)

theorem plain_self {f : Field} (hf : fieldItem.Plain f) : f.Plain := by
  refine hf f ?_
  rw [preorder_eq]
  exact List.mem_cons_self ..

theorem told_of_children {f : Field} (hf : fieldItem.Plain f)
    (hc : ∀ child ∈ f.children, fieldItem.Told child) : fieldItem.Told f := by
  intro g r s hg hr hs h
  simp only [fieldItem, tokens_eq, List.append_assoc] at h
  have hfc := startsAt_childPart f.children hr
  have hgc := startsAt_childPart g.children hs
  have hff := f.startsAt_filterPart hfc
  have hgf := g.startsAt_filterPart hgc
  obtain ⟨halias, hname, h⟩ :=
    told_label (f.startsAt_argumentPart hff) (g.startsAt_argumentPart hgf) h
  obtain ⟨hops, hargs, h⟩ := told_argumentPart (plain_self hf) (plain_self hg) hff hgf h
  obtain ⟨hfilter, h⟩ := told_filterPart (plain_self hf) (plain_self hg) hfc hgc h
  obtain ⟨hchildren, h⟩ := told_childPart hc (fun child hm => plain_child hg hm) hr hs h
  exact ⟨visible_eq_of_parts halias hname hops hargs hfilter hchildren, h⟩

mutual

theorem told : ∀ f : Field, fieldItem.Plain f → fieldItem.Told f
  | ⟨_, _, _, children, _, _, _⟩, hf =>
    told_of_children hf (all_told children fun _ hc => plain_child hf hc)

theorem all_told : ∀ fields : List Field, (∀ f ∈ fields, fieldItem.Plain f) →
    ∀ f ∈ fields, fieldItem.Told f
  | [], _ => by simp
  | field :: fields, h => by
    obtain ⟨hfirst, hrest⟩ := List.forall_mem_cons.mp h
    exact List.forall_mem_cons.mpr ⟨field.told hfirst, all_told fields hrest⟩

end

end Field

/-! ## Operations -/

theorem OperationKind.keyword?_injective : Function.Injective OperationKind.keyword? := by
  intro a b h
  cases a <;> cases b <;> first | rfl | exact absurd h (by decide)

namespace Operation

theorem name_eq_of_name? {a b : Operation} (h : a.name? = b.name?) : a.name = b.name := by
  unfold name? at h
  split at h <;> split at h
  · rename_i ha hb
    rw [String.isEmpty_iff.mp ha, String.isEmpty_iff.mp hb]
  · cases h
  · cases h
  · exact Option.some.inj h

theorem told_header {a b : Operation} {r s : List Token}
    (h : a.header ++ .braceOpen :: r = b.header ++ .braceOpen :: s) :
    a.kind = b.kind ∧ a.name = b.name ∧ r = s := by
  have hparts : a.kind.keyword? = b.kind.keyword? ∧ a.name? = b.name? ∧ r = s := by
    revert h
    unfold header
    cases a.kind.keyword? <;> cases a.name? <;> cases b.kind.keyword? <;> cases b.name? <;>
      simp +contextual
  exact ⟨OperationKind.keyword?_injective hparts.1, name_eq_of_name? hparts.2.1, hparts.2.2⟩

/-- In a valid operation, the operators of every field fit its arguments. -/
theorem fits_of_validate {o : Operation} (h : o.validate = .ok ()) :
    ∀ f ∈ Field.preorderAll o.fields, Fits f.argumentOperators f.arguments := by
  intro f hf
  rw [validate_eq, firstOffence_eq_ok_iff, offences, List.append_eq_nil_iff,
    List.flatMap_eq_nil_iff] at h
  exact f.argumentOffences_eq_nil_iff.mp (List.append_eq_nil_iff.mp (h.2 f hf)).2

theorem plain_fields {o : Operation} (h : o.validate = .ok ()) (hc : o.callFree = true) :
    ∀ f ∈ o.fields, fieldItem.Plain f := by
  intro f hf g hg
  have hm : g ∈ Field.preorderAll o.fields := by
    rw [Field.preorderAll_eq_flatMap]
    exact List.mem_flatMap.mpr ⟨f, hf, hg⟩
  exact ⟨fits_of_validate h g hm, List.all_eq_true.mp hc g hm⟩

/-- The tokens of an operation tell what of it shows. -/
theorem visible_eq_of_tokens {a b : Operation} (ha : ∀ f ∈ a.fields, fieldItem.Plain f)
    (hb : ∀ f ∈ b.fields, fieldItem.Plain f) (h : a.tokens = b.tokens) :
    a.visible = b.visible := by
  rw [tokens_eq, tokens_eq] at h
  obtain ⟨hkind, hname, h⟩ := told_header h
  obtain ⟨hfields, _⟩ := fieldItem.told_commas (Field.all_told _ ha) hb (closes_closing .brace [])
    (closes_closing .brace []) h
  unfold visible
  rw [mk.injEq]
  exact ⟨hfields, hkind, hname⟩

/-- Valid operations without calls have the same tokens exactly when they are the same up to what
tokens do not show. -/
theorem tokens_eq_iff {a b : Operation} (ha : a.validate = .ok ()) (hb : b.validate = .ok ())
    (hca : a.callFree = true) (hcb : b.callFree = true) :
    a.tokens = b.tokens ↔ a.visible = b.visible := by
  constructor
  · exact visible_eq_of_tokens (plain_fields ha hca) (plain_fields hb hcb)
  · intro h
    rw [← tokens_visible, h, tokens_visible]

/-- A query with an alias, an operator, a filter and a nested selection. -/
def filtered (tags pattern : Value) (isFunction : Bool) : Operation where
  kind := .query
  name := "Q"
  fields := [{
    alias? := some "u"
    name := "user"
    argumentOperators := ["AND"]
    arguments := [.int "id" 1, .pair "tags" tags]
    filter := some (.single (.object "name" [.pair "like" pattern]))
    isFunction
    children := [.new "name", { name := "pets", children := [.new "age"] }] }]

theorem tokens_filtered :
    let a := filtered (.bools []) (.regex "^A") true
    let b := filtered (.ints []) (.string "^A") false
    let c := filtered (.ints [0]) (.string "^A") false
    (a ≠ b ∧ a.tokens = b.tokens) ∧ a.tokens ≠ c.tokens := by
  intro a b c
  have ha : a.validate = .ok () := by decide
  have hb : b.validate = .ok () := by decide
  have hc : c.validate = .ok () := by decide
  have hab : a.visible = b.visible := by decide
  have hac : a.visible ≠ c.visible := by decide
  exact ⟨⟨by decide, (tokens_eq_iff ha hb rfl rfl).mpr hab⟩,
    mt (tokens_eq_iff ha hc rfl rfl).mp hac⟩

end Operation

end GraphDoc
