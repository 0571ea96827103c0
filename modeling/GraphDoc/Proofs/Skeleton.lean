import GraphDoc.Proofs.Nesting
import GraphDoc.Proofs.Offences
import Mathlib.Data.List.Chain

/-!
# The selection skeleton

What is left of a rendered document once its parentheses, with all that they hold, and its filter
directives are deleted. However the arguments and predicates are nested, nothing of them is left,
and the rest is a sentence of the grammar of selections. Validation sees to the names in it.
-/
namespace GraphDoc

/-! ## Deleting parentheses -/

/-- The tokens outside parentheses, of which `depth` are open before the tokens. -/
def outsideParens : (depth : Nat) → List Token → List Token
  | _, [] => []
  | depth, .parenOpen :: tokens => outsideParens (depth + 1) tokens
  | depth + 1, .parenClose :: tokens => outsideParens depth tokens
  | 0, token :: tokens => token :: outsideParens 0 tokens
  | depth + 1, _ :: tokens => outsideParens (depth + 1) tokens

/-- The tokens outside parentheses that are no filter directives. -/
def skeleton (tokens : List Token) : List Token :=
  (outsideParens 0 tokens).filter (· ≠ .filterDirective)

theorem outsideParens_of_plain {token : Token} (opens : token.opened? = none)
    (closes : token.closed? = none) (depth : Nat) (tokens : List Token) :
    outsideParens (depth + 1) (token :: tokens) = outsideParens (depth + 1) tokens := by
  cases token with
  | parenOpen => cases opens
  | parenClose => cases closes
  | _ => rfl

/-- Inside parentheses, nested tokens are passed over whole. -/
theorem Nested.outsideParens_append {inside : Bracket → List Token → Prop} {tokens : List Token}
    (h : Nested inside tokens) (depth : Nat) (rest : List Token) :
    outsideParens (depth + 1) (tokens ++ rest) = outsideParens (depth + 1) rest := by
  induction h generalizing depth rest with
  | nil => rfl
  | plain opens closes _ ih =>
    rw [List.cons_append, outsideParens_of_plain opens closes]
    exact ih depth rest
  | enclosed bracket _ _ _ ihb ih =>
    rw [List.cons_append, List.append_assoc, List.cons_append]
    cases bracket <;> simp only [Bracket.opening, Bracket.closing, outsideParens, ihb, ih]

/-- Whatever stands behind them, the tokens leave `kept` in the skeleton. -/
def Leaves (tokens kept : List Token) : Prop :=
  ∀ rest, skeleton (tokens ++ rest) = kept ++ skeleton rest

namespace Leaves

theorem nil : Leaves [] [] := fun _ => rfl

theorem append {xs ys keptXs keptYs : List Token} (hx : Leaves xs keptXs) (hy : Leaves ys keptYs) :
    Leaves (xs ++ ys) (keptXs ++ keptYs) := by
  intro rest
  rw [List.append_assoc, hx, hy, List.append_assoc]

theorem eq_of_all {tokens kept : List Token} (h : Leaves tokens kept) : skeleton tokens = kept := by
  have hall := h []
  rwa [List.append_nil, show skeleton [] = [] from rfl, List.append_nil] at hall

theorem single {token : Token} (hp : token ≠ .parenOpen) (hf : token ≠ .filterDirective) :
    Leaves [token] [token] := by
  intro rest
  have houter : outsideParens 0 (token :: rest) = token :: outsideParens 0 rest := by
    cases token with
    | parenOpen => exact absurd rfl hp
    | _ => rfl
  rw [List.singleton_append, skeleton, houter, List.filter_cons_of_pos (by simpa using hf)]
  rfl

theorem cons {token : Token} (hp : token ≠ .parenOpen) (hf : token ≠ .filterDirective)
    {tokens kept : List Token} (h : Leaves tokens kept) :
    Leaves (token :: tokens) (token :: kept) :=
  (single hp hf).append h

theorem filterDirective {tokens kept : List Token} (h : Leaves tokens kept) :
    Leaves (.filterDirective :: tokens) kept := h

/-- A group in parentheses leaves nothing. -/
theorem group {inside : Bracket → List Token → Prop} {tokens : List Token}
    (h : Nested inside tokens) : Leaves (.parenOpen :: (tokens ++ [.parenClose])) [] := by
  intro rest
  have houter : outsideParens 1 (tokens ++ .parenClose :: rest) = outsideParens 0 rest :=
    h.outsideParens_append 0 (.parenClose :: rest)
  rw [List.cons_append, List.append_assoc, skeleton, outsideParens]
  exact congrArg (List.filter _) houter

theorem commaTokens {α : Type} {items : List α} {tokens kept : α → List Token}
    (h : ∀ item ∈ items, Leaves (tokens item) (kept item)) :
    Leaves (commaTokens (items.map tokens)) (commaTokens (items.map kept)) := by
  induction items with
  | nil => exact nil
  | cons item items ih =>
    obtain ⟨hi, hs⟩ := List.forall_mem_cons.mp h
    cases items with
    | nil =>
      rw [List.map_singleton, List.map_singleton, commaTokens_singleton, commaTokens_singleton]
      exact hi
    | cons next items => exact hi.append (cons (by decide) (by decide) (ih hs))

end Leaves

/-! ## What documents leave -/

namespace Field

mutual

/-- The field without arguments and filters, its own and those of its descendants. -/
def bare : Field → Field
  | ⟨alias?, _, _, children, _, isFunction, name⟩ =>
    { alias?, children := bareAll children, isFunction, name }

def bareAll : List Field → List Field
  | [] => []
  | field :: fields => field.bare :: bareAll fields

end

theorem bareAll_eq_map (fields : List Field) : bareAll fields = fields.map bare := by
  induction fields with
  | nil => rfl
  | cons field fields ih => rw [bareAll, ih, List.map_cons]

theorem tokens_bare (f : Field) :
    f.bare.tokens = f.labelTokens ++ childPart (f.children.map bare) := by
  obtain ⟨label, _, _, children, _, _, name⟩ := f
  rw [tokens_eq, bare, bareAll_eq_map]
  simp only [argumentPart, filterPart, List.isEmpty_nil, if_true, List.append_nil]
  rfl

theorem leaves_labelTokens (f : Field) : Leaves f.labelTokens f.labelTokens := by
  unfold labelTokens
  split
  · exact .cons (by simp) (by simp) (.cons (by simp) (by simp) (.single (by simp) (by simp)))
  · exact .single (by simp) (by simp)

theorem leaves_argumentPart (f : Field) : Leaves f.argumentPart [] := by
  unfold argumentPart
  split
  · exact .nil
  · exact .group f.nested_argumentTokens

theorem leaves_filterPart (f : Field) : Leaves f.filterPart [] := by
  unfold filterPart
  split
  · rename_i filter _
    exact .filterDirective (.group filter.nested)
  · exact .nil

theorem leaves_childPart {children : List Field}
    (h : ∀ child ∈ children, Leaves child.tokens child.bare.tokens) :
    Leaves (childPart children) (childPart (children.map bare)) := by
  unfold childPart
  rw [List.isEmpty_map]
  split
  · exact .nil
  · rw [List.map_map]
    have hclose : Leaves [.braceClose] [.braceClose] := .single (by decide) (by decide)
    exact .cons (by decide) (by decide) ((Leaves.commaTokens h).append hclose)

mutual

theorem leaves : ∀ f : Field, Leaves f.tokens f.bare.tokens
  | ⟨label, operators, arguments, children, filter, isFunction, name⟩ => by
    let f : Field := ⟨label, operators, arguments, children, filter, isFunction, name⟩
    have head := (f.leaves_labelTokens.append f.leaves_argumentPart).append f.leaves_filterPart
    rw [List.append_nil, List.append_nil] at head
    rw [tokens_eq, tokens_bare]
    exact head.append (leaves_childPart (leaves_all children))

theorem leaves_all : ∀ (fields : List Field),
    ∀ field ∈ fields, Leaves field.tokens field.bare.tokens
  | [] => by simp
  | field :: fields => by
    rw [List.forall_mem_cons]
    exact ⟨field.leaves, leaves_all fields⟩

end

end Field

namespace Operation

/-- The operation without arguments and filters in any of its fields. -/
def bare (o : Operation) : Operation := { o with fields := o.fields.map Field.bare }

theorem leaves_header (o : Operation) : Leaves o.header o.header := by
  unfold header
  split
  · exact .cons (by simp) (by simp) (.cons (by simp) (by simp) (.single (by simp) (by simp)))
  · exact .single (by simp) (by simp)
  · exact .single (by simp) (by simp)
  · exact .nil

theorem leaves (o : Operation) : Leaves o.tokens o.bare.tokens := by
  have hfields := Leaves.commaTokens (Field.leaves_all o.fields)
  have hclose : Leaves [.braceClose] [.braceClose] := .single (by decide) (by decide)
  rw [tokens_eq, tokens_eq, bare, List.map_map]
  exact o.leaves_header.append (.cons (by decide) (by decide) (hfields.append hclose))

/-- Arguments and predicates stand inside parentheses only. -/
theorem skeleton_tokens (o : Operation) : skeleton o.tokens = o.bare.tokens := o.leaves.eq_of_all

end Operation

/-! ## The grammar of selections -/

/-- `Name [Colon Name]` -/
inductive IsLabel : List Token → Prop where
  | plain (name : String) : IsLabel [.name name]
  | aliased (label name : String) : IsLabel [.name label, .colon, .name name]

mutual

/-- `Label [BraceOpen Selections BraceClose]` -/
inductive IsSelection : List Token → Prop where
  | leaf {label : List Token} (named : IsLabel label) : IsSelection label
  | parent {label inner : List Token} (named : IsLabel label) (body : IsSelections inner) :
      IsSelection (label ++ .braceOpen :: (inner ++ [.braceClose]))

/-- `Selection (Comma Selection)*` -/
inductive IsSelections : List Token → Prop where
  | single {selection : List Token} (only : IsSelection selection) : IsSelections selection
  | cons {selection later : List Token} (first : IsSelection selection)
      (rest : IsSelections later) : IsSelections (selection ++ .comma :: later)

end

/-- `Keyword [Whitespace Name]` -/
inductive IsHeader (keyword : String) : List Token → Prop where
  | unnamed : IsHeader keyword [.keyword keyword]
  | named (name : String) : IsHeader keyword [.keyword keyword, .space, .name name]

/-- `Header BraceOpen [Selections] BraceClose` -/
inductive IsDocument (keyword : String) : List Token → Prop where
  | empty {header : List Token} (starts : IsHeader keyword header) :
      IsDocument keyword (header ++ [.braceOpen, .braceClose])
  | filled {header body : List Token} (starts : IsHeader keyword header)
      (holds : IsSelections body) :
      IsDocument keyword (header ++ .braceOpen :: (body ++ [.braceClose]))

theorem IsSelections.commaTokens {items : List (List Token)} (hne : items ≠ [])
    (h : ∀ item ∈ items, IsSelection item) : IsSelections (commaTokens items) := by
  induction items with
  | nil => exact absurd rfl hne
  | cons item items ih =>
    obtain ⟨hi, hs⟩ := List.forall_mem_cons.mp h
    cases items with
    | nil =>
      rw [commaTokens_singleton]
      exact .single hi
    | cons next items => exact .cons hi (ih (List.cons_ne_nil _ _) hs)

namespace Field

theorem isLabel_labelTokens (f : Field) : IsLabel f.labelTokens := by
  unfold labelTokens
  split
  · exact .aliased _ _
  · exact .plain _

theorem isSelection_of_children (f : Field)
    (h : ∀ item ∈ (f.children.map bare).map tokens, IsSelection item) :
    IsSelection f.bare.tokens := by
  rw [tokens_bare, childPart, List.isEmpty_map]
  cases hc : f.children with
  | nil =>
    rw [List.isEmpty_nil, if_pos rfl, List.append_nil]
    exact .leaf f.isLabel_labelTokens
  | cons child children =>
    rw [hc] at h
    exact .parent f.isLabel_labelTokens (.commaTokens (List.cons_ne_nil _ _) h)

mutual

theorem isSelection_bare : ∀ f : Field, IsSelection f.bare.tokens
  | ⟨_, _, _, children, _, _, _⟩ => isSelection_of_children _ (isSelection_all children)

theorem isSelection_all : ∀ (fields : List Field),
    ∀ item ∈ (fields.map bare).map tokens, IsSelection item
  | [] => by simp
  | field :: fields => by
    rw [List.map_cons, List.map_cons, List.forall_mem_cons]
    exact ⟨field.isSelection_bare, isSelection_all fields⟩

end

end Field

namespace Operation

theorem isHeader_header {o : Operation} {keyword : String} (h : o.kind.keyword? = some keyword) :
    IsHeader keyword o.header := by
  unfold header
  rw [h]
  cases o.name? with
  | none => exact .unnamed
  | some name => exact .named name

theorem isDocument_bare {o : Operation} {keyword : String} (h : o.kind.keyword? = some keyword) :
    IsDocument keyword o.bare.tokens := by
  have hheader : o.bare.header = o.header := rfl
  rw [tokens_eq, hheader]
  have hitems : ∀ item ∈ o.bare.fields.map Field.tokens, IsSelection item :=
    Field.isSelection_all o.fields
  cases hf : o.bare.fields with
  | nil => exact .empty (isHeader_header h)
  | cons field fields =>
    rw [hf] at hitems
    exact .filled (isHeader_header h) (.commaTokens (List.cons_ne_nil _ _) hitems)

end Operation

/-! ## No empty selections -/

/-- The second token does not close a brace that the first one opens. -/
def NotEmpty (first second : Token) : Prop := ¬ (first = .braceOpen ∧ second = .braceClose)

theorem IsLabel.starts {label : List Token} (h : IsLabel label) :
    ∃ name later, label = .name name :: later := by
  cases h with
  | plain name => exact ⟨name, [], rfl⟩
  | aliased label name => exact ⟨label, [.colon, .name name], rfl⟩

theorem IsSelection.starts {tokens : List Token} (h : IsSelection tokens) :
    ∃ name later, tokens = .name name :: later := by
  cases h with
  | leaf named => exact named.starts
  | parent named _ =>
    obtain ⟨name, later, rfl⟩ := named.starts
    exact ⟨name, _, rfl⟩

theorem IsSelections.starts {tokens : List Token} (h : IsSelections tokens) :
    ∃ name later, tokens = .name name :: later := by
  cases h with
  | single only => exact only.starts
  | cons first _ =>
    obtain ⟨name, later, rfl⟩ := first.starts
    exact ⟨name, _, rfl⟩

theorem isChain_cons {token : Token} (h : token ≠ .braceOpen) {rest : List Token}
    (hr : rest.IsChain NotEmpty) : (token :: rest).IsChain NotEmpty :=
  List.isChain_cons.mpr ⟨fun _ _ he => h he.1, hr⟩

/-- What starts with a name can stand behind an opening brace. -/
theorem isChain_braceOpen {tokens : List Token} (hs : ∃ name later, tokens = .name name :: later)
    (h : tokens.IsChain NotEmpty) : (.braceOpen :: tokens).IsChain NotEmpty := by
  obtain ⟨name, later, rfl⟩ := hs
  refine .cons_cons (fun he => ?_) h
  cases he.2

theorem IsLabel.isChain {label rest : List Token} (h : IsLabel label)
    (hr : rest.IsChain NotEmpty) : (label ++ rest).IsChain NotEmpty := by
  cases h with
  | plain name => exact isChain_cons (by simp) hr
  | aliased label name =>
    exact isChain_cons (by simp) (isChain_cons (by simp) (isChain_cons (by simp) hr))

theorem isChain_body {inner rest : List Token} (hi : IsSelections inner)
    (h : (inner ++ .braceClose :: rest).IsChain NotEmpty) :
    (.braceOpen :: (inner ++ .braceClose :: rest)).IsChain NotEmpty := by
  obtain ⟨name, later, rfl⟩ := hi.starts
  exact isChain_braceOpen ⟨name, _, rfl⟩ h

mutual

theorem IsSelection.isChain {rest : List Token} (hr : rest.IsChain NotEmpty) :
    ∀ {tokens : List Token}, IsSelection tokens → (tokens ++ rest).IsChain NotEmpty
  | _, .leaf named => named.isChain hr
  | _, .parent named body => by
    rw [List.append_assoc, List.cons_append, List.append_assoc]
    exact named.isChain (isChain_body body (body.isChain (isChain_cons (by decide) hr)))

theorem IsSelections.isChain {rest : List Token} (hr : rest.IsChain NotEmpty) :
    ∀ {tokens : List Token}, IsSelections tokens → (tokens ++ rest).IsChain NotEmpty
  | _, .single only => only.isChain hr
  | _, .cons first later => by
    rw [List.append_assoc, List.cons_append]
    exact first.isChain (isChain_cons (by decide) (later.isChain hr))

end

/-- Selections in their braces hold no empty pair of braces, nor do they complete one with what
stands before them. -/
theorem IsSelections.no_empty_braces {header body : List Token} (hs : Token.braceOpen ∉ header)
    (hb : IsSelections body) :
    ¬ [Token.braceOpen, .braceClose] <:+: header ++ .braceOpen :: (body ++ [.braceClose]) := by
  have hbody := isChain_body hb (hb.isChain (List.IsChain.singleton Token.braceClose))
  have hall : (header ++ Token.braceOpen :: (body ++ [.braceClose])).IsChain NotEmpty := by
    induction header with
    | nil => exact hbody
    | cons token header ih =>
      exact isChain_cons (List.ne_of_not_mem_cons hs).symm (ih (List.not_mem_of_not_mem_cons hs))
  intro hinfix
  cases hall.infix hinfix with
  | cons_cons hpair _ => exact hpair ⟨rfl, rfl⟩

/-! ## Names -/

namespace Field

theorem name_of_mem_labelTokens {f : Field} {name : String} (h : Token.name name ∈ f.labelTokens) :
    f.name = name ∨ f.alias? = some name := by
  unfold labelTokens at h
  split at h
  · rename_i label hl
    simp only [List.mem_cons, Token.name.injEq, reduceCtorEq, List.not_mem_nil, or_false,
      false_or] at h
    rcases h with rfl | rfl
    · exact .inr hl
    · exact .inl rfl
  · simp only [List.mem_singleton, Token.name.injEq] at h
    exact .inl h.symm

theorem child_of_mem_childPart {children : List Field} {name : String}
    (h : Token.name name ∈ childPart children) : ∃ child ∈ children, .name name ∈ child.tokens := by
  unfold childPart at h
  split at h
  · cases h
  · simp only [List.mem_cons, reduceCtorEq, List.mem_append, List.not_mem_nil, or_false,
      false_or] at h
    rcases mem_commaTokens h with h | ⟨item, hi, h⟩
    · cases h
    · obtain ⟨child, hc, rfl⟩ := List.mem_map.mp hi
      exact ⟨child, hc, h⟩

theorem field_of_child {f : Field} {name : String}
    (hc : ∀ child ∈ f.children, Token.name name ∈ child.bare.tokens →
      ∃ field ∈ preorderAll f.children, field.name = name ∨ field.alias? = some name)
    (h : Token.name name ∈ f.bare.tokens) :
    ∃ field ∈ f.preorder, field.name = name ∨ field.alias? = some name := by
  rw [tokens_bare] at h
  rw [preorder_eq]
  rcases List.mem_append.mp h with h | h
  · exact ⟨f, List.mem_cons_self .., name_of_mem_labelTokens h⟩
  · obtain ⟨bareChild, hbare, h⟩ := child_of_mem_childPart h
    obtain ⟨child, hchild, rfl⟩ := List.mem_map.mp hbare
    obtain ⟨field, hf, hn⟩ := hc child hchild h
    exact ⟨field, List.mem_cons_of_mem _ hf, hn⟩

mutual

/-- A name in the skeleton is the name or alias of a field. -/
theorem field_of_name {name : String} : ∀ f : Field, Token.name name ∈ f.bare.tokens →
    ∃ field ∈ f.preorder, field.name = name ∨ field.alias? = some name
  | ⟨_, _, _, children, _, _, _⟩ => field_of_child (field_of_names children)

theorem field_of_names {name : String} : ∀ (fields : List Field),
    ∀ field ∈ fields, Token.name name ∈ field.bare.tokens →
      ∃ other ∈ preorderAll fields, other.name = name ∨ other.alias? = some name
  | [] => by simp
  | first :: fields => by
    rw [List.forall_mem_cons, preorderAll]
    constructor
    · intro h
      obtain ⟨field, hf, hn⟩ := first.field_of_name h
      exact ⟨field, List.mem_append_left _ hf, hn⟩
    · intro field hf h
      obtain ⟨other, ho, hn⟩ := field_of_names fields field hf h
      exact ⟨other, List.mem_append_right _ ho, hn⟩

end

end Field

namespace Operation

theorem name_of_mem_header {o : Operation} {name : String} (h : Token.name name ∈ o.header) :
    o.name? = some name := by
  unfold header at h
  split at h <;> simp_all

/-- A name in the skeleton is that of the operation, or the name or alias of a field. -/
theorem name_of_mem_bare {o : Operation} {name : String} (h : Token.name name ∈ o.bare.tokens) :
    o.name? = some name ∨
      ∃ field ∈ Field.preorderAll o.fields, field.name = name ∨ field.alias? = some name := by
  rw [tokens_eq] at h
  rcases List.mem_append.mp h with h | h
  · exact .inl (name_of_mem_header h)
  · simp only [List.mem_cons, reduceCtorEq, List.mem_append, List.not_mem_nil, or_false,
      false_or] at h
    rcases mem_commaTokens h with h | ⟨item, hi, h⟩
    · cases h
    · obtain ⟨bareField, hb, rfl⟩ := List.mem_map.mp hi
      obtain ⟨field, hf, rfl⟩ := List.mem_map.mp hb
      exact .inr (Field.field_of_names o.fields field hf h)

theorem isValid_of_mem_bare {o : Operation} (hk : o.kind ≠ .graphPattern)
    (hv : o.validate = .ok ()) {name : String} (h : Token.name name ∈ o.bare.tokens) :
    Name.isValid name = true := by
  rcases name_of_mem_bare h with h | ⟨field, hf, h⟩
  · exact name_of_validate hv name h
  · obtain ⟨hname, halias⟩ := names_of_validate hk hv field hf
    rcases h with rfl | h
    · exact hname
    · exact halias name h

theorem braceOpen_not_mem_header (o : Operation) : Token.braceOpen ∉ o.header := by
  unfold header
  split <;> simp

theorem no_empty_braces_bare {o : Operation} (h : o.fields ≠ []) :
    ¬ [Token.braceOpen, .braceClose] <:+: o.bare.tokens := by
  have hne : o.bare.fields.map Field.tokens ≠ [] := by simpa [bare] using h
  rw [tokens_eq]
  exact (IsSelections.commaTokens hne (Field.isSelection_all o.fields)).no_empty_braces
    o.bare.braceOpen_not_mem_header

/-! ## Skeletons of valid documents -/

/-- The skeleton of a valid document with a keyword is a sentence of the grammar of selections,
under that keyword and with names of the name pattern. It is the same without any arguments and
filters, and no selection in it is empty. -/
theorem skeleton_isDocument {o : Operation} (hk : o.kind ≠ .graphPattern)
    (hv : o.validate = .ok ()) :
    (∃ keyword, o.kind.keyword? = some keyword ∧ IsDocument keyword (skeleton o.tokens)) ∧
    (∀ name, .name name ∈ skeleton o.tokens → name.toList ∈ Name.pattern.matches') ∧
    skeleton o.tokens = o.bare.tokens ∧
    (o.fields ≠ [] → ¬ [Token.braceOpen, .braceClose] <:+: skeleton o.tokens) := by
  obtain ⟨keyword, hkeyword, _⟩ := exists_keyword hk
  rw [skeleton_tokens]
  refine ⟨⟨keyword, hkeyword, isDocument_bare hkeyword⟩, ?_, rfl, no_empty_braces_bare⟩
  intro name h
  exact (Name.isValid_iff name).mp (isValid_of_mem_bare hk hv h)

/-- A query with calls, objects, lists and a filter in the parentheses of its fields. -/
def searched : Operation where
  kind := .query
  name := "Find"
  fields := [{
    alias? := some "u"
    name := "user"
    arguments := [
      .call "has" (.object [.call "eq" (.object [.pair "a:b" (.object [])]),
        .pair "c" (.ints [1])]),
      .pair "by" (.object [.pair "\x7b" (.strings [")"])])]
    filter := some (.single (.call "f(" (.argument (.pair "" (.object [])))))
    children := [.new "id", { name := "tags", arguments := [.int "first" 3] }] }]

theorem skeleton_searched :
    let o := searched
    o.validate = .ok () ∧ IsDocument "query" (skeleton o.tokens) ∧
      skeleton o.tokens = [.keyword "query", .space, .name "Find", .braceOpen, .name "u", .colon,
        .name "user", .braceOpen, .name "id", .comma, .name "tags", .braceClose, .braceClose] ∧
      ¬ [Token.braceOpen, .braceClose] <:+: skeleton o.tokens := by
  intro o
  have hv : o.validate = .ok () := by decide
  obtain ⟨⟨keyword, hk, hdocument⟩, _, hbare, hbraces⟩ :=
    skeleton_isDocument (o := o) (by decide) hv
  obtain rfl := Option.some.inj hk
  refine ⟨hv, hdocument, ?_, hbraces (by decide)⟩
  rw [hbare, tokens_eq]
  simp [o, searched, bare, Field.bare, Field.bareAll, Field.tokens_eq, Field.labelTokens, header,
    name?, OperationKind.keyword?, Field.argumentPart, Field.filterPart, Field.childPart, Field.new,
    commaTokens]

end Operation

end GraphDoc
