import GraphDoc.Proofs.NodeTokens
import Mathlib.Data.List.TakeWhile

/-!
# Brackets are nested

Every rendered node closes what it opens, innermost first. A call passes over braces and may give up
its value at a colon, so the tokens of a value are held to more: their colons stand in no brackets
but braces, and what is cut off at a colon has therefore opened braces only.
-/
namespace GraphDoc

inductive Bracket where
  | brace
  | paren
  | square
deriving DecidableEq, Repr

namespace Bracket

def opening : Bracket → Token
  | brace => .braceOpen
  | paren => .parenOpen
  | square => .bracketOpen

def closing : Bracket → Token
  | brace => .braceClose
  | paren => .parenClose
  | square => .bracketClose

end Bracket

/-- The bracket that a token opens. -/
def Token.opened? : Token → Option Bracket
  | braceOpen => some .brace
  | parenOpen => some .paren
  | bracketOpen => some .square
  | _ => none

/-- The bracket that a token closes. -/
def Token.closed? : Token → Option Bracket
  | braceClose => some .brace
  | parenClose => some .paren
  | bracketClose => some .square
  | _ => none

theorem Bracket.opening_ne_colon (bracket : Bracket) : bracket.opening ≠ .colon := by
  cases bracket <;> decide

theorem Bracket.closing_ne_colon (bracket : Bracket) : bracket.closing ≠ .colon := by
  cases bracket <;> decide

theorem Bracket.inCall_opening (bracket : Bracket) : bracket.opening.inCall = bracket.opening := by
  cases bracket <;> rfl

theorem Bracket.inCall_closing (bracket : Bracket) : bracket.closing.inCall = bracket.closing := by
  cases bracket <;> rfl

theorem Token.opened?_inCall (token : Token) : token.inCall.opened? = token.opened? := by
  cases token <;> rfl

theorem Token.closed?_inCall (token : Token) : token.inCall.closed? = token.closed? := by
  cases token <;> rfl

/-- The brackets that are open after the tokens, innermost first, where `outer` are open before
them. There are none to tell once a token closes another bracket than the innermost open one. -/
def openAfter (outer : List Bracket) : List Token → Option (List Bracket)
  | [] => some outer
  | token :: tokens =>
    match token.opened?, token.closed? with
    | some bracket, _ => openAfter (bracket :: outer) tokens
    | none, some bracket =>
      if outer.head? = some bracket then openAfter outer.tail tokens else none
    | none, none => openAfter outer tokens

/-- Each closing token matches the most recent open one, and nothing is left open. -/
def Balanced (tokens : List Token) : Prop := openAfter [] tokens = some []

instance (tokens : List Token) : Decidable (Balanced tokens) :=
  inferInstanceAs (Decidable (openAfter [] tokens = some []))

/-! ## The grammar of nested tokens -/

/-- Tokens in nested brackets, where `inside` says what may stand between two brackets. -/
inductive Nested (inside : Bracket → List Token → Prop) : List Token → Prop where
  | nil : Nested inside []
  | plain {token : Token} {tokens : List Token} (opens : token.opened? = none)
      (closes : token.closed? = none) (rest : Nested inside tokens) :
      Nested inside (token :: tokens)
  | enclosed (bracket : Bracket) {inner tokens : List Token} (allowed : inside bracket inner)
      (body : Nested inside inner) (rest : Nested inside tokens) :
      Nested inside (bracket.opening :: (inner ++ bracket.closing :: tokens))

/-- Anything may stand between two brackets. -/
def anything (_ : Bracket) (_ : List Token) : Prop := True

/-- Only braces hold colons. -/
def colonsInBraces (bracket : Bracket) (inner : List Token) : Prop :=
  bracket = .brace ∨ .colon ∉ inner

namespace Nested

variable {inside : Bracket → List Token → Prop}

theorem append {xs ys : List Token} (hx : Nested inside xs) (hy : Nested inside ys) :
    Nested inside (xs ++ ys) := by
  induction hx with
  | nil => exact hy
  | plain opens closes _ ih => exact plain opens closes ih
  | enclosed bracket allowed body _ _ ih =>
    rw [List.cons_append, List.append_assoc, List.cons_append]
    exact enclosed bracket allowed body ih

theorem single {token : Token} (opens : token.opened? = none) (closes : token.closed? = none) :
    Nested inside [token] := plain opens closes nil

theorem wrapped (bracket : Bracket) {inner : List Token} (allowed : inside bracket inner)
    (body : Nested inside inner) :
    Nested inside (bracket.opening :: (inner ++ [bracket.closing])) :=
  enclosed bracket allowed body nil

theorem commaTokens {items : List (List Token)} (h : ∀ item ∈ items, Nested inside item) :
    Nested inside (commaTokens items) := by
  induction items with
  | nil => exact nil
  | cons item items ih =>
    obtain ⟨hi, hs⟩ := List.forall_mem_cons.mp h
    cases items with
    | nil =>
      rw [commaTokens_singleton]
      exact hi
    | cons next items => exact hi.append (plain rfl rfl (ih hs))

theorem mono {p q : Bracket → List Token → Prop} (hpq : ∀ bracket inner, p bracket inner →
    q bracket inner) {tokens : List Token} (h : Nested p tokens) : Nested q tokens := by
  induction h with
  | nil => exact nil
  | plain opens closes _ ih => exact plain opens closes ih
  | enclosed bracket allowed _ _ ihb ih => exact enclosed bracket (hpq _ _ allowed) ihb ih

/-- Nested tokens leave the open brackets as they found them. -/
theorem openAfter_append {tokens : List Token} (h : Nested inside tokens) (outer : List Bracket)
    (rest : List Token) : openAfter outer (tokens ++ rest) = openAfter outer rest := by
  induction h generalizing outer rest with
  | nil => rfl
  | plain opens closes _ ih =>
    rw [List.cons_append, openAfter, opens, closes]
    exact ih outer rest
  | enclosed bracket _ _ _ ihb ih =>
    rw [List.cons_append, List.append_assoc, List.cons_append]
    cases bracket <;>
      simp only [openAfter, Bracket.opening, Bracket.closing, Token.opened?, Token.closed?, ihb,
        List.head?_cons, List.tail_cons, if_true, ih]

theorem balanced {tokens : List Token} (h : Nested inside tokens) : Balanced tokens := by
  have ht := h.openAfter_append [] []
  rwa [List.append_nil] at ht

/-! ## What a call makes of nested tokens -/

theorem filter_plain {token : Token} (opens : token.opened? = none) (closes : token.closed? = none)
    {tokens : List Token} (h : Nested anything (tokens.filter (!·.isBrace))) :
    Nested anything ((token :: tokens).filter (!·.isBrace)) := by
  cases hb : token.isBrace with
  | false =>
    rw [List.filter_cons_of_pos (by simp [hb])]
    exact plain opens closes h
  | true =>
    rw [List.filter_cons_of_neg (by simp [hb])]
    exact h

theorem filter_enclosed (bracket : Bracket) {inner tokens : List Token}
    (hi : Nested anything (inner.filter (!·.isBrace)))
    (ht : Nested anything (tokens.filter (!·.isBrace))) :
    Nested anything
      ((bracket.opening :: (inner ++ bracket.closing :: tokens)).filter (!·.isBrace)) := by
  cases bracket with
  | brace => simpa [Bracket.opening, Bracket.closing, Token.isBrace] using hi.append ht
  | paren =>
    simpa [Bracket.opening, Bracket.closing, Token.isBrace] using enclosed .paren trivial hi ht
  | square =>
    simpa [Bracket.opening, Bracket.closing, Token.isBrace] using enclosed .square trivial hi ht

theorem filter_brace {tokens : List Token} (h : Nested inside tokens) :
    Nested anything (tokens.filter (!·.isBrace)) := by
  induction h with
  | nil => exact nil
  | plain opens closes _ ih => exact filter_plain opens closes ih
  | enclosed bracket _ _ _ ihb ih => exact filter_enclosed bracket ihb ih

/-- A prefix that ends before the first colon has opened braces only. -/
theorem filter_takeWhile {tokens : List Token} (h : Nested colonsInBraces tokens) :
    Nested anything ((tokens.takeWhile (· != .colon)).filter (!·.isBrace)) := by
  induction h with
  | nil => exact nil
  | @plain token tokens opens closes _ ih =>
    by_cases hc : token = .colon
    · subst hc
      exact nil
    · rw [List.takeWhile_cons_of_pos (by simpa using hc)]
      exact filter_plain opens closes ih
  | @enclosed bracket inner tokens allowed body _ ihb ih =>
    rw [List.takeWhile_cons_of_pos (by simpa using bracket.opening_ne_colon),
      List.takeWhile_append]
    split
    · -- The inside holds no colon, so the cut lies after the closing token.
      rw [List.takeWhile_cons_of_pos (by simpa using bracket.closing_ne_colon)]
      exact filter_enclosed bracket body.filter_brace ih
    · rename_i cut
      -- The cut lies inside, which only happens in braces.
      rcases allowed with rfl | free
      · rw [List.filter_cons_of_neg (by decide)]
        exact ihb
      · exfalso
        apply cut
        rw [List.takeWhile_eq_self_iff.mpr]
        intro token ht
        simp only [bne_iff_ne, ne_eq]
        rintro rfl
        exact free ht

theorem map_inCall {tokens : List Token} (h : Nested anything tokens) :
    Nested anything (tokens.map Token.inCall) := by
  induction h with
  | nil => exact nil
  | @plain token _ opens closes _ ih =>
    exact plain (token.opened?_inCall.trans opens) (token.closed?_inCall.trans closes) ih
  | enclosed bracket _ _ _ ihb ih =>
    rw [List.map_cons, List.map_append, List.map_cons, bracket.inCall_opening,
      bracket.inCall_closing]
    exact enclosed bracket trivial ihb ih

/-- The body of a call is nested, wherever it gives up its value. -/
theorem callTokens (stopsAtColon : Bool) {tokens : List Token}
    (h : Nested colonsInBraces tokens) : Nested anything (callTokens stopsAtColon tokens) := by
  cases stopsAtColon with
  | false => exact h.filter_brace.map_inCall
  | true => exact h.filter_takeWhile.map_inCall

theorem of_not_mem_colon {tokens : List Token} (h : Nested inside tokens)
    (free : .colon ∉ tokens) : Nested colonsInBraces tokens := by
  induction h with
  | nil => exact nil
  | plain opens closes _ ih =>
    exact plain opens closes (ih fun hc => free (List.mem_cons_of_mem _ hc))
  | enclosed bracket _ _ _ ihb ih =>
    simp only [List.mem_cons, List.mem_append, not_or] at free
    obtain ⟨_, hi, _, hr⟩ := free
    exact enclosed bracket (.inr hi) (ihb hi) (ih hr)

end Nested

theorem colon_not_mem_callTokens (stopsAtColon : Bool) (tokens : List Token) :
    .colon ∉ callTokens stopsAtColon tokens := by
  intro hc
  obtain ⟨token, _, ht⟩ := List.mem_map.mp hc
  cases token <;> cases ht

/-! ## Nodes -/

theorem nested_listTokens {elements : List Token} (h : ∀ element ∈ elements, ∃ text,
    element = .literal text) : Nested colonsInBraces (listTokens elements) := by
  have hn : Nested colonsInBraces (commaTokens (elements.map ([·]))) := by
    apply Nested.commaTokens
    intro item hi
    obtain ⟨element, he, rfl⟩ := List.mem_map.mp hi
    obtain ⟨text, rfl⟩ := h element he
    exact Nested.single rfl rfl
  have free : .colon ∉ commaTokens (elements.map ([·])) := by
    intro hc
    rcases mem_commaTokens hc with hc | ⟨item, hi, hc⟩
    · cases hc
    · obtain ⟨element, he, rfl⟩ := List.mem_map.mp hi
      obtain ⟨text, rfl⟩ := h element he
      cases List.mem_singleton.mp hc
  exact Nested.wrapped .square (.inr free) hn

theorem exists_literal_of_mem_map {α : Type} {elements : List α} {literal : α → Token}
    (h : ∀ a, ∃ text, literal a = .literal text) :
    ∀ element ∈ elements.map literal, ∃ text, element = .literal text := by
  intro element he
  obtain ⟨a, _, rfl⟩ := List.mem_map.mp he
  exact h a

mutual

theorem Value.nested : ∀ value : Value, Nested colonsInBraces value.tokens
  | .bool _ | .int _ | .string _ | .regex _ => by
    simp only [Value.tokens_bool, Value.tokens_int, Value.tokens_string, Value.tokens_regex]
    exact Nested.single rfl rfl
  | .bools values => by
    rw [Value.tokens_bools]
    exact nested_listTokens (exists_literal_of_mem_map fun _ => ⟨_, rfl⟩)
  | .ints values => by
    rw [Value.tokens_ints]
    exact nested_listTokens (exists_literal_of_mem_map fun _ => ⟨_, rfl⟩)
  | .strings texts => by
    rw [Value.tokens_strings]
    exact nested_listTokens (exists_literal_of_mem_map fun _ => ⟨_, rfl⟩)
  | .object arguments => by
    rw [Value.tokens_object]
    exact Nested.wrapped .brace (.inl rfl) (Nested.commaTokens (Argument.nested_all arguments))
  | .argument argument => by
    rw [Value.tokens_argument]
    exact argument.nested

theorem Argument.nested : ∀ argument : Argument, Nested colonsInBraces argument.tokens
  | .pair name value => by
    rw [Argument.tokens_pair]
    exact .plain rfl rfl (.plain rfl rfl value.nested)
  | .call name value => by
    rw [Argument.tokens_call]
    have free := colon_not_mem_callTokens (name == existenceFunction) value.tokens
    have body := (value.nested.callTokens (name == existenceFunction)).of_not_mem_colon free
    exact .plain rfl rfl (.wrapped .paren (.inr free) body)

theorem Argument.nested_all : ∀ (arguments : List Argument),
    ∀ item ∈ arguments.map Argument.tokens, Nested colonsInBraces item
  | [] => by simp
  | argument :: arguments => by
    rw [List.map_cons, List.forall_mem_cons]
    exact ⟨argument.nested, Argument.nested_all arguments⟩

end

theorem Argument.nested_anything (argument : Argument) : Nested anything argument.tokens :=
  argument.nested.mono fun _ _ _ => trivial

theorem nested_gapTokens {items : List (List Token)} (operators : List String)
    (h : ∀ item ∈ items, Nested anything item) :
    Nested anything (gapTokens items (.finite (operators.map .operator))) := by
  induction items generalizing operators with
  | nil => exact .nil
  | cons item items ih =>
    obtain ⟨hi, hs⟩ := List.forall_mem_cons.mp h
    cases operators with
    | nil => exact hi.append (ih [] hs)
    | cons operator operators => exact .plain rfl rfl (hi.append (ih operators hs))

theorem nested_operatorTokens (operators : List String) (arguments : List Argument) :
    Nested anything (operatorTokens operators arguments) := by
  cases arguments with
  | nil => exact .nil
  | cons argument arguments =>
    refine argument.nested_anything.append (nested_gapTokens operators ?_)
    intro item hi
    obtain ⟨argument, _, rfl⟩ := List.mem_map.mp hi
    exact argument.nested_anything

theorem Clause.nested (clause : Clause) : Nested anything clause.tokens := by
  rw [Clause.tokens_eq]
  exact nested_operatorTokens clause.operators clause.predicates

namespace Field

theorem nested_labelTokens (f : Field) : Nested anything f.labelTokens := by
  unfold labelTokens
  split
  · exact .plain rfl rfl (.plain rfl rfl (.single rfl rfl))
  · exact .single rfl rfl

theorem nested_argumentTokens (f : Field) : Nested anything f.argumentTokens := by
  unfold argumentTokens
  split
  · apply Nested.commaTokens
    intro item hi
    obtain ⟨argument, _, rfl⟩ := List.mem_map.mp hi
    exact argument.nested_anything
  · exact nested_operatorTokens f.argumentOperators f.arguments

theorem nested_argumentPart (f : Field) : Nested anything f.argumentPart := by
  unfold argumentPart
  split
  · exact .nil
  · exact .wrapped .paren trivial f.nested_argumentTokens

theorem nested_filterPart (f : Field) : Nested anything f.filterPart := by
  unfold filterPart
  split
  · rename_i filter _
    exact .plain rfl rfl (.wrapped .paren trivial filter.nested)
  · exact .nil

theorem nested_childPart {children : List Field}
    (h : ∀ item ∈ children.map tokens, Nested anything item) :
    Nested anything (childPart children) := by
  unfold childPart
  split
  · exact .nil
  · exact .wrapped .brace trivial (.commaTokens h)

theorem nested_of_children (f : Field)
    (h : ∀ item ∈ f.children.map tokens, Nested anything item) : Nested anything f.tokens := by
  have head := f.nested_labelTokens.append f.nested_argumentPart
  rw [tokens_eq]
  exact (head.append f.nested_filterPart).append (nested_childPart h)

end Field

mutual

theorem Field.nested : ∀ f : Field, Nested anything f.tokens
  | ⟨_, _, _, children, _, _, _⟩ => Field.nested_of_children _ (Field.nested_all children)

theorem Field.nested_all : ∀ (fields : List Field),
    ∀ item ∈ fields.map Field.tokens, Nested anything item
  | [] => by simp
  | field :: fields => by
    rw [List.map_cons, List.forall_mem_cons]
    exact ⟨field.nested, Field.nested_all fields⟩

end

theorem Operation.nested_header (o : Operation) : Nested anything o.header := by
  unfold Operation.header
  split
  · exact .plain rfl rfl (.plain rfl rfl (.single rfl rfl))
  · exact .single rfl rfl
  · exact .single rfl rfl
  · exact .nil

theorem Operation.nested (o : Operation) : Nested anything o.tokens := by
  rw [Operation.tokens_eq]
  exact o.nested_header.append (.wrapped .brace trivial (.commaTokens (Field.nested_all o.fields)))

/-- Whatever is rendered, and wherever a call in it gives up its value, the brackets balance. -/
theorem tokens_balanced :
    (∀ value : Value, Balanced value.tokens) ∧
    (∀ argument : Argument, Balanced argument.tokens) ∧
    (∀ clause : Clause, Balanced clause.tokens) ∧
    (∀ f : Field, Balanced f.tokens) ∧
    (∀ o : Operation, Balanced o.tokens) :=
  ⟨fun value => value.nested.balanced, fun argument => argument.nested.balanced,
    fun clause => clause.nested.balanced, fun f => f.nested.balanced, fun o => o.nested.balanced⟩

end GraphDoc
