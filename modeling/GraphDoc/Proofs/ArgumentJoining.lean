import GraphDoc.Proofs.Offences
import GraphDoc.Proofs.UnambiguousArguments

/-!
# Arguments joined without loss

Operators are handed out one per gap between arguments: too few of them leave arguments glued
together, too many are dropped, and without arguments there is no gap at all. The check of a field
excludes exactly that. Of a tree that passes it, every operator is rendered, in document order.
-/
namespace GraphDoc

/-! ## Operators among tokens -/

def Token.operator? : Token → Option String
  | operator text => some text
  | _ => none

/-- The boolean operators among the tokens, in order. -/
def operatorsOf (tokens : List Token) : List String := tokens.filterMap Token.operator?

@[simp]
theorem operatorsOf_nil : operatorsOf [] = [] := rfl

@[simp]
theorem operatorsOf_cons_operator (text : String) (tokens : List Token) :
    operatorsOf (.operator text :: tokens) = text :: operatorsOf tokens := rfl

theorem operatorsOf_cons {token : Token} (h : token.operator? = none) (tokens : List Token) :
    operatorsOf (token :: tokens) = operatorsOf tokens := List.filterMap_cons_none h

@[simp]
theorem operatorsOf_append (xs ys : List Token) :
    operatorsOf (xs ++ ys) = operatorsOf xs ++ operatorsOf ys := List.filterMap_append

theorem operatorsOf_commaTokens (items : List (List Token)) :
    operatorsOf (commaTokens items) = items.flatMap operatorsOf := by
  induction items with
  | nil => rfl
  | cons item items ih =>
    cases items with
    | nil => simp [commaTokens_singleton]
    | cons next items =>
      rw [commaTokens_cons_cons, operatorsOf_append, operatorsOf_cons rfl, ih,
        List.flatMap_cons (x := item)]

/-! ### Arguments have none -/

theorem Token.operator?_inCall (token : Token) : token.inCall.operator? = token.operator? := by
  cases token <;> rfl

theorem operatorsOf_callTokens (stopsAtColon : Bool) {tokens : List Token}
    (h : operatorsOf tokens = []) : operatorsOf (callTokens stopsAtColon tokens) = [] := by
  rw [operatorsOf, List.filterMap_eq_nil_iff] at h ⊢
  intro token ht
  obtain ⟨before, hb, rfl⟩ := List.mem_map.mp ht
  rw [Token.operator?_inCall]
  have hb := List.mem_of_mem_filter hb
  cases stopsAtColon with
  | false => exact h before hb
  | true => exact h before ((List.takeWhile_sublist _).mem hb)

theorem operatorsOf_listTokens {elements : List Token}
    (h : ∀ element ∈ elements, ∃ text, element = .literal text) :
    operatorsOf (listTokens elements) = [] := by
  rw [listTokens, operatorsOf_cons rfl, operatorsOf_append, operatorsOf_commaTokens,
    operatorsOf_cons rfl, operatorsOf_nil, List.append_nil, List.flatMap_eq_nil_iff]
  intro item hi
  obtain ⟨element, he, rfl⟩ := List.mem_map.mp hi
  obtain ⟨text, rfl⟩ := h element he
  rfl

mutual

theorem Value.operatorsOf_tokens : ∀ value : Value, operatorsOf value.tokens = []
  | .bool _ | .int _ | .string _ | .regex _ => by
    simp only [Value.tokens_bool, Value.tokens_int, Value.tokens_string, Value.tokens_regex]
    rfl
  | .bools values => by
    rw [Value.tokens_bools]
    exact operatorsOf_listTokens (exists_literal_of_mem_map fun _ => ⟨_, rfl⟩)
  | .ints values => by
    rw [Value.tokens_ints]
    exact operatorsOf_listTokens (exists_literal_of_mem_map fun _ => ⟨_, rfl⟩)
  | .strings texts => by
    rw [Value.tokens_strings]
    exact operatorsOf_listTokens (exists_literal_of_mem_map fun _ => ⟨_, rfl⟩)
  | .object arguments => by
    rw [Value.tokens_object, operatorsOf_cons rfl, operatorsOf_append, operatorsOf_commaTokens,
      List.flatMap_eq_nil_iff.mpr (Argument.operatorsOf_all arguments)]
    rfl
  | .argument argument => by
    rw [Value.tokens_argument]
    exact argument.operatorsOf_tokens

theorem Argument.operatorsOf_tokens : ∀ argument : Argument, operatorsOf argument.tokens = []
  | .pair name value => by
    rw [Argument.tokens_pair, operatorsOf_cons rfl, operatorsOf_cons rfl]
    exact value.operatorsOf_tokens
  | .call name value => by
    rw [Argument.tokens_call, operatorsOf_cons rfl, operatorsOf_cons rfl, operatorsOf_append,
      operatorsOf_callTokens _ value.operatorsOf_tokens]
    rfl

theorem Argument.operatorsOf_all : ∀ arguments : List Argument,
    ∀ item ∈ arguments.map Argument.tokens, operatorsOf item = []
  | [] => by simp
  | argument :: arguments => by
    rw [List.map_cons, List.forall_mem_cons]
    exact ⟨argument.operatorsOf_tokens, Argument.operatorsOf_all arguments⟩

end

/-! ### One per gap -/

/-- Each gap takes one operator, and those for which there is no gap are lost. -/
theorem operatorsOf_gapTokens (operators : List String) {items : List (List Token)}
    (h : ∀ item ∈ items, operatorsOf item = []) :
    operatorsOf (gapTokens items (.finite (operators.map .operator))) =
      operators.take items.length := by
  induction items generalizing operators with
  | nil => rfl
  | cons item items ih =>
    obtain ⟨hi, hs⟩ := List.forall_mem_cons.mp h
    cases operators with
    | nil =>
      have hglued := ih [] hs
      rw [List.take_nil] at hglued
      rw [List.map_nil, gapTokens_finite_nil, List.flatten_cons, ← gapTokens_finite_nil,
        operatorsOf_append, hi, List.take_nil]
      exact hglued
    | cons operator operators =>
      rw [List.map_cons, gapTokens_finite_cons, operatorsOf_cons_operator, operatorsOf_append, hi,
        List.nil_append, ih operators hs, List.length_cons, List.take_succ_cons]

theorem operatorsOf_operatorTokens (operators : List String) (arguments : List Argument) :
    operatorsOf (operatorTokens operators arguments) = operators.take (arguments.length - 1) := by
  cases arguments with
  | nil => rfl
  | cons argument arguments =>
    have hgaps := operatorsOf_gapTokens operators (Argument.operatorsOf_all arguments)
    rw [List.length_map] at hgaps
    rw [operatorTokens, List.map_cons, interleavedTokens, operatorsOf_append,
      argument.operatorsOf_tokens, hgaps]
    rfl

theorem Clause.operatorsOf_tokens (clause : Clause) :
    operatorsOf clause.tokens = clause.operators := by
  rw [tokens_eq, operatorsOf_operatorTokens, clause.balanced, Nat.add_sub_cancel, List.take_length]

namespace Field

/-! ## Operators of a field -/

/-- The operators that a field stores itself: those of its arguments, then those of its filter. -/
def operators (f : Field) : List String :=
  f.argumentOperators ++ f.filter.elim [] Clause.operators

theorem operatorsOf_labelTokens (f : Field) : operatorsOf f.labelTokens = [] := by
  unfold labelTokens
  split <;> rfl

theorem operatorsOf_argumentTokens (f : Field) :
    operatorsOf f.argumentTokens = f.argumentOperators.take (f.arguments.length - 1) := by
  unfold argumentTokens
  split
  · rename_i h
    rw [operatorsOf_commaTokens, List.isEmpty_iff.mp h, List.take_nil, List.flatMap_eq_nil_iff]
    exact Argument.operatorsOf_all f.arguments
  · exact operatorsOf_operatorTokens f.argumentOperators f.arguments

theorem operatorsOf_argumentPart (f : Field) :
    operatorsOf f.argumentPart = f.argumentOperators.take (f.arguments.length - 1) := by
  unfold argumentPart
  split
  · rename_i h
    rw [List.isEmpty_iff.mp h]
    rfl
  · rw [operatorsOf_cons rfl, operatorsOf_append, operatorsOf_argumentTokens]
    exact List.append_nil _

theorem operatorsOf_filterPart (f : Field) :
    operatorsOf f.filterPart = f.filter.elim [] Clause.operators := by
  unfold filterPart
  cases f.filter with
  | none => rfl
  | some clause =>
    rw [operatorsOf_cons rfl, operatorsOf_cons rfl, operatorsOf_append, clause.operatorsOf_tokens]
    exact List.append_nil _

theorem operatorsOf_childPart (children : List Field) :
    operatorsOf (childPart children) = children.flatMap fun child => operatorsOf child.tokens := by
  unfold childPart
  split
  · rename_i h
    rw [List.isEmpty_iff.mp h]
    rfl
  · rw [operatorsOf_cons rfl, operatorsOf_append, operatorsOf_commaTokens, List.flatMap_map]
    exact List.append_nil _

/-- A field renders the operators for which it has gaps, then those of its filter and of its
children. -/
theorem operatorsOf_tokens_eq (f : Field) :
    operatorsOf f.tokens = f.argumentOperators.take (f.arguments.length - 1) ++
      f.filter.elim [] Clause.operators ++
        f.children.flatMap fun child => operatorsOf child.tokens := by
  rw [tokens_eq, operatorsOf_append, operatorsOf_append, operatorsOf_append,
    operatorsOf_labelTokens, operatorsOf_argumentPart, operatorsOf_filterPart,
    operatorsOf_childPart, List.nil_append]

theorem take_operators {f : Field} (h : Fits f.argumentOperators f.arguments) :
    f.argumentOperators.take (f.arguments.length - 1) = f.argumentOperators := by
  apply List.take_of_length_le
  rcases h with h | h
  · rw [h]
    exact Nat.zero_le _
  · omega

mutual

/-- Where operators fit throughout, all of them are rendered, in document order. -/
theorem operatorsOf_tokens : ∀ f : Field,
    (∀ g ∈ f.preorder, Fits g.argumentOperators g.arguments) →
      operatorsOf f.tokens = f.preorder.flatMap operators
  | f@⟨_, _, _, children, _, _, _⟩, h => by
    rw [preorder, List.forall_mem_cons] at h
    have hchildren := flatMap_operatorsOf_tokens children h.2
    rw [operatorsOf_tokens_eq, take_operators h.1, preorder, List.flatMap_cons, ← hchildren]
    rfl

theorem flatMap_operatorsOf_tokens : ∀ fields : List Field,
    (∀ g ∈ preorderAll fields, Fits g.argumentOperators g.arguments) →
      fields.flatMap (fun field => operatorsOf field.tokens) = (preorderAll fields).flatMap operators
  | [], _ => rfl
  | field :: fields, h => by
    rw [preorderAll, List.forall_mem_append] at h
    rw [List.flatMap_cons, operatorsOf_tokens field h.1, flatMap_operatorsOf_tokens fields h.2,
      preorderAll, List.flatMap_append]

end

end Field

/-! ## Separators in every gap -/

/-- The tokens of the items with exactly one of the separators in each gap between two of them, and
no separator left. -/
inductive Separated : List Token → List (List Token) → List Token → Prop where
  | none : Separated [] [] []
  | single (item : List Token) : Separated [] [item] item
  | more (item : List Token) (separator : Token) {separators : List Token} {next : List Token}
      {later : List (List Token)} {tokens : List Token}
      (rest : Separated separators (next :: later) tokens) :
      Separated (separator :: separators) (item :: next :: later) (item ++ separator :: tokens)

namespace Separated

theorem length_eq {separators tokens : List Token} {items : List (List Token)}
    (h : Separated separators items tokens) : separators.length = items.length - 1 := by
  induction h with
  | none => rfl
  | single item => rfl
  | more item separator rest ih =>
    simp only [List.length_cons, Nat.add_sub_cancel] at ih ⊢
    rw [ih]

theorem commas (items : List (List Token)) :
    Separated (List.replicate (items.length - 1) .comma) items (commaTokens items) := by
  induction items with
  | nil => exact none
  | cons item items ih =>
    cases items with
    | nil =>
      rw [commaTokens_singleton]
      exact single item
    | cons next items => exact more item .comma ih

theorem interleaved {separators : List Token} {items : List (List Token)}
    (h : separators.length + 1 = items.length) :
    Separated separators items (interleavedTokens items (.finite separators)) := by
  induction items generalizing separators with
  | nil => cases h
  | cons item items ih =>
    cases separators with
    | nil =>
      obtain rfl := List.eq_nil_of_length_eq_zero (Nat.succ.inj h).symm
      rw [interleavedTokens, gapTokens, List.append_nil]
      exact single item
    | cons separator separators =>
      cases items with
      | nil => cases h
      | cons next items => exact more item separator (ih (Nat.succ.inj h))

end Separated

namespace Field

/-- What has to separate the arguments `i` and `i + 1`, if there is anything that can. -/
def separator? (f : Field) (i : Nat) : Option Token :=
  if f.argumentOperators = [] then some .comma else f.argumentOperators[i]?.map .operator

/-- The rendered arguments have a separator in every gap, commas or the operators one by one, and
all stored operators are rendered. -/
structure JoinsArguments (f : Field) : Prop where
  separated : ∃ separators,
    Separated separators (f.arguments.map Argument.tokens) f.argumentStream.toList ∧
      ∀ i < separators.length, separators[i]? = f.separator? i
  rendered : operatorsOf ({ f with filter := none, children := [] } : Field).tokens =
    f.argumentOperators

theorem rendered_iff (f : Field) :
    operatorsOf ({ f with filter := none, children := [] } : Field).tokens = f.argumentOperators ↔
      f.argumentOperators.length ≤ f.arguments.length - 1 := by
  rw [operatorsOf_tokens_eq]
  simp only [Option.elim_none, List.flatMap_nil, List.append_nil]
  exact List.take_eq_self_iff _

theorem joinsArguments_of_fits {f : Field} (h : Fits f.argumentOperators f.arguments) :
    f.JoinsArguments := by
  have hrendered := take_operators h
  rw [List.take_eq_self_iff, ← rendered_iff] at hrendered
  refine ⟨?_, hrendered⟩
  rw [toList_argumentStream, argumentTokens]
  by_cases ho : f.argumentOperators = []
  · refine ⟨List.replicate (f.arguments.length - 1) .comma, ?_, ?_⟩
    · have hcommas := Separated.commas (f.arguments.map Argument.tokens)
      rw [List.length_map] at hcommas
      rwa [if_pos (List.isEmpty_iff.mpr ho)]
    · intro i hi
      rw [separator?, if_pos ho]
      exact List.getElem?_replicate_of_lt (by simpa using hi)
  · have hlength := h.resolve_left ho
    refine ⟨f.argumentOperators.map .operator, ?_, ?_⟩
    · rw [if_neg (by simpa using ho)]
      exact Separated.interleaved (by simpa using hlength)
    · intro i _
      rw [separator?, if_neg ho, List.getElem?_map]

/-- An operator is missing in the last gap where there are too few of them. -/
theorem fits_of_joinsArguments {f : Field} (h : f.JoinsArguments) :
    Fits f.argumentOperators f.arguments := by
  obtain ⟨⟨separators, hseparated, hplaced⟩, hrendered⟩ := h
  rw [rendered_iff] at hrendered
  have hlength := hseparated.length_eq
  rw [List.length_map] at hlength
  refine or_iff_not_imp_left.mpr fun ho => ?_
  have hpos := List.length_pos_iff.mpr ho
  have henough : separators.length ≤ f.argumentOperators.length := by
    by_contra hless
    have hmissing := hplaced f.argumentOperators.length (by omega)
    rw [separator?, if_neg ho, List.getElem?_eq_none (Nat.le_refl _), Option.map_none,
      List.getElem?_eq_none_iff] at hmissing
    omega
  omega

theorem joinsArguments_iff (f : Field) :
    f.JoinsArguments ↔ Fits f.argumentOperators f.arguments :=
  ⟨fits_of_joinsArguments, joinsArguments_of_fits⟩

/-! ## The check of arguments -/

theorem check_false_iff (f : Field) :
    f.check false = .ok () ↔ ∀ g ∈ f.preorder, Fits g.argumentOperators g.arguments := by
  rw [check_eq, firstOffence_eq_ok_iff, List.flatMap_eq_nil_iff]
  refine forall₂_congr fun g _ => ?_
  rw [offences, if_neg Bool.false_ne_true, List.nil_append]
  exact g.argumentOffences_eq_nil_iff

/-- Names apart, a field passes its check exactly when it and all its descendants join their
arguments without loss; and then its operators are rendered, those of each field before those of its
filter and those of its children after them. -/
theorem check_iff_joinsArguments (f : Field) :
    (f.check false = .ok () ↔ ∀ g ∈ f.preorder, g.JoinsArguments) ∧
    (f.check false = .ok () → operatorsOf f.tokens = f.preorder.flatMap operators) := by
  constructor
  · rw [check_false_iff]
    exact forall₂_congr fun g _ => g.joinsArguments_iff.symm
  · intro h
    exact f.operatorsOf_tokens (f.check_false_iff.mp h)

/-- Operators between arguments, in a filter and in a child; a name between them spells one. -/
def joined : Field where
  name := "root"
  argumentOperators := ["AND"]
  arguments := [.call "has" (.string "x"), .int " AND " 1]
  filter := some ⟨["OR", "NOT"], [.bool "a" true, .bool "b" true, .bool "c" true], rfl⟩
  children := [.new "plain", {
    name := "child"
    argumentOperators := ["XOR"]
    arguments := [.int "i" 1, .int "j" 2] }]

theorem operators_joined :
    joined.check false = .ok () ∧ operatorsOf joined.tokens = ["AND", "OR", "NOT", "XOR"] := by
  have hcheck : joined.check false = .ok () := by decide
  exact ⟨hcheck, (check_iff_joinsArguments joined).2 hcheck⟩

end Field

end GraphDoc
