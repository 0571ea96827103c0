import GraphDoc.Proofs.NodeTokens

/-!
# What a rendered node shows

Three differences between nodes leave no trace in their tokens: a regular expression is written like
a string, all empty lists are written alike, and a field does not tell how arguments are added to
it. The visible part of a node has these settled; it has the node's tokens.
-/
namespace GraphDoc

mutual

/-- The value with its regular expressions taken for strings and its empty lists for lists of
strings. -/
def Value.visible : Value → Value
  | .bool value => .bool value
  | .int value => .int value
  | .string text | .regex text => .string text
  | .bools values => if values.isEmpty then .strings [] else .bools values
  | .ints values => if values.isEmpty then .strings [] else .ints values
  | .strings texts => .strings texts
  | .object arguments => .object (Argument.visibleAll arguments)
  | .argument argument => .argument argument.visible

def Argument.visible : Argument → Argument
  | .pair name value => .pair name value.visible
  | .call name value => .call name value.visible

def Argument.visibleAll : List Argument → List Argument
  | [] => []
  | argument :: arguments => argument.visible :: Argument.visibleAll arguments

end

theorem Argument.visibleAll_eq_map (arguments : List Argument) :
    Argument.visibleAll arguments = arguments.map Argument.visible := by
  induction arguments with
  | nil => rfl
  | cons argument arguments ih => rw [Argument.visibleAll, ih, List.map_cons]

def Clause.visible (clause : Clause) : Clause where
  operators := clause.operators
  predicates := clause.predicates.map Argument.visible
  balanced := by rw [List.length_map, clause.balanced]

mutual

/-- The field with its parts made visible, and not told to be a function field. -/
def Field.visible : Field → Field
  | ⟨alias?, argumentOperators, arguments, children, filter, _, name⟩ =>
    { alias?, argumentOperators, name
      arguments := arguments.map Argument.visible
      children := Field.visibleAll children
      filter := filter.map Clause.visible }

def Field.visibleAll : List Field → List Field
  | [] => []
  | field :: fields => field.visible :: Field.visibleAll fields

end

theorem Field.visibleAll_eq_map (fields : List Field) :
    Field.visibleAll fields = fields.map Field.visible := by
  induction fields with
  | nil => rfl
  | cons field fields ih => rw [Field.visibleAll, ih, List.map_cons]

def Operation.visible (o : Operation) : Operation :=
  { o with fields := o.fields.map Field.visible }

/-! ## The visible part has the same tokens -/

mutual

theorem Value.tokens_visible : ∀ value : Value, value.visible.tokens = value.tokens
  | .bool _ | .int _ | .string _ | .strings _ => rfl
  | .regex pattern => by rw [Value.visible, Value.tokens_string, Value.tokens_regex]
  | .bools values => by
    cases values with
    | nil => exact (Value.tokens_strings []).trans (Value.tokens_bools []).symm
    | cons value values => rfl
  | .ints values => by
    cases values with
    | nil => exact (Value.tokens_strings []).trans (Value.tokens_ints []).symm
    | cons value values => rfl
  | .object arguments => by
    rw [Value.visible, Value.tokens_object, Value.tokens_object,
      Argument.map_tokens_visibleAll arguments]
  | .argument argument => by
    rw [Value.visible, Value.tokens_argument, Value.tokens_argument, argument.tokens_visible]

theorem Argument.tokens_visible : ∀ argument : Argument,
    argument.visible.tokens = argument.tokens
  | .pair name value => by
    rw [Argument.visible, Argument.tokens_pair, Argument.tokens_pair, value.tokens_visible]
  | .call name value => by
    rw [Argument.visible, Argument.tokens_call, Argument.tokens_call, value.tokens_visible]

theorem Argument.map_tokens_visibleAll : ∀ arguments : List Argument,
    (Argument.visibleAll arguments).map Argument.tokens = arguments.map Argument.tokens
  | [] => rfl
  | argument :: arguments => by
    rw [Argument.visibleAll, List.map_cons, List.map_cons, argument.tokens_visible,
      Argument.map_tokens_visibleAll arguments]

end

theorem Argument.map_tokens_visible (arguments : List Argument) :
    (arguments.map Argument.visible).map Argument.tokens = arguments.map Argument.tokens := by
  rw [← visibleAll_eq_map, map_tokens_visibleAll]

theorem operatorTokens_visible (operators : List String) (arguments : List Argument) :
    operatorTokens operators (arguments.map Argument.visible) =
      operatorTokens operators arguments := by
  rw [operatorTokens, Argument.map_tokens_visible, operatorTokens]

theorem Clause.tokens_visible (clause : Clause) : clause.visible.tokens = clause.tokens := by
  rw [Clause.tokens_eq, Clause.tokens_eq]
  exact operatorTokens_visible clause.operators clause.predicates

namespace Field

theorem labelTokens_visible (f : Field) : f.visible.labelTokens = f.labelTokens := by
  cases f
  rw [visible, labelTokens, labelTokens]

theorem argumentPart_visible (f : Field) : f.visible.argumentPart = f.argumentPart := by
  cases f
  simp only [visible, argumentPart, argumentTokens, Argument.map_tokens_visible,
    operatorTokens_visible, List.isEmpty_map]

theorem filterPart_visible (f : Field) : f.visible.filterPart = f.filterPart := by
  obtain ⟨_, _, _, _, filter, _, _⟩ := f
  cases filter with
  | none => rfl
  | some clause => simp only [visible, filterPart, Option.map_some, clause.tokens_visible]

theorem children_visible (f : Field) : f.visible.children = visibleAll f.children := by
  cases f
  rw [visible]

theorem tokens_visible_of_children (f : Field)
    (h : (visibleAll f.children).map tokens = f.children.map tokens) :
    f.visible.tokens = f.tokens := by
  have hc : childPart f.visible.children = childPart f.children := by
    rw [children_visible, childPart, h, childPart, visibleAll_eq_map, List.isEmpty_map]
  rw [tokens_eq, tokens_eq, labelTokens_visible, argumentPart_visible, filterPart_visible, hc]

mutual

theorem tokens_visible : ∀ f : Field, f.visible.tokens = f.tokens
  | ⟨_, _, _, children, _, _, _⟩ => tokens_visible_of_children _ (map_tokens_visibleAll children)

theorem map_tokens_visibleAll : ∀ fields : List Field,
    (visibleAll fields).map tokens = fields.map tokens
  | [] => rfl
  | field :: fields => by
    rw [visibleAll, List.map_cons, List.map_cons, field.tokens_visible,
      map_tokens_visibleAll fields]

end

end Field

theorem Operation.tokens_visible (o : Operation) : o.visible.tokens = o.tokens := by
  rw [Operation.tokens_eq, Operation.tokens_eq, Operation.visible, ← Field.visibleAll_eq_map,
    Field.map_tokens_visibleAll]
  rfl

end GraphDoc
