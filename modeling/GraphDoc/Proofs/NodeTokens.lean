import GraphDoc.Proofs.StreamTokens
import GraphDoc.Rendering

/-!
# The tokens of a node

The whole list of tokens that a node's stream hands out, by recursion on the node: each equation
states the tokens of one kind of node from the tokens of its parts.
-/
namespace GraphDoc

def Value.tokens (value : Value) : List Token := value.stream.toList

def Argument.tokens (argument : Argument) : List Token := argument.stream.toList

def Clause.tokens (clause : Clause) : List Token := clause.stream.toList

def Field.tokens (f : Field) : List Token := f.stream.toList

def Operation.tokens (o : Operation) : List Token := o.stream.toList

/-! ## Values and arguments -/

/-- The tokens of a list of literals. -/
def listTokens (elements : List Token) : List Token :=
  .bracketOpen :: (commaTokens (elements.map ([·])) ++ [.bracketClose])

theorem toList_listStream (elements : List Token) :
    (listStream elements).toList = listTokens elements := by
  rw [listStream, TokenStream.toList_delimited, listTokens, List.map_map]
  congr 3
  exact List.map_congr_left fun element _ => TokenStream.toList_once element

theorem Argument.map_toList_streams (arguments : List Argument) :
    (Argument.streams arguments).map TokenStream.toList = arguments.map Argument.tokens := by
  rw [Argument.streams_eq_map, List.map_map]
  rfl

namespace Value

@[simp]
theorem tokens_bool (value : Bool) : (bool value).tokens = [boolToken value] := by
  rw [tokens, stream, TokenStream.toList_once]

@[simp]
theorem tokens_int (value : Int64) : (int value).tokens = [intToken value] := by
  rw [tokens, stream, TokenStream.toList_once]

@[simp]
theorem tokens_string (text : String) : (string text).tokens = [stringToken text] := by
  rw [tokens, stream, TokenStream.toList_once]

@[simp]
theorem tokens_regex (pattern : String) : (regex pattern).tokens = [stringToken pattern] := by
  rw [tokens, stream, TokenStream.toList_once]

@[simp]
theorem tokens_bools (values : List Bool) :
    (bools values).tokens = listTokens (values.map boolToken) := by
  rw [tokens, stream, toList_listStream]

@[simp]
theorem tokens_ints (values : List Int64) :
    (ints values).tokens = listTokens (values.map intToken) := by
  rw [tokens, stream, toList_listStream]

@[simp]
theorem tokens_strings (texts : List String) :
    (strings texts).tokens = listTokens (texts.map stringToken) := by
  rw [tokens, stream, toList_listStream]

@[simp]
theorem tokens_object (arguments : List Argument) :
    (object arguments).tokens =
      .braceOpen :: (commaTokens (arguments.map Argument.tokens) ++ [.braceClose]) := by
  rw [tokens, stream, TokenStream.toList_delimited, Argument.map_toList_streams]

@[simp]
theorem tokens_argument (arg : Argument) : (argument arg).tokens = arg.tokens := by
  rw [tokens, stream, Argument.tokens]

end Value

namespace Argument

@[simp]
theorem tokens_pair (name : String) (value : Value) :
    (pair name value).tokens = .name name :: .colon :: value.tokens := by
  simp [tokens, stream, Value.tokens]

@[simp]
theorem tokens_call (name : String) (value : Value) :
    (call name value).tokens = .name name :: .parenOpen ::
      (callTokens (name == existenceFunction) value.tokens ++ [.parenClose]) := by
  simp [tokens, stream, Value.tokens]

end Argument

/-! ## Clauses, fields and operations -/

/-- Arguments with the operators between them, as long as there are any. -/
def operatorTokens (operators : List String) (arguments : List Argument) : List Token :=
  interleavedTokens (arguments.map Argument.tokens) (.finite (operators.map .operator))

theorem Clause.tokens_eq (clause : Clause) :
    clause.tokens = operatorTokens clause.operators clause.predicates := by
  rw [tokens, stream, TokenStream.toList_interleaved, Argument.map_toList_streams, operatorTokens]

namespace Field

/-- The alias, if there is one, and the name. -/
def labelTokens (f : Field) : List Token :=
  match f.alias? with
  | some label => [.name label, .colon, .name f.name]
  | none => [.name f.name]

/-- The arguments without their parentheses. -/
def argumentTokens (f : Field) : List Token :=
  if f.argumentOperators.isEmpty then commaTokens (f.arguments.map Argument.tokens)
  else operatorTokens f.argumentOperators f.arguments

/-- The arguments in their parentheses, where there are any. -/
def argumentPart (f : Field) : List Token :=
  if f.arguments.isEmpty then [] else .parenOpen :: (f.argumentTokens ++ [.parenClose])

def filterPart (f : Field) : List Token :=
  match f.filter with
  | some filter => .filterDirective :: .parenOpen :: (filter.tokens ++ [.parenClose])
  | none => []

/-- The children in their braces, where there are any. -/
def childPart (children : List Field) : List Token :=
  if children.isEmpty then []
  else .braceOpen :: (commaTokens (children.map tokens) ++ [.braceClose])

theorem toList_argumentStream (f : Field) : f.argumentStream.toList = f.argumentTokens := by
  unfold argumentStream argumentTokens
  split
  · rw [TokenStream.toList_separated, Argument.map_toList_streams]
  · rw [TokenStream.toList_interleaved, Argument.map_toList_streams, operatorTokens]

theorem flatMap_toList_headStreams (f : Field) :
    f.headStreams.flatMap TokenStream.toList = f.labelTokens ++ f.argumentPart ++ f.filterPart := by
  unfold headStreams labelTokens argumentPart filterPart
  rw [List.flatMap_append, List.flatMap_append]
  congr 1
  · congr 1
    · cases f.alias? <;> simp
    · split <;> simp [toList_argumentStream]
  · cases f.filter <;> simp [Clause.tokens]

theorem map_toList_streams (fields : List Field) :
    (Field.streams fields).map TokenStream.toList = fields.map tokens := by
  rw [streams_eq_map, List.map_map]
  rfl

theorem tokens_eq (f : Field) :
    f.tokens = f.labelTokens ++ f.argumentPart ++ f.filterPart ++ childPart f.children := by
  have hs : f.stream = .concat (f.headStreams ++ if f.children.isEmpty then [] else
      [.delimited .braceOpen (Field.streams f.children) .comma .braceClose]) := by
    cases f
    rw [stream]
  rw [tokens, hs, TokenStream.toList_concat, List.flatMap_append, flatMap_toList_headStreams,
    childPart]
  congr 1
  split
  · rfl
  · simp [map_toList_streams]

end Field

theorem Operation.tokens_eq (o : Operation) :
    o.tokens =
      o.header ++ .braceOpen :: (commaTokens (o.fields.map Field.tokens) ++ [.braceClose]) := by
  rw [tokens, stream, TokenStream.toList_concat]
  simp [Field.map_toList_streams]

end GraphDoc
