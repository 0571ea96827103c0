import GraphDoc.TokenStream
import GraphDoc.Operation

/-!
# Rendering

How a node of the tree is laid out as tokens. Each node joins the streams of its parts in a fixed
order, and its text is the text of its stream. Strings are quoted but not escaped: what stands
between the quotes is the caller's text as it is.
-/
namespace GraphDoc

/-! ## Values and arguments -/

def boolToken (value : Bool) : Token := .literal (if value then "true" else "false")

def intToken (value : Int64) : Token := .literal (toString value.toInt)

def stringToken (text : String) : Token := .literal ("\"" ++ text ++ "\"")

/-- A list of literals in square brackets. -/
def listStream (elements : List Token) : TokenStream :=
  .delimited .bracketOpen (elements.map .once) .comma .bracketClose

/-- The one function whose call holds a field name and nothing else. -/
def existenceFunction : String := "has"

mutual

def Value.stream : Value → TokenStream
  | .bool value => .once (boolToken value)
  | .int value => .once (intToken value)
  | .string text | .regex text => .once (stringToken text)
  | .bools values => listStream (values.map boolToken)
  | .ints values => listStream (values.map intToken)
  | .strings texts => listStream (texts.map stringToken)
  | .object arguments => .delimited .braceOpen (Argument.streams arguments) .comma .braceClose
  | .argument argument => argument.stream

/-- A pair is its name, a colon and its value. A call is its name and, in parentheses, what the
call makes of the tokens of its value. -/
def Argument.stream : Argument → TokenStream
  | .pair name value => .concat [.once (.name name), .once .colon, value.stream]
  | .call name value =>
    .concat [.once (.name name), .once .parenOpen, .call (name == existenceFunction) value.stream,
      .once .parenClose]

def Argument.streams : List Argument → List TokenStream
  | [] => []
  | argument :: arguments => argument.stream :: Argument.streams arguments

end

theorem Argument.streams_eq_map (arguments : List Argument) :
    Argument.streams arguments = arguments.map Argument.stream := by
  induction arguments with
  | nil => rfl
  | cons argument arguments ih => rw [Argument.streams, ih, List.map_cons]

def Value.render (value : Value) : String := value.stream.text

/-- A value shows itself as it is rendered. -/
def Value.shown (value : Value) : String := value.render

def Argument.render (argument : Argument) : String := argument.stream.text

/-- The argument as each of its tokens shows itself. -/
def Argument.shown (argument : Argument) : String := argument.stream.shown

/-! ## Clauses -/

def Clause.stream (clause : Clause) : TokenStream :=
  .interleaved (Argument.streams clause.predicates) (.finite (clause.operators.map .operator))

def Clause.render (clause : Clause) : String := clause.stream.text

/-! ## Fields -/

/-- The arguments between the parentheses of a field. -/
def Field.argumentStream (f : Field) : TokenStream :=
  if f.argumentOperators.isEmpty then
    .separated (Argument.streams f.arguments) .comma
  else
    .interleaved (Argument.streams f.arguments) (.finite (f.argumentOperators.map .operator))

/-- The parts of a field before its children. -/
def Field.headStreams (f : Field) : List TokenStream :=
  [match f.alias? with
    | some label => .tokens [.name label, .colon, .name f.name]
    | none => .once (.name f.name)] ++
  (if f.arguments.isEmpty then [] else
    [.concat [.once .parenOpen, f.argumentStream, .once .parenClose]]) ++
  match f.filter with
  | some filter =>
    [.concat [.tokens [.filterDirective, .parenOpen], filter.stream, .once .parenClose]]
  | none => []

mutual

/-- `[alias:]name[(arguments)][@filter(predicates)][{children}]`, each part only where it is not
empty. -/
def Field.stream : Field → TokenStream
  | f@⟨_, _, _, children, _, _, _⟩ =>
    .concat (f.headStreams ++
      if children.isEmpty then [] else
        [.delimited .braceOpen (Field.streams children) .comma .braceClose])

def Field.streams : List Field → List TokenStream
  | [] => []
  | field :: fields => field.stream :: Field.streams fields

end

theorem Field.streams_eq_map (fields : List Field) :
    Field.streams fields = fields.map Field.stream := by
  induction fields with
  | nil => rfl
  | cons field fields ih => rw [Field.streams, ih, List.map_cons]

def Field.render (f : Field) : String := f.stream.text

/-- The field as each of its tokens shows itself. -/
def Field.shown (f : Field) : String := f.stream.shown

/-! ## Operations -/

/-- Keyword and name, with a space between them only where there are both. -/
def Operation.header (o : Operation) : List Token :=
  match o.kind.keyword?, o.name? with
  | some keyword, some name => [.keyword keyword, .space, .name name]
  | some keyword, none => [.keyword keyword]
  | none, some name => [.name name]
  | none, none => []

def Operation.stream (o : Operation) : TokenStream :=
  .concat [.tokens o.header,
    .delimited .braceOpen (Field.streams o.fields) .comma .braceClose]

def Operation.render (o : Operation) : String := o.stream.text

/-- The operation as each of its tokens shows itself. -/
def Operation.shown (o : Operation) : String := o.stream.shown

end GraphDoc
