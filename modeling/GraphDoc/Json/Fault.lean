import GraphDoc.Json.Basic
import GraphDoc.Text.Quoted

/-!
# Faults

Why a text could not be read, and where. While reading, a place is what is left of the text there;
line and column are counted at the end, from the whole text. Some faults are only noticed when a
node is put together; they stay pending until the array or object around that node has been left,
and take its end as their place.
-/
namespace GraphDoc.Json

/-- What was found where something else was expected. -/
inductive Found where
  | null
  | bool (value : Bool)
  | number (value : JsonNumber)
  | string (text : String)
  | sequence
  | map
  | unitVariant
deriving DecidableEq, Repr

def Found.text : Found → String
  | null => "null"
  | bool value => "boolean `" ++ (if value then "true" else "false") ++ "`"
  | number (.integer value) => "integer `" ++ toString value ++ "`"
  | number (.float negative magnitude) =>
    "floating point `" ++ (JsonNumber.float negative magnitude).text ++ "`"
  | string text => "string " ++ Text.quoted text
  | sequence => "sequence"
  | map => "map"
  | unitVariant => "unit variant"

inductive Cause where
  | endInValue
  | endInString
  | endInList
  | endInObject
  | expectedColon
  | expectedListCommaOrEnd
  | expectedObjectCommaOrEnd
  | expectedIdent
  | expectedValue
  | keyNotString
  | trailingComma
  | trailingCharacters
  | recursionLimit
  | invalidNumber
  | numberOutOfRange
  | invalidEscape
  | controlCharacter
  | loneSurrogate
  | endOfEscape
  | invalidType (found : Found) (expected : String)
  | invalidValue (found : Found) (expected : String)
  | invalidLength (length : Nat) (expected : String)
  | unknownVariant (name : String) (known : List String)
  | missingField (name : String)
  | duplicateField (name : String)
  /-- A node of the right shape that its type does not allow. -/
  | rejected (reason : String)
deriving DecidableEq, Repr

def Cause.text : Cause → String
  | endInValue => "EOF while parsing a value"
  | endInString => "EOF while parsing a string"
  | endInList => "EOF while parsing a list"
  | endInObject => "EOF while parsing an object"
  | expectedColon => "expected `:`"
  | expectedListCommaOrEnd => "expected `,` or `]`"
  | expectedObjectCommaOrEnd => "expected `,` or `\x7d`"
  | expectedIdent => "expected ident"
  | expectedValue => "expected value"
  | keyNotString => "key must be a string"
  | trailingComma => "trailing comma"
  | trailingCharacters => "trailing characters"
  | recursionLimit => "recursion limit exceeded"
  | invalidNumber => "invalid number"
  | numberOutOfRange => "number out of range"
  | invalidEscape => "invalid escape"
  | controlCharacter =>
    "control character (\\u0000-\\u001F) found while parsing a string"
  | loneSurrogate => "lone leading surrogate in hex escape"
  | endOfEscape => "unexpected end of hex escape"
  | invalidType found expected => "invalid type: " ++ found.text ++ ", expected " ++ expected
  | invalidValue found expected => "invalid value: " ++ found.text ++ ", expected " ++ expected
  | invalidLength length expected =>
    "invalid length " ++ toString length ++ ", expected " ++ expected
  | unknownVariant name known =>
    "unknown variant `" ++ name ++ "`, expected one of " ++
      String.intercalate ", " (known.map fun other => "`" ++ other ++ "`")
  | missingField name => "missing field `" ++ name ++ "`"
  | duplicateField name => "duplicate field `" ++ name ++ "`"
  | rejected reason => reason

/-! ## Places -/

/-- A place in a text: what is left there, less the bytes of it that already count as read. -/
structure Place where
  rest : List Char
  ahead : Nat := 0
deriving DecidableEq, Repr

structure Position where
  line : Nat
  column : Nat
deriving DecidableEq, Repr

def byteCount (text : List Char) : Nat := text.foldr (fun c n => c.utf8Size + n) 0

/-- The position after the first `offset` bytes. Columns count the bytes since the last newline. -/
def positionAt : List Char → (offset : Nat) → Position → Position
  | [], _, position => position
  | c :: text, offset, position =>
    if offset < c.utf8Size then { position with column := position.column + offset }
    else if c = '\n' then positionAt text (offset - 1) ⟨position.line + 1, 0⟩
    else positionAt text (offset - c.utf8Size)
      { position with column := position.column + c.utf8Size }

def Place.position (place : Place) (text : List Char) : Position :=
  positionAt text (byteCount text - byteCount place.rest + place.ahead) ⟨1, 0⟩

/-! ## Failures of a reader -/

inductive Failure where
  | located (cause : Cause) (place : Place)
  | pending (cause : Cause) (rest : List Char)
deriving DecidableEq, Repr

namespace Failure

/-- The fault lies between what was read and what is left. -/
def here (cause : Cause) (rest : List Char) : Failure := located cause ⟨rest, 0⟩

/-- The fault lies in the next byte, or at the end of the text. -/
def next (cause : Cause) : List Char → Failure
  | [] => here cause []
  | c :: rest => located cause ⟨c :: rest, 1⟩

end Failure

/-- The reason why a whole text was refused; a fault that nothing encloses has no position. -/
structure ReadError where
  cause : Cause
  position : Option Position
deriving DecidableEq, Repr

def ReadError.message (error : ReadError) : String :=
  match error.position with
  | some position =>
    error.cause.text ++ " at line " ++ toString position.line ++ " column " ++
      toString position.column
  | none => error.cause.text

def Failure.toReadError (text : List Char) : Failure → ReadError
  | located cause place => ⟨cause, some (place.position text)⟩
  | pending cause _ => ⟨cause, none⟩

end GraphDoc.Json
