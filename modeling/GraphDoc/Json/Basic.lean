import GraphDoc.Decimal.Shortest

/-!
# JSON values and their text

The compact text of a value has no blanks. In strings the quote, the backslash and the characters
below U+0020 are escaped, and all else stands as it is. The members of an object keep their order.
-/
namespace GraphDoc

inductive JsonNumber where
  | integer (value : Int)
  | float (negative : Bool) (magnitude : Binary64)
deriving DecidableEq, Repr

inductive Json where
  | null
  | bool (value : Bool)
  | number (value : JsonNumber)
  | string (text : String)
  | array (elements : List Json)
  | object (members : List (String × Json))

/-- Floats have a point while their leading digit stands between 10⁻⁵ and 10¹⁵. -/
def JsonNumber.layout : Decimal.Layout := ⟨-5, 15⟩

def JsonNumber.text : JsonNumber → String
  | integer value => toString value
  | float negative magnitude =>
    (if negative then "-" else "") ++ layout.write (Decimal.shortest magnitude)

namespace Json

/-- The lower-case hexadecimal digit of a number below 16. -/
def hexDigit (n : Nat) : Char := Nat.digitChar n

/-- A character as it is written inside a string. -/
def escapeChar (c : Char) : List Char :=
  if c = '"' then ['\\', '"']
  else if c = '\\' then ['\\', '\\']
  else if c = '\n' then ['\\', 'n']
  else if c = '\r' then ['\\', 'r']
  else if c = '\t' then ['\\', 't']
  else if c = '\x08' then ['\\', 'b']
  else if c = '\x0c' then ['\\', 'f']
  else if c < ' ' then
    ['\\', 'u', '0', '0', hexDigit (c.toNat / 16), hexDigit (c.toNat % 16)]
  else [c]

/-- A string between its quotes. -/
def writeString (text : String) : List Char := '"' :: (text.toList.flatMap escapeChar ++ ['"'])

mutual

def write : Json → List Char
  | null => "null".toList
  | bool value => if value then "true".toList else "false".toList
  | number value => value.text.toList
  | string text => writeString text
  | array elements => '[' :: (writeElements elements ++ [']'])
  | object members => '{' :: (writeMembers members ++ ['}'])

def writeElements : List Json → List Char
  | [] => []
  | element :: elements => write element ++ writeMoreElements elements

/-- The elements after the first, each with the comma before it. -/
def writeMoreElements : List Json → List Char
  | [] => []
  | element :: elements => ',' :: (write element ++ writeMoreElements elements)

def writeMember : String × Json → List Char
  | (key, value) => writeString key ++ ':' :: write value

def writeMembers : List (String × Json) → List Char
  | [] => []
  | member :: members => writeMember member ++ writeMoreMembers members

/-- The members after the first, each with the comma before it. -/
def writeMoreMembers : List (String × Json) → List Char
  | [] => []
  | member :: members => ',' :: (writeMember member ++ writeMoreMembers members)

end

def text (value : Json) : String := String.ofList value.write

/-- Puts a member into a list ordered by key, in place of one with the same key. -/
def insertMember (key : String) (value : Json) : List (String × Json) → List (String × Json)
  | [] => [(key, value)]
  | (k, v) :: members =>
    if key < k then (key, value) :: (k, v) :: members
    else if key = k then (key, value) :: members
    else (k, v) :: insertMember key value members

end Json

end GraphDoc
