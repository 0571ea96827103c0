/-!
# Tokens

The fragments that a rendered document is made of. A token carries its kind, so that a pass over
tokens tells punctuation from a name or literal that happens to hold the same characters.
-/
namespace GraphDoc

inductive Token where
  | colon
  | comma
  | braceClose
  | braceOpen
  | parenClose
  | parenOpen
  | bracketClose
  | bracketOpen
  /-- The single space between an operation's keyword and its name. -/
  | space
  | filterDirective
  /-- A boolean operator between two predicates. -/
  | operator (text : String)
  | keyword (text : String)
  /-- A written value: `true`, `false`, a decimal integer or a quoted string. -/
  | literal (text : String)
  | name (text : String)
deriving DecidableEq, Repr

namespace Token

/-- The text of the token alone; an operator is bare here. -/
def text : Token → String
  | colon => ":"
  | comma => ","
  | braceClose => "\x7d"
  | braceOpen => "\x7b"
  | parenClose => ")"
  | parenOpen => "("
  | bracketClose => "]"
  | bracketOpen => "["
  | space => " "
  | filterDirective => "@filter"
  | operator text | keyword text | literal text | name text => text

/-- The braces that delimit an object value or a selection. -/
def isBrace : Token → Bool
  | braceOpen | braceClose => true
  | _ => false

/-- Adds the token to a document, an operator with a space on either side. -/
def appendTo (out : String) : Token → String
  | operator text => (out.push ' ' ++ text).push ' '
  | token => out ++ token.text

/-- The token as it stands in a document by itself. -/
def shown : Token → String
  | operator text => " " ++ text ++ " "
  | token => token.text

theorem appendTo_eq (out : String) (token : Token) : token.appendTo out = out ++ token.shown := by
  cases token <;> simp [appendTo, shown, String.push_eq_append, String.append_assoc]

end Token

end GraphDoc
