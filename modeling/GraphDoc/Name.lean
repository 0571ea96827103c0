/-!
# Names

The name grammar `[_A-Za-z][_0-9A-Za-z]*`. It is ASCII on purpose: a letter outside ASCII is never
part of a name.
-/
namespace GraphDoc.Name

def isStart (c : Char) : Bool := c == '_' || c.isAlpha

def isContinue (c : Char) : Bool := c == '_' || c.isAlphanum

/-- A name starts with a letter or underscore and goes on with letters, digits and underscores. -/
def isValid (name : String) : Bool :=
  match name.toList with
  | [] => false
  | c :: cs => isStart c && cs.all isContinue

end GraphDoc.Name
