import GraphDoc.Json.Basic
import GraphDoc.Rendering
import GraphDoc.Validation

/-!
# Request bodies

The JSON body that carries a document: an object whose only member, `query`, is the document's text.
A document that is not valid gets none.
-/
namespace GraphDoc

/-- The operation was refused before it was rendered. -/
structure RequestError where
  offence : Offence
deriving DecidableEq, Repr

namespace RequestError

def message (_ : RequestError) : String := "Operation failed validation"

/-- The messages of what underlies the refusal, outermost first. -/
def causes (error : RequestError) : List String := error.offence.message :: error.offence.causes

end RequestError

def requestBody (document : String) : String := (Json.object [("query", .string document)]).text

def Operation.toRequest (o : Operation) : Except RequestError String :=
  match o.validate with
  | .ok () => .ok (requestBody o.render)
  | .error offence => .error ⟨offence⟩

end GraphDoc
