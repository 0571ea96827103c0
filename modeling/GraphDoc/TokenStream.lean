import GraphDoc.Token

/-!
# Token streams

A stream hands out its tokens one at a time. Combined streams do no work before they are pulled:
separators are taken from their supply as the gaps are reached, and the body of a call can give up
its value half-way. A single `step` may pass a token over or move on to the next item without
handing anything out; `pull` repeats it until there is a token or the stream has ended.
-/
namespace GraphDoc

/-- The separators that are still to be placed between items. -/
inductive Separators where
  | finite (tokens : List Token)
  | endless (token : Token)
deriving Repr

def Separators.next? : Separators → Option (Token × Separators)
  | finite [] => none
  | finite (token :: tokens) => some (token, finite tokens)
  | endless token => some (token, endless token)

inductive TokenStream where
  | tokens (tokens : List Token)
  /-- The item being handed out, those after it, and the separators for the gaps between them. -/
  | joined (current : TokenStream) (later : List TokenStream) (separators : Separators)
  /-- The body of a call made from the tokens of its value. Braces are passed over. A colon becomes
  a comma, or ends the body where `stopsAtColon` is set. -/
  | call (stopsAtColon : Bool) (value : TokenStream)

namespace TokenStream

def empty : TokenStream := tokens []

def once (token : Token) : TokenStream := tokens [token]

/-- The items in order, with the next separator in each gap while there is one. A gap takes its
separator even beside an empty item; what is left over is not used. -/
def interleaved : List TokenStream → Separators → TokenStream
  | [], _ => empty
  | item :: later, separators => joined item later separators

def separated (items : List TokenStream) (separator : Token) : TokenStream :=
  interleaved items (.endless separator)

def concat (streams : List TokenStream) : TokenStream := interleaved streams (.finite [])

def delimited (opening : Token) (items : List TokenStream) (separator closing : Token) :
    TokenStream :=
  concat [once opening, separated items separator, once closing]

/-! ## Pulling -/

inductive Step where
  | emit (token : Token) (rest : TokenStream)
  | skip (rest : TokenStream)
  | done

def step : TokenStream → Step
  | tokens [] => .done
  | tokens (token :: rest) => .emit token (tokens rest)
  | joined current later separators =>
    match current.step with
    | .emit token current => .emit token (joined current later separators)
    | .skip current => .skip (joined current later separators)
    | .done =>
      match later with
      | [] => .done
      | item :: later =>
        match separators.next? with
        | some (separator, separators) => .emit separator (joined item later separators)
        | none => .skip (joined item later separators)
  | call stopsAtColon value =>
    match value.step with
    | .emit token value =>
      if token.isBrace then .skip (call stopsAtColon value)
      else if token = .colon then
        if stopsAtColon then .done else .emit .comma (call stopsAtColon value)
      else .emit token (call stopsAtColon value)
    | .skip value => .skip (call stopsAtColon value)
    | .done => .done

mutual

/-- An upper bound on the steps that a stream can still take. -/
def work : TokenStream → Nat
  | tokens ts => ts.length
  | joined current later _ => current.work + workOfLater later
  | call _ value => value.work

def workOfLater : List TokenStream → Nat
  | [] => 0
  | item :: later => item.work + 1 + workOfLater later

end

/-- A step that does not end the stream uses up some of its work. -/
theorem work_step (s : TokenStream) :
    match s.step with
    | .emit _ rest | .skip rest => rest.work < s.work
    | .done => True := by
  fun_induction step s <;> simp_all [work, workOfLater] <;> omega

theorem work_lt_of_emit {s rest : TokenStream} {token : Token} (h : s.step = .emit token rest) :
    rest.work < s.work := by
  have := s.work_step
  rwa [h] at this

theorem work_lt_of_skip {s rest : TokenStream} (h : s.step = .skip rest) : rest.work < s.work := by
  have := s.work_step
  rwa [h] at this

/-- The next token, if there is one, and the stream after it. An ended stream stays ended. -/
def pull (s : TokenStream) : Option Token × TokenStream :=
  match _h : s.step with
  | .emit token rest => (some token, rest)
  | .skip rest => rest.pull
  | .done => (none, empty)
termination_by s.work
decreasing_by exact work_lt_of_skip _h

/-- Pulls at most `n` tokens. -/
def take : Nat → TokenStream → List Token × TokenStream
  | 0, s => ([], s)
  | n + 1, s =>
    match s.pull with
    | (some token, rest) =>
      let (taken, rest) := take n rest
      (token :: taken, rest)
    | (none, rest) => ([], rest)

/-- All the tokens that are still to come. -/
def toList (s : TokenStream) : List Token :=
  match _h : s.step with
  | .emit token rest => token :: rest.toList
  | .skip rest => rest.toList
  | .done => []
termination_by s.work
decreasing_by
  · exact work_lt_of_emit _h
  · exact work_lt_of_skip _h

/-- Appends the text of every remaining token to a document. -/
def drainTo (out : String) (s : TokenStream) : String :=
  match _h : s.step with
  | .emit token rest => rest.drainTo (token.appendTo out)
  | .skip rest => rest.drainTo out
  | .done => out
termination_by s.work
decreasing_by
  · exact work_lt_of_emit _h
  · exact work_lt_of_skip _h

/-- The text of the whole stream. -/
def text (s : TokenStream) : String := s.drainTo ""

/-- The text made by showing each token by itself. -/
def shown (s : TokenStream) : String := String.join (s.toList.map Token.shown)

end TokenStream

end GraphDoc
