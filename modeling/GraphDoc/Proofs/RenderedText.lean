import GraphDoc.Name
import GraphDoc.Proofs.Nesting

/-!
# Tokens found in a text

A rendered text is the texts of its tokens, one after the other. The tokens can be found in it
again: a word goes on as long as it can, a quoted literal up to the next quote, and whether a word
is a name or a literal depends on where it stands. Here this is shown of tokens in general, with
arbitrary text behind them.
-/
namespace GraphDoc

/-! ## The text of tokens -/

def textOfTokens (tokens : List Token) : List Char := tokens.flatMap (·.shown.toList)

@[simp]
theorem textOfTokens_nil : textOfTokens [] = [] := rfl

@[simp]
theorem textOfTokens_cons (token : Token) (tokens : List Token) :
    textOfTokens (token :: tokens) = token.shown.toList ++ textOfTokens tokens := List.flatMap_cons

@[simp]
theorem textOfTokens_append (xs ys : List Token) :
    textOfTokens (xs ++ ys) = textOfTokens xs ++ textOfTokens ys := List.flatMap_append

theorem TokenStream.toList_drainTo (out : String) (s : TokenStream) :
    (s.drainTo out).toList = out.toList ++ textOfTokens s.toList := by
  fun_induction drainTo out s with
  | case1 out s token rest hs ih =>
    rw [ih, toList_of_emit hs, textOfTokens_cons, Token.appendTo_eq, String.toList_append,
      List.append_assoc]
  | case2 out s rest hs ih => rw [ih, toList_of_skip hs]
  | case3 out s hs => rw [toList_of_done hs, textOfTokens_nil, List.append_nil]

theorem TokenStream.toList_text (s : TokenStream) : s.text.toList = textOfTokens s.toList :=
  s.toList_drainTo ""

theorem Value.toList_render (value : Value) : value.render.toList = textOfTokens value.tokens :=
  value.stream.toList_text

theorem Argument.toList_render (argument : Argument) :
    argument.render.toList = textOfTokens argument.tokens := argument.stream.toList_text

theorem Clause.toList_render (clause : Clause) :
    clause.render.toList = textOfTokens clause.tokens := clause.stream.toList_text

theorem Operation.toList_render (o : Operation) : o.render.toList = textOfTokens o.tokens :=
  o.stream.toList_text

/-! ## Finding tokens -/

/-- Where a scan over the text of a document stands. -/
inductive TextState where
  /-- Before the keyword. -/
  | start
  | selection
  /-- In the parentheses of a field. -/
  | arguments
deriving DecidableEq

namespace TextState

/-- The token of a word, which in arguments is a name only where a colon follows it. -/
def wordToken (state : TextState) (word : String) (rest : List Char) : Token :=
  match state with
  | start => .keyword word
  | selection => .name word
  | arguments => if rest.head? = some ':' then .name word else .literal word

def afterWord : TextState → TextState
  | start => selection
  | state => state

def after (state : TextState) : Token → TextState
  | .parenOpen => arguments
  | .parenClose => selection
  | _ => state

end TextState

/-- A character of a name or integer. -/
def isWordChar (c : Char) : Bool := Name.isContinue c || c == '-'

def isNoQuote (c : Char) : Bool := c != '"'

/-- The token that is written as the single character. -/
def punctuation? (c : Char) : Option Token :=
  [Token.colon, .comma, .braceOpen, .braceClose, .parenOpen, .parenClose, .bracketOpen,
    .bracketClose, .space].find? (·.text.toList == [c])

/-- The tokens found in a text. -/
def tokensOfText (state : TextState) : List Char → List Token
  | [] => []
  | c :: rest =>
    if isWordChar c then
      state.wordToken (String.ofList (c :: rest.takeWhile isWordChar))
          (rest.dropWhile isWordChar) ::
        tokensOfText state.afterWord (rest.dropWhile isWordChar)
    else if c = '"' then
      .literal (String.ofList ('"' :: (rest.takeWhile isNoQuote ++ ['"']))) ::
        tokensOfText state (rest.dropWhile isNoQuote).tail
    else
      match punctuation? c with
      | some token => token :: tokensOfText (state.after token) rest
      | none => tokensOfText state rest
termination_by text => text.length
decreasing_by
  all_goals
    have hword := (List.dropWhile_sublist isWordChar (l := rest)).length_le
    have hquote := (List.dropWhile_sublist isNoQuote (l := rest)).length_le
    simp only [List.length_cons, List.length_tail]
    omega

/-- A word and a name before it would not go on with the text. -/
def EndsWord (text : List Char) : Prop := ∀ c ∈ text.head?, isWordChar c = false ∧ c ≠ ':'

theorem tokensOfText_word (state : TextState) {word rest : List Char} (hne : word ≠ [])
    (hw : ∀ c ∈ word, isWordChar c = true) (hr : ∀ c ∈ rest.head?, isWordChar c = false) :
    tokensOfText state (word ++ rest) =
      state.wordToken (String.ofList word) rest :: tokensOfText state.afterWord rest := by
  have hrest : rest.takeWhile isWordChar = [] ∧ rest.dropWhile isWordChar = rest := by
    cases rest with
    | nil => exact ⟨rfl, rfl⟩
    | cons c rest =>
      have hc := hr c rfl
      exact ⟨by rw [List.takeWhile_cons, hc]; rfl, by rw [List.dropWhile_cons, hc]; rfl⟩
  obtain ⟨c, cs, rfl⟩ := List.exists_cons_of_ne_nil hne
  obtain ⟨hc, hcs⟩ := List.forall_mem_cons.mp hw
  rw [List.cons_append, tokensOfText, if_pos hc, List.takeWhile_append_of_pos hcs,
    List.dropWhile_append_of_pos hcs, hrest.1, hrest.2, List.append_nil]

theorem tokensOfText_quoted (state : TextState) {text : List Char} (ht : '"' ∉ text)
    (rest : List Char) :
    tokensOfText state ('"' :: (text ++ '"' :: rest)) =
      .literal (String.ofList ('"' :: (text ++ ['"']))) :: tokensOfText state rest := by
  have hall : ∀ c ∈ text, isNoQuote c = true := by
    intro c hc
    simp only [isNoQuote, bne_iff_ne, ne_eq]
    rintro rfl
    exact ht hc
  have hquote : isNoQuote '"' = false := by decide
  rw [tokensOfText, if_neg (by decide), if_pos rfl, List.takeWhile_append_of_pos hall,
    List.dropWhile_append_of_pos hall, List.takeWhile_cons, List.dropWhile_cons, hquote]
  simp

theorem tokensOfText_punctuation (state : TextState) {c : Char} {token : Token}
    (h : punctuation? c = some token) (hw : isWordChar c = false) (hq : c ≠ '"')
    (rest : List Char) :
    tokensOfText state (c :: rest) = token :: tokensOfText (state.after token) rest := by
  rw [tokensOfText, hw, if_neg Bool.false_ne_true, if_neg hq, h]

/-! ## Tokens that are found again -/

/-- From the state, the tokens are found in their text, whatever stands behind them, and leave the
state as it was. -/
def Scans (state : TextState) (tokens : List Token) : Prop :=
  ∀ rest, EndsWord rest →
    tokensOfText state (textOfTokens tokens ++ rest) = tokens ++ tokensOfText state rest

theorem endsWord_cons {c : Char} (hw : isWordChar c = false) (hc : c ≠ ':') (rest : List Char) :
    EndsWord (c :: rest) := by
  intro d hd
  obtain rfl := Option.mem_some.mp hd
  exact ⟨hw, hc⟩

namespace Scans

variable {state : TextState}

theorem nil : Scans state [] := fun _ _ => rfl

theorem append {xs ys : List Token} (hx : Scans state xs) (hy : Scans state ys)
    (h : ∀ rest, EndsWord rest → EndsWord (textOfTokens ys ++ rest)) : Scans state (xs ++ ys) := by
  intro rest hr
  rw [textOfTokens_append, List.append_assoc, hx _ (h rest hr), hy rest hr, List.append_assoc]

theorem comma {item : List Token} (h : Scans state item) : Scans state (.comma :: item) := by
  intro rest hr
  have hc : textOfTokens (.comma :: item) ++ rest = ',' :: (textOfTokens item ++ rest) := rfl
  rw [hc, tokensOfText_punctuation state rfl (by decide) (by decide)]
  exact congrArg (Token.comma :: ·) (h rest hr)

theorem endsWord_commas (items : List (List Token)) {rest : List Char} (hr : EndsWord rest) :
    EndsWord (textOfTokens (items.flatMap (.comma :: ·)) ++ rest) := by
  cases items with
  | nil => exact hr
  | cons item items => exact endsWord_cons (by decide) (by decide) _

theorem commas {items : List (List Token)} (h : ∀ item ∈ items, Scans state item) :
    Scans state (items.flatMap (.comma :: ·)) := by
  induction items with
  | nil => exact nil
  | cons item items ih =>
    obtain ⟨hi, hs⟩ := List.forall_mem_cons.mp h
    rw [List.flatMap_cons]
    exact hi.comma.append (ih hs) fun _ => endsWord_commas items

/-- Items between commas are found again when each of them is. -/
theorem commaTokens {items : List (List Token)} (h : ∀ item ∈ items, Scans state item) :
    Scans state (commaTokens items) := by
  cases items with
  | nil => exact nil
  | cons item items =>
    obtain ⟨hi, hs⟩ := List.forall_mem_cons.mp h
    exact hi.append (commas hs) fun _ => endsWord_commas items

/-- Tokens in brackets are found again from outside when they are from inside. -/
theorem wrapped (bracket : Bracket) {inside : TextState} {tokens : List Token}
    (ho : state.after bracket.opening = inside) (hc : inside.after bracket.closing = state)
    (h : Scans inside tokens) : Scans state (bracket.opening :: (tokens ++ [bracket.closing])) := by
  intro rest _
  have hopen : ∀ text, tokensOfText state (bracket.opening.shown.toList ++ text) =
      bracket.opening :: tokensOfText inside text := by
    intro text
    rw [← ho]
    cases bracket <;> exact tokensOfText_punctuation state rfl (by decide) (by decide) text
  have hends : EndsWord (bracket.closing.shown.toList ++ rest) := by
    cases bracket <;> exact endsWord_cons (by decide) (by decide) rest
  have hclose : tokensOfText inside (bracket.closing.shown.toList ++ rest) =
      bracket.closing :: tokensOfText state rest := by
    rw [← hc]
    cases bracket <;> exact tokensOfText_punctuation inside rfl (by decide) (by decide) rest
  rw [textOfTokens_cons, textOfTokens_append, textOfTokens_cons, textOfTokens_nil, List.append_nil,
    List.append_assoc, List.append_assoc, hopen, h _ hends, hclose, List.cons_append,
    List.append_assoc, List.cons_append, List.nil_append]

/-! ### Words and quoted literals -/

theorem word {word : String} {token : Token} (hshown : token.shown = word)
    (hne : word.toList ≠ []) (hw : ∀ c ∈ word.toList, isWordChar c = true)
    (hs : state.afterWord = state)
    (ht : ∀ rest, EndsWord rest → state.wordToken word rest = token) : Scans state [token] := by
  intro rest hr
  rw [textOfTokens_cons, textOfTokens_nil, List.append_nil, hshown,
    tokensOfText_word state hne hw fun c hc => (hr c hc).1, String.ofList_toList, ht rest hr, hs]
  rfl

theorem quoted {text : String} (ht : '"' ∉ text.toList) :
    Scans state [.literal ("\"" ++ text ++ "\"")] := by
  intro rest _
  have hshown : (Token.literal ("\"" ++ text ++ "\"")).shown.toList =
      '"' :: (text.toList ++ ['"']) := by simp [Token.shown, Token.text]
  rw [textOfTokens_cons, textOfTokens_nil, List.append_nil, hshown, List.cons_append,
    List.append_assoc]
  refine (tokensOfText_quoted state ht rest).trans ?_
  rw [← hshown, String.ofList_toList]
  rfl

end Scans

end GraphDoc
