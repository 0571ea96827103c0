import GraphDoc.TokenStream

/-!
# The tokens of a combined stream

A stream is stepped one token at a time. Here each combination of streams gets the list that its
steps add up to: items with separators in the gaps, and the body of a call as a cut followed by two
passes over the tokens of its value.
-/
namespace GraphDoc

/-! ## Lists of tokens -/

/-- The items after the first, each behind the next separator while there is one. -/
def gapTokens : List (List Token) → Separators → List Token
  | [], _ => []
  | item :: later, separators =>
    match separators.next? with
    | some (separator, separators) => separator :: (item ++ gapTokens later separators)
    | none => item ++ gapTokens later separators

/-- The items in order, with separators between them. -/
def interleavedTokens : List (List Token) → Separators → List Token
  | [], _ => []
  | item :: later, separators => item ++ gapTokens later separators

/-- The items in order, with commas between them. -/
def commaTokens : List (List Token) → List Token
  | [] => []
  | item :: later => item ++ later.flatMap (.comma :: ·)

/-- A token as it stands in the body of a call. -/
def Token.inCall : Token → Token
  | colon => comma
  | token => token

/-- The body of a call made from the tokens of its value. -/
def callTokens (stopsAtColon : Bool) (tokens : List Token) : List Token :=
  ((if stopsAtColon then tokens.takeWhile (· != .colon) else tokens).filter (!·.isBrace)).map
    Token.inCall

theorem gapTokens_endless (items : List (List Token)) (separator : Token) :
    gapTokens items (.endless separator) = items.flatMap (separator :: ·) := by
  induction items with
  | nil => rfl
  | cons item items ih => simp [gapTokens, Separators.next?, ih]

theorem gapTokens_finite_nil (items : List (List Token)) :
    gapTokens items (.finite []) = items.flatten := by
  induction items with
  | nil => rfl
  | cons item items ih => simp [gapTokens, Separators.next?, ih]

theorem gapTokens_finite_cons (item : List Token) (items : List (List Token)) (separator : Token)
    (separators : List Token) :
    gapTokens (item :: items) (.finite (separator :: separators)) =
      separator :: (item ++ gapTokens items (.finite separators)) := rfl

theorem interleavedTokens_endless (items : List (List Token)) :
    interleavedTokens items (.endless .comma) = commaTokens items := by
  cases items with
  | nil => rfl
  | cons item items => rw [interleavedTokens, gapTokens_endless, commaTokens]

theorem commaTokens_singleton (item : List Token) : commaTokens [item] = item :=
  List.append_nil item

theorem commaTokens_cons_cons (item next : List Token) (later : List (List Token)) :
    commaTokens (item :: next :: later) = item ++ .comma :: commaTokens (next :: later) := rfl

theorem mem_commaTokens {items : List (List Token)} {token : Token}
    (h : token ∈ commaTokens items) : token = .comma ∨ ∃ item ∈ items, token ∈ item := by
  cases items with
  | nil => cases h
  | cons item later =>
    rcases List.mem_append.mp h with h | h
    · exact .inr ⟨item, List.mem_cons_self .., h⟩
    · obtain ⟨other, ho, h⟩ := List.mem_flatMap.mp h
      rcases List.mem_cons.mp h with h | h
      · exact .inl h
      · exact .inr ⟨other, List.mem_cons_of_mem _ ho, h⟩

theorem callTokens_cons (stopsAtColon : Bool) (token : Token) (tokens : List Token) :
    callTokens stopsAtColon (token :: tokens) =
      if token.isBrace then callTokens stopsAtColon tokens
      else if token = .colon then
        if stopsAtColon then [] else .comma :: callTokens stopsAtColon tokens
      else token :: callTokens stopsAtColon tokens := by
  cases stopsAtColon <;> cases token <;> simp [callTokens, Token.isBrace, Token.inCall]

namespace TokenStream

/-! ## Steps and tokens -/

theorem toList_of_emit {s rest : TokenStream} {token : Token} (h : s.step = .emit token rest) :
    s.toList = token :: rest.toList := by
  rw [toList]
  split <;> simp_all

theorem toList_of_skip {s rest : TokenStream} (h : s.step = .skip rest) :
    s.toList = rest.toList := by
  rw [toList]
  split <;> simp_all

theorem toList_of_done {s : TokenStream} (h : s.step = .done) : s.toList = [] := by
  rw [toList]
  split <;> simp_all

@[simp]
theorem toList_tokens (ts : List Token) : (tokens ts).toList = ts := by
  induction ts with
  | nil => exact toList_of_done rfl
  | cons t ts ih =>
    have ht : (tokens (t :: ts)).step = .emit t (tokens ts) := rfl
    rw [toList_of_emit ht, ih]

@[simp]
theorem toList_once (token : Token) : (once token).toList = [token] := toList_tokens [token]

@[simp]
theorem toList_empty : empty.toList = [] := toList_tokens []

/-- While an item has tokens, so has the joined stream; `ended` is what is handed out after it. -/
theorem toList_joined_of_ended {current : TokenStream} {later : List TokenStream}
    {separators : Separators} {ended : List Token}
    (h : ∀ s : TokenStream, s.step = .done → (joined s later separators).toList = ended) :
    (joined current later separators).toList = current.toList ++ ended := by
  fun_induction toList current with
  | case1 s token rest hs ih =>
    have hj : (joined s later separators).step = .emit token (joined rest later separators) := by
      simp only [step, hs]
    rw [toList_of_emit hj, ih, List.cons_append]
  | case2 s rest hs ih =>
    have hj : (joined s later separators).step = .skip (joined rest later separators) := by
      simp only [step, hs]
    rw [toList_of_skip hj, ih]
  | case3 s hs => rw [h s hs, List.nil_append]

theorem toList_joined (current : TokenStream) (later : List TokenStream)
    (separators : Separators) :
    (joined current later separators).toList =
      current.toList ++ gapTokens (later.map toList) separators := by
  induction later generalizing current separators with
  | nil =>
    apply toList_joined_of_ended
    intro s hs
    apply toList_of_done
    rw [step, hs]
  | cons item later ih =>
    apply toList_joined_of_ended
    intro s hs
    rw [List.map_cons, gapTokens]
    cases hn : separators.next? with
    | none =>
      have hj : (joined s (item :: later) separators).step =
          .skip (joined item later separators) := by
        rw [step, hs]
        simp only [hn]
      rw [toList_of_skip hj, ih]
    | some next =>
      obtain ⟨separator, after⟩ := next
      have hj : (joined s (item :: later) separators).step =
          .emit separator (joined item later after) := by
        rw [step, hs]
        simp only [hn]
      rw [toList_of_emit hj, ih]

/-! ## Combined streams -/

theorem toList_interleaved (items : List TokenStream) (separators : Separators) :
    (interleaved items separators).toList = interleavedTokens (items.map toList) separators := by
  cases items with
  | nil => exact toList_empty
  | cons item items => exact toList_joined item items separators

@[simp]
theorem toList_separated (items : List TokenStream) :
    (separated items .comma).toList = commaTokens (items.map toList) := by
  rw [separated, toList_interleaved, interleavedTokens_endless]

@[simp]
theorem toList_concat (streams : List TokenStream) :
    (concat streams).toList = streams.flatMap toList := by
  rw [concat, toList_interleaved]
  cases streams with
  | nil => rfl
  | cons s streams =>
    rw [List.map_cons, interleavedTokens, gapTokens_finite_nil, List.flatMap_cons, List.flatMap_def]

@[simp]
theorem toList_delimited (opening closing : Token) (items : List TokenStream) :
    (delimited opening items .comma closing).toList =
      opening :: (commaTokens (items.map toList) ++ [closing]) := by
  simp [delimited]

@[simp]
theorem toList_call (stopsAtColon : Bool) (value : TokenStream) :
    (call stopsAtColon value).toList = callTokens stopsAtColon value.toList := by
  fun_induction toList value with
  | case1 s token rest hs ih =>
    rw [callTokens_cons, ← ih]
    split
    · rename_i hb
      apply toList_of_skip
      simp only [step, hs, hb, if_true]
    · rename_i hb
      split
      · rename_i hc
        split
        · apply toList_of_done
          simp_all [step]
        · apply toList_of_emit
          simp_all [step]
      · rename_i hc
        apply toList_of_emit
        simp_all [step]
  | case2 s rest hs ih =>
    rw [← ih]
    apply toList_of_skip
    simp only [step, hs]
  | case3 s hs =>
    have hn : callTokens stopsAtColon [] = [] := by cases stopsAtColon <;> rfl
    rw [hn]
    apply toList_of_done
    simp only [step, hs]

end TokenStream

end GraphDoc
