import GraphDoc.Proofs.Pulling

/-!
# Stream expressions

Streams are combined from other streams to any depth. An expression says how, and stands for a plain
list of tokens: items one after the other, between equal separators, or with the separator of its
place in each gap. Here the combined stream is shown to hand out that list, wherever it is cut.
-/
namespace GraphDoc

/-! ## Expressions -/

/-- A stream built from streams, each over finitely many items. -/
inductive StreamExpr where
  | empty
  | once (token : Token)
  | tokens (tokens : List Token)
  | concat (items : List StreamExpr)
  | separated (items : List StreamExpr) (separator : Token)
  | delimited (opening : Token) (items : List StreamExpr) (separator closing : Token)
  | interleaved (items : List StreamExpr) (separators : Separators)

/-- The separator for the gap with the given number, where there is one. -/
def Separators.at? : Separators → Nat → Option Token
  | finite tokens, gap => tokens[gap]?
  | endless token, _ => some token

/-- The items in order, each but the first behind the separator of the gap before it. -/
def placedTokens (items : List (List Token)) (separators : Separators) : List Token :=
  match items with
  | [] => []
  | item :: later =>
    item ++ later.zipIdx.flatMap fun (next, gap) => (separators.at? gap).toList ++ next

namespace StreamExpr

mutual

/-- The stream that the expression builds. -/
def stream : StreamExpr → TokenStream
  | empty => .empty
  | once token => .once token
  | tokens ts => .tokens ts
  | concat items => .concat (streams items)
  | separated items separator => .separated (streams items) separator
  | delimited opening items separator closing =>
    .delimited opening (streams items) separator closing
  | interleaved items separators => .interleaved (streams items) separators

def streams : List StreamExpr → List TokenStream
  | [] => []
  | item :: items => item.stream :: streams items

end

mutual

/-- The tokens that the expression stands for. -/
def toList : StreamExpr → List Token
  | empty => []
  | once token => [token]
  | tokens ts => ts
  | concat items => (lists items).flatten
  | separated items separator => [separator].intercalate (lists items)
  | delimited opening items separator closing =>
    opening :: ([separator].intercalate (lists items) ++ [closing])
  | interleaved items separators => placedTokens (lists items) separators

def lists : List StreamExpr → List (List Token)
  | [] => []
  | item :: items => item.toList :: lists items

end

theorem lists_eq_map (items : List StreamExpr) : lists items = items.map toList := by
  induction items with
  | nil => rfl
  | cons item items ih => rw [lists, ih, List.map_cons]

theorem toList_concat (items : List StreamExpr) :
    (concat items).toList = (items.map toList).flatten := by
  rw [toList, lists_eq_map]

theorem toList_separated (items : List StreamExpr) (separator : Token) :
    (separated items separator).toList = [separator].intercalate (items.map toList) := by
  rw [toList, lists_eq_map]

theorem toList_interleaved (items : List StreamExpr) (separators : Separators) :
    (interleaved items separators).toList = placedTokens (items.map toList) separators := by
  rw [toList, lists_eq_map]

end StreamExpr

/-! ## Separators by their place -/

theorem Separators.at?_of_next?_eq_some {separators after : Separators} {separator : Token}
    (h : separators.next? = some (separator, after)) :
    separators.at? 0 = some separator ∧ ∀ gap, separators.at? (gap + 1) = after.at? gap := by
  cases separators with
  | finite tokens =>
    cases tokens with
    | nil => cases h
    | cons token tokens =>
      obtain ⟨rfl, rfl⟩ := Prod.mk.inj (Option.some.inj h)
      exact ⟨rfl, fun _ => rfl⟩
  | endless token =>
    obtain ⟨rfl, rfl⟩ := Prod.mk.inj (Option.some.inj h)
    exact ⟨rfl, fun _ => rfl⟩

theorem Separators.at?_of_next?_eq_none {separators : Separators}
    (h : separators.next? = none) (gap : Nat) : separators.at? gap = none := by
  cases separators with
  | finite tokens =>
    cases tokens with
    | nil => rfl
    | cons token tokens => cases h
  | endless token => cases h

/-- Separators that are taken as the gaps are reached are those of their places. -/
theorem gapTokens_eq_zipIdx (items : List (List Token)) (separators : Separators) :
    gapTokens items separators =
      items.zipIdx.flatMap fun (item, gap) => (separators.at? gap).toList ++ item := by
  induction items generalizing separators with
  | nil => rfl
  | cons item items ih =>
    rw [gapTokens, List.zipIdx_cons', List.flatMap_cons, List.flatMap_map]
    cases hnext : separators.next? with
    | none =>
      have hnone := Separators.at?_of_next?_eq_none hnext
      simp only [ih, hnone, Prod.map_fst, Prod.map_snd, id]
      rfl
    | some next =>
      obtain ⟨separator, after⟩ := next
      obtain ⟨hfirst, hlater⟩ := Separators.at?_of_next?_eq_some hnext
      simp only [ih, hfirst, hlater, Prod.map_fst, Prod.map_snd, id]
      rfl

theorem interleavedTokens_eq_placedTokens (items : List (List Token)) (separators : Separators) :
    interleavedTokens items separators = placedTokens items separators := by
  cases items with
  | nil => rfl
  | cons item later => rw [interleavedTokens, gapTokens_eq_zipIdx, placedTokens]

theorem interleavedTokens_endless_eq_intercalate (items : List (List Token)) (separator : Token) :
    interleavedTokens items (.endless separator) = [separator].intercalate items := by
  induction items with
  | nil => rfl
  | cons item items ih =>
    cases items with
    | nil => simp [interleavedTokens, gapTokens]
    | cons next items =>
      rw [List.intercalate_cons_cons, ← ih, List.append_assoc]
      rfl

theorem TokenStream.toList_separated_eq_intercalate (items : List TokenStream)
    (separator : Token) :
    (separated items separator).toList = [separator].intercalate (items.map toList) := by
  rw [separated, toList_interleaved, interleavedTokens_endless_eq_intercalate]

/-! ## How many separators are placed -/

theorem length_intercalate_singleton (items : List (List Token)) (separator : Token) :
    ([separator].intercalate items).length = items.flatten.length + (items.length - 1) := by
  induction items with
  | nil => rfl
  | cons item items ih =>
    cases items with
    | nil => simp
    | cons next items =>
      rw [List.intercalate_cons_cons, List.length_append, List.length_append, ih]
      simp only [List.flatten_cons, List.length_append, List.length_cons, List.length_nil]
      omega

theorem length_gapTokens (items : List (List Token)) (separators : List Token) :
    (gapTokens items (.finite separators)).length =
      items.flatten.length + min items.length separators.length := by
  induction items generalizing separators with
  | nil => simp [gapTokens]
  | cons item items ih =>
    cases separators with
    | nil => simp [gapTokens_finite_nil]
    | cons separator separators =>
      rw [gapTokens_finite_cons, List.length_cons, List.length_append, ih]
      simp only [List.flatten_cons, List.length_append, List.length_cons]
      omega

theorem gapTokens_take (items : List (List Token)) (separators : List Token) :
    gapTokens items (.finite (separators.take items.length)) =
      gapTokens items (.finite separators) := by
  induction items generalizing separators with
  | nil => rfl
  | cons item items ih =>
    cases separators with
    | nil => rfl
    | cons separator separators =>
      rw [List.length_cons, List.take_succ_cons, gapTokens_finite_cons, gapTokens_finite_cons, ih]

/-- Of the separators at hand, there is one in each gap. -/
theorem length_placedTokens (items : List (List Token)) (separators : List Token) :
    (placedTokens items (.finite separators)).length =
      items.flatten.length + min (items.length - 1) separators.length := by
  rw [← interleavedTokens_eq_placedTokens]
  cases items with
  | nil => simp [interleavedTokens]
  | cons item later =>
    rw [interleavedTokens, List.length_append, length_gapTokens, List.flatten_cons,
      List.length_append, List.length_cons, Nat.add_sub_cancel, Nat.add_assoc]

/-- Separators behind the last gap are not used. -/
theorem placedTokens_take (items : List (List Token)) (separators : List Token) :
    placedTokens items (.finite (separators.take (items.length - 1))) =
      placedTokens items (.finite separators) := by
  rw [← interleavedTokens_eq_placedTokens, ← interleavedTokens_eq_placedTokens]
  cases items with
  | nil => rfl
  | cons item later =>
    rw [interleavedTokens, interleavedTokens, List.length_cons, Nat.add_sub_cancel,
      gapTokens_take]

namespace StreamExpr

/-! ## Expressions and their streams -/

mutual

theorem toList_stream : ∀ e : StreamExpr, e.stream.toList = e.toList
  | empty => TokenStream.toList_empty
  | once token => TokenStream.toList_once token
  | tokens ts => TokenStream.toList_tokens ts
  | concat items => by
    rw [stream, TokenStream.toList_concat, List.flatMap_def, map_toList_streams, toList]
  | separated items separator => by
    rw [stream, TokenStream.toList_separated_eq_intercalate, map_toList_streams, toList]
  | delimited opening items separator closing => by
    rw [stream, TokenStream.delimited, TokenStream.toList_concat]
    simp [TokenStream.toList_separated_eq_intercalate, map_toList_streams, toList]
  | interleaved items separators => by
    rw [stream, TokenStream.toList_interleaved, interleavedTokens_eq_placedTokens,
      map_toList_streams, toList]

theorem map_toList_streams : ∀ items : List StreamExpr,
    (streams items).map TokenStream.toList = lists items
  | [] => rfl
  | item :: items => by
    rw [streams, List.map_cons, item.toList_stream, map_toList_streams items, lists]

end

/-- However many tokens are pulled from the stream of an expression, they are the first of its list,
and what is left has the others and their text. Separators are placed one to a gap, whether or not
there is anything in the items beside it. -/
theorem stream_pulled_anywhere :
    (∀ (e : StreamExpr) (k : Nat),
      (e.stream.take k).1 = e.toList.take k ∧
      (e.stream.take k).1 ++ (e.stream.take k).2.toList = e.toList ∧
      (e.stream.afterPulls k).pull.1 = e.toList[k]? ∧
      (e.stream.take k).1.foldl Token.appendTo "" ++ (e.stream.take k).2.text = e.stream.text) ∧
    (∀ (items : List StreamExpr) (separators : Separators),
      (interleaved items separators).toList = placedTokens (items.map toList) separators) ∧
    (∀ (items : List StreamExpr) (separators : List Token),
      (interleaved items (.finite separators)).toList.length =
        (concat items).toList.length + min (items.length - 1) separators.length ∧
      (interleaved items (.finite (separators.take (items.length - 1)))).toList =
        (interleaved items (.finite separators)).toList) ∧
    (∀ (items : List StreamExpr) (separator : Token),
      (separated items separator).stream = (interleaved items (.endless separator)).stream ∧
      (separated items separator).toList = (interleaved items (.endless separator)).toList ∧
      (separated items separator).toList.length =
        (concat items).toList.length + (items.length - 1)) ∧
    (∀ (opening : Token) (items : List StreamExpr) (separator closing : Token),
      (delimited opening items separator closing).toList =
        opening :: ((separated items separator).toList ++ [closing])) := by
  refine ⟨fun e k => ⟨?_, ?_, ?_, ?_⟩, toList_interleaved, fun items separators => ⟨?_, ?_⟩,
    fun items separator => ⟨?_, ?_, ?_⟩, fun _ _ _ _ => ?_⟩
  · rw [(e.stream.take_eq k).1, e.toList_stream]
  · rw [TokenStream.take_append_rest, e.toList_stream]
  · rw [TokenStream.pull_afterPulls, e.toList_stream]
  · rw [Token.foldl_appendTo, String.empty_append, TokenStream.shown_take_append_text]
  · rw [toList_interleaved, toList_concat, length_placedTokens, List.length_map]
  · have htake := placedTokens_take (items.map toList) separators
    rw [List.length_map] at htake
    rw [toList_interleaved, toList_interleaved, htake]
  · rw [stream, stream, TokenStream.separated]
  · rw [toList_separated, toList_interleaved, ← interleavedTokens_eq_placedTokens,
      interleavedTokens_endless_eq_intercalate]
  · rw [toList_separated, toList_concat, length_intercalate_singleton, List.length_map]
  · rw [toList, toList]

/-- A gap takes its separator beside an empty item too. -/
example :
    (interleaved [empty, once (.name "a"), empty, empty]
      (.finite [.operator "AND", .operator "OR"])).toList =
    [.operator "AND", .name "a", .operator "OR"] := by decide

end StreamExpr

end GraphDoc
