import GraphDoc.Proofs.RenderedText

/-!
# The text of function calls

The body of a call is made from the tokens of its value in one pass, and calls inside the value
have been made by passes of their own. Here the text of the body is given by recursion on the value
instead: objects lose their braces, pairs their colons, and an inner call stays as it is.
-/
namespace GraphDoc

/-! ## Flat text -/

mutual

/-- The text of a value in the body of a call. An object is its arguments between commas. -/
def Value.flat : Value → String
  | .object arguments => String.intercalate "," (Argument.flats arguments)
  | .argument argument => argument.flat
  | value => value.render

/-- A pair is its name, a comma and its value. A call is rendered as anywhere else. -/
def Argument.flat : Argument → String
  | .pair name value => name ++ "," ++ value.flat
  | .call name value => (Argument.call name value).render

def Argument.flats : List Argument → List String
  | [] => []
  | argument :: arguments => argument.flat :: Argument.flats arguments

end

/-! ## Tokens that a call leaves as they are -/

/-- Neither a brace nor a colon. -/
def Token.StaysInCall (token : Token) : Prop := token.isBrace = false ∧ token ≠ .colon

theorem Token.staysInCall_inCall {token : Token} (h : token.isBrace = false) :
    token.inCall.StaysInCall := by
  cases token with
  | braceOpen => cases h
  | braceClose => cases h
  | _ => exact ⟨rfl, by simp [inCall]⟩

/-- What a call has made of tokens, another call leaves as it is. -/
theorem staysInCall_of_mem_callTokens {stopsAtColon : Bool} {tokens : List Token} :
    ∀ token ∈ callTokens stopsAtColon tokens, token.StaysInCall := by
  intro token h
  obtain ⟨before, hb, rfl⟩ := List.mem_map.mp h
  exact Token.staysInCall_inCall (by simpa using (List.mem_filter.mp hb).2)

/-- The body goes on over two runs of tokens as over each, unless it was given up in the first. -/
theorem callTokens_append_of_uncut {stopsAtColon : Bool} {xs : List Token}
    (h : stopsAtColon = true → .colon ∉ xs) (ys : List Token) :
    callTokens stopsAtColon (xs ++ ys) = callTokens stopsAtColon xs ++ callTokens stopsAtColon ys := by
  cases stopsAtColon with
  | false => simp [callTokens]
  | true =>
    have hx : ∀ token ∈ xs, (token != .colon) = true := by
      intro token ht
      rw [bne_iff_ne]
      rintro rfl
      exact h rfl ht
    simp only [callTokens, if_true, List.takeWhile_append_of_pos hx,
      List.takeWhile_eq_self_iff.mpr hx, List.filter_append, List.map_append]

theorem callTokens_append (xs ys : List Token) :
    callTokens false (xs ++ ys) = callTokens false xs ++ callTokens false ys :=
  callTokens_append_of_uncut (fun h => absurd h Bool.false_ne_true) ys

theorem callTokens_of_stays {stopsAtColon : Bool} {tokens : List Token}
    (h : ∀ token ∈ tokens, token.StaysInCall) : callTokens stopsAtColon tokens = tokens := by
  induction tokens with
  | nil => cases stopsAtColon <;> rfl
  | cons token tokens ih =>
    obtain ⟨⟨hbrace, hcolon⟩, hs⟩ := List.forall_mem_cons.mp h
    rw [callTokens_cons, hbrace, if_neg Bool.false_ne_true, if_neg hcolon, ih hs]

theorem callTokens_append_of_stays (stopsAtColon : Bool) {xs : List Token}
    (h : ∀ token ∈ xs, token.StaysInCall) (ys : List Token) :
    callTokens stopsAtColon (xs ++ ys) = xs ++ callTokens stopsAtColon ys := by
  rw [callTokens_append_of_uncut (fun _ hc => (h .colon hc).2 rfl), callTokens_of_stays h]

theorem callTokens_commaTokens (items : List (List Token)) :
    callTokens false (commaTokens items) = commaTokens (items.map (callTokens false)) := by
  induction items with
  | nil => rfl
  | cons item items ih =>
    cases items with
    | nil => rw [List.map_singleton, commaTokens_singleton, commaTokens_singleton]
    | cons next items =>
      have hcomma : callTokens false (.comma :: commaTokens (next :: items)) =
          .comma :: callTokens false (commaTokens (next :: items)) := rfl
      rw [commaTokens_cons_cons, callTokens_append, hcomma, ih]
      rfl

/-! ## Nodes -/

theorem Token.staysInCall_literal (text : String) : (Token.literal text).StaysInCall :=
  ⟨rfl, by simp⟩

theorem staysInCall_listTokens {elements : List Token} (h : ∀ element ∈ elements, ∃ text,
    element = .literal text) : ∀ token ∈ listTokens elements, token.StaysInCall := by
  intro token ht
  rw [listTokens, List.mem_cons, List.mem_append, List.mem_singleton] at ht
  rcases ht with rfl | ht | rfl
  · exact ⟨rfl, by simp⟩
  · rcases mem_commaTokens ht with rfl | ⟨item, hi, ht⟩
    · exact ⟨rfl, by simp⟩
    · obtain ⟨element, he, rfl⟩ := List.mem_map.mp hi
      obtain rfl := List.mem_singleton.mp ht
      obtain ⟨text, rfl⟩ := h token he
      exact Token.staysInCall_literal text
  · exact ⟨rfl, by simp⟩

/-- The tokens of a call keep their place in another call. -/
theorem Argument.staysInCall_call (name : String) (value : Value) :
    ∀ token ∈ (Argument.call name value).tokens, token.StaysInCall := by
  intro token h
  rw [Argument.tokens_call] at h
  simp only [List.mem_cons, List.mem_append, List.not_mem_nil, or_false] at h
  rcases h with rfl | rfl | h | rfl
  · exact ⟨rfl, by simp⟩
  · exact ⟨rfl, by simp⟩
  · exact staysInCall_of_mem_callTokens token h
  · exact ⟨rfl, by simp⟩

/-- So do those of a value without arguments in it. -/
theorem Value.staysInCall_of_literals : ∀ {value : Value}, (∀ arguments, value ≠ .object arguments) →
    (∀ argument, value ≠ .argument argument) → ∀ token ∈ value.tokens, token.StaysInCall
  | .bool _, _, _ | .int _, _, _ | .string _, _, _ | .regex _, _, _ => by
    simp only [Value.tokens_bool, Value.tokens_int, Value.tokens_string, Value.tokens_regex,
      List.forall_mem_singleton]
    exact Token.staysInCall_literal _
  | .bools values, _, _ => by
    rw [Value.tokens_bools]
    exact staysInCall_listTokens (exists_literal_of_mem_map fun _ => ⟨_, rfl⟩)
  | .ints values, _, _ => by
    rw [Value.tokens_ints]
    exact staysInCall_listTokens (exists_literal_of_mem_map fun _ => ⟨_, rfl⟩)
  | .strings texts, _, _ => by
    rw [Value.tokens_strings]
    exact staysInCall_listTokens (exists_literal_of_mem_map fun _ => ⟨_, rfl⟩)
  | .object _, h, _ => absurd rfl (h _)
  | .argument _, _, h => absurd rfl (h _)

theorem toList_flat_of_stays {value : Value} (hf : value.flat = value.render)
    (h : ∀ token ∈ value.tokens, token.StaysInCall) :
    textOfTokens (callTokens false value.tokens) = value.flat.toList := by
  rw [callTokens_of_stays h, hf, value.toList_render]

/-- Items between commas, as text. -/
theorem textOfTokens_commaTokens (items : List (List Token)) :
    textOfTokens (commaTokens items) = [','].intercalate (items.map textOfTokens) := by
  induction items with
  | nil => rfl
  | cons item items ih =>
    cases items with
    | nil => simp [commaTokens_singleton]
    | cons next items =>
      rw [commaTokens_cons_cons, textOfTokens_append, textOfTokens_cons, ih]
      simp only [List.map_cons, List.intercalate_cons_cons, List.append_assoc]
      rfl

theorem Argument.map_textOfTokens_tokens (arguments : List Argument) :
    (arguments.map tokens).map textOfTokens = (arguments.map render).map String.toList := by
  rw [List.map_map, List.map_map]
  exact List.map_congr_left fun argument _ => argument.toList_render.symm

theorem Argument.flats_eq_map (arguments : List Argument) :
    Argument.flats arguments = arguments.map Argument.flat := by
  induction arguments with
  | nil => rfl
  | cons argument arguments ih => rw [Argument.flats, ih, List.map_cons]

mutual

theorem Value.textOfTokens_flat : ∀ value : Value,
    textOfTokens (callTokens false value.tokens) = value.flat.toList
  | .bool _ | .int _ | .string _ | .regex _ | .bools _ | .ints _ | .strings _ =>
    toList_flat_of_stays rfl (Value.staysInCall_of_literals (by simp) (by simp))
  | .object arguments => by
    have hitems := Argument.textOfTokens_flats arguments
    rw [Value.tokens_object, Value.flat, callTokens_cons, if_pos (by rfl), callTokens_append,
      callTokens_commaTokens]
    have hclose : callTokens false [.braceClose] = [] := rfl
    rw [hclose, List.append_nil, textOfTokens_commaTokens, String.toList_intercalate, ← hitems,
      List.map_map, List.map_map]
    rfl
  | .argument argument => by
    rw [Value.tokens_argument, Value.flat]
    exact argument.textOfTokens_flat

theorem Argument.textOfTokens_flat : ∀ argument : Argument,
    textOfTokens (callTokens false argument.tokens) = argument.flat.toList
  | .pair name value => by
    have hvalue := value.textOfTokens_flat
    have hbody : callTokens false (.name name :: .colon :: value.tokens) =
        .name name :: .comma :: callTokens false value.tokens := rfl
    rw [Argument.tokens_pair, Argument.flat, hbody, textOfTokens_cons, textOfTokens_cons, hvalue,
      String.toList_append, String.toList_append, List.append_assoc]
    rfl
  | .call name value => by
    rw [callTokens_of_stays (Argument.staysInCall_call name value), Argument.flat]
    exact (Argument.toList_render (.call name value)).symm

theorem Argument.textOfTokens_flats : ∀ arguments : List Argument,
    arguments.map (fun argument => textOfTokens (callTokens false argument.tokens)) =
      (Argument.flats arguments).map String.toList
  | [] => rfl
  | argument :: arguments => by
    rw [Argument.flats, List.map_cons, List.map_cons, argument.textOfTokens_flat,
      Argument.textOfTokens_flats arguments]

end

/-! ## Rendered calls -/

theorem toList_render_call (name : String) (value : Value) :
    (Argument.call name value).render.toList = name.toList ++ '(' ::
      (textOfTokens (callTokens (name == existenceFunction) value.tokens) ++ [')']) := by
  rw [Argument.toList_render, Argument.tokens_call, textOfTokens_cons, textOfTokens_cons,
    textOfTokens_append]
  rfl

theorem Value.render_of_listTokens {value : Value} {elements : List Token}
    (h : value.tokens = listTokens elements) :
    value.render = "[" ++ String.intercalate "," (elements.map Token.shown) ++ "]" := by
  have hitems : (elements.map ([·])).map textOfTokens =
      (elements.map Token.shown).map String.toList := by
    simp [textOfTokens]
  rw [← String.toList_inj, value.toList_render, h, listTokens, textOfTokens_cons,
    textOfTokens_append, textOfTokens_commaTokens, hitems]
  simp [Token.shown, Token.text]

theorem Value.render_string (text : String) :
    (Value.string text).render = "\"" ++ text ++ "\"" := by
  rw [← String.toList_inj, Value.toList_render, Value.tokens_string, textOfTokens_cons,
    textOfTokens_nil, List.append_nil]
  rfl

/-- A call other than that of the existence function is its name and, in parentheses, the flat text
of its value. In that, literals are what they are anywhere else, quoted but not escaped. -/
theorem Argument.render_call_eq_flat {name : String} (h : name ≠ existenceFunction)
    (value : Value) :
    (Argument.call name value).render = name ++ "(" ++ value.flat ++ ")" ∧
    (∀ arguments : List Argument,
      (Value.object arguments).flat = String.intercalate "," (arguments.map Argument.flat)) ∧
    (∀ text : String, (Value.string text).flat = "\"" ++ text ++ "\"" ∧
      (Value.regex text).flat = "\"" ++ text ++ "\"") ∧
    (∀ texts : List String, (Value.strings texts).flat =
      "[" ++ String.intercalate "," (texts.map fun text => "\"" ++ text ++ "\"") ++ "]") := by
  refine ⟨?_, ?_, ?_, ?_⟩
  · have hbody := value.textOfTokens_flat
    rw [← String.toList_inj, toList_render_call, beq_false_of_ne h, hbody]
    simp
  · intro arguments
    rw [Value.flat, Argument.flats_eq_map]
  · intro text
    exact ⟨Value.render_string text, Value.render_string text⟩
  · intro texts
    have hlist := Value.render_of_listTokens (Value.tokens_strings texts)
    rw [List.map_map] at hlist
    exact hlist

/-- An object with an empty one in it, a call that gives up its value, and pairs in a pair. -/
def mixedObject : Value :=
  .object [.pair "a:\x7b" (.object []), .call "has" (.object [.pair "x" (.string ",")]),
    .pair "o" (.object [.pair "p" (.string "\x7d:\""),
      .pair "q" (.argument (.pair "r" (.ints [1, -2])))])]

theorem Argument.render_call_mixed :
    "between" ≠ existenceFunction ∧ (Argument.call "between" mixedObject).render =
      "between(a:\x7b,,has(x),o,p,\"\x7d:\"\",q,r,[1,-2])" := by
  have hname : "between" ≠ existenceFunction := by decide
  have hhas : (Argument.call "has" (.object [.pair "x" (.string ",")])).flat = "has(x)" := by
    rw [Argument.flat, ← String.toList_inj, toList_render_call, Value.tokens_object]
    simp [existenceFunction, callTokens, commaTokens, Token.isBrace, Token.inCall, Token.shown,
      Token.text]
  have hints : (Value.ints [1, -2]).flat = "[1,-2]" :=
    Value.render_of_listTokens (Value.tokens_ints _)
  obtain ⟨hrender, hobject, hliteral, _⟩ := Argument.render_call_eq_flat hname mixedObject
  have hinner : (Value.object [.pair "p" (.string "\x7d:\""),
      .pair "q" (.argument (.pair "r" (.ints [1, -2])))]).flat = "p,\"\x7d:\"\",q,r,[1,-2]" := by
    rw [hobject, List.map_cons, List.map_cons, List.map_nil, Argument.flat, Argument.flat,
      (hliteral _).1, Value.flat, Argument.flat, hints]
    rfl
  refine ⟨hname, hrender.trans ?_⟩
  rw [mixedObject, hobject, List.map_cons, List.map_cons, List.map_cons, hhas, Argument.flat,
    Argument.flat, hinner, hobject]
  rfl

end GraphDoc
