import GraphDoc.Proofs.FunctionCalls

/-!
# The text of existence calls

The existence function is called with a field name and nothing else, so its call gives up the value
at the first colon. Calls in the value have no colon left: up to the first pair the arguments stand
as they are rendered, and of that pair only the name is left. Any other call goes on after an
existence call in its value.
-/
namespace GraphDoc

namespace Argument

/-! ## The arguments of an existence call -/

/-- What an existence call keeps of each argument: of a call everything, of the first pair its name,
and of what comes after it nothing. -/
def keptTokens : List Argument → List (List Token)
  | [] => []
  | .pair name _ :: _ => [[.name name]]
  | .call name value :: later => (call name value).tokens :: keptTokens later

theorem keptTokens_append {calls : List Argument} (h : ∀ argument ∈ calls, argument.isCall = true)
    (rest : List Argument) : keptTokens (calls ++ rest) = calls.map tokens ++ keptTokens rest := by
  induction calls with
  | nil => rfl
  | cons argument calls ih =>
    obtain ⟨hc, hs⟩ := List.forall_mem_cons.mp h
    cases argument with
    | pair name value => cases hc
    | call name value => rw [List.cons_append, keptTokens, ih hs, List.map_cons, List.cons_append]

theorem keptTokens_calls {calls : List Argument} (h : ∀ argument ∈ calls, argument.isCall = true) :
    keptTokens calls = calls.map tokens := by
  have happend := keptTokens_append h []
  rwa [List.append_nil, keptTokens, List.append_nil] at happend

/-- Nothing behind the name of a pair matters. -/
theorem keptTokens_pair (before after after' : List Argument) (name : String)
    (value value' : Value) :
    keptTokens (before ++ .pair name value :: after) =
      keptTokens (before ++ .pair name value' :: after') := by
  induction before with
  | nil => rfl
  | cons argument before ih =>
    cases argument with
    | pair other inner => rfl
    | call other inner => rw [List.cons_append, List.cons_append, keptTokens, keptTokens, ih]

theorem callTokens_pair (name : String) (value : Value) (rest : List Token) :
    callTokens true ((pair name value).tokens ++ rest) = [.name name] := by
  rw [tokens_pair]
  rfl

/-- The arguments after the first, each behind its comma, as long as there has been no pair. -/
theorem callTokens_later (arguments : List Argument) :
    callTokens true ((arguments.map tokens).flatMap (.comma :: ·) ++ [.braceClose]) =
      (keptTokens arguments).flatMap (.comma :: ·) := by
  have hcomma : ∀ rest, callTokens true (.comma :: rest) = .comma :: callTokens true rest :=
    fun _ => rfl
  induction arguments with
  | nil => rfl
  | cons argument arguments ih =>
    rw [List.map_cons, List.flatMap_cons, List.append_assoc, List.cons_append, hcomma]
    cases argument with
    | pair name value =>
      rw [callTokens_pair]
      rfl
    | call name value =>
      rw [callTokens_append_of_stays true (staysInCall_call name value), ih]
      rfl

theorem callTokens_object (arguments : List Argument) :
    callTokens true (Value.object arguments).tokens = commaTokens (keptTokens arguments) := by
  have hopen : ∀ rest, callTokens true (.braceOpen :: rest) = callTokens true rest := fun _ => rfl
  rw [Value.tokens_object, hopen]
  cases arguments with
  | nil => rfl
  | cons argument arguments =>
    rw [List.map_cons, commaTokens, List.append_assoc]
    cases argument with
    | pair name value =>
      rw [callTokens_pair]
      rfl
    | call name value =>
      rw [callTokens_append_of_stays true (staysInCall_call name value), callTokens_later]
      rfl

/-! ## Rendered existence calls -/

theorem toList_render_existence (value : Value) :
    (call "has" value).render.toList =
      "has(".toList ++ textOfTokens (callTokens true value.tokens) ++ [')'] := by
  have hname : ("has" == existenceFunction) = true := rfl
  rw [toList_render_call, hname]
  rfl

theorem render_existence_object {arguments : List Argument} {texts : List String}
    (h : (keptTokens arguments).map textOfTokens = texts.map String.toList) :
    (call "has" (.object arguments)).render = "has(" ++ String.intercalate "," texts ++ ")" := by
  rw [← String.toList_inj, toList_render_existence, callTokens_object, textOfTokens_commaTokens, h,
    String.toList_append, String.toList_append, String.toList_intercalate]
  rfl

/-- A single argument as a value is kept like the only one of an object. -/
theorem callTokens_argument (argument : Argument) :
    callTokens true (Value.argument argument).tokens =
      callTokens true (Value.object [argument]).tokens := by
  rw [callTokens_object, Value.tokens_argument]
  cases argument with
  | pair name value =>
    have hpair := callTokens_pair name value []
    rwa [List.append_nil] at hpair
  | call name value =>
    rw [callTokens_of_stays (staysInCall_call name value), keptTokens, keptTokens,
      commaTokens_singleton]

/-- A call among the tokens of a value stands whole in the body of another call, and the body goes
on after it, unless it was given up before. -/
theorem toList_render_around {name inner : String} {value content : Value}
    {before after : List Token} (htokens : value.tokens = before ++ (call inner content).tokens ++ after)
    (hcut : name = "has" → .colon ∉ before) :
    (call name value).render.toList = name.toList ++ '(' ::
      (textOfTokens (callTokens (name == "has") before) ++ (call inner content).render.toList ++
        textOfTokens (callTokens (name == "has") after) ++ [')']) := by
  have hbefore : (name == existenceFunction) = true → .colon ∉ before :=
    fun h => hcut (beq_iff_eq.mp h)
  rw [toList_render_call, htokens, List.append_assoc, callTokens_append_of_uncut hbefore,
    callTokens_append_of_stays _ (staysInCall_call inner content), textOfTokens_append,
    textOfTokens_append, toList_render (call inner content)]
  simp only [List.append_assoc]
  rfl

/-- An existence call renders the calls before the first pair of its value and the name of that
pair, and of a value without arguments everything. Calls are units in it and in any other call: none
makes another one give up its value. -/
theorem render_existence_call :
    (∀ (before : List Argument) (name : String) (value : Value) (after : List Argument),
      (∀ argument ∈ before, argument.isCall = true) →
        (call "has" (.object (before ++ .pair name value :: after))).render =
          "has(" ++ String.intercalate "," (before.map render ++ [name]) ++ ")") ∧
    (∀ arguments : List Argument, (∀ argument ∈ arguments, argument.isCall = true) →
      (call "has" (.object arguments)).render =
        "has(" ++ String.intercalate "," (arguments.map render) ++ ")") ∧
    (∀ (before after after' : List Argument) (name : String) (value value' : Value),
      (call "has" (.object (before ++ .pair name value :: after))).render =
        (call "has" (.object (before ++ .pair name value' :: after'))).render) ∧
    (∀ argument : Argument, (call "has" (.argument argument)).render =
      (call "has" (.object [argument])).render) ∧
    (∀ value : Value, (∀ arguments, value ≠ .object arguments) →
      (∀ argument, value ≠ .argument argument) →
        (call "has" value).render = "has(" ++ value.render ++ ")") ∧
    (∀ (name inner : String) (value content : Value) (before after : List Token),
      value.tokens = before ++ (call inner content).tokens ++ after →
      (name = "has" → .colon ∉ before) →
        (call name value).render.toList = name.toList ++ '(' ::
          (textOfTokens (callTokens (name == "has") before) ++
            (call inner content).render.toList ++
            textOfTokens (callTokens (name == "has") after) ++ [')'])) ∧
    (∀ (name : String) (before : List Argument) (value : Value) (after : List Argument),
      name ≠ "has" →
        (call name (.object (before ++ call "has" value :: after))).render =
          name ++ "(" ++ String.intercalate ","
            (before.map flat ++ (call "has" value).render :: after.map flat) ++ ")") := by
  refine ⟨?_, ?_, ?_, ?_, ?_, fun _ _ _ _ _ _ => toList_render_around, ?_⟩
  · intro before name value after h
    apply render_existence_object
    rw [keptTokens_append h, List.map_append, List.map_append, map_textOfTokens_tokens]
    simp [keptTokens, Token.shown, Token.text]
  · intro arguments h
    apply render_existence_object
    rw [keptTokens_calls h, map_textOfTokens_tokens]
  · intro before after after' name value value'
    rw [← String.toList_inj, toList_render_existence, toList_render_existence, callTokens_object,
      callTokens_object, keptTokens_pair before after after' name value value']
  · intro argument
    rw [← String.toList_inj, toList_render_existence, toList_render_existence, callTokens_argument]
  · intro value hobject hargument
    rw [← String.toList_inj, toList_render_existence,
      callTokens_of_stays (Value.staysInCall_of_literals hobject hargument), ← value.toList_render]
    simp
  · intro name before value after h
    have hbody := (Value.object (before ++ call "has" value :: after)).textOfTokens_flat
    have hname : (name == existenceFunction) = false := beq_false_of_ne h
    rw [← String.toList_inj, toList_render_call, hname, hbody, Value.flat,
      flats_eq_map, List.map_append, List.map_cons, flat]
    simp

/-- An existence call with a call, a pair and another call behind it. -/
def checkedPair : Value :=
  .object [.call "eq" (.object [.pair "a:\x7b" (.int 1)]), .pair "b,c" (.object []),
    .call "f" (.string "")]

/-- An existence call among the arguments of another call. -/
def guardedPair : Value :=
  .object [.call "has" (.object [.pair "x" (.string ":")]), .pair "y" (.bool true)]

theorem render_existence_checked :
    (∀ argument ∈ [call "eq" (.object [.pair "a:\x7b" (.int 1)])], argument.isCall = true) ∧
    (call "has" checkedPair).render = "has(eq(a:\x7b,1),b,c)" ∧
    (call "has" (.ints [1, -2])).render = "has([1,-2])" ∧
    "not" ≠ "has" ∧ (call "not" guardedPair).render = "not(has(x),y,true)" ∧
    guardedPair.tokens = [.braceOpen] ++ (call "has" (.object [.pair "x" (.string ":")])).tokens ++
      [.comma, .name "y", .colon, .literal "true", .braceClose] ∧
    (call "has" guardedPair).render = "has(has(x),y)" := by
  obtain ⟨hpair, _, _, _, hplain, haround, hother⟩ := render_existence_call
  have hcalls : ∀ argument ∈ [call "eq" (.object [.pair "a:\x7b" (.int 1)])],
      argument.isCall = true := by decide
  have hchecked := hpair _ "b,c" (.object []) [.call "f" (.string "")] hcalls
  have heq : (call "eq" (.object [.pair "a:\x7b" (.int 1)])).render = "eq(a:\x7b,1)" := by
    rw [← String.toList_inj, toList_render_call, Value.tokens_object]
    simp [existenceFunction, callTokens, commaTokens, Token.isBrace, Token.inCall, Token.shown,
      Token.text, intToken]
    rfl
  have hhas : (call "has" (.object [.pair "x" (.string ":")])).render = "has(x)" :=
    hpair [] "x" (.string ":") [] (by simp)
  have hnot : "not" ≠ "has" := by decide
  have hguarded := hother "not" [] (.object [.pair "x" (.string ":")]) [.pair "y" (.bool true)] hnot
  have htrue : (Value.bool true).flat = "true" := by
    have hflat : (Value.bool true).flat = (Value.bool true).render := rfl
    rw [hflat, ← String.toList_inj, Value.toList_render, Value.tokens_bool]
    rfl
  have htokens : guardedPair.tokens = [.braceOpen] ++
      (call "has" (.object [.pair "x" (.string ":")])).tokens ++
        [.comma, .name "y", .colon, .literal "true", .braceClose] := by
    rw [guardedPair, Value.tokens_object]
    simp [commaTokens, boolToken]
  have hcut := haround "has" "has" guardedPair _ _ _ htokens (by decide)
  refine ⟨hcalls, ?_, ?_, hnot, ?_, htokens, ?_⟩
  · rw [checkedPair]
    refine hchecked.trans ?_
    rw [List.map_cons, heq]
    rfl
  · rw [hplain _ (by simp) (by simp), Value.render_of_listTokens (Value.tokens_ints _)]
    rfl
  · refine hguarded.trans ?_
    rw [hhas, List.map_cons, flat, htrue]
    rfl
  · rw [← String.toList_inj, hcut, hhas]
    rfl

end Argument

end GraphDoc
