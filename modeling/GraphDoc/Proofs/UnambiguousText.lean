import GraphDoc.Proofs.RenderedText
import GraphDoc.Proofs.Unambiguous

/-!
# The text determines the tree

The text of a valid operation with a keyword can be read back in one way only, up to what tokens do
not show, as long as it has neither filters nor operators nor calls, its arguments have valid names
and no string in it holds a double quote. Such a text can be split into its tokens in one way, and
the tokens determine the tree.
-/
namespace GraphDoc

/-! ## Clean nodes -/

def hasNoQuote (text : String) : Bool := !text.toList.contains '"'

mutual

/-- No string holds a double quote; the arguments are pairs and have valid names. -/
def Value.isClean : Value → Bool
  | .bool _ | .int _ | .bools _ | .ints _ => true
  | .string text | .regex text => hasNoQuote text
  | .strings texts => texts.all hasNoQuote
  | .object arguments => Argument.allClean arguments
  | .argument argument => argument.isClean

def Argument.isClean : Argument → Bool
  | .pair name value => Name.isValid name && value.isClean
  | .call .. => false

def Argument.allClean : List Argument → Bool
  | [] => true
  | argument :: arguments => argument.isClean && Argument.allClean arguments

end

/-- The field itself has neither filter nor operators, and clean arguments. -/
def Field.isClean (f : Field) : Bool :=
  f.filter.isNone && f.argumentOperators.isEmpty && Argument.allClean f.arguments

/-- All fields are clean. -/
def Operation.isClean (o : Operation) : Bool := (Field.preorderAll o.fields).all Field.isClean

mutual

theorem Value.callFree_of_isClean : ∀ value : Value, value.isClean = true → value.callFree = true
  | .bool _, _ | .int _, _ | .string _, _ | .regex _, _ | .bools _, _ | .ints _, _
  | .strings _, _ => rfl
  | .object arguments, h => Argument.allCallFree_of_allClean arguments h
  | .argument argument, h => argument.callFree_of_isClean h

theorem Argument.callFree_of_isClean : ∀ argument : Argument, argument.isClean = true →
    argument.callFree = true
  | .pair _ value, h => value.callFree_of_isClean (Bool.and_eq_true_iff.mp h).2

theorem Argument.allCallFree_of_allClean : ∀ arguments : List Argument,
    Argument.allClean arguments = true → Argument.allCallFree arguments = true
  | [], _ => rfl
  | argument :: arguments, h => by
    obtain ⟨ha, hs⟩ := Bool.and_eq_true_iff.mp h
    rw [Argument.allCallFree, argument.callFree_of_isClean ha,
      Argument.allCallFree_of_allClean arguments hs]
    rfl

end

theorem Operation.callFree_of_isClean {o : Operation} (h : o.isClean = true) :
    o.callFree = true := by
  refine List.all_eq_true.mpr fun f hf => ?_
  obtain ⟨hparts, harguments⟩ := Bool.and_eq_true_iff.mp (List.all_eq_true.mp h f hf)
  obtain ⟨hfilter, _⟩ := Bool.and_eq_true_iff.mp hparts
  rw [Field.callFree, Argument.allCallFree_of_allClean _ harguments,
    Option.isNone_iff_eq_none.mp hfilter]
  rfl

/-! ## Words -/

theorem isWordChar_of_isValid {name : String} (h : Name.isValid name = true) :
    name.toList ≠ [] ∧ ∀ c ∈ name.toList, isWordChar c = true := by
  unfold Name.isValid at h
  cases hn : name.toList with
  | nil =>
    rw [hn] at h
    cases h
  | cons c cs =>
    rw [hn] at h
    obtain ⟨hc, hcs⟩ := Bool.and_eq_true_iff.mp h
    have hstart : isWordChar c = true := by
      simp only [Name.isStart, Bool.or_eq_true] at hc
      simp only [isWordChar, Name.isContinue, Char.isAlphanum, Bool.or_eq_true]
      rcases hc with hc | hc
      · exact .inl (.inl hc)
      · exact .inl (.inr (.inl hc))
    refine ⟨List.cons_ne_nil c cs, List.forall_mem_cons.mpr ⟨hstart, fun d hd => ?_⟩⟩
    rw [isWordChar, List.all_eq_true.mp hcs d hd, Bool.true_or]

theorem isWordChar_of_mem_toString {n : Int} : ∀ c ∈ (toString n).toList, isWordChar c = true := by
  have hdigit : ∀ m, ∀ c ∈ Nat.toDigits 10 m, isWordChar c = true := by
    intro m c hc
    have hd := isDigit_of_mem_toDigits hc
    simp [isWordChar, Name.isContinue, Char.isAlphanum, hd]
  intro c hc
  by_cases h : 0 ≤ n
  · rw [toList_toString_of_nonneg h] at hc
    exact hdigit _ c hc
  · rw [toList_toString_of_neg (by omega)] at hc
    rcases List.mem_cons.mp hc with rfl | hc
    · decide
    · exact hdigit _ c hc

theorem tokensOfText_valid (state : TextState) {word : String} (hv : Name.isValid word = true)
    {rest : List Char} (hr : ∀ c ∈ rest.head?, isWordChar c = false) :
    tokensOfText state (word.toList ++ rest) =
      state.wordToken word rest :: tokensOfText state.afterWord rest := by
  obtain ⟨hne, hw⟩ := isWordChar_of_isValid hv
  rw [tokensOfText_word state hne hw hr, String.ofList_toList]

namespace Scans

/-- A valid name before a colon is found as a name, among fields and among arguments. -/
theorem nameColon {state : TextState} (hs : state ≠ .start) {name : String}
    (hn : Name.isValid name = true) {tokens : List Token} (h : Scans state tokens) :
    Scans state (.name name :: .colon :: tokens) := by
  intro rest hr
  have htext : textOfTokens (.name name :: .colon :: tokens) ++ rest =
      name.toList ++ ':' :: (textOfTokens tokens ++ rest) := by
    rw [textOfTokens_cons, textOfTokens_cons, List.append_assoc, List.append_assoc]
    rfl
  have hfound : ∀ text, state.wordToken name (':' :: text) = .name name ∧
      state.afterWord = state := by
    intro text
    cases state with
    | start => exact absurd rfl hs
    | selection => exact ⟨rfl, rfl⟩
    | arguments => exact ⟨rfl, rfl⟩
  have hcolon := tokensOfText_punctuation state (c := ':') rfl (by decide) (by decide)
    (textOfTokens tokens ++ rest)
  obtain ⟨hname, hafter⟩ := hfound (textOfTokens tokens ++ rest)
  rw [htext, tokensOfText_valid state hn, hname, hafter, hcolon]
  · exact congrArg (fun found => Token.name name :: .colon :: found) (h rest hr)
  · intro c hc
    obtain rfl := Option.mem_some.mp hc
    decide

theorem literalWord {word : String} (hne : word.toList ≠ [])
    (hw : ∀ c ∈ word.toList, isWordChar c = true) : Scans .arguments [.literal word] := by
  refine Scans.word rfl hne hw rfl fun rest hr => ?_
  refine if_neg fun hc => ?_
  exact (hr ':' hc).2 rfl

theorem boolToken (value : Bool) : Scans .arguments [boolToken value] := by
  cases value <;> exact literalWord (by decide) (List.all_eq_true.mp rfl)

theorem intToken (value : Int64) : Scans .arguments [intToken value] := by
  obtain ⟨c, cs, ht, _⟩ := exists_toList_toString_eq_cons value.toInt
  refine literalWord (fun he => ?_) fun c => isWordChar_of_mem_toString c
  rw [he] at ht
  cases ht

theorem stringToken {text : String} (h : hasNoQuote text = true) :
    Scans .arguments [stringToken text] := by
  refine quoted ?_
  simpa [hasNoQuote] using h

theorem listTokens {elements : List Token} (h : ∀ element ∈ elements, Scans .arguments [element]) :
    Scans .arguments (listTokens elements) := by
  refine wrapped .square rfl rfl (Scans.commaTokens fun item hi => ?_)
  obtain ⟨element, he, rfl⟩ := List.mem_map.mp hi
  exact h element he

end Scans

/-! ## Values and arguments -/

mutual

theorem Value.scans : ∀ value : Value, value.isClean = true → Scans .arguments value.tokens
  | .bool value, _ => by
    rw [Value.tokens_bool]
    exact Scans.boolToken value
  | .int value, _ => by
    rw [Value.tokens_int]
    exact Scans.intToken value
  | .string text, h => by
    rw [Value.tokens_string]
    exact Scans.stringToken h
  | .regex pattern, h => by
    rw [Value.tokens_regex]
    exact Scans.stringToken h
  | .bools values, _ => by
    rw [Value.tokens_bools]
    refine Scans.listTokens fun element he => ?_
    obtain ⟨value, _, rfl⟩ := List.mem_map.mp he
    exact Scans.boolToken value
  | .ints values, _ => by
    rw [Value.tokens_ints]
    refine Scans.listTokens fun element he => ?_
    obtain ⟨value, _, rfl⟩ := List.mem_map.mp he
    exact Scans.intToken value
  | .strings texts, h => by
    rw [Value.tokens_strings]
    refine Scans.listTokens fun element he => ?_
    obtain ⟨text, ht, rfl⟩ := List.mem_map.mp he
    exact Scans.stringToken (List.all_eq_true.mp h text ht)
  | .object arguments, h => by
    rw [Value.tokens_object]
    exact Scans.wrapped .brace rfl rfl (Scans.commaTokens (Argument.all_scans arguments h))
  | .argument argument, h => by
    rw [Value.tokens_argument]
    exact argument.scans h

theorem Argument.scans : ∀ argument : Argument, argument.isClean = true →
    Scans .arguments argument.tokens
  | .pair name value, h => by
    obtain ⟨hn, hv⟩ := Bool.and_eq_true_iff.mp h
    rw [Argument.tokens_pair]
    exact Scans.nameColon (by decide) hn (value.scans hv)

theorem Argument.all_scans : ∀ arguments : List Argument, Argument.allClean arguments = true →
    ∀ item ∈ arguments.map Argument.tokens, Scans .arguments item
  | [], _ => by simp
  | argument :: arguments, h => by
    obtain ⟨ha, hs⟩ := Bool.and_eq_true_iff.mp h
    rw [List.map_cons, List.forall_mem_cons]
    exact ⟨argument.scans ha, Argument.all_scans arguments hs⟩

end

/-! ## Fields -/

namespace Field

/-- The field itself is clean, and its name and alias are valid. -/
def Legible (f : Field) : Prop :=
  f.isClean = true ∧ Name.isValid f.name = true ∧ ∀ label ∈ f.alias?, Name.isValid label = true

theorem scans_name {name : String} (h : Name.isValid name = true) :
    Scans .selection [.name name] := by
  obtain ⟨hne, hw⟩ := isWordChar_of_isValid h
  exact Scans.word rfl hne hw rfl fun _ _ => rfl

theorem scans_labelTokens {f : Field} (h : f.Legible) : Scans .selection f.labelTokens := by
  obtain ⟨_, hname, halias⟩ := h
  unfold labelTokens
  cases hl : f.alias? with
  | none => exact scans_name hname
  | some label => exact Scans.nameColon (by decide) (halias label hl) (scans_name hname)

theorem scans_argumentPart {f : Field} (h : f.Legible) : Scans .selection f.argumentPart := by
  obtain ⟨hparts, harguments⟩ := Bool.and_eq_true_iff.mp h.1
  obtain ⟨_, hoperators⟩ := Bool.and_eq_true_iff.mp hparts
  have hcommas : f.argumentTokens = commaTokens (f.arguments.map Argument.tokens) :=
    if_pos hoperators
  unfold argumentPart
  split
  · exact Scans.nil
  · rw [hcommas]
    exact Scans.wrapped .paren rfl rfl (Scans.commaTokens (Argument.all_scans _ harguments))

theorem filterPart_of_legible {f : Field} (h : f.Legible) : f.filterPart = [] := by
  obtain ⟨hparts, _⟩ := Bool.and_eq_true_iff.mp h.1
  obtain ⟨hfilter, _⟩ := Bool.and_eq_true_iff.mp hparts
  rw [filterPart, Option.isNone_iff_eq_none.mp hfilter]

theorem scans_childPart {children : List Field}
    (h : ∀ item ∈ children.map tokens, Scans .selection item) :
    Scans .selection (childPart children) := by
  unfold childPart
  split
  · exact Scans.nil
  · exact Scans.wrapped .brace rfl rfl (Scans.commaTokens h)

theorem endsWord_argumentPart (f : Field) {rest : List Char} (hr : EndsWord rest) :
    EndsWord (textOfTokens f.argumentPart ++ rest) := by
  unfold argumentPart
  split
  · exact hr
  · exact endsWord_cons (by decide) (by decide) _

theorem endsWord_childPart (children : List Field) {rest : List Char} (hr : EndsWord rest) :
    EndsWord (textOfTokens (childPart children) ++ rest) := by
  unfold childPart
  split
  · exact hr
  · exact endsWord_cons (by decide) (by decide) _

theorem scans_of_children {f : Field} (hf : f.Legible)
    (h : ∀ item ∈ f.children.map tokens, Scans .selection item) : Scans .selection f.tokens := by
  rw [tokens_eq, filterPart_of_legible hf, List.append_nil]
  refine Scans.append ?_ (scans_childPart h) fun _ => endsWord_childPart f.children
  exact (scans_labelTokens hf).append (scans_argumentPart hf) fun _ => f.endsWord_argumentPart

mutual

theorem scans : ∀ f : Field, (∀ g ∈ f.preorder, g.Legible) → Scans .selection f.tokens
  | ⟨_, _, _, children, _, _, _⟩, h => by
    rw [preorder] at h
    obtain ⟨hf, hc⟩ := List.forall_mem_cons.mp h
    exact scans_of_children hf (all_scans children hc)

theorem all_scans : ∀ fields : List Field, (∀ g ∈ preorderAll fields, g.Legible) →
    ∀ item ∈ fields.map tokens, Scans .selection item
  | [], _ => by simp
  | field :: fields, h => by
    rw [preorderAll] at h
    obtain ⟨hf, hs⟩ := List.forall_mem_append.mp h
    rw [List.map_cons, List.forall_mem_cons]
    exact ⟨field.scans hf, all_scans fields hs⟩

end

end Field

/-! ## Operations -/

namespace Operation

theorem legible_of_validate {o : Operation} (hk : o.kind ≠ .graphPattern)
    (h : o.validate = .ok ()) (hc : o.isClean = true) :
    ∀ f ∈ Field.preorderAll o.fields, f.Legible := fun f hf =>
  ⟨List.all_eq_true.mp hc f hf, names_of_validate hk h f hf⟩

/-- The header is found in front of what does not go on with a word. -/
theorem tokensOfText_header {o : Operation} (hk : o.kind ≠ .graphPattern)
    (h : o.validate = .ok ()) {rest : List Char} (hr : ∀ c ∈ rest.head?, isWordChar c = false) :
    tokensOfText .start (textOfTokens o.header ++ rest) =
      o.header ++ tokensOfText .selection rest := by
  obtain ⟨keyword, hkeyword, hvalid⟩ := exists_keyword hk
  have hname := name_of_validate h
  unfold header
  rw [hkeyword]
  cases hn : o.name? with
  | none =>
    have htext : textOfTokens [.keyword keyword] ++ rest = keyword.toList ++ rest := by
      rw [textOfTokens_cons, textOfTokens_nil, List.append_nil]
      rfl
    rw [htext, tokensOfText_valid .start hvalid hr]
    rfl
  | some name =>
    have htext : textOfTokens [.keyword keyword, .space, .name name] ++ rest =
        keyword.toList ++ ' ' :: (name.toList ++ rest) := by
      rw [textOfTokens_cons, textOfTokens_cons, textOfTokens_cons, textOfTokens_nil,
        List.append_nil, List.append_assoc, List.append_assoc]
      rfl
    have hspace : ∀ text, tokensOfText .selection (' ' :: text) =
        .space :: tokensOfText .selection text :=
      tokensOfText_punctuation .selection rfl (by decide) (by decide)
    rw [htext, tokensOfText_valid .start hvalid, TextState.afterWord, hspace,
      tokensOfText_valid .selection (hname name hn) hr]
    · rfl
    · intro c hc
      obtain rfl := Option.mem_some.mp hc
      decide

/-- The tokens of a clean operation are found in its text. -/
theorem tokensOfText_render {o : Operation} (hk : o.kind ≠ .graphPattern)
    (h : o.validate = .ok ()) (hc : o.isClean = true) :
    tokensOfText .start o.render.toList = o.tokens := by
  have hfields := Field.all_scans o.fields (legible_of_validate hk h hc)
  have hbody : Scans .selection (.braceOpen ::
      (commaTokens (o.fields.map Field.tokens) ++ [.braceClose])) :=
    Scans.wrapped .brace rfl rfl (Scans.commaTokens hfields)
  have hfound := hbody [] (by simp [EndsWord])
  have hend : tokensOfText .selection [] = [] := by rw [tokensOfText]
  rw [List.append_nil, hend, List.append_nil] at hfound
  rw [o.toList_render, tokens_eq, textOfTokens_append, tokensOfText_header hk h, hfound]
  intro c hc
  obtain rfl := Option.mem_some.mp hc
  decide

/-- Valid clean operations with a keyword have the same text exactly when they are the same up to
what tokens do not show. -/
theorem render_eq_iff {a b : Operation} (ha : a.validate = .ok ()) (hb : b.validate = .ok ())
    (hka : a.kind ≠ .graphPattern) (hkb : b.kind ≠ .graphPattern) (hca : a.isClean = true)
    (hcb : b.isClean = true) : a.render = b.render ↔ a.visible = b.visible := by
  constructor
  · intro h
    have htokens : a.tokens = b.tokens := by
      rw [← tokensOfText_render hka ha hca, h, tokensOfText_render hkb hb hcb]
    exact visible_eq_of_tokens (plain_fields ha (callFree_of_isClean hca))
      (plain_fields hb (callFree_of_isClean hcb)) htokens
  · intro h
    have htext : ∀ o : Operation, o.render.toList = textOfTokens o.tokens :=
      fun o => o.stream.toList_text
    rw [← String.toList_inj, htext, htext, ← tokens_visible a, h, tokens_visible]

/-- A query whose strings hold punctuation, and whose names read like literals. -/
def punctuated (tags pattern : Value) (isFunction : Bool) : Operation where
  kind := .query
  name := "Q"
  fields := [{
    alias? := some "true"
    name := "user"
    arguments := [.int "id" (-1), .pair "tags" tags,
      .object "name" [.pair "like" (.argument (.pair "false" pattern))]]
    isFunction
    children := [.new "true", { name := "pets", children := [.new "age"] }] }]

theorem render_punctuated :
    let a := punctuated (.bools []) (.regex "\x7d):,\x7b[\\\n") true
    let b := punctuated (.ints []) (.string "\x7d):,\x7b[\\\n") false
    let c := punctuated (.strings [","]) (.string "\x7d):,\x7b[\\\n") false
    (a ≠ b ∧ a.render = b.render) ∧ a.render ≠ c.render := by
  intro a b c
  have ha : a.validate = .ok () := by decide
  have hb : b.validate = .ok () := by decide
  have hc : c.validate = .ok () := by decide
  have hk : OperationKind.query ≠ .graphPattern := by decide
  have hab : a.visible = b.visible := by decide
  have hac : a.visible ≠ c.visible := by decide
  have hclean : a.isClean = true ∧ b.isClean = true ∧ c.isClean = true := by decide
  exact ⟨⟨by decide, (render_eq_iff ha hb hk hk hclean.1 hclean.2.1).mpr hab⟩,
    mt (render_eq_iff ha hc hk hk hclean.1 hclean.2.2).mp hac⟩

end Operation

end GraphDoc
