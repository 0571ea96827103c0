import GraphDoc.Proofs.ExistenceCalls
import GraphDoc.Proofs.IntegerText

/-!
# Documents as plain text

A document is rendered by pulling tokens through nested streams. Here its text is given by recursion
on the tree alone, without tokens: which parts are there, in which order, and what stands between
them. Values are written in another way inside a call, but a call is the same text everywhere.
-/
namespace GraphDoc

/-! ## Text by recursion -/

def quotedText (text : String) : String := "\"" ++ text ++ "\""

def boolText (value : Bool) : String := if value then "true" else "false"

/-- The decimal text, behind a minus where the number is negative. -/
def decimalText (value : Int64) : String :=
  if value.toInt < 0 then "-" ++ Nat.repr value.toInt.natAbs else Nat.repr value.toInt.natAbs

def listText (items : List String) : String := "[" ++ String.intercalate "," items ++ "]"

def bracesText (items : List String) : String := "\x7b" ++ String.intercalate "," items ++ "\x7d"

/-- Items behind an operator each, as long as operators last; the others stand bare. -/
def gapText : List String → List String → String
  | _, [] => ""
  | [], item :: items => item ++ gapText [] items
  | operator :: operators, item :: items =>
    " " ++ operator ++ " " ++ item ++ gapText operators items

/-- Items with operators in the gaps between them; operators without a gap are not used. -/
def operatorText (operators : List String) : List String → String
  | [] => ""
  | item :: items => item ++ gapText operators items

/-- Where a value stands: in the body of a call, in that of an existence call, or in neither. -/
inductive Place where
  | outside
  | inCall
  | inExistence
deriving DecidableEq, Repr

mutual

/-- The text of a value where it stands. Objects have braces only outside of calls. -/
def Value.printIn (place : Place) : Value → String
  | .bool value => boolText value
  | .int value => decimalText value
  | .string text | .regex text => quotedText text
  | .bools values => listText (values.map boolText)
  | .ints values => listText (values.map decimalText)
  | .strings texts => listText (texts.map quotedText)
  | .object arguments =>
    if place = .outside then bracesText (Argument.printsIn place arguments)
    else String.intercalate "," (Argument.printsIn place arguments)
  | .argument argument => argument.printIn place

def Argument.printIn (place : Place) : Argument → String
  | .pair name value =>
    match place with
    | .outside => name ++ ":" ++ value.printIn .outside
    | .inCall => name ++ "," ++ value.printIn .inCall
    | .inExistence => name
  | .call name value =>
    name ++ "(" ++ value.printIn (if name = "has" then .inExistence else .inCall) ++ ")"

/-- In an existence call there is nothing after the first pair. -/
def Argument.printsIn (place : Place) : List Argument → List String
  | [] => []
  | argument :: arguments =>
    argument.printIn place ::
      if place = .inExistence ∧ argument.isCall = false then [] else
        Argument.printsIn place arguments

end

def Value.print (value : Value) : String := value.printIn .outside

def Argument.print (argument : Argument) : String := argument.printIn .outside

def Clause.print (clause : Clause) : String :=
  operatorText clause.operators (clause.predicates.map Argument.print)

namespace Field

def printLabel (f : Field) : String :=
  match f.alias? with
  | some label => label ++ ":" ++ f.name
  | none => f.name

/-- The arguments without their parentheses, with commas between them where there are no
operators. -/
def printItems (f : Field) : String :=
  if f.argumentOperators = [] then String.intercalate "," (f.arguments.map Argument.print)
  else operatorText f.argumentOperators (f.arguments.map Argument.print)

def printArguments (f : Field) : String :=
  if f.arguments = [] then "" else "(" ++ f.printItems ++ ")"

def printFilter (f : Field) : String :=
  match f.filter with
  | some clause => "@filter(" ++ clause.print ++ ")"
  | none => ""

mutual

def print : Field → String
  | f@⟨_, _, _, children, _, _, _⟩ =>
    f.printLabel ++ f.printArguments ++ f.printFilter ++
      if children.isEmpty then "" else bracesText (prints children)

def prints : List Field → List String
  | [] => []
  | field :: fields => field.print :: prints fields

end

end Field

namespace Operation

/-- Keyword and name, with a space between them where there are both. -/
def printHeader (o : Operation) : String :=
  match o.kind.keyword? with
  | some keyword => keyword ++ (if o.name = "" then "" else " ") ++ o.name
  | none => o.name

def print (o : Operation) : String := o.printHeader ++ bracesText (o.fields.map Field.print)

end Operation

/-! ## Rendered values and arguments -/

theorem toList_bracesText (items : List (List Token)) {texts : List String}
    (h : items.map textOfTokens = texts.map String.toList) :
    textOfTokens (.braceOpen :: (commaTokens items ++ [.braceClose])) =
      (bracesText texts).toList := by
  rw [textOfTokens_cons, textOfTokens_append, textOfTokens_commaTokens, h, bracesText]
  simp [Token.shown, Token.text]

theorem Token.shown_intToken (value : Int64) : (intToken value).shown = decimalText value := by
  change toString value.toInt = decimalText value
  rw [← String.toList_inj]
  unfold decimalText
  by_cases h : value.toInt < 0
  · have habs : value.toInt.natAbs = (-value.toInt).toNat := by omega
    rw [if_pos h, toList_toString_of_neg h, habs, String.toList_append, Nat.toList_repr]
    rfl
  · have habs : value.toInt.natAbs = value.toInt.toNat := by omega
    rw [if_neg h, toList_toString_of_nonneg (Int.not_lt.mp h), habs, Nat.toList_repr]

namespace Value

theorem render_of_singleton {value : Value} {token : Token} (h : value.tokens = [token]) :
    value.render = token.shown := by
  rw [← String.toList_inj, toList_render, h, textOfTokens_cons, textOfTokens_nil, List.append_nil]

theorem render_object (arguments : List Argument) :
    (object arguments).render = bracesText (arguments.map Argument.render) := by
  rw [← String.toList_inj, toList_render, tokens_object]
  exact toList_bracesText _ (Argument.map_textOfTokens_tokens arguments)

theorem render_argument (arg : Argument) : (argument arg).render = arg.render := by
  rw [← String.toList_inj, toList_render, tokens_argument, arg.toList_render]

end Value

theorem Argument.render_pair (name : String) (value : Value) :
    (pair name value).render = name ++ ":" ++ value.render := by
  rw [← String.toList_inj, toList_render, tokens_pair, textOfTokens_cons, textOfTokens_cons,
    ← value.toList_render]
  simp [Token.shown, Token.text]

/-- In each place, the value is written as its text there. -/
structure Value.Printed (value : Value) : Prop where
  outside : value.render = value.printIn .outside
  inCall : value.flat = value.printIn .inCall
  inExistence : textOfTokens (callTokens true value.tokens) = (value.printIn .inExistence).toList

structure Argument.Printed (argument : Argument) : Prop where
  outside : argument.render = argument.printIn .outside
  inCall : argument.flat = argument.printIn .inCall
  inExistence :
    textOfTokens (callTokens true argument.tokens) = (argument.printIn .inExistence).toList

/-- A value without arguments is the same text everywhere. -/
theorem Value.printed_of_literals {value : Value} {text : String}
    (hobject : ∀ arguments, value ≠ .object arguments)
    (hargument : ∀ argument, value ≠ .argument argument) (hflat : value.flat = value.render)
    (hprint : ∀ place, value.printIn place = text) (h : value.render = text) : value.Printed := by
  refine ⟨h.trans (hprint _).symm, hflat.trans (h.trans (hprint _).symm), ?_⟩
  rw [callTokens_of_stays (Value.staysInCall_of_literals hobject hargument), ← value.toList_render,
    h, hprint]

theorem Value.printed_of_list {value : Value} {elements : List Token}
    (hobject : ∀ arguments, value ≠ .object arguments)
    (hargument : ∀ argument, value ≠ .argument argument) (hflat : value.flat = value.render)
    (htokens : value.tokens = listTokens elements)
    (hprint : ∀ place, value.printIn place = listText (elements.map Token.shown)) :
    value.Printed :=
  Value.printed_of_literals hobject hargument hflat hprint (Value.render_of_listTokens htokens)

theorem Argument.printed_pair (name : String) {value : Value} (h : value.Printed) :
    (pair name value).Printed := by
  refine ⟨?_, ?_, ?_⟩
  · rw [render_pair, h.outside]
    rfl
  · rw [flat, h.inCall]
    rfl
  · have hpair := callTokens_pair name value []
    rw [List.append_nil] at hpair
    rw [hpair, textOfTokens_cons, textOfTokens_nil, List.append_nil]
    rfl

theorem Argument.render_call {value : Value} (h : value.Printed) (name : String) :
    (call name value).render =
      name ++ "(" ++ value.printIn (if name = "has" then .inExistence else .inCall) ++ ")" := by
  have hbody : textOfTokens (callTokens (name == existenceFunction) value.tokens) =
      (value.printIn (if name = "has" then .inExistence else .inCall)).toList := by
    by_cases hname : name = "has"
    · have hbeq : (name == existenceFunction) = true := beq_iff_eq.mpr hname
      rw [if_pos hname, hbeq, h.inExistence]
    · have hbeq : (name == existenceFunction) = false := beq_false_of_ne hname
      rw [if_neg hname, hbeq, value.textOfTokens_flat, h.inCall]
  rw [← String.toList_inj, toList_render_call, hbody]
  simp

theorem Argument.printed_call {value : Value} (h : value.Printed) (name : String) :
    (call name value).Printed := by
  have hrender := render_call h name
  refine ⟨hrender, hrender, ?_⟩
  rw [callTokens_of_stays (staysInCall_call name value), ← toList_render, hrender]
  rfl

mutual

theorem Value.printed : ∀ value : Value, value.Printed
  | .bool value => Value.printed_of_literals (by simp) (by simp) rfl (fun _ => rfl)
      (Value.render_of_singleton (Value.tokens_bool value))
  | .int value => Value.printed_of_literals (by simp) (by simp) rfl (fun _ => rfl)
      ((Value.render_of_singleton (Value.tokens_int value)).trans (Token.shown_intToken value))
  | .string text => Value.printed_of_literals (by simp) (by simp) rfl (fun _ => rfl)
      (Value.render_of_singleton (Value.tokens_string text))
  | .regex pattern => Value.printed_of_literals (by simp) (by simp) rfl (fun _ => rfl)
      (Value.render_of_singleton (Value.tokens_regex pattern))
  | .bools values =>
    Value.printed_of_list (by simp) (by simp) rfl (Value.tokens_bools values) fun place => by
      rw [List.map_map]
      rfl
  | .ints values =>
    Value.printed_of_list (by simp) (by simp) rfl (Value.tokens_ints values) fun place => by
      have hitems : values.map (Token.shown ∘ intToken) = values.map decimalText :=
        List.map_congr_left fun value _ => Token.shown_intToken value
      rw [List.map_map, hitems]
      rfl
  | .strings texts =>
    Value.printed_of_list (by simp) (by simp) rfl (Value.tokens_strings texts) fun place => by
      rw [List.map_map]
      rfl
  | .object arguments => by
    obtain ⟨hrender, hflats, hkept⟩ := Argument.all_printed arguments
    refine ⟨?_, ?_, ?_⟩
    · rw [Value.render_object, hrender]
      rfl
    · rw [Value.flat, hflats]
      rfl
    · have hprint : (Value.object arguments).printIn .inExistence =
          String.intercalate "," (Argument.printsIn .inExistence arguments) := rfl
      rw [Argument.callTokens_object, textOfTokens_commaTokens, hkept, hprint,
        String.toList_intercalate]
      rfl
  | .argument argument => by
    obtain ⟨hrender, hflat, hkept⟩ := argument.printed
    refine ⟨(Value.render_argument argument).trans hrender, hflat, ?_⟩
    rw [Value.tokens_argument]
    exact hkept

theorem Argument.printed : ∀ argument : Argument, argument.Printed
  | .pair name value => Argument.printed_pair name value.printed
  | .call name value => Argument.printed_call value.printed name

theorem Argument.all_printed : ∀ arguments : List Argument,
    arguments.map Argument.render = Argument.printsIn .outside arguments ∧
    Argument.flats arguments = Argument.printsIn .inCall arguments ∧
    (Argument.keptTokens arguments).map textOfTokens =
      (Argument.printsIn .inExistence arguments).map String.toList
  | [] => ⟨rfl, rfl, rfl⟩
  | argument :: arguments => by
    obtain ⟨hrender, hflat, hkept⟩ := argument.printed
    obtain ⟨hrenders, hflats, hkepts⟩ := Argument.all_printed arguments
    refine ⟨?_, ?_, ?_⟩
    · rw [List.map_cons, hrender, hrenders]
      rfl
    · rw [Argument.flats, hflat, hflats]
      rfl
    · cases argument with
      | pair name value =>
        simp [Argument.keptTokens, Argument.printsIn, Argument.printIn, Argument.isCall,
          Token.shown, Token.text]
      | call name value =>
        rw [Argument.keptTokens, List.map_cons, hkepts]
        rw [callTokens_of_stays (Argument.staysInCall_call name value)] at hkept
        rw [hkept]
        rfl

end

theorem Value.render_eq_print (value : Value) : value.render = value.print :=
  value.printed.outside

theorem Argument.render_eq_print (argument : Argument) : argument.render = argument.print :=
  argument.printed.outside

/-! ## Rendered clauses, fields and operations -/

theorem toList_gapText (operators : List String) (arguments : List Argument) :
    textOfTokens (gapTokens (arguments.map Argument.tokens) (.finite (operators.map .operator))) =
      (gapText operators (arguments.map Argument.print)).toList := by
  induction arguments generalizing operators with
  | nil => simp [gapTokens, gapText]
  | cons argument arguments ih =>
    have hargument := argument.toList_render
    rw [argument.render_eq_print] at hargument
    cases operators with
    | nil =>
      have hlater := ih []
      rw [List.map_cons, List.map_cons, gapText, String.toList_append, ← hlater, hargument,
        ← textOfTokens_append]
      rfl
    | cons operator operators =>
      rw [List.map_cons, List.map_cons, List.map_cons, gapTokens_finite_cons, textOfTokens_cons,
        textOfTokens_append, ih operators, ← hargument, gapText]
      simp [Token.shown]

theorem toList_operatorText (operators : List String) (arguments : List Argument) :
    textOfTokens (operatorTokens operators arguments) =
      (operatorText operators (arguments.map Argument.print)).toList := by
  cases arguments with
  | nil => rfl
  | cons argument arguments =>
    rw [operatorTokens, List.map_cons, interleavedTokens, textOfTokens_append, toList_gapText,
      ← argument.toList_render, argument.render_eq_print, ← String.toList_append]
    rfl

theorem Clause.render_eq_print (clause : Clause) : clause.render = clause.print := by
  rw [← String.toList_inj, clause.toList_render, tokens_eq, toList_operatorText, print]

namespace Field

theorem toList_render (f : Field) : f.render.toList = textOfTokens f.tokens :=
  f.stream.toList_text

theorem toList_printLabel (f : Field) : textOfTokens f.labelTokens = f.printLabel.toList := by
  unfold labelTokens printLabel
  cases f.alias? <;> simp [Token.shown, Token.text]

theorem toList_printItems (f : Field) : textOfTokens f.argumentTokens = f.printItems.toList := by
  unfold argumentTokens printItems
  by_cases h : f.argumentOperators = []
  · have hprints := List.map_congr_left (l := f.arguments) fun argument _ =>
      argument.render_eq_print
    rw [if_pos (List.isEmpty_iff.mpr h), if_pos h, textOfTokens_commaTokens,
      Argument.map_textOfTokens_tokens, hprints, String.toList_intercalate]
    rfl
  · rw [if_neg (mt List.isEmpty_iff.mp h), if_neg h, toList_operatorText]

theorem toList_printArguments (f : Field) :
    textOfTokens f.argumentPart = f.printArguments.toList := by
  unfold argumentPart printArguments
  by_cases h : f.arguments = []
  · rw [if_pos (List.isEmpty_iff.mpr h), if_pos h]
    rfl
  · rw [if_neg (mt List.isEmpty_iff.mp h), if_neg h, textOfTokens_cons, textOfTokens_append,
      toList_printItems]
    simp [Token.shown, Token.text]

theorem toList_printFilter (f : Field) : textOfTokens f.filterPart = f.printFilter.toList := by
  unfold filterPart printFilter
  cases f.filter with
  | none => rfl
  | some clause =>
    simp only [textOfTokens_cons, textOfTokens_append, ← clause.toList_render,
      clause.render_eq_print]
    simp [Token.shown, Token.text]

theorem print_eq (f : Field) : f.print = f.printLabel ++ f.printArguments ++ f.printFilter ++
    if f.children.isEmpty then "" else bracesText (prints f.children) := by
  cases f
  rw [print]

theorem render_eq_print_of_children (f : Field) (h : f.children.map render = prints f.children) :
    f.render = f.print := by
  have hitems : (f.children.map tokens).map textOfTokens =
      (prints f.children).map String.toList := by
    rw [← h, List.map_map, List.map_map]
    exact List.map_congr_left fun child _ => child.toList_render.symm
  have hchildren : textOfTokens (childPart f.children) =
      (if f.children.isEmpty then "" else bracesText (prints f.children)).toList := by
    unfold childPart
    split
    · rfl
    · exact toList_bracesText _ hitems
  rw [← String.toList_inj, toList_render, tokens_eq, print_eq, textOfTokens_append,
    textOfTokens_append, textOfTokens_append, toList_printLabel, toList_printArguments,
    toList_printFilter, hchildren]
  simp only [String.toList_append]

mutual

theorem render_eq_print : ∀ f : Field, f.render = f.print
  | ⟨_, _, _, children, _, _, _⟩ => render_eq_print_of_children _ (map_render children)

theorem map_render : ∀ fields : List Field, fields.map render = prints fields
  | [] => rfl
  | field :: fields => by
    rw [List.map_cons, field.render_eq_print, map_render fields]
    rfl

end

end Field

theorem Operation.toList_printHeader (o : Operation) :
    textOfTokens o.header = o.printHeader.toList := by
  unfold header printHeader name?
  by_cases h : o.name = "" <;> cases o.kind.keyword? <;> simp [h, Token.shown, Token.text]

/-- Every document is rendered as its plain text, and so is every part of it; a call has the text
that it is rendered as by itself, wherever it stands. -/
theorem documents_printed :
    (∀ o : Operation, o.render = o.print) ∧
    (∀ f : Field, f.render = f.print) ∧
    (∀ clause : Clause, clause.render = clause.print) ∧
    (∀ value : Value, value.render = value.print) ∧
    (∀ argument : Argument, argument.render = argument.print) ∧
    (∀ (place : Place) (name : String) (value : Value),
      (Argument.call name value).printIn place = (Argument.call name value).render) := by
  refine ⟨?_, Field.render_eq_print, Clause.render_eq_print, Value.render_eq_print,
    Argument.render_eq_print, fun _ name value => (Argument.render_call value.printed name).symm⟩
  intro o
  have hitems : (o.fields.map Field.tokens).map textOfTokens =
      (o.fields.map Field.print).map String.toList := by
    rw [List.map_map, List.map_map]
    refine List.map_congr_left fun f _ => ?_
    rw [Function.comp_apply, Function.comp_apply, ← f.toList_render, f.render_eq_print]
  rw [← String.toList_inj, o.toList_render, Operation.tokens_eq, textOfTokens_append,
    toList_bracesText _ hitems, o.toList_printHeader, Operation.print, String.toList_append]

end GraphDoc
