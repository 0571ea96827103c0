import GraphDoc.Proofs.NodeSpelling
import GraphDoc.Proofs.RoundTrip

/-!
# Descriptions are spellings

What is written of a node is one of its spellings: objects with all their keys in order, and no
blanks. So each node has a spelling, and the depth that is counted in it is the nesting of its text.
-/
namespace GraphDoc

open Json

/-! ## Strings, lists, records and variants -/

namespace Json

/-- The written value is a spelling, as deep as the value is nested. -/
def Spelled (spelling : Spelling) (json : Json) : Prop := spelling json.write json.nesting

theorem spellsChar_escapeChar (c : Char) : SpellsChar c (escapeChar c) := by
  rcases escapeChar_cases c with ⟨e, hw, he, _⟩ | ⟨hw, hc⟩ | ⟨hw, hquote, hslash, hc⟩
  · rw [hw]
    exact .letter he
  · have hn : c.toNat < 32 := hc
    have hzero : hexValue? '0' = some 0 := rfl
    have hhigh : hexValue? (hexDigit (c.toNat / 16)) = some (c.toNat / 16) :=
      hexValue?_hexDigit (by omega)
    have hlow : hexValue? (hexDigit (c.toNat % 16)) = some (c.toNat % 16) :=
      hexValue?_hexDigit (by omega)
    have hcode : ((0 * 16 + 0) * 16 + c.toNat / 16) * 16 + c.toNat % 16 = c.toNat := by omega
    have hdigits := HexCode.digits hzero hzero hhigh hlow
    rw [hcode] at hdigits
    rw [hw]
    exact .code hdigits
  · rw [hw]
    exact .plain hquote hslash hc

theorem spellsChars_flatMap (cs : List Char) : SpellsChars cs (cs.flatMap escapeChar) := by
  induction cs with
  | nil => exact .nil
  | cons c cs ih => exact .cons (spellsChar_escapeChar c) ih

theorem spelled_string (text : String) : Spelled (SpelledString text) (.string text) :=
  .quoted (spellsChars_flatMap text.toList)

theorem spelled_scalar {json : Json} (h : json.nesting = 0) : Spelled (Written json) json := by
  rw [Spelled, h]
  exact .compact

theorem writeMoreElements_eq (elements : List Json) :
    writeMoreElements elements = compactList false (elements.map write) := by
  induction elements with
  | nil => rfl
  | cons element elements ih => rw [writeMoreElements, ih]; rfl

theorem writeElements_eq (elements : List Json) :
    writeElements elements = compactList true (elements.map write) := by
  cases elements with
  | nil => rfl
  | cons element elements => rw [writeElements, writeMoreElements_eq]; rfl

section

variable {α : Type} {spell : α → Spelling} {toJson : α → Json} {as : List α}

theorem spelledEach (h : ∀ a ∈ as, Spelled (spell a) (toJson a)) :
    SpelledEach (as.map spell) ((as.map toJson).map write) (nestingAll (as.map toJson)) := by
  induction as with
  | nil => exact .nil
  | cons a as ih =>
    obtain ⟨ha, has⟩ := List.forall_mem_cons.mp h
    exact .cons ha (ih has)

theorem spelled_list (h : ∀ a ∈ as, Spelled (spell a) (toJson a)) :
    Spelled (SpelledList (as.map spell)) (.array (as.map toJson)) := by
  rw [Spelled, write, writeElements_eq]
  exact .compact (spelledEach h)

end

/-- The text of a written member, taken apart. -/
def writtenMember (member : String × Json) : MemberText where
  key := member.1.toList.flatMap escapeChar
  value := member.2.write

theorem text_writtenMember (member : String × Json) :
    (writtenMember member).text = writeMember member := by
  obtain ⟨key, value⟩ := member
  simp [writtenMember, MemberText.text, writeMember, writeString]

theorem named_writtenMember (member : String × Json) : (writtenMember member).Named member.1 where
  before := List.forall_mem_nil _
  after := List.forall_mem_nil _
  key := spellsChars_flatMap member.1.toList

theorem writeMoreMembers_eq (members : List (String × Json)) :
    writeMoreMembers members =
      compactList false ((members.map writtenMember).map MemberText.text) := by
  induction members with
  | nil => rfl
  | cons member members ih =>
    rw [writeMoreMembers, ih, ← text_writtenMember]
    rfl

theorem writeMembers_eq (members : List (String × Json)) :
    writeMembers members = compactList true ((members.map writtenMember).map MemberText.text) := by
  cases members with
  | nil => rfl
  | cons member members =>
    rw [writeMembers, writeMoreMembers_eq, ← text_writtenMember]
    rfl

theorem holds_members (members : List (String × Json)) :
    Enclosure.object.Holds ((members.map writtenMember).map MemberText.text)
      (Json.object members).write := by
  rw [write, writeMembers_eq]
  exact .listed (.compact true _)

/-- Members that spell the parts, each in its place. -/
inductive SpelledInOrder : List PartSpelling → List (String × Json) → Prop
  | nil : SpelledInOrder [] []
  | cons {p : PartSpelling} {parts : List PartSpelling} {json : Json}
    {members : List (String × Json)} (first : Spelled p.value json)
    (more : SpelledInOrder parts members) : SpelledInOrder (p :: parts) ((p.key, json) :: members)

theorem SpelledInOrder.members {parts : List PartSpelling} {members : List (String × Json)}
    (h : SpelledInOrder parts members) (known : List String) :
    SpelledMembers known parts ((members.map writtenMember).map MemberText.text)
      (nestingMembers members) := by
  induction h with
  | nil => exact .nil (List.forall_mem_nil _)
  | @cons p parts json members first _ ih =>
    exact .part [] parts p (named_writtenMember (p.key, json)) first ih

theorem spelled_record {parts : List PartSpelling} {members : List (String × Json)}
    (h : SpelledInOrder parts members) : Spelled (SpelledRecord parts) (.object members) :=
  .object (h.members _) (holds_members members)

theorem spelled_variant {name : String} {content : Spelling} {json : Json}
    (h : Spelled content json) :
    Spelled (SpelledVariant name content) (.object [(name, json)]) := by
  have hnesting : (Json.object [(name, json)]).nesting = json.nesting + 1 := by
    simp [nesting, nestingMembers, nestingMember]
  rw [Spelled, hnesting]
  exact .object (named_writtenMember (name, json)) h (holds_members [(name, json)])

end Json

/-! ## Nodes -/

theorem Argument.spelled_of_value (argument : Argument)
    (h : Spelled argument.value.spelling argument.value.toJson) :
    Spelled argument.spelling argument.toJson := by
  rw [toJson_eq, spelling_eq]
  refine spelled_record ?_
  exact .cons (spelled_string _) (.cons h (.cons (spelled_scalar rfl) .nil))

mutual

theorem Value.spelled : ∀ value : Value, Spelled value.spelling value.toJson
  | .bool _ | .int _ => spelled_variant (spelled_scalar rfl)
  | .string text | .regex text => spelled_variant (spelled_string text)
  | .bools _ | .ints _ => spelled_variant (spelled_list fun _ _ => spelled_scalar rfl)
  | .strings _ => spelled_variant (spelled_list fun text _ => spelled_string text)
  | .object arguments => by
    rw [Value.spelling, Value.toJson, Argument.spellings_eq_map, Argument.listToJson_eq_map]
    exact spelled_variant (spelled_list (Argument.all_spelled arguments))
  | .argument argument => spelled_variant argument.spelled

theorem Argument.spelled : ∀ argument : Argument, Spelled argument.spelling argument.toJson
  | .pair name value => Argument.spelled_of_value (.pair name value) value.spelled
  | .call name value => Argument.spelled_of_value (.call name value) value.spelled

theorem Argument.all_spelled : ∀ arguments : List Argument, ∀ argument ∈ arguments,
    Spelled argument.spelling argument.toJson
  | [] => by simp
  | argument :: arguments =>
    List.forall_mem_cons.mpr ⟨argument.spelled, Argument.all_spelled arguments⟩

end

theorem spelled_argumentList (arguments : List Argument) :
    Spelled (SpelledList (arguments.map Argument.spelling))
      (.array (Argument.listToJson arguments)) := by
  rw [Argument.listToJson_eq_map]
  exact spelled_list (Argument.all_spelled arguments)

theorem spelled_strings (texts : List String) :
    Spelled (SpelledList (texts.map SpelledString)) (.ofStrings texts) :=
  spelled_list fun text _ => spelled_string text

theorem Clause.spelled (clause : Clause) : Spelled clause.parts.spelling clause.toJson :=
  spelled_record <| .cons (spelled_strings clause.operators) <|
    .cons (spelled_argumentList clause.predicates) .nil

theorem spelled_optionalString (text? : Option String) :
    Spelled (optionalSpelling (text?.map SpelledString)) (text?.elim .null .string) := by
  cases text? with
  | none => exact spelled_scalar rfl
  | some text => exact spelled_string text

theorem spelled_optionalClause (filter : Option Clause) :
    Spelled (optionalSpelling ((filter.map Clause.parts).map ClauseParts.spelling))
      (filter.elim .null Clause.toJson) := by
  cases filter with
  | none => exact spelled_scalar rfl
  | some clause => exact clause.spelled

namespace Field

theorem allParts_eq_map (fields : List Field) : allParts fields = fields.map parts := by
  induction fields with
  | nil => rfl
  | cons field fields ih => rw [allParts, ih, List.map_cons]

theorem spelled_list {fields : List Field}
    (h : ∀ f ∈ fields, Spelled f.parts.spelling f.toJson) :
    Spelled (SpelledList ((allParts fields).map FieldParts.spelling))
      (.array (listToJson fields)) := by
  rw [allParts_eq_map, listToJson_eq_map, List.map_map]
  exact Json.spelled_list h

theorem spelled_of_children (f : Field)
    (h : ∀ child ∈ f.children, Spelled child.parts.spelling child.toJson) :
    Spelled f.parts.spelling f.toJson := by
  obtain ⟨label?, operators, arguments, children, filter, isFunction, name⟩ := f
  rw [FieldParts.spelling_eq, parts, toJson]
  refine spelled_record ?_
  refine .cons (spelled_optionalString label?) ?_
  refine .cons (spelled_strings operators) ?_
  refine .cons (spelled_argumentList arguments) ?_
  refine .cons (spelled_list h) ?_
  refine .cons (spelled_optionalClause filter) ?_
  exact .cons (spelled_scalar rfl) (.cons (spelled_string name) .nil)

mutual

theorem spelled : ∀ f : Field, Spelled f.parts.spelling f.toJson
  | ⟨_, _, _, children, _, _, _⟩ => spelled_of_children _ (all_spelled children)

theorem all_spelled : ∀ fields : List Field, ∀ f ∈ fields, Spelled f.parts.spelling f.toJson
  | [] => by simp
  | field :: fields => List.forall_mem_cons.mpr ⟨field.spelled, all_spelled fields⟩

end

end Field

theorem Operation.spelled (o : Operation) : Spelled o.parts.spelling o.toJson :=
  spelled_record <| .cons (Field.spelled_list (Field.all_spelled o.fields)) <|
    .cons (.inl (spelled_string o.kind.name)) <| .cons (spelled_string o.name) .nil

theorem Json.Spelled.text {spelling : Spelling} {json : Json} (h : Spelled spelling json) :
    Spells spelling json.text (textNesting json.text) := by
  have hblank : Blanks [] := List.forall_mem_nil _
  have htext : json.text.toList = [] ++ (json.write ++ []) := by
    rw [Json.text, String.toList_ofList, List.append_nil]
    rfl
  rw [textNesting_text]
  exact .between hblank h hblank htext

/-- The description of a node is one of its spellings. -/
theorem descriptions_spelled :
    (∀ value : Value, Spells value.spelling value.description (textNesting value.description)) ∧
    (∀ argument : Argument,
      Spells argument.spelling argument.description (textNesting argument.description)) ∧
    (∀ clause : Clause,
      Spells clause.parts.spelling clause.description (textNesting clause.description)) ∧
    (∀ f : Field, Spells f.parts.spelling f.description (textNesting f.description)) ∧
    (∀ o : Operation, Spells o.parts.spelling o.description (textNesting o.description)) :=
  ⟨fun value => value.spelled.text, fun argument => argument.spelled.text,
    fun clause => clause.spelled.text, fun f => f.spelled.text, fun o => o.spelled.text⟩

end GraphDoc
