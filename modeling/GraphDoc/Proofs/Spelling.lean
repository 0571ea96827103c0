import GraphDoc.Proofs.JsonGrammar

/-!
# Spellings

The ways to write a string, a list, a record or a variant as JSON. A record may be an object, with
its keys in any order, keys that may be left out missing and unknown keys anywhere, or an array of
its parts in their order that may end where all the others may be left out. Each part may be spelled
in its own way again.
-/
namespace GraphDoc.Json

/-- The texts that spell something, each with the number of arrays and objects that stand inside one
another in it. What stands at an unknown key does not count. -/
abbrev Spelling := List Char → Nat → Prop

/-! ## Scalars -/

/-- The ways to write a character inside a string. -/
inductive SpellsChar : Char → List Char → Prop
  | plain {c : Char} (quote : c ≠ '"') (slash : c ≠ '\\') (control : ¬ c < ' ') : SpellsChar c [c]
  | letter {c d : Char} (stands : simpleEscape? c = some d) : SpellsChar d ['\\', c]
  | code {c : Char} {digits : List Char} (hex : HexCode c.toNat digits) :
    SpellsChar c ('\\' :: 'u' :: digits)
  | pair {c : Char} {high low : Nat} {first second : List Char} (hexHigh : HexCode high first)
    (hexLow : HexCode low second) (isHigh : 0xD800 ≤ high ∧ high ≤ 0xDBFF)
    (isLow : 0xDC00 ≤ low ∧ low ≤ 0xDFFF)
    (stands : c.toNat = (high - 0xD800) * 0x400 + (low - 0xDC00) + 0x10000) :
    SpellsChar c ('\\' :: 'u' :: (first ++ '\\' :: 'u' :: second))

inductive SpellsChars : List Char → List Char → Prop
  | nil : SpellsChars [] []
  | cons {c : Char} {cs text texts : List Char} (first : SpellsChar c text)
    (more : SpellsChars cs texts) : SpellsChars (c :: cs) (text ++ texts)

/-- No character of the text needs an escape. -/
def Unescaped (text : List Char) : Prop := ∀ c ∈ text, c ≠ '"' ∧ c ≠ '\\' ∧ ¬ c < ' '

instance (text : List Char) : Decidable (Unescaped text) :=
  List.decidableBAll (fun c => c ≠ '"' ∧ c ≠ '\\' ∧ ¬ c < ' ') text

/-- Characters that need no escape spell themselves. -/
theorem SpellsChars.plain {cs : List Char} (h : Unescaped cs) : SpellsChars cs cs := by
  induction cs with
  | nil => exact .nil
  | cons c cs ih =>
    obtain ⟨⟨quote, slash, control⟩, hcs⟩ := List.forall_mem_cons.mp h
    exact .cons (.plain quote slash control) (ih hcs)

inductive SpelledString (value : String) : List Char → Nat → Prop
  | quoted {inside : List Char} (chars : SpellsChars value.toList inside) :
    SpelledString value ('"' :: (inside ++ ['"'])) 0

theorem SpelledString.plain (value : String) (h : Unescaped value.toList) :
    SpelledString value ('"' :: (value.toList ++ ['"'])) 0 := .quoted (.plain h)

/-- A scalar that is written in one way only. -/
inductive Written (json : Json) : List Char → Nat → Prop
  | compact : Written json json.write 0

def optionalSpelling : Option Spelling → Spelling
  | none => Written .null
  | some spelling => spelling

/-! ## Lists -/

/-- Texts that spell one item each, and how deep the deepest of them is. -/
inductive SpelledEach : List Spelling → List (List Char) → Nat → Prop
  | nil : SpelledEach [] [] 0
  | cons {spelling : Spelling} {spellings : List Spelling} {text : List Char}
    {texts : List (List Char)} {depth depths : Nat} (first : spelling text depth)
    (more : SpelledEach spellings texts depths) :
    SpelledEach (spelling :: spellings) (text :: texts) (max depth depths)

inductive SpelledList (items : List Spelling) : List Char → Nat → Prop
  | array {texts : List (List Char)} {text : List Char} {depth : Nat}
    (each : SpelledEach items texts depth) (held : Enclosure.list.Holds texts text) :
    SpelledList items text (depth + 1)

/-- A list with nothing but commas between its items. -/
theorem SpelledList.compact {items : List Spelling} {texts : List (List Char)} {depth : Nat}
    (each : SpelledEach items texts depth) :
    SpelledList items ('[' :: (compactList true texts ++ [']'])) (depth + 1) :=
  .array each (.listed (.compact true texts))

/-! ## Variants -/

/-- A member whose key is spelled in some way. -/
structure MemberText.Named (m : MemberText) (key : String) : Prop extends m.Spaced where
  key : SpellsChars key.toList m.key

inductive SpelledVariant (name : String) (content : Spelling) : List Char → Nat → Prop
  | object {m : MemberText} {text : List Char} {depth : Nat} (named : m.Named name)
    (value : content m.value depth) (held : Enclosure.object.Holds [m.text] text) :
    SpelledVariant name content text (depth + 1)

/-! ## Records -/

structure PartSpelling where
  key : String
  /-- Whether the value is the one that the part has where it is left out. -/
  omissible : Prop
  value : Spelling

/-- Members that write some of the parts, each once and in any order, between members whose keys are
not among the known ones. The parts that are not written may be left out. -/
inductive SpelledMembers (known : List String) :
    (parts : List PartSpelling) → List (List Char) → Nat → Prop
  | nil {parts : List PartSpelling} (omitted : ∀ p ∈ parts, p.omissible) :
    SpelledMembers known parts [] 0
  | part (before after : List PartSpelling) (p : PartSpelling) {m : MemberText}
    {texts : List (List Char)} {depth depths : Nat} (named : m.Named p.key)
    (value : p.value m.value depth) (more : SpelledMembers known (before ++ after) texts depths) :
    SpelledMembers known (before ++ p :: after) (m.text :: texts) (max depth depths)
  | unknown {parts : List PartSpelling} {key : String} {m : MemberText}
    {texts : List (List Char)} {depths : Nat} (unknown : key ∉ known) (named : m.Named key)
    (value : JsonText m.value) (more : SpelledMembers known parts texts depths) :
    SpelledMembers known parts (m.text :: texts) depths

inductive SpelledRecord (parts : List PartSpelling) : List Char → Nat → Prop
  | object {texts : List (List Char)} {text : List Char} {depth : Nat}
    (members : SpelledMembers (parts.map (·.key)) parts texts depth)
    (held : Enclosure.object.Holds texts text) : SpelledRecord parts text (depth + 1)
  | array {given left : List PartSpelling} {texts : List (List Char)} {text : List Char}
    {depth : Nat} (split : parts = given ++ left) (omitted : ∀ p ∈ left, p.omissible)
    (each : SpelledEach (given.map (·.value)) texts depth)
    (held : Enclosure.list.Holds texts text) : SpelledRecord parts text (depth + 1)

/-- All parts of a record in an array, with nothing but commas between them. -/
theorem SpelledRecord.compact {parts : List PartSpelling} {texts : List (List Char)} {depth : Nat}
    (each : SpelledEach (parts.map (·.value)) texts depth) :
    SpelledRecord parts ('[' :: (compactList true texts ++ [']'])) (depth + 1) :=
  .array (List.append_nil parts).symm (List.forall_mem_nil _) each (.listed (.compact true texts))

/-! ## Whole texts -/

/-- The text is spelled in this way, with any blanks around it. -/
inductive Spells (spelling : Spelling) (text : String) (depth : Nat) : Prop
  | between {before inside after : List Char} (blanksBefore : Blanks before)
    (spelled : spelling inside depth) (blanksAfter : Blanks after)
    (text_eq : text.toList = before ++ (inside ++ after)) : Spells spelling text depth

end GraphDoc.Json
