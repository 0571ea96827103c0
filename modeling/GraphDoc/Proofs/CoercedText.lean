import GraphDoc.Proofs.CoercedValues
import GraphDoc.Proofs.PrintedText
import GraphDoc.Proofs.WrittenSpelling

/-!
# The text of taken values

A loose value that is taken is rendered without escapes. So what is rendered is its JSON text as
long as no string in it holds a character to be escaped, and is shorter than that text otherwise.
-/
namespace GraphDoc

/-! ## Characters to be escaped -/

def NeedsEscape (c : Char) : Prop := c = '"' ∨ c = '\\' ∨ c.toNat < 0x20

namespace Json

mutual

/-- All strings in a value, the keys of objects among them. -/
def texts : Json → List String
  | null | bool _ | number _ => []
  | string text => [text]
  | array elements => textsAll elements
  | object members => textsOfMembers members

def textsAll : List Json → List String
  | [] => []
  | element :: elements => texts element ++ textsAll elements

def textsOfMembers : List (String × Json) → List String
  | [] => []
  | (key, value) :: members => key :: (texts value ++ textsOfMembers members)

end

/-- No string in the value holds a character to be escaped. -/
def Plain (json : Json) : Prop := ∀ text ∈ json.texts, ∀ c ∈ text.toList, ¬ NeedsEscape c

theorem textsAll_eq_flatMap (elements : List Json) : textsAll elements = elements.flatMap texts := by
  induction elements with
  | nil => rfl
  | cons element elements ih => rw [textsAll, ih, List.flatMap_cons]

theorem plain_array_iff {elements : List Json} :
    (array elements).Plain ↔ ∀ element ∈ elements, element.Plain := by
  simp only [Plain, texts, textsAll_eq_flatMap, List.mem_flatMap]
  constructor
  · exact fun h element hmem text htext => h text ⟨element, hmem, htext⟩
  · rintro h text ⟨element, hmem, htext⟩
    exact h element hmem text htext

theorem plain_string_iff {text : String} :
    (string text).Plain ↔ ∀ c ∈ text.toList, ¬ NeedsEscape c := by
  simp [Plain, texts]

end Json

/-! ## Bare and written text -/

/-- The written text is the bare one where that is plain, and longer elsewhere. -/
structure Outgrows (plain : Prop) (bare written : List Char) : Prop where
  same : plain → bare = written
  longer : ¬ plain → bare.length < written.length

namespace Outgrows

theorem refl (text : List Char) : Outgrows True text text := ⟨fun _ => rfl, fun h => absurd trivial h⟩

theorem length_le {plain : Prop} {bare written : List Char} (h : Outgrows plain bare written) :
    bare.length ≤ written.length := by
  by_cases hp : plain
  · rw [h.same hp]
  · exact (h.longer hp).le

theorem congr {p q : Prop} {bare written : List Char} (h : Outgrows p bare written) (hpq : p ↔ q) :
    Outgrows q bare written := propext hpq ▸ h

/-- What is plain in both parts is plain, and an escape in either makes the whole longer. -/
theorem append {p q : Prop} {a b c d : List Char} (h : Outgrows p a b) (h' : Outgrows q c d) :
    Outgrows (p ∧ q) (a ++ c) (b ++ d) := by
  constructor
  · rintro ⟨hp, hq⟩
    rw [h.same hp, h'.same hq]
  · intro hnot
    -- only one part need be longer, as the other is at least as long
    have hab := h.length_le
    have hcd := h'.length_le
    rw [List.length_append, List.length_append]
    rcases not_and_or.mp hnot with hp | hq
    · have := h.longer hp
      omega
    · have := h'.longer hq
      omega

/-- Text around both leaves it at that. -/
theorem wrap {p : Prop} {a b : List Char} (h : Outgrows p a b) (before after : List Char) :
    Outgrows p (before ++ (a ++ after)) (before ++ (b ++ after)) :=
  ((refl before).append (h.append (refl after))).congr (by simp)

/-- Items with commas between them. -/
theorem commas {α : Type} {plain : α → Prop} {bare written : α → List Char}
    (h : ∀ a, Outgrows (plain a) (bare a) (written a)) (as : List α) :
    Outgrows (∀ a ∈ as, plain a) ([','].intercalate (as.map bare))
      ([','].intercalate (as.map written)) := by
  induction as with
  | nil => exact (refl []).congr (by simp)
  | cons a as ih =>
    cases as with
    | nil => simpa using h a
    | cons next as =>
      simp only [List.map_cons, List.intercalate_cons_cons] at ih ⊢
      exact (((h a).append (refl [','])).append ih).congr
        (by rw [and_true, ← List.forall_mem_cons])

end Outgrows

/-! ## Strings -/

namespace Json

theorem escapeChar_of_plain {c : Char} (h : ¬ NeedsEscape c) : escapeChar c = [c] := by
  have hprints : ¬ c < ' ' := fun hc => h (.inr (.inr hc))
  have hcontrol : ∀ d, d < ' ' → c ≠ d := fun d hd e => hprints (e ▸ hd)
  unfold escapeChar
  rw [if_neg fun e => h (.inl e), if_neg fun e => h (.inr (.inl e)),
    if_neg (hcontrol '\n' (by decide)), if_neg (hcontrol '\r' (by decide)),
    if_neg (hcontrol '\t' (by decide)), if_neg (hcontrol '\x08' (by decide)),
    if_neg (hcontrol '\x0c' (by decide)), if_neg hprints]

theorem one_lt_length_escapeChar {c : Char} (h : NeedsEscape c) : 1 < (escapeChar c).length := by
  rcases escapeChar_cases c with ⟨e, hw, _⟩ | ⟨hw, _⟩ | ⟨_, hquote, hslash, hcontrol⟩
  · rw [hw]
    exact Nat.one_lt_two
  · rw [hw]
    simp
  · rcases h with h | h | h
    · exact absurd h hquote
    · exact absurd h hslash
    · exact absurd h hcontrol

end Json

namespace Outgrows

open Json (write writeString escapeChar)

theorem escaped (text : List Char) :
    Outgrows (∀ c ∈ text, ¬ NeedsEscape c) text (text.flatMap escapeChar) := by
  induction text with
  | nil => exact (refl []).congr (by simp)
  | cons c text ih =>
    have hc : Outgrows (¬ NeedsEscape c) [c] (escapeChar c) :=
      ⟨fun h => (Json.escapeChar_of_plain h).symm,
        fun h => Json.one_lt_length_escapeChar (not_not.mp h)⟩
    exact (hc.append ih).congr (by simp only [List.forall_mem_cons])

theorem quoted (text : String) :
    Outgrows (Json.string text).Plain (stringToken text).shown.toList (write (.string text)) := by
  have hshown : (stringToken text).shown.toList = ['"'] ++ (text.toList ++ ['"']) := by
    simp [stringToken, Token.shown, Token.text]
  rw [hshown]
  exact ((escaped text.toList).wrap ['"'] ['"']).congr Json.plain_string_iff.symm

end Outgrows

/-! ## Values -/

namespace Json

/-- Compact items behind a first one are joined by commas. -/
theorem append_compactList (items : List (List Char)) (item : List Char) :
    item ++ compactList false items = [','].intercalate (item :: items) := by
  induction items generalizing item with
  | nil => simp [compactList]
  | cons next items ih =>
    rw [compactList, ih, List.intercalate_cons_cons, List.append_assoc]
    rfl

theorem write_array (elements : List Json) :
    write (.array elements) = '[' :: ([','].intercalate (elements.map write) ++ [']']) := by
  rw [write, writeElements_eq]
  cases elements with
  | nil => rfl
  | cons element elements =>
    rw [List.map_cons, ← append_compactList]
    rfl

end Json

namespace Value

/-- A list is rendered element by element, as its array is written. -/
theorem outgrows_list {α : Type} {value : Value} {token : α → Token} {toJson : α → Json}
    {as : List α} (htokens : value.tokens = listTokens (as.map token))
    (h : ∀ a, Outgrows (toJson a).Plain (token a).shown.toList (toJson a).write) :
    Outgrows (Json.array (as.map toJson)).Plain value.render.toList
      (Json.write (.array (as.map toJson))) := by
  have hrender : value.render.toList =
      ['['] ++ ([','].intercalate (as.map fun a => (token a).shown.toList) ++ [']']) := by
    rw [render_of_listTokens htokens]
    simp [String.toList_intercalate, List.map_map, Function.comp_def]
  have hplain : (∀ a ∈ as, (toJson a).Plain) ↔ (Json.array (as.map toJson)).Plain := by
    rw [Json.plain_array_iff, List.forall_mem_map]
  rw [hrender, Json.write_array, List.map_map]
  exact ((Outgrows.commas h as).wrap ['['] [']']).congr hplain

/-- A value that JSON has is rendered as its JSON text, but for the escapes. -/
theorem outgrows_of_bare? {value : Value} {json : Json} (h : value.bare? = some json) :
    Outgrows json.Plain value.render.toList json.write := by
  have hbool : ∀ b : Bool, Outgrows (Json.bool b).Plain (boolToken b).shown.toList
      (Json.bool b).write := by
    intro b
    cases b <;> exact (Outgrows.refl _).congr (by simp [Json.Plain, Json.texts])
  have hint : ∀ n : Int64, Outgrows (Json.number (.integer n.toInt)).Plain
      (intToken n).shown.toList (Json.number (.integer n.toInt)).write :=
    fun n => (Outgrows.refl _).congr (by simp [Json.Plain, Json.texts])
  cases value with
  | bool b =>
    obtain rfl := Option.some.inj h
    rw [render_of_singleton (tokens_bool b)]
    exact hbool b
  | int n =>
    obtain rfl := Option.some.inj h
    rw [render_of_singleton (tokens_int n)]
    exact hint n
  | string text =>
    obtain rfl := Option.some.inj h
    rw [render_of_singleton (tokens_string text)]
    exact .quoted text
  | bools values =>
    obtain rfl := Option.some.inj h
    exact outgrows_list (tokens_bools values) hbool
  | ints values =>
    obtain rfl := Option.some.inj h
    exact outgrows_list (tokens_ints values) hint
  | strings texts =>
    obtain rfl := Option.some.inj h
    exact outgrows_list (tokens_strings texts) .quoted
  | regex _ | object _ | argument _ => cases h

/-- A loose value that is taken is rendered as its JSON text exactly when no string in it holds a
character to be escaped, and as a shorter text otherwise. -/
theorem render_taken {json : Json} {value : Value} (h : ofJson json = .ok value) :
    (value.render = json.text ↔
      ∀ text ∈ json.texts, ∀ c ∈ text.toList, ¬ (c = '"' ∨ c = '\\' ∨ c.toNat < 0x20)) ∧
    (value.render ≠ json.text → value.render.length < json.text.length) := by
  have hbare : value.bare? = some json := by
    unfold ofJson at h
    split at h
    · rename_i hvalue
      obtain rfl := Except.ok.inj h
      exact bare?_of_ofJson? hvalue
    · cases h
  have houtgrows := outgrows_of_bare? hbare
  have hlonger : ¬ json.Plain → value.render.length < json.text.length := by
    intro hplain
    have := houtgrows.longer hplain
    rwa [← String.length_toList, ← String.length_toList, Json.text, String.toList_ofList]
  have hiff : value.render = json.text ↔ json.Plain := by
    constructor
    · intro heq
      -- an escape would make the lengths differ
      by_contra hplain
      exact absurd (congrArg String.length heq) (hlonger hplain).ne
    · intro hplain
      rw [← String.toList_inj, Json.text, String.toList_ofList]
      exact houtgrows.same hplain
  exact ⟨hiff, fun hne => hlonger (mt hiff.mpr hne)⟩

theorem render_taken_quote :
    let quoting : Json := .array [.string "a", .string "\""]
    let plain : Json := .array [.string "a/\x7f", .string "\x7b"]
    (ofJson quoting = .ok (.strings ["a", "\""]) ∧
      (strings ["a", "\""]).render.length < quoting.text.length) ∧
    ofJson plain = .ok (.strings ["a/\x7f", "\x7b"]) ∧
      (strings ["a/\x7f", "\x7b"]).render = plain.text := by
  intro quoting plain
  have hquoting : ofJson quoting = .ok (.strings ["a", "\""]) := rfl
  have hplain : ofJson plain = .ok (.strings ["a/\x7f", "\x7b"]) := rfl
  have hne : (strings ["a", "\""]).render ≠ quoting.text := by
    rw [ne_eq, (render_taken hquoting).1]
    intro hnone
    exact hnone "\"" (by simp [quoting, Json.texts, Json.textsAll]) '"' (by simp) (.inl rfl)
  refine ⟨⟨hquoting, (render_taken hquoting).2 hne⟩, hplain, (render_taken hplain).1.mpr ?_⟩
  simp [plain, Json.texts, Json.textsAll]

end Value

end GraphDoc
