import GraphDoc.Coercion
import GraphDoc.Json.Numeral
import Mathlib.Data.List.Basic

/-!
# Which loose values are taken

A loose value is taken exactly when it has one of the shapes that argument values have, and nothing
of it is lost: the argument value can be written as the same JSON again. Any other loose value is
handed back as it is.
-/
namespace GraphDoc

/-- The number is written as an integer, and it fits in 64 bits with a sign. -/
def JsonNumber.IsWord (number : JsonNumber) : Prop :=
  ∃ n : Int, number = .integer n ∧ -9223372036854775808 ≤ n ∧ n ≤ 9223372036854775807

/-- The shapes that argument values have: a boolean, an integer of 64 bits, a string, or an array of
one of these kinds. -/
inductive Json.Supported : Json → Prop where
  | bool (value : Bool) : Supported (.bool value)
  | word {number : JsonNumber} (h : number.IsWord) : Supported (.number number)
  | string (text : String) : Supported (.string text)
  | bools (values : List Bool) : Supported (.array (values.map .bool))
  | words {numbers : List JsonNumber} (h : ∀ number ∈ numbers, number.IsWord) :
      Supported (.array (numbers.map .number))
  | strings (texts : List String) : Supported (.array (texts.map .string))

/-- The value as JSON that holds nothing else, for those kinds that JSON has. -/
def Value.bare? : Value → Option Json
  | .bool value => some (.bool value)
  | .int value => some (.number (.integer value.toInt))
  | .string text => some (.string text)
  | .bools values => some (.array (values.map .bool))
  | .ints values => some (.array (values.map fun value => .number (.integer value.toInt)))
  | .strings texts => some (.array (texts.map .string))
  | .regex _ | .object _ | .argument _ => none

/-! ## Elements -/

theorem JsonNumber.IsWord.of_toInt (value : Int64) : (JsonNumber.integer value.toInt).IsWord :=
  ⟨value.toInt, rfl, value.minValue_le_toInt, value.toInt_le⟩

theorem JsonNumber.IsWord.exists_eq {number : JsonNumber} (h : number.IsWord) :
    ∃ value : Int64, number = .integer value.toInt := by
  obtain ⟨n, rfl, hmin, hmax⟩ := h
  refine ⟨.ofInt n, ?_⟩
  rw [Int64.toInt_ofInt_of_le (by simpa using hmin) (by simp; omega)]

namespace Json

theorem bool?_eq_some_iff {element : Json} {value : Bool} :
    element.bool? = some value ↔ element = .bool value := by
  cases element <;> simp [bool?]

theorem string?_eq_some_iff {element : Json} {text : String} :
    element.string? = some text ↔ element = .string text := by
  cases element <;> simp [string?]

theorem word?_eq_some_iff {element : Json} {value : Int64} :
    element.word? = some value ↔ element = .number (.integer value.toInt) := by
  constructor
  · intro h
    unfold word? at h
    split at h
    · rename_i n
      split at h
      · rename_i hrange
        obtain rfl := Option.some.inj h
        have hmax := hrange.2
        rw [Int64.toInt_maxValue] at hmax
        rw [Int64.toInt_ofInt_of_le hrange.1 (by omega)]
      · cases h
    · cases h
  · rintro rfl
    rw [word?, if_pos ⟨value.minValue_le_toInt, value.toInt_le⟩, Int64.ofInt_toInt]

/-- Elements that are read one by one are read together, each as what it was written from. -/
theorem mapM_eq_some_iff {α : Type} {read : Json → Option α} {write : α → Json}
    (h : ∀ {element a}, read element = some a ↔ element = write a) {elements : List Json}
    {as : List α} : elements.mapM read = some as ↔ elements = as.map write := by
  induction elements generalizing as with
  | nil => cases as <;> simp
  | cons element elements ih =>
    rw [List.mapM_cons]
    cases as with
    | nil => simp [Option.bind_eq_some_iff]
    | cons a as => simp [Option.bind_eq_some_iff, h, ih]

end Json

/-! ## Values -/

namespace Value

section

variable {α : Type} {read : Json → Option α} {write : α → Json} {list : List α → Value}

theorem bare?_of_read (hread : ∀ {element a}, read element = some a ↔ element = write a)
    (hlist : ∀ as, (list as).bare? = some (.array (as.map write))) {elements : List Json}
    {value : Value} (h : (elements.mapM read).map list = some value) :
    value.bare? = some (.array elements) := by
  obtain ⟨as, has, rfl⟩ := Option.map_eq_some_iff.mp h
  rw [Json.mapM_eq_some_iff hread] at has
  rw [hlist, has]

theorem read_written (hread : ∀ {element a}, read element = some a ↔ element = write a)
    (as : List α) : ((as.map write).mapM read).map list = some (list as) :=
  congrArg (Option.map list) ((Json.mapM_eq_some_iff hread).mpr rfl)

end

/-- An array that is taken is the same JSON again. -/
theorem bare?_of_listOfJson? {elements : List Json} {value : Value}
    (h : listOfJson? elements = some value) : value.bare? = some (.array elements) := by
  unfold listOfJson? at h
  split at h
  · obtain rfl := Option.some.inj h
    rfl
  · exact bare?_of_read Json.bool?_eq_some_iff (fun _ => rfl) h
  · exact bare?_of_read Json.word?_eq_some_iff (fun _ => rfl) h
  · exact bare?_of_read Json.string?_eq_some_iff (fun _ => rfl) h
  · cases h

theorem bare?_of_ofJson? {json : Json} {value : Value} (h : ofJson? json = some value) :
    value.bare? = some json := by
  cases json with
  | bool b =>
    obtain rfl := Option.some.inj h
    rfl
  | string text =>
    obtain rfl := Option.some.inj h
    rfl
  | number number =>
    obtain ⟨word, hword, rfl⟩ := Option.map_eq_some_iff.mp h
    rw [Json.word?_eq_some_iff] at hword
    rw [bare?, hword]
  | array elements => exact bare?_of_listOfJson? h
  | null | object members => cases h

theorem supported_of_bare? {value : Value} {json : Json} (h : value.bare? = some json) :
    json.Supported := by
  cases value with
  | bool b => exact Option.some.inj h ▸ .bool b
  | int word => exact Option.some.inj h ▸ .word (.of_toInt word)
  | string text => exact Option.some.inj h ▸ .string text
  | bools values => exact Option.some.inj h ▸ .bools values
  | ints values =>
    have hwords : ∀ number ∈ values.map fun value : Int64 => JsonNumber.integer value.toInt,
        number.IsWord := by
      rw [List.forall_mem_map]
      exact fun value _ => .of_toInt value
    have hsupported := Json.Supported.words hwords
    rw [List.map_map] at hsupported
    exact Option.some.inj h ▸ hsupported
  | strings texts => exact Option.some.inj h ▸ .strings texts
  | regex _ | object _ | argument _ => cases h

theorem exists_words {numbers : List JsonNumber} (h : ∀ number ∈ numbers, number.IsWord) :
    ∃ values : List Int64, numbers = values.map fun value => .integer value.toInt := by
  induction numbers with
  | nil => exact ⟨[], rfl⟩
  | cons number numbers ih =>
    obtain ⟨hnumber, hnumbers⟩ := List.forall_mem_cons.mp h
    obtain ⟨value, rfl⟩ := hnumber.exists_eq
    obtain ⟨values, rfl⟩ := ih hnumbers
    exact ⟨value :: values, rfl⟩

/-- The first element of an array picks the reader that fits all of them. -/
theorem ofJson?_of_supported {json : Json} (h : json.Supported) :
    ∃ value, ofJson? json = some value := by
  cases h with
  | bool b => exact ⟨.bool b, rfl⟩
  | string text => exact ⟨.string text, rfl⟩
  | word hword =>
    obtain ⟨word, rfl⟩ := hword.exists_eq
    exact ⟨.int word, congrArg (Option.map Value.int) (Json.word?_eq_some_iff.mpr rfl)⟩
  | bools values =>
    -- an empty array has no first element, and counts as one of strings
    cases values with
    | nil => exact ⟨.strings [], rfl⟩
    | cons value values => exact ⟨_, read_written Json.bool?_eq_some_iff (value :: values)⟩
  | words hwords =>
    obtain ⟨values, rfl⟩ := exists_words hwords
    rw [List.map_map]
    cases values with
    | nil => exact ⟨.strings [], rfl⟩
    | cons value values => exact ⟨_, read_written Json.word?_eq_some_iff (value :: values)⟩
  | strings texts =>
    cases texts with
    | nil => exact ⟨.strings [], rfl⟩
    | cons text texts => exact ⟨_, read_written Json.string?_eq_some_iff (text :: texts)⟩

end Value

/-- One number that does not fit spoils an array, wherever it stands. -/
theorem Json.not_supported_of_mem {elements : List Json} {number : JsonNumber}
    (hmem : .number number ∈ elements) (h : ¬ number.IsWord) : ¬ (array elements).Supported := by
  intro hsupported
  cases hsupported with
  | bools values => simp at hmem
  | words hwords => exact h (hwords number (by simpa using hmem))
  | strings texts => simp at hmem

/-- A loose value of one of the shapes becomes a value that is the same JSON again, and neither a
regular expression nor one that holds arguments. Any other is handed back, among them all numbers
that are no integers of 64 bits, and all arrays with such a number. -/
theorem loose_values_taken (json : Json) (name : String) :
    (json.Supported → ∃ value, Value.ofJson json = .ok value ∧
      Argument.ofJson name json = .ok (.pair name value) ∧ value.bare? = some json ∧
      (∀ pattern, value ≠ .regex pattern) ∧ (∀ arguments, value ≠ .object arguments) ∧
      ∀ argument, value ≠ .argument argument) ∧
    (¬ json.Supported →
      Value.ofJson json = .error ⟨json⟩ ∧ Argument.ofJson name json = .error ⟨json⟩) ∧
    ∀ number : JsonNumber, ¬ number.IsWord → ¬ (Json.number number).Supported ∧
      ∀ before after, ¬ (Json.array (before ++ .number number :: after)).Supported := by
  refine ⟨fun h => ?_, fun h => ?_, fun number h => ⟨?_, fun before after => ?_⟩⟩
  · obtain ⟨value, hvalue⟩ := Value.ofJson?_of_supported h
    have hok : Value.ofJson json = .ok value := by rw [Value.ofJson, hvalue]
    have hbare := Value.bare?_of_ofJson? hvalue
    refine ⟨value, hok, by rw [Argument.ofJson, hok]; rfl, hbare, ?_, ?_, ?_⟩
    all_goals
      rintro _ rfl
      cases hbare
  · have herror : Value.ofJson json = .error ⟨json⟩ := by
      cases hvalue : Value.ofJson? json with
      | none => rw [Value.ofJson, hvalue]
      | some value => exact absurd (Value.supported_of_bare? (Value.bare?_of_ofJson? hvalue)) h
    exact ⟨herror, by rw [Argument.ofJson, herror]; rfl⟩
  · intro hsupported
    cases hsupported with
    | word hword => exact h hword
  · exact Json.not_supported_of_mem (by simp) h

theorem loose_words_taken :
    let taken : Json :=
      .array [.number (.integer 0), .number (.integer (-9223372036854775808))]
    let spoiled : Json := .array [.number (.integer 0), .number (.float true .zero)]
    (taken.Supported ∧
      ∃ value, Value.ofJson taken = .ok value ∧ value.bare? = some taken) ∧
    ¬ spoiled.Supported ∧ Value.ofJson spoiled = .error ⟨spoiled⟩ := by
  intro taken spoiled
  have hwords : ∀ number ∈ [JsonNumber.integer 0, .integer (-9223372036854775808)],
      number.IsWord := by
    simp [JsonNumber.IsWord]
  have htaken : taken.Supported := .words hwords
  have hfloat : ¬ (JsonNumber.float true .zero).IsWord := by simp [JsonNumber.IsWord]
  obtain ⟨hok, _, _⟩ := loose_values_taken taken "n"
  obtain ⟨_, herror, hnumbers⟩ := loose_values_taken spoiled "n"
  have hspoiled : ¬ spoiled.Supported := (hnumbers _ hfloat).2 [.number (.integer 0)] []
  obtain ⟨value, hvalue, _, hbare, _⟩ := hok htaken
  exact ⟨⟨htaken, value, hvalue, hbare⟩, hspoiled, (herror hspoiled).1⟩

/-- A minus before a zero makes a float of it. -/
example : Json.numeral true ['0'] = .ok (.float true .zero, []) := by decide

end GraphDoc
