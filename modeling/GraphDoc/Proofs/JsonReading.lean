import GraphDoc.Proofs.JsonNesting
import GraphDoc.Proofs.JsonScanning

/-!
# Reading what is written

A reader that is given a number of levels takes the text of a JSON value exactly when the value is
nested no deeper, and refuses it for the nesting otherwise. Here this is shown of the readers of
scalars, and of readers on top of others and of lists from the same of what they are made of.
-/
namespace GraphDoc.Json

/-! ## Readers of values -/

variable {α β : Type}

/-- The text starts with what neither is skipped nor ends a list. -/
def Opens (text : List Char) : Prop :=
  ∃ c rest, text = c :: rest ∧ isBlank c = false ∧ c ≠ ']'

theorem Opens.append {text : List Char} (h : Opens text) (rest : List Char) :
    Opens (text ++ rest) := by
  obtain ⟨c, cs, rfl, hc⟩ := h
  exact ⟨c, cs ++ rest, rfl, hc⟩

/-- The reader takes the value from any text that it starts, or refuses it for the nesting. -/
structure Reads (reader : Reader α) (levels : Nat) (json : Json) (a : α) : Prop where
  opens : Opens json.write
  taken : json.nesting ≤ levels → ∀ rest, EndsNumeral rest →
    reader.run (json.write ++ rest) = .ok (a, rest)
  refused : levels < json.nesting → ∀ rest, ∃ place,
    reader.run (json.write ++ rest) = .error (.located .recursionLimit place)

theorem endsNumeral_cons {c : Char} (hd : c.isDigit = false) (hp : c ≠ '.') (he : c ≠ 'e')
    (hE : c ≠ 'E') (rest : List Char) : EndsNumeral (c :: rest) := by
  intro d h
  obtain rfl := Option.mem_some.mp h
  exact ⟨hd, hp, he, hE⟩

namespace Reads

/-! ### Scalars -/

theorem of_scalar {reader : Reader α} {json : Json} {a : α} (levels : Nat)
    (hn : json.nesting = 0) (ho : Opens json.write)
    (ht : ∀ rest, EndsNumeral rest → reader.run (json.write ++ rest) = .ok (a, rest)) :
    Reads reader levels json a where
  opens := ho
  taken _ := ht
  refused h := by
    rw [hn] at h
    exact absurd h (Nat.not_lt_zero levels)

theorem boolean (levels : Nat) (value : Bool) : Reads .boolean levels (.bool value) value := by
  cases value with
  | true => exact of_scalar levels rfl ⟨_, _, rfl, rfl, by decide⟩ fun rest _ => rfl
  | false => exact of_scalar levels rfl ⟨_, _, rfl, rfl, by decide⟩ fun rest _ => rfl

theorem opens_string (text : String) : Opens (Json.string text).write :=
  ⟨_, _, rfl, rfl, by decide⟩

theorem string (levels : Nat) (text : String) : Reads .string levels (.string text) text := by
  refine of_scalar levels rfl (opens_string text) fun rest _ => ?_
  have ht := run_string text.toList rest
  rw [String.ofList_toList] at ht
  rw [write, writeString, List.cons_append, List.append_assoc]
  exact ht

theorem integer (levels : Nat) (value : Int64) :
    Reads .integer levels (.number (.integer value.toInt)) value := by
  by_cases hs : 0 ≤ value.toInt
  · have hw : (Json.number (.integer value.toInt)).write = Nat.toDigits 10 value.toInt.toNat :=
      toList_toString_of_nonneg hs
    obtain ⟨c, cs, hd, hc⟩ := exists_toDigits_eq_cons value.toInt.toNat
    refine of_scalar levels rfl ?_ fun rest hr => ?_
    · rw [hw, hd]
      exact ⟨c, cs, rfl, isBlank_of_isDigit hc, ne_of_isDigit hc rfl⟩
    · rw [hw]
      exact run_integer_of_nonneg hs hr
  · have hw : (Json.number (.integer value.toInt)).write =
        '-' :: Nat.toDigits 10 (-value.toInt).toNat := toList_toString_of_neg (by omega)
    refine of_scalar levels rfl ?_ fun rest hr => ?_
    · rw [hw]
      exact ⟨_, _, rfl, rfl, by decide⟩
    · rw [hw]
      exact run_integer_of_neg (by omega) hr

/-! ### Opening a level -/

/-- An array or object needs one level more than its inside, which is read with the others. -/
theorem of_inside {reader : Nat → Reader α} {json : Json} {a : α} {inside : Nat}
    (ho : Opens json.write) (hn : json.nesting = inside + 1)
    (hnone : ∀ rest, ∃ place,
      (reader 0).run (json.write ++ rest) = .error (.located .recursionLimit place))
    (htaken : ∀ levels, inside ≤ levels → ∀ rest, EndsNumeral rest →
      (reader (levels + 1)).run (json.write ++ rest) = .ok (a, rest))
    (hrefused : ∀ levels, levels < inside → ∀ rest, ∃ place,
      (reader (levels + 1)).run (json.write ++ rest) = .error (.located .recursionLimit place))
    (levels : Nat) : Reads (reader levels) levels json a := by
  cases levels with
  | zero =>
    refine ⟨ho, fun h => ?_, fun _ => hnone⟩
    rw [hn] at h
    exact absurd h (Nat.not_succ_le_zero inside)
  | succ levels =>
    refine ⟨ho, fun h => ?_, fun h => ?_⟩
    · rw [hn] at h
      exact htaken levels (Nat.le_of_succ_le_succ h)
    · rw [hn] at h
      exact hrefused levels (Nat.lt_of_succ_lt_succ h)

/-! ### Readers on top of others -/

variable {reader : Reader α} {levels : Nat} {json : Json} {a : α}

theorem map (h : Reads reader levels json a) (f : α → β) :
    Reads (reader.map f) levels json (f a) where
  opens := h.opens
  taken hn rest hr := by
    have ht := h.taken hn rest hr
    unfold Reader.map
    simp only
    rw [ht]
  refused hn rest := by
    obtain ⟨place, he⟩ := h.refused hn rest
    unfold Reader.map
    simp only
    rw [he]
    exact ⟨place, rfl⟩

theorem filterMap (h : Reads reader levels json a) {f : α → Except Cause β} {b : β}
    (hf : f a = .ok b) : Reads (reader.filterMap f) levels json b where
  opens := h.opens
  taken hn rest hr := by
    have ht := h.taken hn rest hr
    unfold Reader.filterMap
    simp only
    rw [ht]
    simp only
    rw [hf]
  refused hn rest := by
    obtain ⟨place, he⟩ := h.refused hn rest
    unfold Reader.filterMap
    simp only
    rw [he]
    exact ⟨place, rfl⟩

theorem run_optional (reader : Reader α) {c : Char} (hb : isBlank c = false) (hn : c ≠ 'n')
    (rest : List Char) : reader.optional.run (c :: rest) = (reader.map some).run (c :: rest) := by
  unfold Reader.optional
  simp only
  rw [skipBlanks_cons hb]
  split
  · rename_i h
    exact absurd (List.cons.inj h).1 hn
  · rfl

theorem null (reader : Reader α) (levels : Nat) : Reads reader.optional levels .null none :=
  of_scalar levels rfl ⟨_, _, rfl, rfl, by decide⟩ fun _ _ => rfl

theorem optional (h : Reads reader levels json a)
    (hn : ∃ c cs, json.write = c :: cs ∧ isBlank c = false ∧ c ≠ 'n') :
    Reads reader.optional levels json (some a) := by
  obtain ⟨c, cs, hw, hb, hc⟩ := hn
  have hrun : ∀ rest, reader.optional.run (json.write ++ rest) =
      (reader.map some).run (json.write ++ rest) := by
    intro rest
    rw [hw]
    exact run_optional reader hb hc _
  have hmap := h.map some
  refine ⟨h.opens, ?_, ?_⟩
  · intro hlevels rest hr
    rw [hrun]
    exact hmap.taken hlevels rest hr
  · intro hlevels rest
    rw [hrun]
    exact hmap.refused hlevels rest

end Reads

/-! ## Lists -/

/-- The comma before an item that is not the first. -/
def separator (isFirst : Bool) : List Char := if isFirst then [] else [',']

theorem nextElement_separator (isFirst : Bool) {text : List Char} (h : Opens text) :
    nextElement isFirst (separator isFirst ++ text) = .ok (.item text) := by
  obtain ⟨c, rest, rfl, hb, hc⟩ := h
  cases isFirst with
  | true =>
    rw [separator, if_pos rfl, List.nil_append, nextElement, skipBlanks_cons hb]
    simp only
    rw [if_neg hc, if_pos trivial]
  | false =>
    rw [separator, if_neg Bool.false_ne_true, List.cons_append, List.nil_append, nextElement,
      skipBlanks_cons rfl]
    simp only
    rw [if_neg (by decide), if_neg Bool.false_ne_true, if_pos trivial, skipBlanks_cons hb]
    simp only
    rw [if_neg hc]

theorem elements_of_done {element : Reader α} {isFirst : Bool} {text rest : List Char}
    (h : nextElement isFirst text = .ok (.done rest)) :
    elements element isFirst text = .ok ([], rest) := by
  rw [elements]
  split <;> rename_i hn <;> rw [h] at hn <;> cases hn
  rfl

theorem elements_of_item {element : Reader α} {isFirst : Bool} {text rest : List Char}
    (h : nextElement isFirst text = .ok (.item rest)) :
    elements element isFirst text = (element.run rest).bind fun p =>
      (elements element false p.2).map fun q => (p.1 :: q.1, q.2) := by
  rw [elements]
  split <;> rename_i hn <;> rw [h] at hn <;> cases hn
  split <;> rename_i hr <;> rw [hr]
  · rfl
  · rename_i after
    rw [Except.bind]
    cases elements element false after <;> rfl

/-- The elements of an array from the first on, or from a later one. -/
def elementsText (isFirst : Bool) (elements : List Json) : List Char :=
  if isFirst then writeElements elements else writeMoreElements elements

theorem elementsText_nil (isFirst : Bool) : elementsText isFirst [] = [] := by
  cases isFirst <;> rfl

theorem elementsText_cons (isFirst : Bool) (element : Json) (elements : List Json) :
    elementsText isFirst (element :: elements) =
      separator isFirst ++ (element.write ++ elementsText false elements) := by
  cases isFirst <;> rfl

theorem endsNumeral_elementsText (elements : List Json) (rest : List Char) :
    EndsNumeral (elementsText false elements ++ ']' :: rest) := by
  cases elements with
  | nil => exact endsNumeral_cons rfl (by decide) (by decide) (by decide) _
  | cons element elements => exact endsNumeral_cons rfl (by decide) (by decide) (by decide) _

theorem nextElement_close (isFirst : Bool) (rest : List Char) :
    nextElement isFirst (']' :: rest) = .ok (.done (']' :: rest)) := by
  rw [nextElement, skipBlanks_cons rfl]
  rfl

theorem elements_taken {element : Reader α} {levels : Nat} {toJson : α → Json} {as : List α}
    (h : ∀ a ∈ as, Reads element levels (toJson a) a) (isFirst : Bool)
    (hn : nestingAll (as.map toJson) ≤ levels) (rest : List Char) :
    elements element isFirst (elementsText isFirst (as.map toJson) ++ ']' :: rest) =
      .ok (as, ']' :: rest) := by
  induction as generalizing isFirst with
  | nil =>
    rw [List.map_nil, elementsText_nil]
    exact elements_of_done (nextElement_close isFirst rest)
  | cons a as ih =>
    obtain ⟨ha, has⟩ := List.forall_mem_cons.mp h
    obtain ⟨hna, hnas⟩ := Nat.max_le.mp hn
    rw [List.map_cons, elementsText_cons, List.append_assoc, List.append_assoc,
      elements_of_item (nextElement_separator isFirst (ha.opens.append _)),
      ha.taken hna _ (endsNumeral_elementsText _ _), Except.bind, ih has false hnas]
    rfl

theorem elements_refused {element : Reader α} {levels : Nat} {toJson : α → Json} {as : List α}
    (h : ∀ a ∈ as, Reads element levels (toJson a) a) (isFirst : Bool)
    (hn : levels < nestingAll (as.map toJson)) (rest : List Char) :
    ∃ place, elements element isFirst (elementsText isFirst (as.map toJson) ++ ']' :: rest) =
      .error (.located .recursionLimit place) := by
  induction as generalizing isFirst with
  | nil => exact absurd hn (Nat.not_lt_zero levels)
  | cons a as ih =>
    obtain ⟨ha, has⟩ := List.forall_mem_cons.mp h
    rw [List.map_cons, elementsText_cons, List.append_assoc, List.append_assoc,
      elements_of_item (nextElement_separator isFirst (ha.opens.append _))]
    by_cases hna : (toJson a).nesting ≤ levels
    · have hnas : levels < nestingAll (as.map toJson) := by
        rw [List.map_cons, nestingAll] at hn
        omega
      obtain ⟨place, he⟩ := ih has false hnas
      rw [ha.taken hna _ (endsNumeral_elementsText _ _), Except.bind, he]
      exact ⟨place, rfl⟩
    · obtain ⟨place, he⟩ := ha.refused (Nat.lt_of_not_le hna)
        (elementsText false (as.map toJson) ++ ']' :: rest)
      rw [he]
      exact ⟨place, rfl⟩

theorem enclosed_array (a : α) (rest : List Char) :
    enclosed closeArray (.ok (a, ']' :: rest)) = .ok (a, rest) := by
  have hc : closeArray (']' :: rest) = ⟨none, rest⟩ := by
    rw [closeArray, skipBlanks_cons rfl]
    rfl
  rw [enclosed, hc]

/-- Reads an array whose elements `element` reads, each with the levels that are left inside. -/
def Reader.listWithin (element : Nat → Reader α) (levels : Nat) : Reader (List α) :=
  .list (if levels = 0 then none else some (element (levels - 1)))

theorem run_list_some (element : Reader α) (rest : List Char) :
    (Reader.list (some element)).run ('[' :: rest) =
      enclosed closeArray (elements element true rest) := rfl

theorem Reads.listWithin {element : Nat → Reader α} {toJson : α → Json} {as : List α}
    (h : ∀ a ∈ as, ∀ levels, Reads (element levels) levels (toJson a) a) (levels : Nat) :
    Reads (Reader.listWithin element levels) levels (.array (as.map toJson)) as := by
  have hw : ∀ rest, (Json.array (as.map toJson)).write ++ rest =
      '[' :: (elementsText true (as.map toJson) ++ ']' :: rest) := fun rest => by
    rw [write, elementsText, if_pos rfl, List.cons_append, List.append_assoc]
    rfl
  refine of_inside ⟨_, _, rfl, rfl, by decide⟩ rfl (fun rest => ?_) (fun levels hn rest _ => ?_)
    (fun levels hn rest => ?_) levels
  · exact ⟨_, rfl⟩
  · have hs : Reader.listWithin element (levels + 1) = .list (some (element levels)) := rfl
    rw [hw, hs, run_list_some, elements_taken (fun a ha => h a ha levels) true hn, enclosed_array]
  · have hs : Reader.listWithin element (levels + 1) = .list (some (element levels)) := rfl
    obtain ⟨place, he⟩ := elements_refused (fun a ha => h a ha levels) true hn rest
    rw [hw, hs, run_list_some, he]
    exact ⟨place, rfl⟩

theorem Reads.flatList {element : Reader α} {toJson : α → Json}
    (h : ∀ levels a, Reads element levels (toJson a) a) (as : List α) (levels : Nat) :
    Reads (Reader.listWithin (fun _ => element) levels) levels (.array (as.map toJson)) as :=
  .listWithin (fun a _ levels => h levels a) levels

end GraphDoc.Json
