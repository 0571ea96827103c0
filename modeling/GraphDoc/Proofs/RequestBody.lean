import GraphDoc.Json.Parse
import GraphDoc.Proofs.RecordReading
import GraphDoc.Request

/-!
# What a request body carries

A request body is made for valid operations only. It has no control characters, and a reader of
loose JSON finds in it the document as it was rendered, character for character.
-/
namespace GraphDoc

open Json

/-! ## Written strings have no control characters -/

theorem Json.not_control_hexDigit {n : Nat} (h : n < 16) : ¬ hexDigit n < ' ' := by
  have hall : ∀ n < 16, ¬ hexDigit n < ' ' := by decide
  exact hall n h

theorem Json.not_control_of_simpleEscape? {e c : Char} (h : simpleEscape? e = some c) :
    ¬ e < ' ' := by
  have hm : e ∈ ['"', '\\', '/', 'b', 'f', 'n', 'r', 't'] := by
    refine Classical.byContradiction fun hn => ?_
    simp only [List.mem_cons, List.not_mem_nil, or_false, not_or] at hn
    simp [simpleEscape?, hn] at h
  have hall : ∀ e ∈ ['"', '\\', '/', 'b', 'f', 'n', 'r', 't'], ¬ e < ' ' := by simp
  exact hall e hm

theorem Json.not_control_of_mem_escapeChar {c d : Char} (h : d ∈ escapeChar c) : ¬ d < ' ' := by
  rcases escapeChar_cases c with ⟨e, hw, he, _⟩ | ⟨hw, hc⟩ | ⟨hw, _, _, hc⟩
  · rw [hw] at h
    simp only [List.mem_cons, List.not_mem_nil, or_false] at h
    rcases h with rfl | rfl
    · decide
    · exact not_control_of_simpleEscape? he
  · have hn : c.toNat < 32 := hc
    have hhigh := not_control_hexDigit (n := c.toNat / 16) (by omega)
    have hlow := not_control_hexDigit (n := c.toNat % 16) (by omega)
    rw [hw] at h
    simp only [List.mem_cons, List.not_mem_nil, or_false] at h
    rcases h with rfl | rfl | rfl | rfl | rfl | rfl
    · decide
    · decide
    · decide
    · decide
    · exact hhigh
    · exact hlow
  · rw [hw] at h
    rw [List.mem_singleton.mp h]
    exact hc

theorem Json.not_control_of_mem_writeString {text : String} {d : Char} (h : d ∈ writeString text) :
    ¬ d < ' ' := by
  rw [writeString] at h
  rcases List.mem_cons.mp h with rfl | h
  · decide
  rcases List.mem_append.mp h with h | h
  · obtain ⟨c, _, hd⟩ := List.mem_flatMap.mp h
    exact not_control_of_mem_escapeChar hd
  · rw [List.mem_singleton.mp h]
    decide

/-! ## The text of a body -/

theorem toList_requestBody (document : String) :
    (requestBody document).toList =
      '{' :: (writeString "query" ++ ':' :: (writeString document ++ ['}'])) := by
  rw [requestBody, Json.text, String.toList_ofList]
  simp [write, writeMembers, writeMember, writeMoreMembers]

theorem not_control_of_mem_requestBody {document : String} {c : Char}
    (h : c ∈ (requestBody document).toList) : ¬ c < ' ' := by
  rw [toList_requestBody] at h
  rcases List.mem_cons.mp h with rfl | h
  · decide
  rcases List.mem_append.mp h with h | h
  · exact not_control_of_mem_writeString h
  rcases List.mem_cons.mp h with rfl | h
  · decide
  rcases List.mem_append.mp h with h | h
  · exact not_control_of_mem_writeString h
  · rw [List.mem_singleton.mp h]
    decide

/-! ## Reading a body as loose JSON -/

theorem Json.looseValue_string (inner : Option (Reader Json)) (text : String) (rest : List Char) :
    looseValue inner '"' (text.toList.flatMap escapeChar ++ '"' :: rest) =
      .ok (.string text, rest) := by
  unfold looseValue
  simp only
  rw [if_neg (by decide), if_neg (by decide), if_neg (by decide), if_neg (by decide),
    if_neg (by decide), if_pos trivial, stringTail_written]
  simp [Except.map]

theorem Json.run_looseReader_cons (levels : Nat) {c : Char} (h : isBlank c = false)
    (rest : List Char) : (looseReader (levels + 1)).run (c :: rest) =
      looseValue (some (looseReader levels)) c rest := onValue_cons h rest _

theorem Json.run_looseReader_string (levels : Nat) (text : String) (rest : List Char) :
    (looseReader (levels + 1)).run (writeString text ++ rest) = .ok (.string text, rest) := by
  rw [writeString, List.cons_append, List.append_assoc, run_looseReader_cons levels rfl]
  exact looseValue_string _ text rest

/-- The only member of an object is read as such where its value is. -/
theorem Json.looseMembers_single {value : Reader Json} {key : String} {json : Json}
    {text rest : List Char} (h : value.run text = .ok (json, '}' :: rest)) :
    looseMembers value true [] (writeString key ++ ':' :: text) =
      .ok ([(key, json)], '}' :: rest) := by
  have hkey : nextKey true (writeString key ++ ':' :: text) =
      .ok (.item (key.toList.flatMap escapeChar ++ '"' :: ':' :: text)) := by
    rw [writeString, List.cons_append, List.append_assoc]
    exact nextKey_separator true _
  rw [looseMembers]
  split <;> rename_i hn <;> rw [hkey] at hn <;> cases hn
  split <;> rename_i hk <;> rw [stringTail_written] at hk <;> cases hk
  split <;> rename_i hc <;> rw [colon_cons] at hc <;> cases hc
  split <;> rename_i hv <;> rw [h] at hv <;> cases hv
  rw [looseMembers]
  split <;> rename_i hn <;> rw [nextKey_close] at hn <;> cases hn
  rw [insertMember, String.ofList_toList]

theorem parse_requestBody (document : String) :
    Json.parse (requestBody document) = .ok (.object [("query", .string document)]) := by
  have hmembers : looseMembers (looseReader 126) true []
      (writeString "query" ++ ':' :: (writeString document ++ ['}'])) =
        .ok ([("query", .string document)], ['}']) :=
    looseMembers_single (run_looseReader_string 125 document ['}'])
  have hrun : (looseReader nestingLimit).run (requestBody document).toList =
      .ok (.object [("query", .string document)], []) := by
    rw [toList_requestBody]
    rw [nestingLimit, run_looseReader_cons 126 rfl]
    unfold looseValue
    simp only
    rw [if_neg (by decide), if_neg (by decide), if_neg (by decide), if_neg (by decide),
      if_neg (by decide), if_neg (by decide), if_neg (by decide), if_pos trivial, hmembers,
      enclosed_object]
    rfl
  rw [Json.parse, Reader.readAll, hrun]
  rfl

/-! ## Requests -/

namespace Operation

/-- A request fails exactly where validation does, with the same offence. Otherwise its body has no
control characters, and what is read in it is an object that holds the rendered document as its
only member. -/
theorem toRequest_carries_document (o : Operation) :
    (∀ error, o.toRequest = .error error ↔ o.validate = .error error.offence) ∧
    (o.validate = .ok () ↔ ∃ body, o.toRequest = .ok body ∧ (∀ c ∈ body.toList, ¬ c < ' ') ∧
      Json.parse body = .ok (.object [("query", .string o.render)])) := by
  unfold toRequest
  cases o.validate with
  | error offence =>
    constructor
    · rintro ⟨other⟩
      simp
    · simp
  | ok _ =>
    constructor
    · intro error
      simp
    · refine iff_of_true rfl ⟨requestBody o.render, rfl, ?_, parse_requestBody o.render⟩
      exact fun c => not_control_of_mem_requestBody

end Operation

end GraphDoc
