import GraphDoc.Json.Record
import GraphDoc.Proofs.JsonReading

/-!
# Reading written records and variants

A written record is read from its members in their order, each of which changes the draft; a
written variant is read from the object with its name as only key, or from its bare name. Either
opens one level, and its inside is read with the levels that are left.
-/
namespace GraphDoc.Json

variable {α δ τ : Type}

/-! ## Records -/

theorem nextKey_separator (isFirst : Bool) (text : List Char) :
    nextKey isFirst (separator isFirst ++ '"' :: text) = .ok (.item text) := by
  cases isFirst <;> rfl

theorem nextKey_close (isFirst : Bool) (rest : List Char) :
    nextKey isFirst ('}' :: rest) = .ok (.done ('}' :: rest)) := by
  cases isFirst <;> rfl

theorem members_of_done {parts : List (Part δ)} {isFirst : Bool} {draft : δ}
    {text rest : List Char} (h : nextKey isFirst text = .ok (.done rest)) :
    members parts isFirst draft text = .ok (draft, rest) := by
  rw [members]
  split <;> rename_i hn <;> rw [h] at hn <;> cases hn
  rfl

theorem colon_cons (text : List Char) : colon (':' :: text) = .ok text := by
  rw [colon, skipBlanks_cons rfl]
  rfl

theorem memberValue_of_find {parts : List (Part δ)} {key : String} {part : Part δ} {draft : δ}
    (hf : parts.find? (·.key == key) = some part) (hs : part.isSet draft = false)
    {text rest : List Char} (hc : colon text = .ok rest) :
    memberValue parts key draft text = (part.read.run rest).map fun p => (p.1 draft, p.2) := by
  unfold memberValue
  rw [hf]
  simp only
  rw [hs, if_neg Bool.false_ne_true, hc]
  simp only
  cases part.read.run rest <;> rfl

/-- The members of an object from the first on, or from a later one. -/
def membersText (isFirst : Bool) (members : List (String × Json)) : List Char :=
  if isFirst then writeMembers members else writeMoreMembers members

theorem membersText_nil (isFirst : Bool) : membersText isFirst [] = [] := by
  cases isFirst <;> rfl

theorem membersText_cons (isFirst : Bool) (key : String) (value : Json)
    (members : List (String × Json)) (rest : List Char) :
    membersText isFirst ((key, value) :: members) ++ rest =
      separator isFirst ++ '"' :: (key.toList.flatMap escapeChar ++
        '"' :: ':' :: (value.write ++ (membersText false members ++ rest))) := by
  cases isFirst <;>
    simp [membersText, separator, writeMembers, writeMoreMembers, writeMember, writeString]

/-- The first of the written members is read by its part, and the others after it. -/
theorem members_of_find {parts : List (Part δ)} {draft : δ} {key : String} {part : Part δ}
    (hf : parts.find? (·.key == key) = some part) (hs : part.isSet draft = false) (isFirst : Bool)
    (value : Json) (ms : List (String × Json)) (rest : List Char) :
    members parts isFirst draft (membersText isFirst ((key, value) :: ms) ++ rest) =
      (part.read.run (value.write ++ (membersText false ms ++ rest))).bind fun p =>
        members parts false (p.1 draft) p.2 := by
  have hv := memberValue_of_find hf hs (colon_cons (value.write ++ (membersText false ms ++ rest)))
  rw [← String.ofList_toList (s := key)] at hv
  rw [membersText_cons, members]
  split <;> rename_i hn <;> rw [nextKey_separator] at hn <;> cases hn
  split <;> rename_i hk <;> rw [stringTail_written] at hk <;> cases hk
  rw [hv]
  cases part.read.run (value.write ++ (membersText false ms ++ rest)) <;> rfl

theorem endsNumeral_membersText (members : List (String × Json)) (rest : List Char) :
    EndsNumeral (membersText false members ++ '}' :: rest) := by
  cases members with
  | nil => exact endsNumeral_cons rfl (by decide) (by decide) (by decide) _
  | cons member members => exact endsNumeral_cons rfl (by decide) (by decide) (by decide) _

/-- The members lead from one draft to another: each has a part that is not set yet, and whose
reader reads the value as what changes the draft. -/
inductive Gathers (parts : List (Part δ)) (levels : Nat) : δ → List (String × Json) → δ → Prop
  | nil (draft : δ) : Gathers parts levels draft [] draft
  | cons {draft final : δ} {key : String} {value : Json} {members : List (String × Json)}
    {part : Part δ} {change : δ → δ} (found : parts.find? (·.key == key) = some part)
    (unset : part.isSet draft = false) (reads : Reads part.read levels value change)
    (more : Gathers parts levels (change draft) members final) :
    Gathers parts levels draft ((key, value) :: members) final

theorem members_taken {parts : List (Part δ)} {levels : Nat} {draft final : δ}
    {ms : List (String × Json)} (h : Gathers parts levels draft ms final) (isFirst : Bool)
    (hn : nestingMembers ms ≤ levels) (rest : List Char) :
    members parts isFirst draft (membersText isFirst ms ++ '}' :: rest) =
      .ok (final, '}' :: rest) := by
  induction h generalizing isFirst with
  | nil draft =>
    rw [membersText_nil]
    exact members_of_done (nextKey_close isFirst rest)
  | cons found unset reads _ ih =>
    obtain ⟨hnv, hnms⟩ := Nat.max_le.mp hn
    rw [members_of_find found unset, reads.taken hnv _ (endsNumeral_membersText _ rest)]
    exact ih false hnms

theorem members_refused {parts : List (Part δ)} {levels : Nat} {draft final : δ}
    {ms : List (String × Json)} (h : Gathers parts levels draft ms final) (isFirst : Bool)
    (hn : levels < nestingMembers ms) (rest : List Char) :
    ∃ place, members parts isFirst draft (membersText isFirst ms ++ '}' :: rest) =
      .error (.located .recursionLimit place) := by
  induction h generalizing isFirst with
  | nil draft => exact absurd hn (Nat.not_lt_zero levels)
  | @cons _ _ key value ms _ _ found unset reads _ ih =>
    rw [members_of_find found unset]
    by_cases hnv : value.nesting ≤ levels
    · have hnms : levels < nestingMembers ms := by
        rw [nestingMembers, nestingMember] at hn
        omega
      rw [reads.taken hnv _ (endsNumeral_membersText _ _)]
      exact ih false hnms
    · obtain ⟨place, he⟩ := reads.refused (Nat.lt_of_not_le hnv)
        (membersText false ms ++ '}' :: rest)
      rw [he]
      exact ⟨place, rfl⟩

theorem enclosed_object (a : α) (rest : List Char) :
    enclosed closeObject (.ok (a, '}' :: rest)) = .ok (a, rest) := by
  have hc : closeObject ('}' :: rest) = ⟨none, rest⟩ := by
    rw [closeObject, skipBlanks_cons rfl]
    rfl
  rw [enclosed, hc]

/-- Reads a record whose parts are read with the levels that are left inside. -/
def Reader.recordWithin (title : String) (shape : Nat → Shape δ α) (levels : Nat) : Reader α :=
  .record title (if levels = 0 then none else some (shape (levels - 1)))

theorem run_record_some (title : String) (shape : Shape δ α) (rest : List Char) :
    (Reader.record title (some shape)).run ('{' :: rest) =
      enclosed closeObject (finished shape .missingField
        (members shape.parts true shape.start rest)) := rfl

theorem write_object (ms : List (String × Json)) (rest : List Char) :
    (Json.object ms).write ++ rest = '{' :: (membersText true ms ++ '}' :: rest) := by
  rw [write, membersText, if_pos rfl, List.cons_append, List.append_assoc]
  rfl

theorem Reads.recordWithin {title : String} {shape : Nat → Shape δ α} (final : δ) {a : α}
    {ms : List (String × Json)}
    (hg : ∀ levels, Gathers (shape levels).parts levels (shape levels).start ms final)
    (hf : ∀ levels, (shape levels).finish final = .ok a) (levels : Nat) :
    Reads (Reader.recordWithin title shape levels) levels (.object ms) a := by
  refine of_inside ⟨_, _, rfl, rfl, by decide⟩ rfl (fun rest => ?_) (fun levels hn rest _ => ?_)
    (fun levels hn rest => ?_) levels
  · exact ⟨_, rfl⟩
  · have hs : Reader.recordWithin title shape (levels + 1) = .record title (some (shape levels)) :=
      rfl
    rw [write_object, hs, run_record_some, members_taken (hg levels) true hn, finished, hf levels]
    exact enclosed_object a rest
  · have hs : Reader.recordWithin title shape (levels + 1) = .record title (some (shape levels)) :=
      rfl
    obtain ⟨place, he⟩ := members_refused (hg levels) true hn rest
    rw [write_object, hs, run_record_some, he]
    exact ⟨place, rfl⟩

/-! ## Variants -/

theorem variantName_written {known : List (String × τ)} {name : String} {tag : τ}
    (h : known.lookup name = some tag) (rest : List Char) :
    variantName known (name.toList.flatMap escapeChar ++ '"' :: rest) = .ok (tag, rest) := by
  rw [variantName, stringTail_written]
  simp only
  rw [String.ofList_toList, h]

section

variable (known : List (String × τ)) (bare : τ → Except Cause α) (rest : List Char)

theorem run_variant_some (content : τ → Reader α) :
    (Reader.variant known bare (some content)).run ('{' :: rest) =
      variantBody known content rest := rfl

theorem run_variant_quote (content : Option (τ → Reader α)) :
    (Reader.variant known bare content).run ('"' :: rest) = bareVariant known bare rest := rfl

end

/-- A bare name is read as what stands for itself. -/
theorem Reads.bareVariant {known : List (String × τ)} {bare : τ → Except Cause α}
    {name : String} {tag : τ} {a : α} (hk : known.lookup name = some tag) (hb : bare tag = .ok a)
    (content : Option (τ → Reader α)) (levels : Nat) :
    Reads (.variant known bare content) levels (.string name) a := by
  refine of_scalar levels rfl (opens_string name) fun rest _ => ?_
  rw [write, writeString, List.cons_append, List.append_assoc, run_variant_quote,
    Json.bareVariant, List.cons_append, List.nil_append, variantName_written hk]
  simp only
  rw [hb]

/-- Reads a variant whose content is read with the levels that are left inside. -/
def Reader.variantWithin (known : List (String × τ)) (bare : τ → Except Cause α)
    (content : Nat → τ → Reader α) (levels : Nat) : Reader α :=
  .variant known bare (if levels = 0 then none else some (content (levels - 1)))

theorem variantBody_written {known : List (String × τ)} {content : τ → Reader α} {name : String}
    {tag : τ} (hk : known.lookup name = some tag) (text : List Char) :
    variantBody known content ('"' :: (name.toList.flatMap escapeChar ++ '"' :: ':' :: text)) =
      ((content tag).run text).bind fun p => (closeVariant p.2).map (p.1, ·) := by
  rw [variantBody, skipBlanks_cons rfl]
  simp only
  rw [if_pos trivial, variantName_written hk]
  simp only
  rw [colon_cons]
  simp only
  cases (content tag).run text with
  | error failure => rfl
  | ok p =>
    obtain ⟨a, after⟩ := p
    simp only [Except.bind]
    cases closeVariant after <;> rfl

theorem Reads.variantWithin {known : List (String × τ)} {bare : τ → Except Cause α}
    {content : Nat → τ → Reader α} {name : String} {tag : τ} {json : Json} {a : α}
    (hk : known.lookup name = some tag)
    (h : ∀ levels, Reads (content levels tag) levels json a) (levels : Nat) :
    Reads (Reader.variantWithin known bare content levels) levels (.object [(name, json)]) a := by
  have hnest : (Json.object [(name, json)]).nesting = json.nesting + 1 := by
    simp [nesting, nestingMembers, nestingMember]
  have hw : ∀ rest, (Json.object [(name, json)]).write ++ rest = '{' ::
      '"' :: (name.toList.flatMap escapeChar ++ '"' :: ':' :: (json.write ++ '}' :: rest)) := by
    intro rest
    rw [write_object, membersText_cons, membersText_nil]
    rfl
  have hs : ∀ levels, Reader.variantWithin known bare content (levels + 1) =
      .variant known bare (some (content levels)) := fun _ => rfl
  refine of_inside ⟨_, _, rfl, rfl, by decide⟩ hnest (fun rest => ?_) (fun levels hn rest _ => ?_)
    (fun levels hn rest => ?_) levels
  · exact ⟨_, rfl⟩
  · have hends : EndsNumeral ('}' :: rest) :=
      endsNumeral_cons rfl (by decide) (by decide) (by decide) rest
    have hclose : closeVariant ('}' :: rest) = .ok rest := by
      rw [closeVariant, skipBlanks_cons rfl]
      rfl
    rw [hw, hs, run_variant_some, variantBody_written hk, (h levels).taken hn _ hends,
      Except.bind, hclose]
    rfl
  · obtain ⟨place, he⟩ := (h levels).refused hn ('}' :: rest)
    rw [hw, hs, run_variant_some, variantBody_written hk, he]
    exact ⟨place, rfl⟩

end GraphDoc.Json
