import GraphDoc.Operation
import Mathlib.Data.List.Basic
import Mathlib.Data.List.Count

/-!
# Replacing fields in place

Looking up a name and changing the field of that name both go to the first top-level field that has
it, and leave all others where they are. Names need not differ, so that replacing a name again and
again works through the fields that have it, first to last, and then finds none.
-/
namespace GraphDoc

/-- The field is the first one of the given name, between those before and those after it. -/
structure IsFirst (name : String) (fields before : List Field) (field : Field)
    (after : List Field) : Prop where
  split : fields = before ++ field :: after
  named : field.name = name
  others : ∀ other ∈ before, other.name ≠ name

/-- How many of the fields have the name. -/
def countNamed (name : String) (fields : List Field) : Nat := fields.countP (·.name == name)

section

variable {name : String} {field : Field}

theorem countNamed_nil : countNamed name [] = 0 := rfl

theorem countNamed_cons_of_named (h : field.name = name) (fields : List Field) :
    countNamed name (field :: fields) = countNamed name fields + 1 :=
  List.countP_cons_of_pos (beq_iff_eq.mpr h)

theorem countNamed_cons_of_ne (h : field.name ≠ name) (fields : List Field) :
    countNamed name (field :: fields) = countNamed name fields :=
  List.countP_cons_of_neg (by simpa using h)

theorem countNamed_append (xs ys : List Field) :
    countNamed name (xs ++ ys) = countNamed name xs + countNamed name ys := List.countP_append

theorem countNamed_eq_zero_iff {fields : List Field} :
    countNamed name fields = 0 ↔ ∀ field ∈ fields, field.name ≠ name := by
  simp [countNamed, List.countP_eq_zero]

end

theorem exists_isFirst {name : String} {fields : List Field}
    (h : ∃ field ∈ fields, field.name = name) :
    ∃ before field after, IsFirst name fields before field after := by
  obtain ⟨field, hm, hn⟩ := h
  have hsome : (fields.find? (·.name == name)).isSome = true :=
    List.find?_isSome.mpr ⟨field, hm, beq_iff_eq.mpr hn⟩
  obtain ⟨first, hfirst⟩ := Option.isSome_iff_exists.mp hsome
  obtain ⟨hnamed, before, after, hsplit, hothers⟩ := List.find?_eq_some_iff_append.mp hfirst
  exact ⟨before, first, after, hsplit, beq_iff_eq.mp hnamed, by simpa using hothers⟩

theorem countNamed_append_of_ne {name : String} {before : List Field}
    (h : ∀ other ∈ before, other.name ≠ name) (fields : List Field) :
    countNamed name (before ++ fields) = countNamed name fields := by
  rw [countNamed_append, countNamed_eq_zero_iff.mpr h, Nat.zero_add]

theorem IsFirst.find?_eq {name : String} {fields before after : List Field} {field : Field}
    (h : IsFirst name fields before field after) :
    fields.find? (·.name == name) = some field := by
  refine List.find?_eq_some_iff_append.mpr ⟨beq_iff_eq.mpr h.named, before, after, h.split, ?_⟩
  simpa using h.others

namespace Operation

variable {name : String}

/-! ## Changing the first match -/

theorem modifyFirst?_append {before : List Field} (h : ∀ other ∈ before, other.name ≠ name)
    (fields : List Field) (change : Field → Field) :
    modifyFirst? (·.name == name) change (before ++ fields) =
      (modifyFirst? (·.name == name) change fields).map (before ++ ·) := by
  induction before with
  | nil => simp
  | cons other before ih =>
    obtain ⟨hother, hothers⟩ := List.forall_mem_cons.mp h
    rw [List.cons_append, modifyFirst?, if_neg (by simpa using hother), ih hothers, Option.map_map]
    rfl

theorem modifyFirst?_of_first {fields before after : List Field} {field : Field}
    (h : IsFirst name fields before field after) (change : Field → Field) :
    modifyFirst? (·.name == name) change fields = some (before ++ change field :: after) := by
  rw [h.split, modifyFirst?_append h.others, modifyFirst?, if_pos (beq_iff_eq.mpr h.named),
    Option.map_some]

theorem modifyFirst?_of_absent {fields : List Field} (h : ∀ field ∈ fields, field.name ≠ name)
    (change : Field → Field) : modifyFirst? (·.name == name) change fields = none := by
  have happend := modifyFirst?_append h [] change
  rwa [List.append_nil] at happend

theorem modifyField?_of_first {o : Operation} {before after : List Field} {field : Field}
    (h : IsFirst name o.fields before field after) (change : Field → Field) :
    o.modifyField? name change = some { o with fields := before ++ change field :: after } := by
  rw [modifyField?, modifyFirst?_of_first h, Option.map_some]

theorem modifyField?_of_absent {o : Operation} (h : ∀ field ∈ o.fields, field.name ≠ name)
    (change : Field → Field) : o.modifyField? name change = none := by
  rw [modifyField?, modifyFirst?_of_absent h, Option.map_none]

theorem isSome_field?_iff {o : Operation} :
    (o.field? name).isSome = true ↔ ∃ field ∈ o.fields, field.name = name := by
  rw [field?, List.find?_isSome]
  simp only [beq_iff_eq]

theorem isSome_modifyField?_iff {o : Operation} (change : Field → Field) :
    (o.modifyField? name change).isSome = true ↔ ∃ field ∈ o.fields, field.name = name := by
  by_cases h : ∃ field ∈ o.fields, field.name = name
  · obtain ⟨before, field, after, hfirst⟩ := exists_isFirst h
    exact iff_of_true (by rw [modifyField?_of_first hfirst]; rfl) h
  · have habsent : ∀ field ∈ o.fields, field.name ≠ name := by simpa using h
    exact iff_of_false (by rw [modifyField?_of_absent habsent]; decide) h

/-! ## Runs of replacements -/

/-- An attempt to put a field in the place of the first one of a name: whether there was one, and
the operation afterwards. -/
def replaceField (name : String) (o : Operation) (replacement : Field) : Bool × Operation :=
  match o.modifyField? name fun _ => replacement with
  | some replaced => (true, replaced)
  | none => (false, o)

/-- Attempts in a row, each in the operation that the one before has left. -/
def replaceFields (name : String) (o : Operation) : List Field → List Bool × Operation
  | [] => ([], o)
  | replacement :: later =>
    let (found, replaced) := o.replaceField name replacement
    let (reports, last) := replaced.replaceFields name later
    (found :: reports, last)

/-- The fields with those of the given name replaced in order, as far as there are replacements. -/
def substituted (name : String) : (fields replacements : List Field) → List Field
  | [], _ => []
  | field :: fields, [] => field :: fields
  | field :: fields, replacement :: later =>
    if field.name = name then replacement :: substituted name fields later
    else field :: substituted name fields (replacement :: later)

theorem substituted_nil (fields : List Field) : substituted name fields [] = fields := by
  cases fields <;> rfl

theorem substituted_cons_of_named {field : Field} (h : field.name = name) (fields : List Field)
    (replacement : Field) (later : List Field) :
    substituted name (field :: fields) (replacement :: later) =
      replacement :: substituted name fields later := if_pos h

theorem substituted_cons_of_ne {field : Field} (h : field.name ≠ name)
    (fields replacements : List Field) :
    substituted name (field :: fields) replacements =
      field :: substituted name fields replacements := by
  cases replacements with
  | nil => rw [substituted_nil, substituted_nil]
  | cons replacement later => exact if_neg h

theorem substituted_append {before : List Field} (h : ∀ other ∈ before, other.name ≠ name)
    (fields replacements : List Field) :
    substituted name (before ++ fields) replacements =
      before ++ substituted name fields replacements := by
  induction before with
  | nil => rfl
  | cons other before ih =>
    obtain ⟨hother, hothers⟩ := List.forall_mem_cons.mp h
    rw [List.cons_append, substituted_cons_of_ne hother, ih hothers, List.cons_append]

theorem substituted_of_absent {fields : List Field} (h : ∀ field ∈ fields, field.name ≠ name)
    (replacements : List Field) : substituted name fields replacements = fields := by
  have happend := substituted_append h [] replacements
  rwa [List.append_nil, substituted, List.append_nil] at happend

/-- Each field of the name gives way to the replacement that comes as many places into the run as
there are such fields before it. -/
theorem getElem?_substituted (fields replacements : List Field) (i : Nat) :
    (substituted name fields replacements)[i]? = fields[i]?.map fun field =>
      if field.name = name then
        replacements.getD (countNamed name (fields.take i)) field
      else field := by
  induction fields generalizing replacements i with
  | nil => rfl
  | cons field fields ih =>
    by_cases hname : field.name = name
    · cases replacements with
      | nil => simp [substituted_nil]
      | cons replacement later =>
        rw [substituted_cons_of_named hname]
        cases i with
        | zero => simp [hname, countNamed_nil]
        | succ i => simp [ih, countNamed_cons_of_named hname]
    · rw [substituted_cons_of_ne hname]
      cases i with
      | zero => simp [hname]
      | succ i => simp [ih, countNamed_cons_of_ne hname]

/-- Replacements beyond the number of fields of the name are not used. -/
theorem substituted_take {fields : List Field} {k : Nat}
    (h : countNamed name fields ≤ k) (replacements : List Field) :
    substituted name fields (replacements.take k) = substituted name fields replacements := by
  induction fields generalizing replacements k with
  | nil => rfl
  | cons field fields ih =>
    by_cases hname : field.name = name
    · rw [countNamed_cons_of_named hname] at h
      obtain ⟨k, rfl⟩ : ∃ j, k = j + 1 := ⟨k - 1, by omega⟩
      cases replacements with
      | nil => rfl
      | cons replacement later =>
        rw [List.take_succ_cons, substituted_cons_of_named hname, substituted_cons_of_named hname,
          ih (by omega)]
    · rw [countNamed_cons_of_ne hname] at h
      rw [substituted_cons_of_ne hname, substituted_cons_of_ne hname, ih h]

/-- Each replacement that has another name leaves one field fewer of the name. -/
theorem countNamed_substituted {fields replacements : List Field}
    (h : ∀ replacement ∈ replacements, replacement.name ≠ name) :
    countNamed name (substituted name fields replacements) =
      countNamed name fields - replacements.length := by
  induction fields generalizing replacements with
  | nil => simp [substituted, countNamed_nil]
  | cons field fields ih =>
    by_cases hname : field.name = name
    · cases replacements with
      | nil => rw [substituted_nil, List.length_nil, Nat.sub_zero]
      | cons replacement later =>
        obtain ⟨hother, hlater⟩ := List.forall_mem_cons.mp h
        rw [substituted_cons_of_named hname, countNamed_cons_of_ne hother,
          countNamed_cons_of_named hname, ih hlater, List.length_cons]
        omega
    · rw [substituted_cons_of_ne hname, countNamed_cons_of_ne hname,
        countNamed_cons_of_ne hname, ih h]

theorem replaceField_of_first {o : Operation} {before after : List Field} {field : Field}
    (h : IsFirst name o.fields before field after) (replacement : Field) :
    o.replaceField name replacement =
      (true, { o with fields := before ++ replacement :: after }) := by
  rw [replaceField, modifyField?_of_first h]

theorem replaceField_of_absent {o : Operation} (h : ∀ field ∈ o.fields, field.name ≠ name)
    (replacement : Field) : o.replaceField name replacement = (false, o) := by
  rw [replaceField, modifyField?_of_absent h]

/-- A run of fields of other names is put into the operation in order. As many attempts as there are
fields of the name report that they found one, and the rest report that there is none. -/
theorem replaceFields_eq (o : Operation) {replacements : List Field}
    (h : ∀ replacement ∈ replacements, replacement.name ≠ name) :
    let count := countNamed name o.fields
    o.replaceFields name replacements =
      (List.replicate (min replacements.length count) true ++
        List.replicate (replacements.length - count) false,
        { o with fields := substituted name o.fields replacements }) := by
  induction replacements generalizing o with
  | nil => simp [replaceFields, substituted_nil]
  | cons replacement later ih =>
    obtain ⟨hother, hlater⟩ := List.forall_mem_cons.mp h
    by_cases hfound : ∃ field ∈ o.fields, field.name = name
    · -- the field that is found gives way to one that no later attempt finds
      obtain ⟨before, field, after, hfirst⟩ := exists_isFirst hfound
      obtain ⟨hsplit, hnamed, hothers⟩ := hfirst
      have hcount : countNamed name o.fields = countNamed name after + 1 := by
        rw [hsplit, countNamed_append_of_ne hothers, countNamed_cons_of_named hnamed]
      have hleft : countNamed name (before ++ replacement :: after) = countNamed name after := by
        rw [countNamed_append_of_ne hothers, countNamed_cons_of_ne hother]
      have hfields : substituted name (before ++ replacement :: after) later =
          substituted name o.fields (replacement :: later) := by
        rw [hsplit, substituted_append hothers, substituted_append hothers,
          substituted_cons_of_ne hother, substituted_cons_of_named hnamed]
      rw [replaceFields, replaceField_of_first ⟨hsplit, hnamed, hothers⟩]
      simp only [ih _ hlater, hcount, hleft, hfields, List.length_cons, Nat.add_min_add_right,
        Nat.add_sub_add_right, List.replicate_succ, List.cons_append]
    · have habsent : ∀ field ∈ o.fields, field.name ≠ name := by simpa using hfound
      have hcount : countNamed name o.fields = 0 :=
        countNamed_eq_zero_iff.mpr habsent
      rw [replaceFields, replaceField_of_absent habsent]
      simp only [ih o hlater, hcount, substituted_of_absent habsent]
      simp [List.replicate_succ]

/-! ## Lookup and replacement -/

theorem field?_of_first {o : Operation} {before after : List Field} {field : Field}
    (h : IsFirst name o.fields before field after) : o.field? name = some field := h.find?_eq

theorem field?_eq_none_iff {o : Operation} :
    o.field? name = none ↔ countNamed name o.fields = 0 := by
  rw [field?, List.find?_eq_none, countNamed_eq_zero_iff]
  simp only [beq_iff_eq]

/-- A name that some top-level field has stands for the first of them, both when it is looked up and
when its field is changed, and nothing else of the operation changes. Fields of other names that are
put in its place one after the other replace the fields of the name in order; where these run out,
an attempt changes nothing. -/
theorem first_named_replaced (o : Operation) (name : String) :
    let count := countNamed name o.fields
    ((o.field? name).isSome = true ↔ ∃ field ∈ o.fields, field.name = name) ∧
    (∀ change, (o.modifyField? name change).isSome = true ↔
      ∃ field ∈ o.fields, field.name = name) ∧
    ((∃ field ∈ o.fields, field.name = name) → ∃ before field after,
      IsFirst name o.fields before field after ∧ o.field? name = some field ∧
      (∀ change, o.modifyField? name change =
        some { o with fields := before ++ change field :: after }) ∧
      ∀ replacement : Field, replacement.name = name → ∃ replaced,
        o.modifyField? name (fun _ => replacement) = some replaced ∧
        replaced.field? name = some replacement) ∧
    (∀ replacements : List Field, (∀ replacement ∈ replacements, replacement.name ≠ name) →
      let (reports, last) := o.replaceFields name replacements
      reports = List.replicate (min replacements.length count) true ++
        List.replicate (replacements.length - count) false ∧
      last.kind = o.kind ∧ last.name = o.name ∧
      (∀ i : Nat, last.fields[i]? = o.fields[i]?.map fun field =>
        if field.name = name then
          replacements.getD (countNamed name (o.fields.take i)) field
        else field) ∧
      (∀ k, count ≤ k → (o.replaceFields name (replacements.take k)).2 = last) ∧
      (last.field? name = none ↔ count ≤ replacements.length)) := by
  intro count
  refine ⟨isSome_field?_iff, isSome_modifyField?_iff, fun hfound => ?_, fun replacements h => ?_⟩
  · obtain ⟨before, field, after, hfirst⟩ := exists_isFirst hfound
    refine ⟨before, field, after, hfirst, field?_of_first hfirst, modifyField?_of_first hfirst, ?_⟩
    intro replacement hnamed
    exact ⟨_, modifyField?_of_first hfirst _, field?_of_first ⟨rfl, hnamed, hfirst.others⟩⟩
  · have htake : ∀ k, ∀ replacement ∈ replacements.take k, replacement.name ≠ name :=
      fun k replacement hm => h replacement (List.mem_of_mem_take hm)
    rw [o.replaceFields_eq h]
    refine ⟨rfl, rfl, rfl, getElem?_substituted o.fields replacements, fun k hk => ?_, ?_⟩
    · rw [o.replaceFields_eq (htake k)]
      simp only [substituted_take hk]
    · rw [field?_eq_none_iff]
      simp only [countNamed_substituted h]
      omega

/-- A query with two fields of one name, between them a field with a child of that name. -/
def repeated : Operation :=
  query.withFields [(Field.new "user").withAlias "first", (Field.new "post").withNames ["user"],
    Field.new "user"]

theorem repeated_replaced :
    let several := [Field.new "a", .new "b", .new "c"]
    let renamed := (Field.new "user").withNames ["id"]
    (∃ field ∈ repeated.fields, field.name = "user") ∧ renamed.name = "user" ∧
    (∀ replacement ∈ several, replacement.name ≠ "user") ∧
    repeated.field? "user" = some ((Field.new "user").withAlias "first") ∧
    (∃ replaced, repeated.modifyField? "user" (fun _ => renamed) = some replaced ∧
      replaced.field? "user" = some renamed) ∧
    (repeated.replaceFields "user" several).1 = [true, true, false] ∧
    (repeated.replaceFields "user" several).2.field? "user" = none := by
  intro several renamed
  have hfound : ∃ field ∈ repeated.fields, field.name = "user" := by decide
  have hother : ∀ replacement ∈ several, replacement.name ≠ "user" := by decide
  obtain ⟨_, _, hfirst, hrun⟩ := first_named_replaced repeated "user"
  obtain ⟨_, _, _, _, _, _, hrenamed⟩ := hfirst hfound
  obtain ⟨hreports, _, _, _, _, hnone⟩ := hrun several hother
  exact ⟨hfound, rfl, hother, by decide, hrenamed renamed rfl, hreports, hnone.mpr (by decide)⟩

end Operation

end GraphDoc
