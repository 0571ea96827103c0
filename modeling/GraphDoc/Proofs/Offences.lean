import GraphDoc.Validation
import Mathlib.Computability.RegularExpressions

/-!
# All offences of a document

Validation stops at the first offence it meets. Here the offences are listed without stopping, over
the fields in document order, and with names held to a regular expression. Validation answers the
head of that list, and what the list does not look at has no say in it.
-/
namespace GraphDoc

/-! ## The pattern of names -/

namespace Name

/-- The characters from the first to the last. -/
def between (first last : Char) : List Char :=
  (List.range' first.toNat (last.toNat + 1 - first.toNat)).map Char.ofNat

/-- A single one of the characters. -/
def oneOf : List Char → RegularExpression Char
  | [] => 0
  | c :: cs => .char c + oneOf cs

def startChars : List Char := '_' :: (between 'A' 'Z' ++ between 'a' 'z')

def continueChars : List Char :=
  '_' :: (between '0' '9' ++ (between 'A' 'Z' ++ between 'a' 'z'))

/-- The pattern `[_A-Za-z][_0-9A-Za-z]*`. -/
def pattern : RegularExpression Char := oneOf startChars * (oneOf continueChars).star

theorem mem_between {first last : Char} {c : Char} (h₁ : first.toNat ≤ c.toNat)
    (h₂ : c.toNat ≤ last.toNat) : c ∈ between first last := by
  refine List.mem_map.mpr ⟨c.toNat, ?_, Char.ofNat_toNat c⟩
  rw [List.mem_range'_1]
  omega

theorem mem_upper_iff (c : Char) : c ∈ between 'A' 'Z' ↔ c.isUpper = true := by
  constructor
  · have h : (between 'A' 'Z').all Char.isUpper = true := by decide
    exact List.all_eq_true.mp h c
  · intro h
    have h := of_decide_eq_true (p := 'A'.val ≤ c.val ∧ c.val ≤ 'Z'.val) h
    exact mem_between (UInt32.le_iff_toNat_le.mp h.1) (UInt32.le_iff_toNat_le.mp h.2)

theorem mem_lower_iff (c : Char) : c ∈ between 'a' 'z' ↔ c.isLower = true := by
  constructor
  · have h : (between 'a' 'z').all Char.isLower = true := by decide
    exact List.all_eq_true.mp h c
  · intro h
    obtain ⟨hfirst, hlast⟩ := Bool.and_eq_true_iff.mp h
    exact mem_between (UInt32.le_iff_toNat_le.mp (of_decide_eq_true hfirst))
      (UInt32.le_iff_toNat_le.mp (of_decide_eq_true hlast))

theorem mem_digit_iff (c : Char) : c ∈ between '0' '9' ↔ c.isDigit = true := by
  constructor
  · have h : (between '0' '9').all Char.isDigit = true := by decide
    exact List.all_eq_true.mp h c
  · intro h
    rw [Char.isDigit_iff_toNat] at h
    exact mem_between h.1 h.2

theorem mem_startChars_iff (c : Char) : c ∈ startChars ↔ isStart c = true := by
  rw [startChars, List.mem_cons, List.mem_append, mem_upper_iff, mem_lower_iff]
  have hc : isStart c = (c == '_' || (c.isUpper || c.isLower)) := rfl
  rw [hc]
  simp

theorem mem_continueChars_iff (c : Char) : c ∈ continueChars ↔ isContinue c = true := by
  rw [continueChars, List.mem_cons, List.mem_append, List.mem_append, mem_upper_iff, mem_lower_iff,
    mem_digit_iff]
  have hc : isContinue c = (c == '_' || ((c.isUpper || c.isLower) || c.isDigit)) := rfl
  rw [hc]
  simp [or_comm]

theorem mem_oneOf_iff (cs text : List Char) :
    text ∈ (oneOf cs).matches' ↔ ∃ c ∈ cs, text = [c] := by
  induction cs with
  | nil => simp [oneOf, Language.notMem_zero]
  | cons c cs ih =>
    have hc : text ∈ (RegularExpression.char c).matches' ↔ text = [c] := Iff.rfl
    rw [oneOf, RegularExpression.matches'_add, Language.mem_add, hc, ih]
    simp

theorem mem_star_oneOf_iff (cs text : List Char) :
    text ∈ (oneOf cs).star.matches' ↔ ∀ c ∈ text, c ∈ cs := by
  rw [RegularExpression.matches'_star, Language.mem_kstar]
  constructor
  · rintro ⟨parts, rfl, h⟩ c hc
    obtain ⟨part, hp, hc⟩ := List.mem_flatten.mp hc
    obtain ⟨d, hd, rfl⟩ := (mem_oneOf_iff cs part).mp (h part hp)
    obtain rfl := List.mem_singleton.mp hc
    exact hd
  · intro h
    refine ⟨text.map ([·]), ?_, ?_⟩
    · rw [← List.flatMap_def, List.flatMap_singleton']
    · intro part hp
      obtain ⟨c, hc, rfl⟩ := List.mem_map.mp hp
      exact (mem_oneOf_iff cs [c]).mpr ⟨c, h c hc, rfl⟩

/-- The check of names is a match of the pattern. -/
theorem isValid_iff (name : String) : isValid name = true ↔ name.toList ∈ pattern.matches' := by
  rw [pattern, RegularExpression.matches'_mul, Language.mem_mul]
  unfold isValid
  cases name.toList with
  | nil =>
    constructor
    · intro h
      cases h
    · rintro ⟨first, hf, rest, _, h⟩
      obtain ⟨c, _, rfl⟩ := (mem_oneOf_iff startChars first).mp hf
      cases h
  | cons c cs =>
    simp only [Bool.and_eq_true, List.all_eq_true]
    constructor
    · rintro ⟨hc, hcs⟩
      refine ⟨[c], (mem_oneOf_iff _ _).mpr ⟨c, (mem_startChars_iff c).mpr hc, rfl⟩, cs, ?_, rfl⟩
      exact (mem_star_oneOf_iff _ _).mpr fun d hd => (mem_continueChars_iff d).mpr (hcs d hd)
    · rintro ⟨first, hf, rest, hr, h⟩
      obtain ⟨d, hd, rfl⟩ := (mem_oneOf_iff startChars first).mp hf
      obtain ⟨rfl, rfl⟩ := List.cons.inj h
      exact ⟨(mem_startChars_iff d).mp hd, fun e he =>
        (mem_continueChars_iff e).mp ((mem_star_oneOf_iff _ _).mp hr e he)⟩

end Name

/-! ## The list of offences -/

def nameOffences (kind : NameKind) (name : String) : List Offence :=
  if name.toList ∈ Name.pattern.matches' then [] else [.invalidName kind name]

namespace Field

mutual

/-- The field and all its descendants, each before its children. -/
def preorder : Field → List Field
  | f@⟨_, _, _, children, _, _, _⟩ => f :: preorderAll children

def preorderAll : List Field → List Field
  | [] => []
  | field :: fields => field.preorder ++ preorderAll fields

end

def argumentOffences (f : Field) : List Offence :=
  if f.argumentOperators ≠ [] ∧ f.argumentOperators.length + 1 ≠ f.arguments.length then
    [.booleanArguments f.name ⟨f.argumentOperators.length, f.arguments.length⟩]
  else []

/-- The offences of the field itself: name and alias where names count, then the arguments. -/
def offences (checksNames : Bool) (f : Field) : List Offence :=
  (if checksNames then
    nameOffences .field f.name ++ f.alias?.elim [] (nameOffences .fieldAlias)
  else []) ++ f.argumentOffences

end Field

namespace Operation

/-- All offences in document order. Field names count in queries, mutations and subscriptions. -/
def offences (o : Operation) : List Offence :=
  (if o.name = "" then [] else nameOffences .operation o.name) ++
    (Field.preorderAll o.fields).flatMap
      (Field.offences (o.kind ∈ [OperationKind.query, .mutation, .subscription]))

end Operation

/-! ## Checks report the first offence -/

/-- Success where there is no offence, else the first one. -/
def firstOffence : List Offence → Except Offence Unit
  | [] => .ok ()
  | offence :: _ => .error offence

theorem firstOffence_eq_ok_iff (offences : List Offence) :
    firstOffence offences = .ok () ↔ offences = [] := by
  cases offences <;> simp [firstOffence]

theorem firstOffence_append (xs ys : List Offence) :
    firstOffence (xs ++ ys) = firstOffence xs >>= fun _ => firstOffence ys := by
  cases xs with
  | nil => rfl
  | cons offence xs => rfl

theorem checkName_eq (kind : NameKind) (name : String) :
    checkName kind name = firstOffence (nameOffences kind name) := by
  unfold checkName nameOffences
  by_cases h : Name.isValid name = true
  · rw [if_pos h, if_pos ((Name.isValid_iff name).mp h)]
    rfl
  · rw [if_neg h, if_neg (mt (Name.isValid_iff name).mpr h)]
    rfl

namespace Field

theorem preorder_eq (f : Field) : f.preorder = f :: preorderAll f.children := by
  cases f
  rw [preorder]

theorem preorderAll_eq_flatMap (fields : List Field) :
    preorderAll fields = fields.flatMap preorder := by
  induction fields with
  | nil => rfl
  | cons field fields ih => rw [preorderAll, ih, List.flatMap_cons]

theorem checkArguments_eq (f : Field) : f.checkArguments = firstOffence f.argumentOffences := by
  unfold checkArguments argumentOffences
  by_cases h : f.argumentOperators ≠ [] ∧
      f.argumentOperators.length + 1 ≠ f.arguments.length
  · rw [if_pos h, if_pos (by simpa using h)]
    rfl
  · rw [if_neg h, if_neg (by simpa using h)]
    rfl

theorem checkSelf_eq (checksNames : Bool) (f : Field) :
    f.checkSelf checksNames = firstOffence (f.offences checksNames) := by
  unfold checkSelf offences
  cases checksNames with
  | false =>
    rw [if_neg Bool.false_ne_true, if_neg Bool.false_ne_true, List.nil_append,
      ← checkArguments_eq]
  | true =>
    rw [if_pos rfl, if_pos rfl, firstOffence_append, firstOffence_append, ← checkName_eq,
      ← checkArguments_eq]
    cases f.alias? with
    | none => cases checkName .field f.name <;> rfl
    | some label =>
      rw [Option.elim_some, ← checkName_eq]
      change (checkName .field f.name >>= fun _ =>
        checkName .fieldAlias label >>= fun _ => f.checkArguments) = _
      cases checkName .field f.name <;> cases checkName .fieldAlias label <;> rfl

theorem argumentOffences_eq_nil_iff (f : Field) : f.argumentOffences = [] ↔
    f.argumentOperators = [] ∨ f.argumentOperators.length + 1 = f.arguments.length := by
  unfold argumentOffences
  split
  · rename_i h
    exact iff_of_false (List.cons_ne_nil _ _) (not_or.mpr h)
  · rename_i h
    exact iff_of_true rfl (or_iff_not_imp_left.mpr fun ho => not_not.mp fun hl => h ⟨ho, hl⟩)

mutual

theorem check_eq (checksNames : Bool) : ∀ f : Field,
    f.check checksNames = firstOffence (f.preorder.flatMap (offences checksNames))
  | ⟨_, _, _, children, _, _, _⟩ => by
    rw [check, preorder, List.flatMap_cons, firstOffence_append, ← checkAll_eq checksNames children,
      ← checkSelf_eq]
    split <;> rename_i h <;> rw [h] <;> rfl

theorem checkAll_eq (checksNames : Bool) : ∀ fields : List Field,
    checkAll checksNames fields =
      firstOffence ((preorderAll fields).flatMap (offences checksNames))
  | [] => rfl
  | field :: fields => by
    rw [checkAll, preorderAll, List.flatMap_append, firstOffence_append,
      ← check_eq checksNames field, ← checkAll_eq checksNames fields]
    split <;> rename_i h <;> rw [h] <;> rfl

end

end Field

namespace Operation

theorem checksNames_eq (kind : OperationKind) :
    kind.checksNames = decide (kind ∈ [OperationKind.query, .mutation, .subscription]) := by
  cases kind <;> decide

theorem validate_eq (o : Operation) : o.validate = firstOffence o.offences := by
  rw [offences, firstOffence_append, ← Field.checkAll_eq, ← checksNames_eq]
  unfold validate name?
  by_cases h : o.name = ""
  · rw [if_pos h, h]
    rfl
  · rw [if_neg h, ← checkName_eq, if_neg (by simpa using h)]

/-! ### Names of a valid operation -/

theorem isValid_of_nameOffences {kind : NameKind} {name : String}
    (h : nameOffences kind name = []) : Name.isValid name = true := by
  unfold nameOffences at h
  split at h
  · rename_i hm
    exact (Name.isValid_iff name).mpr hm
  · cases h

/-- In a valid operation with a keyword, all names and aliases of fields are valid. -/
theorem names_of_validate {o : Operation} (hk : o.kind ≠ .graphPattern)
    (h : o.validate = .ok ()) : ∀ f ∈ Field.preorderAll o.fields,
      Name.isValid f.name = true ∧ ∀ label ∈ f.alias?, Name.isValid label = true := by
  intro f hf
  have hkind : o.kind ∈ [OperationKind.query, .mutation, .subscription] := by
    cases hc : o.kind with
    | graphPattern => exact absurd hc hk
    | _ => decide
  rw [validate_eq, firstOffence_eq_ok_iff, offences, List.append_eq_nil_iff,
    List.flatMap_eq_nil_iff] at h
  have hnames := (List.append_eq_nil_iff.mp (h.2 f hf)).1
  rw [if_pos (decide_eq_true hkind), List.append_eq_nil_iff] at hnames
  refine ⟨isValid_of_nameOffences hnames.1, fun label hl => ?_⟩
  rw [Option.mem_def.mp hl] at hnames
  exact isValid_of_nameOffences hnames.2

theorem name_of_validate {o : Operation} (h : o.validate = .ok ()) :
    ∀ name ∈ o.name?, Name.isValid name = true := by
  intro name hn
  unfold name? at hn
  split at hn
  · cases hn
  · rename_i hne
    obtain rfl := Option.some.inj hn
    rw [validate_eq, firstOffence_eq_ok_iff, offences, List.append_eq_nil_iff,
      if_neg (by simpa using hne)] at h
    exact isValid_of_nameOffences h.1

theorem exists_keyword {kind : OperationKind} (h : kind ≠ .graphPattern) :
    ∃ keyword, kind.keyword? = some keyword ∧ Name.isValid keyword = true := by
  cases kind with
  | graphPattern => exact absurd rfl h
  | mutation => exact ⟨_, rfl, by decide⟩
  | query => exact ⟨_, rfl, by decide⟩
  | subscription => exact ⟨_, rfl, by decide⟩

end Operation

/-! ## What validation does not look at -/

namespace Field

mutual

/-- The field without its filter, and with its arguments and operators merely counted. -/
def outline : Field → Field
  | ⟨alias?, operators, arguments, children, _, _, name⟩ =>
    { alias?, name
      argumentOperators := operators.map fun _ => ""
      arguments := arguments.map fun _ => .pair "" default
      children := outlines children }

def outlines : List Field → List Field
  | [] => []
  | field :: fields => field.outline :: outlines fields

end

theorem offences_outline (checksNames : Bool) (f : Field) :
    f.outline.offences checksNames = f.offences checksNames := by
  cases f
  simp [outline, offences, argumentOffences]

mutual

theorem flatMap_preorder_outline (checksNames : Bool) : ∀ f : Field,
    f.outline.preorder.flatMap (offences checksNames) =
      f.preorder.flatMap (offences checksNames)
  | ⟨label, operators, arguments, children, filter, isFunction, name⟩ => by
    have hf := offences_outline checksNames
      ⟨label, operators, arguments, children, filter, isFunction, name⟩
    rw [outline] at hf
    rw [outline, preorder, preorder, List.flatMap_cons, List.flatMap_cons, hf,
      flatMap_preorderAll_outlines checksNames children]

theorem flatMap_preorderAll_outlines (checksNames : Bool) : ∀ fields : List Field,
    (preorderAll (outlines fields)).flatMap (offences checksNames) =
      (preorderAll fields).flatMap (offences checksNames)
  | [] => rfl
  | field :: fields => by
    rw [outlines, preorderAll, preorderAll, List.flatMap_append, List.flatMap_append,
      flatMap_preorder_outline checksNames field, flatMap_preorderAll_outlines checksNames fields]

end

end Field

namespace Operation

/-- The operation without filters, and with arguments and operators merely counted. -/
def outline (o : Operation) : Operation := { o with fields := Field.outlines o.fields }

theorem offences_outline (o : Operation) : o.outline.offences = o.offences := by
  unfold offences outline
  rw [Field.flatMap_preorderAll_outlines]

/-- Validation succeeds where there is no offence and otherwise reports the first one in document
order; operations that differ in arguments, operators or filters but not in their number fare
alike. -/
theorem validate_first_offence (o : Operation) :
    (o.validate = .ok () ↔ o.offences = []) ∧
    (∀ offence, o.validate = .error offence ↔ o.offences.head? = some offence) ∧
    (∀ other : Operation, other.outline = o.outline → other.validate = o.validate) := by
  refine ⟨?_, ?_, ?_⟩
  · rw [validate_eq, firstOffence_eq_ok_iff]
  · intro offence
    rw [validate_eq]
    cases o.offences <;> simp [firstOffence]
  · intro other h
    rw [validate_eq, validate_eq, ← offences_outline, h, offences_outline]

/-- A query whose only field has one operator and one argument, and a child without a valid name. -/
def mismatched (operator : String) (argument : Argument) (filter : Option Clause) : Operation where
  kind := .query
  fields := [{
    name := "user"
    argumentOperators := [operator]
    arguments := [argument]
    filter
    children := [.new "bad-name"] }]

theorem validate_mismatched :
    let o := mismatched "AND" (.int "id" 1) none
    let other := mismatched "" (.call "has" (.string "")) (some (.single (.bool "a:b" true)))
    other.outline = o.outline ∧
      o.offences = [.booleanArguments "user" ⟨1, 1⟩, .invalidName .field "bad-name"] ∧
      o.validate = .error (.booleanArguments "user" ⟨1, 1⟩) ∧ other.validate = o.validate := by
  intro o other
  have hl : other.outline = o.outline := rfl
  have ho : o.offences = [.booleanArguments "user" ⟨1, 1⟩, .invalidName .field "bad-name"] := by
    decide
  obtain ⟨_, hfirst, hsame⟩ := validate_first_offence o
  exact ⟨hl, ho, (hfirst _).mpr (by rw [ho]; rfl), hsame other hl⟩

end Operation

end GraphDoc
