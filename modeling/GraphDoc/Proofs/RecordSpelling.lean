import GraphDoc.Proofs.SpellingReading
import Mathlib.Data.List.Nodup

/-!
# Reading spelled records

Which keys of a record have been read determines what its draft holds, in whatever order they came
and whatever stood between them. A record is then read like each of its parts: any spelling of it is
taken if every part stands for a value, and refused if some part does not.
-/
namespace GraphDoc.Json

variable {α β δ : Type}

/-! ## Drafts -/

/-- The keys of a record that have been read. -/
abbrev Keys := String → Bool

namespace Keys

def none : Keys := fun _ => false

def insert (keys : Keys) (key : String) : Keys := fun other => other == key || keys other

theorem insert_self (keys : Keys) (key : String) : keys.insert key key = true := by
  simp [insert]

theorem insert_of_mem {keys : Keys} {other : String} (h : keys other = true) (key : String) :
    keys.insert key other = true := by
  simp [insert, h]

theorem insert_of_ne (keys : Keys) {key other : String} (h : other ≠ key) :
    keys.insert key other = keys other := by
  simp [insert, h]

end Keys

/-- What a draft holds of a part: its value once its key has been read. -/
def slot (isRead : Bool) (value : Option β) : Option β := if isRead then value else none

theorem slot_true (value : Option β) : slot true value = value := rfl

theorem isSome_slot (isRead : Bool) (value : Option β) :
    (slot isRead value).isSome = (isRead && value.isSome) := by
  cases isRead <;> rfl

/-- A part that was read, or left out for its default, gives its value in the end. -/
theorem getD_slot {isRead : Bool} {b default : β} (h : isRead = true ∨ b = default) :
    (slot isRead (some b)).getD default = b := by
  cases isRead with
  | true => rfl
  | false => exact (h.resolve_left Bool.false_ne_true).symm

/-- A part that is not refused where it was read, and stands for its default where it may be left
out, has a value. -/
theorem exists_of_slot {isRead : Bool} {value : Option β} {omissible : Prop} {default : β}
    (h : isRead = true ∨ omissible) (hs : isRead = true → (slot isRead value).isSome = true)
    (hd : omissible → value = some default) :
    ∃ b, value = some b ∧ (isRead = true ∨ b = default) := by
  rcases h with hread | homissible
  · have hsome := hs hread
    rw [isSome_slot, hread, Bool.true_and] at hsome
    obtain ⟨b, rfl⟩ := Option.isSome_iff_exists.mp hsome
    exact ⟨b, rfl, .inl hread⟩
  · exact ⟨default, hd homissible, .inr rfl⟩

/-- The part reads its spelling as what puts its value into the draft. A value that is refused
leaves no outcome for the record. -/
structure FitsAs (draft : Keys → δ) (outcome : Option α) (levels : Nat) (part : Part δ)
    (p : PartSpelling) (change : Option (δ → δ)) : Prop where
  key : part.key = p.key
  accepts : Accepts part.read levels p.value change
  sets : ∀ f ∈ change, ∀ keys, f (draft keys) = draft (keys.insert part.key)
  isSet : ∀ keys, part.isSet (draft keys) = (keys part.key && change.isSome)
  refused : change = none → outcome = none

def Fits (draft : Keys → δ) (outcome : Option α) (levels : Nat) (part : Part δ)
    (p : PartSpelling) : Prop :=
  ∃ change, FitsAs draft outcome levels part p change

theorem Fits.of_value {draft : Keys → δ} {outcome : Option α} {levels : Nat} {key : String}
    {isSet : δ → Bool} {reader : Reader β} {set : β → δ → δ} {omissible : Prop}
    {spelling : Spelling} {value : Option β} (accepts : Accepts reader levels spelling value)
    (sets : ∀ b ∈ value, ∀ keys, set b (draft keys) = draft (keys.insert key))
    (isSet_eq : ∀ keys, isSet (draft keys) = (slot (keys key) value).isSome)
    (refused : value = none → outcome = none) :
    Fits draft outcome levels ⟨key, isSet, reader.map set⟩ ⟨key, omissible, spelling⟩ := by
  refine ⟨value.map set, rfl, accepts.map set, ?_, ?_, ?_⟩
  · intro f hf keys
    obtain ⟨b, hb, rfl⟩ := Option.map_eq_some_iff.mp hf
    exact sets b hb keys
  · intro keys
    rw [Option.isSome_map, ← isSome_slot]
    exact isSet_eq keys
  · intro hnone
    exact refused (Option.map_eq_none_iff.mp hnone)

/-- A part whose value is never refused. -/
theorem Fits.of_some {draft : Keys → δ} {outcome : Option α} {levels : Nat} {key : String}
    {isSet : δ → Bool} {reader : Reader β} {set : β → δ → δ} {omissible : Prop}
    {spelling : Spelling} {b : β} (accepts : Accepts reader levels spelling (some b))
    (sets : ∀ keys, set b (draft keys) = draft (keys.insert key))
    (isSet_eq : ∀ keys, isSet (draft keys) = (slot (keys key) (some b)).isSome) :
    Fits draft outcome levels ⟨key, isSet, reader.map set⟩ ⟨key, omissible, spelling⟩ := by
  refine Fits.of_value accepts (fun other ho keys => ?_) isSet_eq nofun
  cases ho
  exact sets keys

/-- How the drafts of a record, read with some levels left, fit the spellings of its parts. -/
structure Fitting (draft : Keys → δ) (outcome : Option α) (levels : Nat) (shape : Shape δ α)
    (parts : List PartSpelling) : Prop where
  start : shape.start = draft .none
  nodup : (parts.map (·.key)).Nodup
  fits : List.Forall₂ (Fits draft outcome levels) shape.parts parts
  finish : ∀ keys : Keys, (∀ p ∈ parts, keys p.key = true ∨ p.omissible) →
    (∀ part ∈ shape.parts, keys part.key = true → part.isSet (draft keys) = true) →
    ∃ a, outcome = some a ∧ shape.finish (draft keys) = .ok a

/-! ## Where a record stands while it is read -/

/-- The parts that are left are those whose keys have not been read yet. -/
structure Gathered (draft : Keys → δ) (shape : Shape δ α) (parts left : List PartSpelling)
    (keys : Keys) : Prop where
  covered : ∀ p ∈ parts, keys p.key = true ∨ p ∈ left
  unread : ∀ p ∈ left, keys p.key = false
  set : ∀ part ∈ shape.parts, keys part.key = true → part.isSet (draft keys) = true
  known : ∀ p ∈ left, p ∈ parts
  nodup : (left.map (·.key)).Nodup

section

variable {draft : Keys → δ} {outcome : Option α} {levels : Nat} {shape : Shape δ α}
  {parts : List PartSpelling}

theorem exists_fits {shapeParts : List (Part δ)}
    (h : List.Forall₂ (Fits draft outcome levels) shapeParts parts) :
    (∀ part ∈ shapeParts, ∃ p ∈ parts, Fits draft outcome levels part p) ∧
    (∀ p ∈ parts, ∃ part, shapeParts.find? (·.key == p.key) = some part ∧
      part ∈ shapeParts ∧ part.key = p.key) ∧
    shapeParts.map (·.key) = parts.map (·.key) := by
  induction h with
  | nil => simp
  | @cons part p shapeParts parts hfirst _ ih =>
    obtain ⟨hparts, hfind, hkeys⟩ := ih
    have hkey : part.key = p.key := hfirst.elim fun _ hf => hf.key
    refine ⟨List.forall_mem_cons.mpr ⟨?_, ?_⟩, List.forall_mem_cons.mpr ⟨?_, ?_⟩, ?_⟩
    · exact ⟨p, List.mem_cons_self .., hfirst⟩
    · intro other hother
      obtain ⟨q, hq, hfits⟩ := hparts other hother
      exact ⟨q, List.mem_cons_of_mem _ hq, hfits⟩
    · exact ⟨part, List.find?_cons_of_pos (by simp [hkey]), List.mem_cons_self .., hkey⟩
    · intro q hq
      by_cases hk : part.key = q.key
      · exact ⟨part, List.find?_cons_of_pos (by simp [hk]), List.mem_cons_self .., hk⟩
      · obtain ⟨found, hfound, hmem, hkey⟩ := hfind q hq
        refine ⟨found, ?_, List.mem_cons_of_mem _ hmem, hkey⟩
        rw [List.find?_cons_of_neg (by simp [hk]), hfound]
    · rw [List.map_cons, List.map_cons, hkey, hkeys]

namespace Fitting

variable (h : Fitting draft outcome levels shape parts)
include h

theorem eq_of_key {part other : Part δ} (hp : part ∈ shape.parts) (ho : other ∈ shape.parts)
    (hk : part.key = other.key) : part = other := by
  have hnodup : (shape.parts.map (·.key)).Nodup := by
    rw [(exists_fits h.fits).2.2]
    exact h.nodup
  exact List.inj_on_of_nodup_map hnodup hp ho hk

theorem gathered : Gathered draft shape parts parts .none where
  covered _ hp := .inr hp
  unread _ _ := rfl
  set _ _ hread := absurd hread Bool.false_ne_true
  known _ hp := hp
  nodup := h.nodup

/-- The part that a key asks for. -/
theorem exists_part {p : PartSpelling} (hp : p ∈ parts) :
    ∃ part ∈ shape.parts, shape.parts.find? (·.key == p.key) = some part ∧
      Fits draft outcome levels part p := by
  obtain ⟨hparts, hfind, _⟩ := exists_fits h.fits
  obtain ⟨part, hfound, hmem, hkey⟩ := hfind p hp
  obtain ⟨q, hq, change, hfits⟩ := hparts part hmem
  have hpq : p = q := List.inj_on_of_nodup_map h.nodup hp hq (hkey.symm.trans hfits.key)
  rw [hpq] at hfound ⊢
  exact ⟨part, hmem, hfound, change, hfits⟩

theorem find_unknown {key : String} (hk : key ∉ parts.map (·.key)) :
    shape.parts.find? (·.key == key) = none := by
  rw [← (exists_fits h.fits).2.2] at hk
  refine List.find?_eq_none.mpr fun part hp he => hk ?_
  exact List.mem_map.mpr ⟨part, hp, beq_iff_eq.mp he⟩

/-- Taking a part that is left. -/
theorem gathered_insert {before after : List PartSpelling} {p : PartSpelling} {keys : Keys}
    (hg : Gathered draft shape parts (before ++ p :: after) keys) {part : Part δ}
    (hp : part ∈ shape.parts) {f : δ → δ}
    (hf : FitsAs draft outcome levels part p (some f)) :
    Gathered draft shape parts (before ++ after) (keys.insert p.key) := by
  have hperm : (before ++ p :: after).Perm (p :: (before ++ after)) := List.perm_middle
  have hmem : ∀ q ∈ before ++ after, q ∈ before ++ p :: after := fun q hq =>
    hperm.symm.subset (List.mem_cons_of_mem _ hq)
  have hkeys : ((p :: (before ++ after)).map (·.key)).Nodup :=
    (hperm.map _).nodup_iff.mp hg.nodup
  obtain ⟨hfresh, hnodup⟩ := List.nodup_cons.mp hkeys
  refine ⟨fun q hq => ?_, fun q hq => ?_, fun other ho hread => ?_,
    fun q hq => hg.known q (hmem q hq), hnodup⟩
  · rcases hg.covered q hq with hread | hleft
    · exact .inl (Keys.insert_of_mem hread _)
    · rcases List.mem_cons.mp (hperm.subset hleft) with rfl | hleft
      · exact .inl (keys.insert_self _)
      · exact .inr hleft
  · have hne : q.key ≠ p.key := fun he => hfresh (List.mem_map.mpr ⟨q, hq, he⟩)
    rw [keys.insert_of_ne hne]
    exact hg.unread q (hmem q hq)
  · obtain ⟨q, _, change, hq⟩ := (exists_fits h.fits).1 other ho
    by_cases hk : other.key = p.key
    · obtain rfl : other = part := h.eq_of_key ho hp (hk.trans hf.key.symm)
      rw [hf.isSet, hread]
      rfl
    · rw [keys.insert_of_ne hk] at hread
      have hset := hg.set other ho hread
      rw [hq.isSet, hread] at hset
      rw [hq.isSet, Keys.insert_of_mem hread]
      exact hset

end Fitting

/-! ## The end of a record -/

theorem enclosed_finished_error {close : List Char → Closing} (missing : String → Cause)
    (failure : Failure) : ∃ other,
      enclosed close (finished shape missing (.error failure)) = .error other := by
  cases failure with
  | located cause place => exact ⟨_, rfl⟩
  | pending cause rest => exact ⟨_, rfl⟩

/-- When no part is left that may not be left out, the draft makes the node. -/
theorem Fitting.yields_finished (h : Fitting draft outcome levels shape parts)
    {left : List PartSpelling} {keys : Keys} (hg : Gathered draft shape parts left keys)
    (omitted : ∀ p ∈ left, p.omissible) (missing : String → Cause)
    {close : List Char → Closing} {text rest : List Char} (hc : close text = ⟨none, rest⟩) :
    Yields (enclosed close (finished shape missing (.ok (draft keys, text)))) outcome rest := by
  have hread : ∀ p ∈ parts, keys p.key = true ∨ p.omissible := by
    intro p hp
    rcases hg.covered p hp with hread | hleft
    · exact .inl hread
    · exact .inr (omitted p hleft)
  obtain ⟨a, rfl, hfinish⟩ := h.finish keys hread hg.set
  have hfinished : Yields (finished shape missing (.ok (draft keys, text))) (some a) text := by
    rw [finished, hfinish]
    rfl
  exact hfinished.enclosed hc

/-- A part that is read goes on with its value in the draft, and one that is refused ends it all. -/
theorem Fitting.yields_part (h : Fitting draft outcome levels shape parts)
    (before : List PartSpelling) {after : List PartSpelling} {p : PartSpelling} {keys : Keys}
    (hg : Gathered draft shape parts (before ++ p :: after) keys) {part : Part δ}
    (hp : part ∈ shape.parts) {change : Option (δ → δ)}
    (hf : FitsAs draft outcome levels part p change) {text rest final : List Char}
    {depth depths : Nat} (hs : p.value text depth) (hr : EndsNumeral rest)
    {close : List Char → Closing} {missing : String → Cause} (more : δ → List Char → Scan δ)
    (hmore : Gathered draft shape parts (before ++ after) (keys.insert p.key) →
      Yields (enclosed close (finished shape missing (more (draft (keys.insert p.key)) rest)))
        (within levels depths outcome) final) :
    Yields (enclosed close (finished shape missing
        ((part.read.run (text ++ rest)).bind fun q => more (q.1 (draft keys)) q.2)))
      (within levels (max depth depths) outcome) final := by
  have hread := hf.accepts.yields hs hr
  rw [within_max]
  by_cases hd : depth ≤ levels
  · rw [within, if_pos hd] at hread ⊢
    cases change with
    | none =>
      obtain ⟨failure, hrun⟩ := hread
      rw [hf.refused rfl, within_none, hrun]
      exact enclosed_finished_error missing failure
    | some f =>
      have hrun : part.read.run (text ++ rest) = .ok (f, rest) := hread
      rw [hrun]
      simp only [Except.bind]
      rw [hf.sets f rfl keys, hf.key]
      exact hmore (h.gathered_insert hg hp hf)
  · rw [within, if_neg hd] at hread ⊢
    obtain ⟨failure, hrun⟩ := hread
    rw [hrun]
    exact enclosed_finished_error missing failure

end

/-! ## Objects -/

theorem nextKey_blanks {blanks : List Char} (h : Blanks blanks) (isFirst : Bool)
    (rest : List Char) : nextKey isFirst (blanks ++ '}' :: rest) = .ok (.done ('}' :: rest)) := by
  rw [nextKey, skipBlanks_append h, skipBlanks_cons rfl]
  rfl

theorem nextKey_item {before after : List Char} (hb : Blanks before) (ha : Blanks after)
    (isFirst : Bool) (text : List Char) :
    nextKey isFirst (before ++ (separator isFirst ++ (after ++ '"' :: text))) =
      .ok (.item text) := by
  cases isFirst with
  | true =>
    simp only [separator, if_true, List.nil_append]
    rw [nextKey, skipBlanks_append hb, skipBlanks_append ha, skipBlanks_cons rfl]
    rfl
  | false =>
    simp only [separator, Bool.false_eq_true, if_false, List.nil_append, List.cons_append]
    rw [nextKey, skipBlanks_append hb, skipBlanks_cons rfl]
    simp only
    rw [if_neg (by decide), if_neg (by decide), if_pos trivial, skipBlanks_append ha,
      skipBlanks_cons rfl]
    rfl

/-- A named member hands its value over to what its key asks for. -/
theorem members_of_named {parts : List (Part δ)} {draft : δ} {isFirst : Bool} {key : String}
    {m : MemberText} (hm : m.Named key) {before after : List Char} (hb : Blanks before)
    (ha : Blanks after) (rest : List Char) :
    members parts isFirst draft
        (before ++ (separator isFirst ++ (after ++ (m.text ++ rest)))) =
      (memberValue parts key draft (m.before ++ ':' :: (m.after ++ (m.value ++ rest)))).bind
        fun p => members parts false p.1 p.2 := by
  have hkey := hm.key.stringTail (m.before ++ ':' :: (m.after ++ (m.value ++ rest)))
  rw [m.text_append, members]
  split <;> rename_i hn <;> rw [nextKey_item hb ha] at hn <;> cases hn
  split <;> rename_i hk <;> rw [hkey] at hk <;> cases hk
  rw [String.ofList_toList]
  split <;> rename_i hv <;> rw [hv] <;> rfl

theorem memberValue_unknown {parts : List (Part δ)} {key : String} {draft : δ}
    (hf : parts.find? (·.key == key) = none) {m : MemberText} (hm : m.Spaced)
    (hv : JsonText m.value) {rest : List Char} (hr : EndsNumeral rest) :
    memberValue parts key draft (m.before ++ ':' :: (m.after ++ (m.value ++ rest))) =
      .ok (draft, rest) := by
  have hskip : skipValue [] (m.after ++ (m.value ++ rest)) = .ok rest := by
    rw [hv.skip [] hm.after hr, skipAfter]
  unfold memberValue
  rw [hf]
  simp only
  rw [colon_blanks hm.before]
  simp only
  rw [hskip]

section

variable {draft : Keys → δ} {outcome : Option α} {levels : Nat} {shape : Shape δ α}
  {parts : List PartSpelling} (h : Fitting draft outcome levels shape parts)
include h

theorem Fitting.members_spelled {left : List PartSpelling} {texts : List (List Char)}
    {depth : Nat} (hs : SpelledMembers (parts.map (·.key)) left texts depth) {keys : Keys}
    (hg : Gathered draft shape parts left keys) {isFirst : Bool} {inside : List Char}
    (hl : Listed isFirst texts inside) (missing : String → Cause) (rest : List Char) :
    Yields (enclosed closeObject (finished shape missing
        (members shape.parts isFirst (draft keys) (inside ++ '}' :: rest))))
      (within levels depth outcome) rest := by
  induction hs generalizing keys isFirst inside with
  | nil omitted =>
    cases hl with
    | nil hb =>
      have hclose : closeObject ('}' :: rest) = ⟨none, rest⟩ := by
        rw [closeObject, skipBlanks_cons rfl]
        rfl
      rw [members_of_done (nextKey_blanks hb isFirst rest), within_zero]
      exact h.yields_finished hg omitted missing hclose
  | @part before after p m texts depth depths named value _ ih =>
    cases hl with
    | @cons _ blanksBefore blanksAfter _ inside _ hb ha listed =>
      have hends : EndsNumeral (inside ++ '}' :: rest) :=
        listed.endsNumeral (Enclosure.object.endsNumeral_closing rest)
      have hleft : p ∈ before ++ p :: after := by simp
      obtain ⟨part, hp, hfound, change, hf⟩ := h.exists_part (hg.known p hleft)
      have hunset : part.isSet (draft keys) = false := by
        rw [hf.isSet, hf.key, hg.unread p hleft]
        rfl
      have hvalue : memberValue shape.parts p.key (draft keys)
          (m.before ++ ':' :: (m.after ++ (m.value ++ (inside ++ '}' :: rest)))) =
            (part.read.run (m.value ++ (inside ++ '}' :: rest))).map
              fun q => (q.1 (draft keys), q.2) := by
        rw [memberValue_of_find hfound hunset (colon_blanks named.before _),
          hf.accepts.skips named.after]
      have hread : members shape.parts isFirst (draft keys)
          (blanksBefore ++ (separator isFirst ++ (blanksAfter ++ (m.text ++ inside))) ++
            '}' :: rest) =
            (part.read.run (m.value ++ (inside ++ '}' :: rest))).bind
              fun q => members shape.parts false (q.1 (draft keys)) q.2 := by
        simp only [List.append_assoc]
        rw [members_of_named named hb ha, hvalue]
        cases part.read.run (m.value ++ (inside ++ '}' :: rest)) <;> rfl
      rw [hread]
      exact h.yields_part before hg hp hf value hends (members shape.parts false)
        fun hg => ih hg listed
  | @unknown left key m texts depths unknown named value _ ih =>
    cases hl with
    | @cons _ blanksBefore blanksAfter _ inside _ hb ha listed =>
      have hends : EndsNumeral (inside ++ '}' :: rest) :=
        listed.endsNumeral (Enclosure.object.endsNumeral_closing rest)
      simp only [List.append_assoc]
      rw [members_of_named named hb ha,
        memberValue_unknown (h.find_unknown unknown) named.toSpaced value hends]
      exact ih hg listed

/-! ## Arrays -/

theorem Fitting.positions_spelled {given left : List PartSpelling} {remaining : List (Part δ)}
    (hf : List.Forall₂ (Fits draft outcome levels) remaining (given ++ left))
    (hsub : ∀ part ∈ remaining, part ∈ shape.parts)
    (omitted : ∀ p ∈ left, p.omissible) {texts : List (List Char)} {depth : Nat}
    (hs : SpelledEach (given.map (·.value)) texts depth) {keys : Keys}
    (hg : Gathered draft shape parts (given ++ left) keys) {isFirst : Bool} {inside : List Char}
    (hl : Listed isFirst texts inside) (missing : String → Cause) (rest : List Char) :
    Yields (enclosed closeArray (finished shape missing
        (positions remaining isFirst (draft keys) (inside ++ ']' :: rest))))
      (within levels depth outcome) rest := by
  induction given generalizing remaining texts depth keys isFirst inside with
  | nil =>
    cases hs
    cases hl with
    | nil hb =>
      have hclosing : skipBlanks (inside ++ ']' :: rest) = ']' :: rest := by
        rw [skipBlanks_append hb, skipBlanks_cons rfl]
      rw [within_zero]
      cases remaining with
      | nil => exact h.yields_finished hg omitted missing (closeArray_blanks hclosing)
      | cons part remaining =>
        rw [positions, nextElement_blanks hb]
        exact h.yields_finished hg omitted missing (closeArray_blanks (skipBlanks_cons rfl rest))
  | cons p given ih =>
    rw [List.map_cons] at hs
    cases hs with
    | @cons _ _ text texts depth depths first more =>
      cases hl with
      | @cons _ before after _ inside _ hb ha listed =>
        cases hf with
        | @cons part _ remaining _ hfirst hremaining =>
          obtain ⟨change, hfits⟩ := hfirst
          obtain ⟨hp, hsub⟩ := List.forall_mem_cons.mp hsub
          have hends : EndsNumeral (inside ++ ']' :: rest) :=
            listed.endsNumeral (Enclosure.list.endsNumeral_closing rest)
          have hnext := nextElement_item hb ha (hfits.accepts.opens first) isFirst
            (inside ++ ']' :: rest)
          have hread : positions (part :: remaining) isFirst (draft keys)
              (before ++ (separator isFirst ++ (after ++ (text ++ inside))) ++ ']' :: rest) =
                (part.read.run (text ++ (inside ++ ']' :: rest))).bind
                  fun q => positions remaining false (q.1 (draft keys)) q.2 := by
            simp only [List.append_assoc]
            rw [positions, hnext]
            simp only
            cases part.read.run (text ++ (inside ++ ']' :: rest)) <;> rfl
          rw [hread]
          exact h.yields_part [] hg hp hfits first hends (positions remaining false)
            fun hg => ih hremaining hsub more hg listed

end

theorem Accepts.recordWithin {title : String} {shape : Nat → Shape δ α}
    {parts : List PartSpelling} {draft : Keys → δ} {outcome : Option α}
    (h : ∀ levels, Fitting draft outcome levels (shape levels) parts) (levels : Nat) :
    Accepts (Reader.recordWithin title shape levels) levels (SpelledRecord parts) outcome where
  skips hb text := onValue_blanks hb text _
  opens hs := by
    cases hs with
    | object _ held => exact opens_holds held
    | array _ _ _ held => exact opens_holds held
  yields {_ rest _} hs _ := by
    cases hs with
    | object members held =>
      obtain ⟨inside, listed, htext⟩ := holds_append held
      rw [htext]
      refine Yields.of_inside (Reader.recordWithin title shape) ⟨_, rfl⟩ (fun levels => ?_) levels
      have hread := (h levels).members_spelled members (h levels).gathered listed .missingField rest
      rw [← (h levels).start] at hread
      exact hread
    | @array given left _ _ _ split omitted each held =>
      obtain ⟨inside, listed, htext⟩ := holds_append held
      rw [htext]
      refine Yields.of_inside (Reader.recordWithin title shape) ⟨_, rfl⟩ (fun levels => ?_) levels
      have hfits := (h levels).fits
      have hgathered : Gathered draft (shape levels) parts (given ++ left) .none := by
        rw [← split]
        exact (h levels).gathered
      rw [split] at hfits
      have hread := (h levels).positions_spelled hfits (fun part hp => hp) omitted each hgathered
        listed (missingPosition title (shape levels)) rest
      rw [← (h levels).start] at hread
      exact hread

end GraphDoc.Json
