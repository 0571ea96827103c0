import GraphDoc.Proofs.Spelling
import GraphDoc.Proofs.RecordReading

/-!
# Reading spellings

What a reader makes of any spelling of a thing: a value where the thing stands for one and is nested
no deeper than the levels that are left, and a fault otherwise. Here this is shown of the readers of
scalars, lists and variants, and of readers on top of others.
-/
namespace GraphDoc.Json

variable {α β γ τ : Type}

/-! ## What a scan yields -/

/-- The scan ends with the expected value and this text left, or fails if none is expected. -/
def Yields (scan : Scan α) (expected : Option α) (left : List Char) : Prop :=
  match expected with
  | some a => scan = .ok (a, left)
  | none => ∃ failure, scan = .error failure

/-- What is expected of a text that is nested to some depth with some levels left. -/
def within (levels depth : Nat) (outcome : Option α) : Option α :=
  if depth ≤ levels then outcome else none

theorem within_zero (levels : Nat) (outcome : Option α) : within levels 0 outcome = outcome :=
  if_pos (Nat.zero_le levels)

theorem within_succ (levels depth : Nat) (outcome : Option α) :
    within (levels + 1) (depth + 1) outcome = within levels depth outcome := by
  simp [within]

theorem within_none (levels depth : Nat) : within levels depth (none : Option α) = none :=
  ite_self none

/-- Of two things beside one another each has to be within the levels. -/
theorem within_max (levels depth depths : Nat) (outcome : Option α) :
    within levels (max depth depths) outcome =
      within levels depth (within levels depths outcome) := by
  unfold within
  by_cases h : depth ≤ levels
  · have hmax : max depth depths ≤ levels ↔ depths ≤ levels := by omega
    simp only [hmax, if_pos h]
  · have hmax : ¬ max depth depths ≤ levels := by omega
    rw [if_neg hmax, if_neg h]

theorem within_map (levels depth : Nat) (f : α → β) (outcome : Option α) :
    within levels depth (outcome.map f) = (within levels depth outcome).map f := by
  by_cases h : depth ≤ levels
  · simp [within, h]
  · simp [within, h]

theorem within_bind (levels depth : Nat) (f : α → Option β) (outcome : Option α) :
    within levels depth (outcome.bind f) = (within levels depth outcome).bind f := by
  by_cases h : depth ≤ levels
  · simp [within, h]
  · simp [within, h]

namespace Yields

variable {scan : Scan α} {expected : Option α} {left : List Char}

theorem bind {f : α × List Char → Scan β} {g : α → Option β} {after : List Char}
    (h : Yields scan expected left) (hf : ∀ a, Yields (f (a, left)) (g a) after) :
    Yields (scan.bind f) (expected.bind g) after := by
  cases expected with
  | some a =>
    have hscan : scan = .ok (a, left) := h
    rw [hscan]
    exact hf a
  | none =>
    obtain ⟨failure, hscan⟩ := h
    rw [hscan]
    exact ⟨failure, rfl⟩

theorem map (h : Yields scan expected left) (f : α → β) :
    Yields (scan.map fun p => (f p.1, p.2)) (expected.map f) left := by
  cases expected with
  | some a =>
    have hscan : scan = .ok (a, left) := h
    rw [hscan]
    rfl
  | none =>
    obtain ⟨failure, hscan⟩ := h
    rw [hscan]
    exact ⟨failure, rfl⟩

theorem enclosed {close : List Char → Closing} {after : List Char} (h : Yields scan expected left)
    (hc : close left = ⟨none, after⟩) : Yields (enclosed close scan) expected after := by
  cases expected with
  | some a =>
    have hscan : scan = .ok (a, left) := h
    rw [hscan, Json.enclosed, hc]
    rfl
  | none =>
    obtain ⟨failure, hscan⟩ := h
    rw [hscan]
    cases failure with
    | located cause place => exact ⟨_, rfl⟩
    | pending cause rest => exact ⟨_, rfl⟩

end Yields

/-! ## What a reader makes of a spelling -/

/-- Any text of this spelling is read as the outcome, as far as it is nested within the levels. -/
structure Accepts (reader : Reader α) (levels : Nat) (spelling : Spelling) (outcome : Option α) :
    Prop where
  skips : ∀ {blanks : List Char}, Blanks blanks → ∀ text,
    reader.run (blanks ++ text) = reader.run text
  opens : ∀ {text : List Char} {depth : Nat}, spelling text depth → Opens text
  yields : ∀ {text rest : List Char} {depth : Nat}, spelling text depth → EndsNumeral rest →
    Yields (reader.run (text ++ rest)) (within levels depth outcome) rest

theorem onValue_blanks {blanks : List Char} (h : Blanks blanks) (text : List Char)
    (body : Char → List Char → Scan α) : onValue (blanks ++ text) body = onValue text body := by
  rw [onValue, onValue, skipBlanks_append h]

/-! ### Scalars -/

theorem Char.toNat_not_surrogate (c : Char) : c.toNat < 0xD800 ∨ 0xDFFF < c.toNat := by
  rcases c.valid with h | h
  · exact .inl h
  · exact .inr h.1

/-- Where a spelled character starts, and that it is read from there. -/
theorem SpellsChar.stringChar {c : Char} {text : List Char} (h : SpellsChar c text) :
    ∃ d ds, text = d :: ds ∧ d ≠ '"' ∧
      ∀ rest, Json.stringChar d (ds ++ rest) = .ok (c, rest) := by
  cases h with
  | plain quote slash control =>
    refine ⟨c, [], rfl, quote, fun rest => ?_⟩
    rw [Json.stringChar, if_neg slash, if_neg control, List.nil_append]
  | @letter e c stands =>
    have hu : e ≠ 'u' := by
      rintro rfl
      cases stands
    refine ⟨_, _, rfl, by decide, fun rest => ?_⟩
    rw [Json.stringChar, if_pos rfl, List.cons_append, List.nil_append, escape, if_neg hu, stands]
  | code hex =>
    have hsurrogate := Char.toNat_not_surrogate c
    refine ⟨_, _, rfl, by decide, fun rest => ?_⟩
    rw [Json.stringChar, if_pos rfl, List.cons_append, escape, if_pos rfl, hex.hexFour]
    simp only
    rw [if_neg (by omega), if_neg (by omega), Char.ofNat_toNat]
  | pair hexHigh hexLow isHigh isLow stands =>
    refine ⟨_, _, rfl, by decide, fun rest => ?_⟩
    rw [Json.stringChar, if_pos rfl, List.cons_append, List.append_assoc, escape, if_pos rfl,
      hexHigh.hexFour]
    simp only
    rw [if_neg (by omega), if_pos isHigh, List.cons_append, List.cons_append, lowSurrogate,
      if_neg (not_not_intro rfl), if_neg (not_not_intro rfl), hexLow.hexFour]
    simp only
    rw [if_pos isLow, ← stands, Char.ofNat_toNat]

theorem SpellsChars.stringTail {cs text : List Char} (h : SpellsChars cs text)
    (rest : List Char) : stringTail (text ++ '"' :: rest) = .ok (cs, rest) := by
  induction h with
  | nil => exact stringTail_quote rest
  | cons first _ ih =>
    obtain ⟨d, ds, rfl, hd, hc⟩ := first.stringChar
    rw [List.append_assoc, List.cons_append]
    exact stringTail_of_stringChar hd (hc _) ih

namespace Accepts

/-- A scalar that is read where it is written is accepted in its only spelling. -/
theorem of_reads {reader : Reader α} {levels : Nat} {json : Json} {a : α}
    (h : Reads reader levels json a) (hn : json.nesting = 0)
    (hs : ∀ {blanks : List Char}, Blanks blanks → ∀ text,
      reader.run (blanks ++ text) = reader.run text) :
    Accepts reader levels (Written json) (some a) where
  skips := hs
  opens hw := by
    cases hw
    exact h.opens
  yields hw hr := by
    cases hw
    rw [within_zero]
    exact h.taken (by rw [hn]; exact Nat.zero_le levels) _ hr

variable (levels : Nat)

theorem boolean (value : Bool) : Accepts .boolean levels (Written (.bool value)) (some value) :=
  of_reads (.boolean levels value) rfl fun hb text => onValue_blanks hb text _

theorem integer (value : Int64) :
    Accepts .integer levels (Written (.number (.integer value.toInt))) (some value) :=
  of_reads (.integer levels value) rfl fun hb text => onValue_blanks hb text _

theorem string (value : String) : Accepts .string levels (SpelledString value) (some value) where
  skips hb text := onValue_blanks hb text _
  opens h := by
    cases h
    exact ⟨_, _, rfl, rfl, by decide⟩
  yields {_ rest _} h _ := by
    cases h with
    | @quoted inside chars =>
      have hread : Reader.string.run ('"' :: (inside ++ '"' :: rest)) = .ok (value, rest) := by
        unfold Reader.string
        simp only
        rw [onValue_cons rfl, if_pos rfl, chars.stringTail]
        simp only
        rw [String.ofList_toList]
      rw [within_zero, List.cons_append, List.append_assoc]
      exact hread

theorem unit : Accepts .unit levels (Written .null) (some ()) where
  skips hb text := onValue_blanks hb text _
  opens h := by
    cases h
    exact ⟨_, _, rfl, rfl, by decide⟩
  yields h _ := by
    cases h
    rw [within_zero]
    rfl

/-! ### Readers on top of others -/

variable {levels} {reader : Reader α} {spelling : Spelling} {outcome : Option α}

theorem map (h : Accepts reader levels spelling outcome) (f : α → β) :
    Accepts (reader.map f) levels spelling (outcome.map f) where
  skips hb text := by
    unfold Reader.map
    simp only
    rw [h.skips hb]
  opens := h.opens
  yields {text rest depth} hs hr := by
    have hrun : (reader.map f).run (text ++ rest) =
        (reader.run (text ++ rest)).map fun p => (f p.1, p.2) := by
      unfold Reader.map
      simp only
      cases reader.run (text ++ rest) <;> rfl
    rw [hrun, within_map]
    exact (h.yields hs hr).map f

theorem filterMap (h : Accepts reader levels spelling outcome) (f : α → Except Cause β) :
    Accepts (reader.filterMap f) levels spelling (outcome.bind fun a => (f a).toOption) where
  skips hb text := by
    unfold Reader.filterMap
    simp only
    rw [h.skips hb]
  opens := h.opens
  yields {text rest depth} hs hr := by
    have hrun : (reader.filterMap f).run (text ++ rest) =
        (reader.run (text ++ rest)).bind fun p =>
          ((f p.1).mapError (Failure.pending · p.2)).map (·, p.2) := by
      unfold Reader.filterMap
      simp only
      cases reader.run (text ++ rest) with
      | error failure => rfl
      | ok p =>
        simp only [Except.bind]
        cases f p.1 <;> rfl
    rw [hrun, within_bind]
    refine (h.yields hs hr).bind fun a => ?_
    cases f a with
    | error cause => exact ⟨_, rfl⟩
    | ok b => rfl

/-- A reader that takes either of two spellings. -/
theorem or {other : Spelling} (h : Accepts reader levels spelling outcome)
    (k : Accepts reader levels other outcome) :
    Accepts reader levels (fun text depth => spelling text depth ∨ other text depth) outcome where
  skips := h.skips
  opens hs := hs.elim h.opens k.opens
  yields hs hr := hs.elim (h.yields · hr) (k.yields · hr)

theorem optional_skips (h : ∀ {blanks : List Char}, Blanks blanks → ∀ text,
      reader.run (blanks ++ text) = reader.run text) {blanks : List Char} (hb : Blanks blanks)
    (text : List Char) : reader.optional.run (blanks ++ text) = reader.optional.run text := by
  unfold Reader.optional Reader.map
  simp only
  rw [skipBlanks_append hb, h hb]

theorem null (hs : ∀ {blanks : List Char}, Blanks blanks → ∀ text,
      reader.run (blanks ++ text) = reader.run text) :
    Accepts reader.optional levels (optionalSpelling none) (some none) where
  skips := optional_skips hs
  opens h := by
    cases h
    exact ⟨_, _, rfl, rfl, by decide⟩
  yields h _ := by
    cases h
    rw [within_zero]
    rfl

/-- A value that does not start like `null` is read as one that is there. -/
theorem optional (h : Accepts reader levels spelling outcome)
    (hn : ∀ {text : List Char} {depth : Nat}, spelling text depth → text.head? ≠ some 'n') :
    Accepts reader.optional levels (optionalSpelling (some spelling)) (outcome.map some) where
  skips := optional_skips h.skips
  opens := h.opens
  yields {text rest depth} hs hr := by
    have hrun : reader.optional.run (text ++ rest) = (reader.map some).run (text ++ rest) := by
      obtain ⟨c, cs, rfl, hc, _⟩ := h.opens hs
      have hne : c ≠ 'n' := fun he => hn hs (congrArg some he)
      unfold Reader.optional
      simp only
      rw [List.cons_append, skipBlanks_cons hc]
      split
      · rename_i he
        cases he
        exact absurd rfl hne
      · rfl
    rw [hrun]
    exact (h.map some).yields hs hr

end Accepts

/-! ### Opening a level -/

/-- What opens a level is refused without any left, and its inside is read with the others. -/
theorem Yields.of_inside (reader : Nat → Reader α) {text rest : List Char} {outcome : Option α}
    {depth : Nat} (hnone : ∃ failure, (reader 0).run text = .error failure)
    (hinside : ∀ levels, Yields ((reader (levels + 1)).run text) (within levels depth outcome) rest)
    (levels : Nat) :
    Yields ((reader levels).run text) (within levels (depth + 1) outcome) rest := by
  cases levels with
  | zero => exact hnone
  | succ levels =>
    rw [within_succ]
    exact hinside levels

theorem holds_append {e : Enclosure} {items : List (List Char)} {text : List Char}
    (h : e.Holds items text) : ∃ inside, Listed true items inside ∧
      ∀ rest, text ++ rest = e.opening :: (inside ++ e.closing :: rest) := by
  cases h with
  | @listed inside h =>
    refine ⟨inside, h, fun rest => ?_⟩
    rw [List.cons_append, List.append_assoc]
    rfl

theorem opens_holds {e : Enclosure} {items : List (List Char)} {text : List Char}
    (h : e.Holds items text) : Opens text := by
  cases h
  cases e <;> exact ⟨_, _, rfl, rfl, by decide⟩

/-! ### Lists -/

theorem closeArray_blanks {text rest : List Char} (h : skipBlanks text = ']' :: rest) :
    closeArray text = ⟨none, rest⟩ := by
  rw [closeArray, h]
  rfl

theorem nextElement_blanks {blanks : List Char} (h : Blanks blanks) (isFirst : Bool)
    (rest : List Char) :
    nextElement isFirst (blanks ++ ']' :: rest) = .ok (.done (']' :: rest)) := by
  rw [nextElement, skipBlanks_append h, skipBlanks_cons rfl]
  rfl

theorem nextElement_item {before after item : List Char} (hb : Blanks before) (ha : Blanks after)
    (ho : Opens item) (isFirst : Bool) (text : List Char) :
    nextElement isFirst (before ++ (separator isFirst ++ (after ++ (item ++ text)))) =
      .ok (.item (item ++ text)) := by
  obtain ⟨c, cs, rfl, hc, hlist⟩ := ho
  cases isFirst with
  | true =>
    simp only [separator, if_true, List.nil_append, List.cons_append]
    rw [nextElement, skipBlanks_append hb, skipBlanks_append ha, skipBlanks_cons hc]
    simp only
    rw [if_neg hlist, if_pos trivial]
  | false =>
    simp only [separator, Bool.false_eq_true, if_false, List.nil_append, List.cons_append]
    rw [nextElement, skipBlanks_append hb, skipBlanks_cons rfl]
    simp only
    rw [if_neg (by decide), if_neg (by decide), if_pos trivial, skipBlanks_append ha,
      skipBlanks_cons hc]
    simp only
    rw [if_neg hlist]

theorem elements_spelled {element : Reader α} {levels : Nat} {spell : γ → Spelling}
    {outcome : γ → Option α} {items : List γ}
    (h : ∀ item ∈ items, Accepts element levels (spell item) (outcome item))
    {texts : List (List Char)} {depth : Nat} (hs : SpelledEach (items.map spell) texts depth)
    {isFirst : Bool} {inside : List Char} (hl : Listed isFirst texts inside) (rest : List Char) :
    Yields (elements element isFirst (inside ++ ']' :: rest))
      (within levels depth (items.mapM outcome)) (']' :: rest) := by
  induction items generalizing texts depth isFirst inside with
  | nil =>
    cases hs
    cases hl with
    | nil hb =>
      rw [elements_of_done (nextElement_blanks hb isFirst rest), within_zero]
      rfl
  | cons item items ih =>
    obtain ⟨hitem, hitems⟩ := List.forall_mem_cons.mp h
    rw [List.map_cons] at hs
    cases hs with
    | @cons _ _ text texts depth depths first more =>
      cases hl with
      | @cons _ before after _ inside _ hb ha listed =>
        have hends : EndsNumeral (inside ++ ']' :: rest) :=
          listed.endsNumeral (Enclosure.list.endsNumeral_closing rest)
        have hnext := nextElement_item hb ha (hitem.opens first) isFirst (inside ++ ']' :: rest)
        have hexpected : within levels (max depth depths) ((item :: items).mapM outcome) =
            (within levels depth (outcome item)).bind fun a =>
              (within levels depths (items.mapM outcome)).map (a :: ·) := by
          rw [within_max, ← within_bind]
          simp only [← within_map]
          by_cases hd : depths ≤ levels
          · simp only [within, hd, if_true, List.mapM_cons, Option.map_eq_bind]
            rfl
          · simp [within, hd]
        simp only [List.append_assoc]
        rw [elements_of_item hnext, hexpected]
        exact (hitem.yields first hends).bind fun a => (ih hitems more listed).map (a :: ·)

theorem Accepts.listWithin {element : Nat → Reader α} {spell : γ → Spelling}
    {outcome : γ → Option α} {items : List γ}
    (h : ∀ item ∈ items, ∀ levels, Accepts (element levels) levels (spell item) (outcome item))
    (levels : Nat) : Accepts (Reader.listWithin element levels) levels
      (SpelledList (items.map spell)) (items.mapM outcome) where
  skips hb text := onValue_blanks hb text _
  opens hs := by
    cases hs with
    | array each held => exact opens_holds held
  yields {_ rest _} hs _ := by
    cases hs with
    | array each held =>
      obtain ⟨inside, listed, htext⟩ := holds_append held
      rw [htext]
      refine Yields.of_inside (Reader.listWithin element) ⟨_, rfl⟩ (fun levels => ?_) levels
      have hlist := elements_spelled (fun item hi => h item hi levels) each listed rest
      exact hlist.enclosed (closeArray_blanks (skipBlanks_cons rfl rest))

/-- A list of which no item is refused. -/
theorem Accepts.allListed {element : Nat → Reader α} {spell : α → Spelling} {as : List α}
    (h : ∀ a ∈ as, ∀ levels, Accepts (element levels) levels (spell a) (some a)) (levels : Nat) :
    Accepts (Reader.listWithin element levels) levels (SpelledList (as.map spell)) (some as) := by
  have hpure := List.mapM_pure (m := Option) (f := (id : α → α)) (l := as)
  have hmap : as.mapM some = some as := by rwa [List.map_id] at hpure
  rw [← hmap]
  exact .listWithin h levels

theorem Accepts.flatList {element : Reader α} {spell : α → Spelling}
    (h : ∀ levels a, Accepts element levels (spell a) (some a)) (as : List α) (levels : Nat) :
    Accepts (Reader.listWithin (fun _ => element) levels) levels (SpelledList (as.map spell))
      (some as) :=
  .allListed (fun a _ levels => h levels a) levels

/-! ### Variants -/

theorem variantName_spelled {known : List (String × τ)} {name : String} {tag : τ}
    (hk : known.lookup name = some tag) {text : List Char} (h : SpellsChars name.toList text)
    (rest : List Char) : variantName known (text ++ '"' :: rest) = .ok (tag, rest) := by
  rw [variantName, h.stringTail]
  simp only
  rw [String.ofList_toList, hk]

/-- A bare name is read as what stands for itself. -/
theorem Accepts.bareVariant {known : List (String × τ)} {bare : τ → Except Cause α}
    {name : String} {tag : τ} {a : α} (hk : known.lookup name = some tag) (hb : bare tag = .ok a)
    (content : Option (τ → Reader α)) (levels : Nat) :
    Accepts (.variant known bare content) levels (SpelledString name) (some a) where
  skips hb text := onValue_blanks hb text _
  opens h := by
    cases h
    exact ⟨_, _, rfl, rfl, by decide⟩
  yields {_ rest _} h _ := by
    cases h with
    | quoted chars =>
      rw [within_zero, List.cons_append, List.append_assoc, run_variant_quote, Json.bareVariant,
        List.cons_append, List.nil_append, variantName_spelled hk chars]
      simp only
      rw [hb]
      rfl

theorem closeVariant_blanks {blanks : List Char} (h : Blanks blanks) (rest : List Char) :
    closeVariant (blanks ++ '}' :: rest) = .ok rest := by
  rw [closeVariant, skipBlanks_append h, skipBlanks_cons rfl]
  rfl

theorem variantBody_spelled {known : List (String × τ)} {content : τ → Reader α} {name : String}
    {tag : τ} (hk : known.lookup name = some tag) {m : MemberText} (hm : m.Named name)
    {blanks : List Char} (hb : Blanks blanks) (rest : List Char) :
    variantBody known content (blanks ++ (m.text ++ rest)) =
      ((content tag).run (m.after ++ (m.value ++ rest))).bind fun p =>
        (closeVariant p.2).map (p.1, ·) := by
  rw [m.text_append, variantBody, skipBlanks_append hb, skipBlanks_cons rfl]
  simp only
  rw [if_pos trivial, variantName_spelled hk hm.key]
  simp only
  rw [colon_blanks hm.before]
  simp only
  cases (content tag).run (m.after ++ (m.value ++ rest)) with
  | error failure => rfl
  | ok p =>
    simp only [Except.bind]
    cases closeVariant p.2 <;> rfl

theorem Accepts.variantWithin {known : List (String × τ)} {bare : τ → Except Cause α}
    {content : Nat → τ → Reader α} {name : String} {tag : τ} {spelling : Spelling}
    {outcome : Option α} (hk : known.lookup name = some tag)
    (h : ∀ levels, Accepts (content levels tag) levels spelling outcome) (levels : Nat) :
    Accepts (Reader.variantWithin known bare content levels) levels
      (SpelledVariant name spelling) outcome where
  skips hb text := onValue_blanks hb text _
  opens hs := by
    cases hs with
    | object named value held => exact opens_holds held
  yields {_ rest _} hs _ := by
    cases hs with
    | @object m _ depth named value held =>
      obtain ⟨inside, listed, htext⟩ := holds_append held
      cases listed with
      | @cons _ before after _ blanks _ hb ha listed =>
        cases listed with
        | nil hblanks =>
          rw [htext]
          refine Yields.of_inside (Reader.variantWithin known bare content) ⟨_, rfl⟩
            (fun levels => ?_) levels
          have hbody : (Reader.variantWithin known bare content (levels + 1)).run
              (Enclosure.object.opening :: (before ++ (separator true ++
                (after ++ (m.text ++ blanks))) ++ Enclosure.object.closing :: rest)) =
              variantBody known (content levels)
                (before ++ after ++ (m.text ++ (blanks ++ '}' :: rest))) := by
            simp only [separator, if_true, List.nil_append, List.append_assoc]
            rfl
          have hblanksBefore : Blanks (before ++ after) := by
            intro c hc
            rcases List.mem_append.mp hc with hc | hc
            · exact hb c hc
            · exact ha c hc
          have hends : EndsNumeral (blanks ++ '}' :: rest) :=
            endsNumeral_append hblanks (Enclosure.object.endsNumeral_closing rest)
          have hcontent := (h levels).yields value hends
          rw [hbody, variantBody_spelled hk named hblanksBefore, (h levels).skips named.after]
          have hclose : ∀ a : α, Yields ((closeVariant (blanks ++ '}' :: rest)).map (a, ·))
              (some a) rest := by
            intro a
            rw [closeVariant_blanks hblanks]
            rfl
          have hyields := hcontent.bind (f := fun p => (closeVariant p.2).map (p.1, ·)) hclose
          rwa [Option.bind_fun_some] at hyields

end GraphDoc.Json
