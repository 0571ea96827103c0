import GraphDoc.Proofs.JsonReading

/-!
# The grammar of JSON texts

Which texts are JSON, with blanks wherever they may stand: a string may write any character by its
code, a numeral may have any size, and nothing limits the nesting. The value of a key that nobody
asked for may be any such text. Passing over it takes exactly the text and leaves what follows.
-/
namespace GraphDoc.Json

/-! ## Blanks and lists -/

def Blanks (text : List Char) : Prop := ∀ c ∈ text, isBlank c = true

instance (text : List Char) : Decidable (Blanks text) :=
  List.decidableBAll (fun c => isBlank c = true) text

/-- Items between commas, with blanks wherever they may stand. Behind a first item each of the
others has a comma before it. -/
inductive Listed : (isFirst : Bool) → (items : List (List Char)) → List Char → Prop
  | nil {isFirst : Bool} {blanks : List Char} (before : Blanks blanks) : Listed isFirst [] blanks
  | cons {isFirst : Bool} {before after item text : List Char} {items : List (List Char)}
    (beforeComma : Blanks before) (beforeItem : Blanks after) (more : Listed false items text) :
    Listed isFirst (item :: items)
      (before ++ (separator isFirst ++ (after ++ (item ++ text))))

/-- The items with nothing but commas between them. -/
def compactList (isFirst : Bool) : List (List Char) → List Char
  | [] => []
  | item :: items => separator isFirst ++ (item ++ compactList false items)

theorem Listed.compact (isFirst : Bool) (items : List (List Char)) :
    Listed isFirst items (compactList isFirst items) := by
  have hnone : Blanks [] := List.forall_mem_nil _
  induction items generalizing isFirst with
  | nil => exact .nil hnone
  | cons item items ih => exact .cons hnone hnone (ih false)

theorem skipBlanks_append {blanks : List Char} (h : Blanks blanks) (text : List Char) :
    skipBlanks (blanks ++ text) = skipBlanks text := List.dropWhile_append_of_pos h

/-- Blanks do not go on with a numeral. -/
theorem endsNumeral_append {blanks text : List Char} (hb : Blanks blanks) (h : EndsNumeral text) :
    EndsNumeral (blanks ++ text) := by
  cases blanks with
  | nil => exact h
  | cons c blanks =>
    have hc : isBlank c = true := hb c (List.mem_cons_self ..)
    simp only [isBlank, Bool.or_eq_true, decide_eq_true_eq] at hc
    rcases hc with ((rfl | rfl) | rfl) | rfl <;>
      exact endsNumeral_cons rfl (by decide) (by decide) (by decide) _

/-- The list that follows an item does not go on with a numeral. -/
theorem Listed.endsNumeral {items : List (List Char)} {text rest : List Char}
    (h : Listed false items text) (hr : EndsNumeral rest) : EndsNumeral (text ++ rest) := by
  cases h with
  | nil hb => exact endsNumeral_append hb hr
  | cons hb _ _ =>
    rw [List.append_assoc]
    exact endsNumeral_append hb (endsNumeral_cons rfl (by decide) (by decide) (by decide) _)

/-! ## Strings -/

/-- Four hexadecimal digits and the number that they stand for. -/
inductive HexCode : Nat → List Char → Prop
  | digits {a b c d : Char} {i j k l : Nat} (first : hexValue? a = some i)
    (second : hexValue? b = some j) (third : hexValue? c = some k)
    (fourth : hexValue? d = some l) : HexCode (((i * 16 + j) * 16 + k) * 16 + l) [a, b, c, d]

/-- What may stand between the quotes of a string. -/
inductive StringText : List Char → Prop
  | nil : StringText []
  | plain {c : Char} {text : List Char} (quote : c ≠ '"') (slash : c ≠ '\\') (control : ¬ c < ' ')
    (more : StringText text) : StringText (c :: text)
  | letter {c d : Char} {text : List Char} (stands : simpleEscape? c = some d)
    (more : StringText text) : StringText ('\\' :: c :: text)
  | code {n : Nat} {digits text : List Char} (hex : HexCode n digits) (more : StringText text) :
    StringText ('\\' :: 'u' :: (digits ++ text))

theorem HexCode.hexFour {n : Nat} {digits : List Char} (h : HexCode n digits)
    (rest : List Char) : hexFour (digits ++ rest) = .ok (n, rest) := by
  cases h with
  | digits ha hb hc hd =>
    simp only [List.cons_append, List.nil_append]
    rw [Json.hexFour, ha, hb, hc, hd]

theorem skipStringTail_of_skipChar {c : Char} {text rest : List Char} (hc : c ≠ '"')
    (h : skipChar c text = .ok rest) : skipStringTail (c :: text) = skipStringTail rest := by
  rw [skipStringTail, if_neg hc]
  split <;> rename_i he <;> rw [h] at he <;> cases he
  rfl

theorem skipChar_plain {c : Char} (slash : c ≠ '\\') (control : ¬ c < ' ') (rest : List Char) :
    skipChar c rest = .ok rest := by
  unfold skipChar
  rw [if_neg slash, if_neg control]

theorem skipChar_letter {c d : Char} (stands : simpleEscape? c = some d) (rest : List Char) :
    skipChar '\\' (c :: rest) = .ok rest := by
  have hu : c ≠ 'u' := by
    rintro rfl
    cases stands
  rw [skipChar, if_pos rfl, if_neg hu, stands]
  rfl

theorem skipChar_code {n : Nat} {digits : List Char} (hex : HexCode n digits) (rest : List Char) :
    skipChar '\\' ('u' :: (digits ++ rest)) = .ok rest := by
  rw [skipChar, if_pos rfl, if_pos rfl, hex.hexFour]
  rfl

theorem StringText.skip {text : List Char} (h : StringText text) (rest : List Char) :
    skipStringTail (text ++ '"' :: rest) = .ok rest := by
  induction h with
  | nil => rw [List.nil_append, skipStringTail, if_pos rfl]
  | plain quote slash control _ ih =>
    rw [List.cons_append, skipStringTail_of_skipChar quote (skipChar_plain slash control _), ih]
  | letter stands _ ih =>
    rw [List.cons_append, List.cons_append,
      skipStringTail_of_skipChar (by decide) (skipChar_letter stands _), ih]
  | code hex _ ih =>
    rw [List.cons_append, List.cons_append, List.append_assoc,
      skipStringTail_of_skipChar (by decide) (skipChar_code hex _), ih]

/-! ## Numerals -/

def Digits (text : List Char) : Prop := text ≠ [] ∧ ∀ c ∈ text, c.isDigit = true

instance (text : List Char) : Decidable (Digits text) :=
  @instDecidableAnd _ _ _ (List.decidableBAll (fun c => c.isDigit = true) text)

/-- The digits before the point: a zero stands alone. -/
inductive WholeText : List Char → Prop
  | zero : WholeText ['0']
  | digits {c : Char} {more : List Char} (first : c.isDigit = true) (nonzero : c ≠ '0')
    (others : ∀ d ∈ more, d.isDigit = true) : WholeText (c :: more)

inductive FractionText : List Char → Prop
  | none : FractionText []
  | digits {text : List Char} (digits : Digits text) : FractionText ('.' :: text)

inductive ExponentText : List Char → Prop
  | none : ExponentText []
  | digits {letter : Char} {sign text : List Char} (letter_eq : letter = 'e' ∨ letter = 'E')
    (sign_eq : sign = [] ∨ sign = ['+'] ∨ sign = ['-']) (digits : Digits text) :
    ExponentText (letter :: (sign ++ text))

inductive NumeralText : List Char → Prop
  | parts {sign whole fraction exponent : List Char} (sign_eq : sign = [] ∨ sign = ['-'])
    (before : WholeText whole) (after : FractionText fraction) (power : ExponentText exponent) :
    NumeralText (sign ++ (whole ++ (fraction ++ exponent)))

theorem startsWithDigit_digits {digits : List Char} (h : Digits digits) (rest : List Char) :
    startsWithDigit (digits ++ rest) = true := by
  obtain ⟨c, cs, rfl⟩ := List.exists_cons_of_ne_nil h.1
  exact h.2 c (List.mem_cons_self ..)

theorem skipDigits_append {digits rest : List Char} (h : ∀ c ∈ digits, c.isDigit = true)
    (hr : startsWithDigit rest = false) : skipDigits (digits ++ rest) = rest := by
  have hrest : rest.dropWhile Char.isDigit = rest := by
    cases rest with
    | nil => rfl
    | cons c rest =>
      rw [List.dropWhile_cons]
      exact if_neg (by simpa [startsWithDigit] using hr)
  rw [skipDigits, List.dropWhile_append_of_pos h, hrest]

theorem ExponentText.skip {exponent rest : List Char} (h : ExponentText exponent)
    (hr : EndsNumeral rest) : skipExponentPart (exponent ++ rest) = .ok rest := by
  cases h with
  | none =>
    cases rest with
    | nil => rfl
    | cons c rest =>
      obtain ⟨_, _, he, hE⟩ := hr c rfl
      rw [List.nil_append, skipExponentPart, if_neg (by simp [he, hE])]
  | @digits letter sign text letter_eq sign_eq digits =>
    have hsign : skipSign (sign ++ (text ++ rest)) = text ++ rest := by
      rcases sign_eq with rfl | rfl | rfl
      · obtain ⟨c, cs, rfl⟩ := List.exists_cons_of_ne_nil digits.1
        have hc := digits.2 c (List.mem_cons_self ..)
        rw [List.nil_append, List.cons_append, skipSign,
          if_neg (by simp [ne_of_isDigit hc (d := '+') rfl, ne_of_isDigit hc (d := '-') rfl])]
      · rfl
      · rfl
    rw [List.cons_append, List.append_assoc, skipExponentPart, if_pos letter_eq, skipExponent,
      hsign, startsWithDigit_digits digits, if_pos rfl,
      skipDigits_append digits.2 hr.startsWithDigit]

theorem ExponentText.startsWithDigit {exponent rest : List Char} (h : ExponentText exponent)
    (hr : EndsNumeral rest) : startsWithDigit (exponent ++ rest) = false := by
  cases h with
  | none => exact hr.startsWithDigit
  | digits letter_eq _ _ => rcases letter_eq with rfl | rfl <;> rfl

theorem FractionText.skip {fraction exponent rest : List Char} (h : FractionText fraction)
    (he : ExponentText exponent) (hr : EndsNumeral rest) :
    skipFraction (fraction ++ (exponent ++ rest)) = .ok rest := by
  cases h with
  | none =>
    have hexponent := he.skip hr
    rw [List.nil_append]
    cases htext : exponent ++ rest with
    | nil =>
      rw [htext] at hexponent
      exact hexponent
    | cons c text =>
      have hc : c ≠ '.' := by
        rintro rfl
        cases he with
        | none =>
          rw [List.nil_append] at htext
          rw [htext] at hr
          exact (hr '.' rfl).2.1 rfl
        | digits letter_eq _ _ =>
          rw [(List.cons.inj htext).1] at letter_eq
          rcases letter_eq with h | h <;> cases h
      rw [htext] at hexponent
      rw [skipFraction, if_neg hc, hexponent]
  | digits digits =>
    rw [List.cons_append, skipFraction, if_pos rfl, startsWithDigit_digits digits, if_pos rfl,
      skipDigits_append digits.2 (he.startsWithDigit hr), he.skip hr]

theorem FractionText.startsWithDigit {fraction exponent rest : List Char}
    (h : FractionText fraction) (he : ExponentText exponent) (hr : EndsNumeral rest) :
    startsWithDigit (fraction ++ (exponent ++ rest)) = false := by
  cases h with
  | none => exact he.startsWithDigit hr
  | digits _ => rfl

theorem WholeText.skip {whole fraction exponent rest : List Char} (h : WholeText whole)
    (hf : FractionText fraction) (he : ExponentText exponent) (hr : EndsNumeral rest) :
    skipNumeral (whole ++ (fraction ++ (exponent ++ rest))) = .ok rest := by
  cases h with
  | zero =>
    rw [List.cons_append, skipNumeral, if_pos rfl, List.nil_append, hf.startsWithDigit he hr,
      if_neg Bool.false_ne_true, hf.skip he hr]
  | digits first nonzero others =>
    rw [List.cons_append, skipNumeral, if_neg nonzero, if_pos first,
      skipDigits_append others (hf.startsWithDigit he hr), hf.skip he hr]

/-! ## Values -/

/-- A member of an object: the inside of its key, the blanks around the colon, and the value. -/
structure MemberText where
  key : List Char
  before : List Char := []
  after : List Char := []
  value : List Char

namespace MemberText

def text (m : MemberText) : List Char :=
  '"' :: (m.key ++ '"' :: (m.before ++ ':' :: (m.after ++ m.value)))

structure Spaced (m : MemberText) : Prop where
  before : Blanks m.before
  after : Blanks m.after

theorem text_append (m : MemberText) (rest : List Char) :
    m.text ++ rest =
      '"' :: (m.key ++ '"' :: (m.before ++ ':' :: (m.after ++ (m.value ++ rest)))) := by
  simp [text]

end MemberText

def Enclosure.opening : Enclosure → Char
  | list => '['
  | object => '{'

/-- The items between the opening and the closing character. -/
inductive Enclosure.Holds (e : Enclosure) (items : List (List Char)) : List Char → Prop
  | listed {inside : List Char} (h : Listed true items inside) :
    Holds e items (e.opening :: (inside ++ [e.closing]))

inductive JsonText : List Char → Prop
  | null : JsonText Json.null.write
  | bool (value : Bool) : JsonText (Json.bool value).write
  | number {text : List Char} (numeral : NumeralText text) : JsonText text
  | string {text : List Char} (inside : StringText text) : JsonText ('"' :: (text ++ ['"']))
  | array {items : List (List Char)} {text : List Char} (values : ∀ item ∈ items, JsonText item)
    (held : Enclosure.list.Holds items text) : JsonText text
  | object {members : List MemberText} {text : List Char} (spaced : ∀ m ∈ members, m.Spaced)
    (keys : ∀ m ∈ members, StringText m.key) (values : ∀ m ∈ members, JsonText m.value)
    (held : Enclosure.object.Holds (members.map MemberText.text) text) : JsonText text

/-! ### Passing over values -/

theorem colon_blanks {blanks : List Char} (h : Blanks blanks) (text : List Char) :
    colon (blanks ++ ':' :: text) = .ok text := by
  rw [colon, skipBlanks_append h, skipBlanks_cons rfl]
  rfl

theorem skipKey_member {blanks : List Char} (hb : Blanks blanks) {m : MemberText}
    (hs : m.Spaced) (hk : StringText m.key) (rest : List Char) :
    skipKey (blanks ++ (m.text ++ rest)) = .ok (m.after ++ (m.value ++ rest)) := by
  rw [m.text_append, skipKey, skipBlanks_append hb, skipBlanks_cons rfl]
  simp only
  rw [if_pos trivial, hk.skip]
  exact colon_blanks hs.before _

section

variable {outer : List Enclosure} {blanks rest : List Char}

/-- A scalar is passed over alone. -/
theorem skipValue_scalar {c : Char} {text : List Char} (hb : Blanks blanks)
    (hc : isBlank c = false) (ho : Enclosure.ofOpening? c = none)
    (h : skipScalar c text = .ok rest) :
    skipValue outer (blanks ++ c :: text) = skipAfter outer rest := by
  rw [skipValue]
  split <;> rename_i hs <;> rw [skipBlanks_append hb, skipBlanks_cons hc] at hs <;> cases hs
  split <;> rename_i hopen <;> rw [ho] at hopen <;> cases hopen
  split <;> rename_i hscalar <;> rw [h] at hscalar <;> cases hscalar
  rfl

theorem skipAfter_closing (e : Enclosure) (hb : Blanks blanks) :
    skipAfter (e :: outer) (blanks ++ e.closing :: rest) = skipAfter outer rest := by
  have hs : skipBlanks (blanks ++ e.closing :: rest) = e.closing :: rest := by
    rw [skipBlanks_append hb]
    cases e <;> exact skipBlanks_cons rfl _
  rw [skipAfter]
  split <;> rename_i h <;> rw [hs] at h <;> cases h
  rw [if_neg (by cases e <;> decide), if_pos rfl]

theorem skipAfter_comma {e : Enclosure} {text : List Char} (hb : Blanks blanks)
    (h : e.skipToValue text = .ok rest) :
    skipAfter (e :: outer) (blanks ++ ',' :: text) = skipValue (e :: outer) rest := by
  rw [skipAfter]
  split <;> rename_i hs <;> rw [skipBlanks_append hb, skipBlanks_cons rfl] at hs <;> cases hs
  rw [if_pos rfl]
  split <;> rename_i hk <;> rw [h] at hk <;> cases hk
  rfl

end

/-- Wherever the item stands in an enclosure, passing over it leaves what follows. -/
structure Enclosure.Passes (e : Enclosure) (item : List Char) : Prop where
  opens : ∃ c rest, item = c :: rest ∧ isBlank c = false ∧ c ≠ e.closing
  skip : ∀ (outer : List Enclosure) {blanks rest : List Char}, Blanks blanks → EndsNumeral rest →
    ∃ left, e.skipToValue (blanks ++ (item ++ rest)) = .ok left ∧
      skipValue (e :: outer) left = skipAfter (e :: outer) rest

namespace Enclosure

variable {e : Enclosure} {outer : List Enclosure} {items : List (List Char)}

theorem endsNumeral_closing (e : Enclosure) (rest : List Char) :
    EndsNumeral (e.closing :: rest) := by
  cases e <;> exact endsNumeral_cons rfl (by decide) (by decide) (by decide) _

theorem skipAfter_listed {text : List Char} (h : Listed false items text)
    (hp : ∀ item ∈ items, e.Passes item) (rest : List Char) :
    skipAfter (e :: outer) (text ++ e.closing :: rest) = skipAfter outer rest := by
  induction items generalizing text with
  | nil =>
    cases h with
    | nil hb => exact skipAfter_closing e hb
  | cons item items ih =>
    obtain ⟨hitem, hitems⟩ := List.forall_mem_cons.mp hp
    cases h with
    | @cons _ before after _ text _ hb ha more =>
      have hends := more.endsNumeral (e.endsNumeral_closing rest)
      obtain ⟨left, hto, hskip⟩ := hitem.skip outer ha hends
      simp only [separator, Bool.false_eq_true, if_false, List.append_assoc, List.cons_append,
        List.nil_append]
      rw [skipAfter_comma hb hto, hskip, ih more hitems]

theorem skipValue_holds {text blanks : List Char} (h : e.Holds items text)
    (hp : ∀ item ∈ items, e.Passes item) (hb : Blanks blanks) (rest : List Char) :
    skipValue outer (blanks ++ (text ++ rest)) = skipAfter outer rest := by
  cases h with
  | @listed inside h =>
    have hopen : skipBlanks (blanks ++ (e.opening :: (inside ++ [e.closing]) ++ rest)) =
        e.opening :: (inside ++ e.closing :: rest) := by
      rw [skipBlanks_append hb, List.cons_append, List.append_assoc]
      cases e <;> exact skipBlanks_cons rfl _
    rw [skipValue]
    split <;> rename_i hs <;> rw [hopen] at hs <;> cases hs
    have he : ofOpening? e.opening = some e := by cases e <;> rfl
    split <;> rename_i ho <;> rw [he] at ho <;> cases ho
    cases h with
    | nil hb =>
      have hclose : skipBlanks (inside ++ e.closing :: rest) = e.closing :: rest := by
        rw [skipBlanks_append hb]
        cases e <;> exact skipBlanks_cons rfl _
      split <;> rename_i hs <;> rw [hclose] at hs <;> cases hs
      rw [if_pos rfl]
    | @cons _ before after item text items hbefore hafter more =>
      obtain ⟨hitem, hitems⟩ := List.forall_mem_cons.mp hp
      obtain ⟨c, cs, rfl, hc, hclosing⟩ := hitem.opens
      have hends := more.endsNumeral (e.endsNumeral_closing rest)
      have hnone : Blanks [] := List.forall_mem_nil _
      obtain ⟨left, hto, hskip⟩ := hitem.skip outer hnone hends
      have hfirst : skipBlanks
          (before ++ (separator true ++ (after ++ (c :: cs ++ text))) ++ e.closing :: rest) =
            c :: (cs ++ (text ++ e.closing :: rest)) := by
        simp only [separator, if_true, List.append_assoc, List.nil_append, List.cons_append]
        rw [skipBlanks_append hbefore, skipBlanks_append hafter, skipBlanks_cons hc]
      split <;> rename_i hs <;> rw [hfirst] at hs <;> cases hs
      rw [if_neg hclosing]
      split <;> rename_i hk <;> rw [List.nil_append, List.cons_append] at hto <;>
        rw [hto] at hk <;> cases hk
      rw [hskip, skipAfter_listed more hitems]

end Enclosure

theorem NumeralText.skip {text rest blanks : List Char} (h : NumeralText text)
    (hb : Blanks blanks) (hr : EndsNumeral rest) (outer : List Enclosure) :
    skipValue outer (blanks ++ (text ++ rest)) = skipAfter outer rest := by
  cases h with
  | @parts sign whole fraction exponent sign_eq before after power =>
    have hw := before.skip after power hr
    rcases sign_eq with rfl | rfl
    · obtain ⟨c, cs, rfl, hc⟩ : ∃ c cs, whole = c :: cs ∧ c.isDigit = true := by
        cases before with
        | zero => exact ⟨_, _, rfl, rfl⟩
        | digits first _ _ => exact ⟨_, _, rfl, first⟩
      simp only [List.nil_append, List.cons_append, List.append_assoc] at hw ⊢
      refine skipValue_scalar hb (isBlank_of_isDigit hc) ?_ ?_
      · rw [Enclosure.ofOpening?, if_neg (ne_of_isDigit hc rfl), if_neg (ne_of_isDigit hc rfl)]
      · unfold skipScalar
        rw [if_neg (ne_of_isDigit hc rfl), if_neg (ne_of_isDigit hc rfl),
          if_neg (ne_of_isDigit hc rfl), if_neg (ne_of_isDigit hc rfl),
          if_neg (ne_of_isDigit hc rfl), if_pos hc]
        exact hw
    · simp only [List.cons_append, List.nil_append, List.append_assoc]
      exact skipValue_scalar hb rfl rfl hw

theorem JsonText.opens {text : List Char} (h : JsonText text) :
    ∃ c rest, text = c :: rest ∧ isBlank c = false ∧ c ≠ ']' ∧ c ≠ '}' := by
  cases h with
  | null | string => exact ⟨_, _, rfl, rfl, by decide, by decide⟩
  | bool value => cases value <;> exact ⟨_, _, rfl, rfl, by decide, by decide⟩
  | number numeral =>
    cases numeral with
    | parts sign_eq before =>
      rcases sign_eq with rfl | rfl
      · cases before with
        | zero => exact ⟨_, _, rfl, rfl, by decide, by decide⟩
        | digits first =>
          exact ⟨_, _, rfl, isBlank_of_isDigit first, ne_of_isDigit first rfl,
            ne_of_isDigit first rfl⟩
      · exact ⟨_, _, rfl, rfl, by decide, by decide⟩
  | array _ held | object _ _ _ held =>
    cases held
    exact ⟨_, _, rfl, rfl, by decide, by decide⟩

/-- A value that nobody asked for is passed over alone, whatever it holds. -/
theorem JsonText.skip {text : List Char} (h : JsonText text) :
    ∀ (outer : List Enclosure) {blanks rest : List Char}, Blanks blanks → EndsNumeral rest →
      skipValue outer (blanks ++ (text ++ rest)) = skipAfter outer rest := by
  induction h with
  | null => exact fun _ _ _ hb _ => skipValue_scalar hb rfl rfl rfl
  | bool value => cases value <;> exact fun _ _ _ hb _ => skipValue_scalar hb rfl rfl rfl
  | number numeral => exact fun outer _ _ hb hr => numeral.skip hb hr outer
  | string inside =>
    intro outer blanks rest hb _
    rw [List.cons_append, List.append_assoc]
    exact skipValue_scalar hb rfl rfl (inside.skip rest)
  | array values held ih =>
    refine fun outer _ rest hb _ => Enclosure.skipValue_holds held (fun item hi => ⟨?_, ?_⟩) hb rest
    · obtain ⟨c, cs, hitem, hc, hlist, _⟩ := (values item hi).opens
      exact ⟨c, cs, hitem, hc, hlist⟩
    · exact fun outer _ _ hb hr => ⟨_, rfl, ih item hi _ hb hr⟩
  | object spaced keys values held ih =>
    refine fun outer _ rest hb _ => Enclosure.skipValue_holds held (fun item hi => ?_) hb rest
    obtain ⟨m, hm, rfl⟩ := List.mem_map.mp hi
    refine ⟨⟨_, _, rfl, rfl, by decide⟩, fun outer _ rest hb hr => ?_⟩
    exact ⟨_, skipKey_member hb (spaced m hm) (keys m hm) rest,
      ih m hm _ (spaced m hm).after hr⟩

end GraphDoc.Json
