import GraphDoc.Json.Reader
import GraphDoc.Proofs.IntegerText

/-!
# Scanning what is written

The strings and integers of a written text are scanned back to what they were written from, with
whatever follows them left.
-/
namespace GraphDoc.Json

/-! ## Blanks -/

theorem skipBlanks_cons {c : Char} (h : isBlank c = false) (rest : List Char) :
    skipBlanks (c :: rest) = c :: rest := by
  rw [skipBlanks, List.dropWhile_cons, h]
  rfl

theorem onValue_cons {α : Type} {c : Char} (h : isBlank c = false) (rest : List Char)
    (body : Char → List Char → Scan α) : onValue (c :: rest) body = body c rest := by
  rw [onValue, skipBlanks_cons h]

/-! ## Strings -/

theorem hexValue?_hexDigit {n : Nat} (h : n < 16) : hexValue? (hexDigit n) = some n := by
  have hall : ∀ n < 16, hexValue? (hexDigit n) = some n := by decide
  exact hall n h

theorem hexFour_zeros {m n : Nat} (hm : m < 16) (hn : n < 16) (rest : List Char) :
    hexFour ('0' :: '0' :: hexDigit m :: hexDigit n :: rest) = .ok (m * 16 + n, rest) := by
  have hz : hexValue? '0' = some 0 := rfl
  rw [hexFour, hz, hexValue?_hexDigit hm, hexValue?_hexDigit hn]
  simp

/-- The escape of a character below U+0020 stands for it. -/
theorem escape_control {c : Char} (hc : c < ' ') (rest : List Char) :
    escape ('u' :: '0' :: '0' :: hexDigit (c.toNat / 16) :: hexDigit (c.toNat % 16) :: rest) =
      .ok (c, rest) := by
  have hn : c.toNat < 32 := hc
  have hv : c.toNat / 16 * 16 + c.toNat % 16 = c.toNat := Nat.div_add_mod' _ _
  rw [escape, if_pos rfl, hexFour_zeros (by omega) (by omega), hv]
  simp only
  rw [if_neg (by omega), if_neg (by omega), Char.ofNat_toNat]

/-- A character is written by a letter behind a backslash, by its code, or as it is. -/
theorem escapeChar_cases (c : Char) :
    (∃ e, escapeChar c = ['\\', e] ∧ simpleEscape? e = some c ∧ e ≠ 'u') ∨
    (escapeChar c = ['\\', 'u', '0', '0', hexDigit (c.toNat / 16), hexDigit (c.toNat % 16)] ∧
      c < ' ') ∨
    (escapeChar c = [c] ∧ c ≠ '"' ∧ c ≠ '\\' ∧ ¬ c < ' ') := by
  by_cases hquote : c = '"'
  · exact .inl ⟨'"', by rw [hquote]; decide⟩
  by_cases hslash : c = '\\'
  · exact .inl ⟨'\\', by rw [hslash]; decide⟩
  by_cases hnewline : c = '\n'
  · exact .inl ⟨'n', by rw [hnewline]; decide⟩
  by_cases hreturn : c = '\r'
  · exact .inl ⟨'r', by rw [hreturn]; decide⟩
  by_cases htab : c = '\t'
  · exact .inl ⟨'t', by rw [htab]; decide⟩
  by_cases hback : c = '\x08'
  · exact .inl ⟨'b', by rw [hback]; decide⟩
  by_cases hfeed : c = '\x0c'
  · exact .inl ⟨'f', by rw [hfeed]; decide⟩
  unfold escapeChar
  rw [if_neg hquote, if_neg hslash, if_neg hnewline, if_neg hreturn, if_neg htab, if_neg hback,
    if_neg hfeed]
  by_cases hcontrol : c < ' '
  · rw [if_pos hcontrol]
    exact .inr (.inl ⟨rfl, hcontrol⟩)
  · rw [if_neg hcontrol]
    exact .inr (.inr ⟨rfl, hquote, hslash, hcontrol⟩)

/-- Where a written character starts, and that it is read back from there. -/
theorem stringChar_escapeChar (c : Char) :
    ∃ d ds, escapeChar c = d :: ds ∧ d ≠ '"' ∧
      ∀ rest, stringChar d (ds ++ rest) = .ok (c, rest) := by
  rcases escapeChar_cases c with ⟨e, hw, he, hu⟩ | ⟨hw, hc⟩ | ⟨hw, hquote, hslash, hc⟩
  · refine ⟨_, _, hw, by decide, fun rest => ?_⟩
    rw [stringChar, if_pos rfl, List.cons_append, List.nil_append, escape, if_neg hu, he]
  · refine ⟨_, _, hw, by decide, fun rest => ?_⟩
    rw [stringChar, if_pos rfl]
    exact escape_control hc rest
  · refine ⟨_, _, hw, hquote, fun rest => ?_⟩
    rw [stringChar, if_neg hslash, if_neg hc, List.nil_append]

theorem stringTail_quote (rest : List Char) : stringTail ('"' :: rest) = .ok ([], rest) := by
  rw [stringTail, if_pos rfl]

theorem stringTail_of_stringChar {c d : Char} {text rest after cs : List Char} (hc : c ≠ '"')
    (hd : stringChar c text = .ok (d, rest)) (ht : stringTail rest = .ok (cs, after)) :
    stringTail (c :: text) = .ok (d :: cs, after) := by
  rw [stringTail, if_neg hc]
  split
  · rename_i he
    rw [hd] at he
    cases he
  · rename_i he
    rw [hd] at he
    cases he
    rw [ht]

theorem stringTail_written (cs rest : List Char) :
    stringTail (cs.flatMap escapeChar ++ '"' :: rest) = .ok (cs, rest) := by
  induction cs with
  | nil => exact stringTail_quote rest
  | cons c cs ih =>
    obtain ⟨d, ds, hw, hd, hc⟩ := stringChar_escapeChar c
    rw [List.flatMap_cons, hw, List.append_assoc, List.cons_append]
    exact stringTail_of_stringChar hd (hc _) ih

theorem run_string (text rest : List Char) :
    Reader.string.run ('"' :: (text.flatMap escapeChar ++ '"' :: rest)) =
      .ok (String.ofList text, rest) := by
  unfold Reader.string
  simp only
  rw [onValue_cons rfl, if_pos rfl, stringTail_written]

/-! ## Integers -/

/-- The text does not go on with a numeral. -/
def EndsNumeral (text : List Char) : Prop :=
  ∀ c ∈ text.head?, c.isDigit = false ∧ c ≠ '.' ∧ c ≠ 'e' ∧ c ≠ 'E'

theorem EndsNumeral.startsWithDigit {text : List Char} (h : EndsNumeral text) :
    startsWithDigit text = false := by
  cases text with
  | nil => rfl
  | cons c text => exact (h c rfl).1

theorem le_ofDigitChars (digits : List Char) (n : Nat) : n ≤ Nat.ofDigitChars 10 digits n := by
  rw [Nat.ofDigitChars_eq_ofDigitChars_zero]
  have hp : 0 < 10 ^ digits.length := Nat.pow_pos (by decide)
  have hn : n ≤ 10 ^ digits.length * n := Nat.le_mul_of_pos_left n hp
  omega

theorem takeDigits_digits {bound n : Nat} {digits rest : List Char}
    (hd : ∀ c ∈ digits, c.isDigit = true) (hn : Nat.ofDigitChars 10 digits n ≤ bound)
    (hr : EndsNumeral rest) :
    takeDigits bound n (digits ++ rest) =
      ⟨Nat.ofDigitChars 10 digits n, digits.length, rest⟩ := by
  induction digits generalizing n with
  | nil =>
    rw [Nat.ofDigitChars_nil]
    cases rest with
    | nil => rfl
    | cons c rest =>
      have hc : ¬ (c.isDigit = true ∧ n * 10 + digitValue c ≤ bound) := by
        rw [(hr c rfl).1]
        simp
      rw [List.nil_append, takeDigits, if_neg hc]
      rfl
  | cons c digits ih =>
    obtain ⟨hc, hd⟩ := List.forall_mem_cons.mp hd
    have hv : 10 * n + (c.toNat - '0'.toNat) = n * 10 + digitValue c := by
      rw [digitValue, Nat.mul_comm]
    rw [Nat.ofDigitChars_cons, hv] at hn ⊢
    have hb : n * 10 + digitValue c ≤ bound := Nat.le_trans (le_ofDigitChars digits _) hn
    rw [List.cons_append, takeDigits, if_pos ⟨hc, hb⟩, ih hd hn]
    rfl

theorem numeralTail_of_ends (negative : Bool) (n : Nat) {rest : List Char} (hr : EndsNumeral rest) :
    numeralTail negative n rest = integerNumeral negative n rest := by
  cases rest with
  | nil => rfl
  | cons c rest =>
    obtain ⟨_, hp, he, hE⟩ := hr c rfl
    rw [numeralTail, if_neg (by simp [hp, he, hE])]

theorem numeral_toDigits (negative : Bool) {n : Nat} (hn : n ≤ greatestWord) {rest : List Char}
    (hr : EndsNumeral rest) :
    numeral negative (Nat.toDigits 10 n ++ rest) = integerNumeral negative n rest := by
  obtain ⟨c, cs, hd, hc⟩ := exists_toDigits_eq_cons n
  by_cases hz : c = '0'
  · rw [hz] at hd
    have h0 := eq_zero_of_toDigits_eq_cons hd
    rw [h0, Nat.toDigits_zero, List.cons_append, List.nil_append, numeral, if_pos rfl,
      hr.startsWithDigit, if_neg Bool.false_ne_true, numeralTail_of_ends _ _ hr]
  · have hcs : ∀ d ∈ cs, d.isDigit = true := fun d hm =>
      isDigit_of_mem_toDigits (n := n) (by rw [hd]; exact List.mem_cons_of_mem c hm)
    have hv : Nat.ofDigitChars 10 cs (digitValue c) = n := by
      have h := Nat.ofDigitChars_ten_toDigits (n := n)
      rw [hd, Nat.ofDigitChars_cons, Nat.mul_zero, Nat.zero_add] at h
      exact h
    rw [hd, List.cons_append, numeral, if_neg hz, if_pos hc,
      takeDigits_digits hcs (Nat.le_trans (Nat.le_of_eq hv) hn) hr, hv]
    simp only
    rw [hr.startsWithDigit, if_neg Bool.false_ne_true, numeralTail_of_ends _ _ hr]

theorem isBlank_of_isDigit {c : Char} (h : c.isDigit = true) : isBlank c = false := by
  simp [isBlank, ne_of_isDigit h (d := ' ') rfl, ne_of_isDigit h (d := '\n') rfl,
    ne_of_isDigit h (d := '\t') rfl, ne_of_isDigit h (d := '\r') rfl]

theorem toWord_toInt (value : Int64) : Reader.toWord (.integer value.toInt) = .ok value := by
  rw [Reader.toWord, if_pos ⟨value.minValue_le_toInt, value.toInt_le⟩, Int64.ofInt_toInt]

theorem integerOf_toInt (value : Int64) (rest : List Char) :
    Reader.integerOf (.ok (.integer value.toInt, rest)) = .ok (value, rest) := by
  rw [Reader.integerOf, toWord_toInt]

theorem run_integer (text : List Char) : Reader.integer.run text = onValue text fun c rest =>
    if c = '-' then Reader.integerOf (numeral true rest)
    else if c.isDigit then Reader.integerOf (numeral false (c :: rest))
    else .error (mismatch "i64" c rest) := rfl

theorem run_integer_of_nonneg {value : Int64} (h : 0 ≤ value.toInt) {rest : List Char}
    (hr : EndsNumeral rest) :
    Reader.integer.run (Nat.toDigits 10 value.toInt.toNat ++ rest) = .ok (value, rest) := by
  have hu := value.toInt_le
  rw [Int64.toInt_maxValue] at hu
  have hb : value.toInt.toNat ≤ greatestWord := by
    rw [greatestWord]
    omega
  have hn := numeral_toDigits false hb hr
  rw [integerNumeral, if_pos Bool.false_ne_true, Int.toNat_of_nonneg h] at hn
  obtain ⟨c, cs, hd, hc⟩ := exists_toDigits_eq_cons value.toInt.toNat
  rw [hd, List.cons_append] at hn ⊢
  rw [run_integer, onValue_cons (isBlank_of_isDigit hc), if_neg (ne_of_isDigit hc rfl), if_pos hc,
    hn, integerOf_toInt]

theorem run_integer_of_neg {value : Int64} (h : value.toInt < 0) {rest : List Char}
    (hr : EndsNumeral rest) :
    Reader.integer.run ('-' :: (Nat.toDigits 10 (-value.toInt).toNat ++ rest)) =
      .ok (value, rest) := by
  have hl := value.minValue_le_toInt
  rw [Int64.toInt_minValue] at hl
  have hb : (-value.toInt).toNat ≤ greatestWord := by
    rw [greatestWord]
    omega
  have hn := numeral_toDigits true hb hr
  rw [integerNumeral, if_neg (not_not_intro rfl), if_neg (by omega),
    Int.toNat_of_nonneg (by omega), Int.neg_neg] at hn
  rw [run_integer, onValue_cons rfl, if_pos rfl, hn, integerOf_toInt]

end GraphDoc.Json
