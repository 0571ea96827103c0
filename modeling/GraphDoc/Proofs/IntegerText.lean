/-!
# The decimal text of an integer

An integer is written as its decimal digits, behind a minus where it is negative, and can be read
back from them.
-/
namespace GraphDoc

theorem toList_toString_of_nonneg {n : Int} (h : 0 ≤ n) :
    (toString n).toList = Nat.toDigits 10 n.toNat := by
  rw [Int.toString_eq_repr, Int.repr_eq_if, if_pos h, Nat.toList_repr]

theorem toList_toString_of_neg {n : Int} (h : n < 0) :
    (toString n).toList = '-' :: Nat.toDigits 10 (-n).toNat := by
  rw [Int.toString_eq_repr, Int.repr_eq_if, if_neg (by omega), String.toList_append,
    Nat.toList_repr]
  rfl

theorem isDigit_of_mem_toDigits {n : Nat} {c : Char} (h : c ∈ Nat.toDigits 10 n) :
    c.isDigit = true := Nat.isDigit_of_mem_toDigits (by decide) (by decide) h

theorem exists_toDigits_eq_cons (n : Nat) :
    ∃ c cs, Nat.toDigits 10 n = c :: cs ∧ c.isDigit = true := by
  obtain ⟨c, cs, h⟩ := List.exists_cons_of_ne_nil (Nat.toDigits_ne_nil (n := n) (b := 10))
  refine ⟨c, cs, h, isDigit_of_mem_toDigits (n := n) ?_⟩
  rw [h]
  exact List.mem_cons_self ..

/-- Only zero is written with a leading zero. -/
theorem eq_zero_of_toDigits_eq_cons {n : Nat} {cs : List Char}
    (h : Nat.toDigits 10 n = '0' :: cs) : n = 0 := by
  induction n using Nat.strongRecOn generalizing cs with
  | _ n ih =>
    by_cases hn : n < 10
    · rw [Nat.toDigits_of_lt_base hn] at h
      have hv := Nat.toNat_digitChar_sub_48_of_lt_ten hn
      rw [(List.cons.inj h).1] at hv
      exact hv.symm
    · obtain ⟨c, ds, hd, _⟩ := exists_toDigits_eq_cons (n / 10)
      rw [Nat.toDigits_of_base_le (by decide) (Nat.le_of_not_lt hn), hd, List.cons_append] at h
      rw [(List.cons.inj h).1] at hd
      have hz := ih (n / 10) (by omega) hd
      omega

theorem ne_of_isDigit {c d : Char} (hc : c.isDigit = true) (hd : d.isDigit = false) : c ≠ d := by
  rintro rfl
  rw [hc] at hd
  cases hd

/-- The text of an integer starts with a minus or a digit. -/
theorem exists_toList_toString_eq_cons (n : Int) :
    ∃ c cs, (toString n).toList = c :: cs ∧ (c = '-' ∨ c.isDigit = true) := by
  by_cases h : 0 ≤ n
  · obtain ⟨c, cs, hd, hc⟩ := exists_toDigits_eq_cons n.toNat
    exact ⟨c, cs, (toList_toString_of_nonneg h).trans hd, .inr hc⟩
  · exact ⟨'-', _, toList_toString_of_neg (by omega), .inl rfl⟩

/-- The integer that a decimal text stands for. -/
def integerOfText : List Char → Int
  | [] => 0
  | c :: cs => if c = '-' then -(Nat.ofDigitChars 10 cs 0) else Nat.ofDigitChars 10 (c :: cs) 0

theorem integerOfText_toString (n : Int) : integerOfText (toString n).toList = n := by
  by_cases h : 0 ≤ n
  · obtain ⟨c, cs, hd, hc⟩ := exists_toDigits_eq_cons n.toNat
    rw [toList_toString_of_nonneg h, hd, integerOfText, if_neg (ne_of_isDigit hc (by decide)), ← hd,
      Nat.ofDigitChars_ten_toDigits]
    omega
  · rw [toList_toString_of_neg (by omega), integerOfText, if_pos rfl,
      Nat.ofDigitChars_ten_toDigits]
    omega

end GraphDoc
