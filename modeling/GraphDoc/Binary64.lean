/-!
# Binary floating point

The finite non-negative numbers `significand · 2 ^ exponent` of 53 significant bits, in exact
arithmetic on naturals. Every operation rounds its exact result to the nearest number, a tie to the
even significand, and has no result where that would be too large.
-/
namespace GraphDoc

def twoPow (n : Nat) : Nat := Nat.pow 2 n

def tenPow (n : Nat) : Nat := Nat.pow 10 n

/-- A number in canonical form: the significand has 53 bits unless the exponent is the least. -/
structure Binary64 where
  significand : Nat
  exponent : Int
deriving DecidableEq, Repr

namespace Binary64

def leastExponent : Int := -1074

def greatestExponent : Int := 971

def zero : Binary64 := ⟨0, leastExponent⟩

def isZero (x : Binary64) : Bool := x.significand == 0

/-- The natural nearest to a quotient, a half going to the even neighbour. -/
def roundHalfEven (num den : Nat) : Nat :=
  let low := num / den
  let twice := 2 * (num % den)
  if twice > den || (twice == den && low % 2 == 1) then low + 1 else low

/-- The quotient `num / den / 2 ^ exponent` as a fraction of naturals. -/
def unscaled (num den : Nat) (exponent : Int) : Nat × Nat :=
  (num * twoPow (-exponent).toNat, den * twoPow exponent.toNat)

/-- The number nearest to `num / den`, if it is not too large. -/
def ofQuotient (num den : Nat) : Option Binary64 :=
  if num = 0 then some zero
  else
    let estimate := max ((num.log2 : Int) - den.log2 - 53) leastExponent
    let (n, d) := unscaled num den estimate
    let exponent := if n / d ≥ twoPow 53 then estimate + 1 else estimate
    let (n, d) := unscaled num den exponent
    let significand := roundHalfEven n d
    let x : Binary64 :=
      if significand = twoPow 53 then ⟨twoPow 52, exponent + 1⟩ else ⟨significand, exponent⟩
    if x.exponent > greatestExponent then none else some x

/-- The number nearest to `num / den · 2 ^ exponent`. -/
def ofScaled (num den : Nat) (exponent : Int) : Option Binary64 :=
  ofQuotient (num * twoPow exponent.toNat) (den * twoPow (-exponent).toNat)

def ofNat (n : Nat) : Option Binary64 := ofQuotient n 1

def mul (x y : Binary64) : Option Binary64 :=
  ofScaled (x.significand * y.significand) 1 (x.exponent + y.exponent)

def div (x y : Binary64) : Option Binary64 :=
  ofScaled x.significand y.significand (x.exponent - y.exponent)

/-- The greatest power of ten that is no infinity. -/
def greatestTenth : Nat := 308

/-- Divides by `10 ^ n` in steps of at most `10 ^ 308`, each of them rounded. -/
def divTenPow (x : Binary64) (n : Nat) : Option Binary64 :=
  if n ≤ greatestTenth then do
    x.div (← ofNat (tenPow n))
  else if x.isZero then some x
  else do
    let x ← x.div (← ofNat (tenPow greatestTenth))
    divTenPow x (n - greatestTenth)
termination_by n
decreasing_by simp [greatestTenth] at *; omega

/-- The number read from the decimal `digits · 10 ^ exponent`: the digits are rounded first, and the
power of ten is then applied in one rounded step where it can be. -/
def ofDecimal (digits : Nat) (exponent : Int) : Option Binary64 := do
  let x ← ofNat digits
  if exponent < 0 then x.divTenPow exponent.natAbs
  else if exponent.natAbs ≤ greatestTenth then x.mul (← ofNat (tenPow exponent.natAbs))
  else if x.isZero then some x
  else none

end Binary64

end GraphDoc
