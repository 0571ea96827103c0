import GraphDoc.Binary64

/-!
# Shortest decimals

The decimal of fewest digits that is read back as a given number, and its text. Of several such
decimals the nearest to the number is taken, a tie going to the even digit.
-/
namespace GraphDoc

/-- The number `digits · 10 ^ exponent`. -/
structure Decimal where
  digits : Nat
  exponent : Int
deriving DecidableEq, Repr

namespace Decimal

/-- Compares `a · 10 ^ i` with `n · 2 ^ j`. -/
def compareScaled (a : Nat) (i : Int) (n : Nat) (j : Int) : Ordering :=
  compare (a * tenPow i.toNat * twoPow (-j).toNat) (n * twoPow j.toNat * tenPow (-i).toNat)

/-- Whether the decimal lies among the reals that round to `x`. The ends of that interval belong to
it where the significand is even; below a power of two the gap is half as wide. -/
def readsBack (x : Binary64) (d : Decimal) : Bool :=
  let narrow := x.significand == twoPow 52 && x.exponent > Binary64.leastExponent
  let low := 4 * x.significand - if narrow then 1 else 2
  let high := 4 * x.significand + 2
  let closed := x.significand % 2 == 0
  let toLow := compareScaled d.digits d.exponent low (x.exponent - 2)
  let toHigh := compareScaled d.digits d.exponent high (x.exponent - 2)
  (toLow == .gt || (closed && toLow == .eq)) && (toHigh == .lt || (closed && toHigh == .eq))

def digitCount (n : Nat) : Nat := (Nat.toDigits 10 n).length

/-- The least `k` with `x < 10 ^ k`, for an `x` other than zero. Such an `x` is above `10 ^ -400`. -/
def scale (x : Binary64) : Int :=
  let places : Nat := 400
  let scaled := x.significand * twoPow x.exponent.toNat * tenPow places / twoPow (-x.exponent).toNat
  (digitCount scaled : Int) - places

/-- The greatest decimal with the given exponent that is not above `x`. -/
def floorAt (x : Binary64) (exponent : Int) : Decimal :=
  ⟨x.significand * twoPow x.exponent.toNat * tenPow (-exponent).toNat /
    (twoPow (-x.exponent).toNat * tenPow exponent.toNat), exponent⟩

/-- The decimal of the given exponent that reads back as `x` and is nearest to it. -/
def nearestAt (x : Binary64) (exponent : Int) : Option Decimal :=
  let low := floorAt x exponent
  let high : Decimal := ⟨low.digits + 1, exponent⟩
  match readsBack x low, readsBack x high with
  | true, true =>
    match compareScaled (low.digits + high.digits) exponent (2 * x.significand) x.exponent with
    | .lt => some high
    | .gt => some low
    | .eq => some (if low.digits % 2 = 0 then low else high)
  | true, false => some low
  | false, true => some high
  | false, false => none

/-- Moves trailing zeros of the digits into the exponent. -/
def stripZeros : Nat → Decimal → Decimal
  | 0, d => d
  | n + 1, d => if d.digits % 10 = 0 then stripZeros n ⟨d.digits / 10, d.exponent + 1⟩ else d

/-- The shortest decimal of `x`. Seventeen digits are always enough; the last one is the value
itself, cut off after them. -/
def shortest (x : Binary64) : Decimal :=
  if x.isZero then ⟨0, 0⟩
  else
    let k := scale x
    let found := (List.range 17).findSome? fun n : Nat => nearestAt x (k - (n + 1))
    stripZeros 17 (found.getD (floorAt x (k - 17)))

/-- How a decimal is written: with a point where its leading digit stands at one of these powers of
ten, and with an exponent otherwise. -/
structure Layout where
  lowestPlain : Int
  highestPlain : Int

def zeros (n : Nat) : String := String.ofList (List.replicate n '0')

/-- The digits with a point, and at least one digit on each side of it. -/
def plain (digits : List Char) (lead : Int) : String :=
  if lead < 0 then "0." ++ zeros (-lead - 1).toNat ++ String.ofList digits
  else
    let before := lead.toNat + 1
    let after := digits.drop before
    String.ofList (digits.take before) ++ zeros (before - digits.length) ++ "." ++
      if after.isEmpty then "0" else String.ofList after

/-- One digit before the point, and an exponent that always has a sign. -/
def scientific (digits : List Char) (lead : Int) : String :=
  String.ofList (digits.take 1) ++
    (if digits.length ≤ 1 then "" else "." ++ String.ofList (digits.drop 1)) ++
    "e" ++ (if lead < 0 then "-" else "+") ++ toString lead.natAbs

def Layout.write (layout : Layout) (d : Decimal) : String :=
  let digits := Nat.toDigits 10 d.digits
  let lead := d.exponent + digits.length - 1
  if layout.lowestPlain ≤ lead && lead ≤ layout.highestPlain then plain digits lead
  else scientific digits lead

end Decimal

end GraphDoc
