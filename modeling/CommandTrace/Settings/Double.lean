/-
Numbers as double precision keeps them: at most 53 bits, times a power of two.

A decimal stands for the nearest of these numbers, and if two are equally near
for the one whose last bit is zero. Only the two ends of the range need care:
below it the bits get fewer, down to none, and above it there is no number.
All of this is exact arithmetic with whole numbers.
-/

namespace CommandTrace

/-- The whole number nearest to `a / b`; a half goes to the even one. -/
def roundDiv (a b : Nat) : Nat :=
  let quotient := a / b
  let rest := a % b
  if 2 * rest < b then quotient
  else if b < 2 * rest then quotient + 1
  else quotient + quotient % 2

/-- The number `bits` times two to the power of `exponent`. -/
structure Double where
  bits : Nat
  exponent : Int
deriving DecidableEq, Repr

namespace Double

def zero : Double := ⟨0, 0⟩

/-- The least exponent there is. -/
def leastExponent : Int := -1074

/-- The power of two that is past all numbers. -/
def pastEnd : Nat := 1024

/-- Whether `a / b` is at least two to the power of `n`. -/
def reaches (a b : Nat) (n : Int) : Bool :=
  if 0 ≤ n then b * Nat.pow 2 n.toNat ≤ a else b ≤ a * Nat.pow 2 (-n).toNat

/-- The exponent with which the number nearest to `a / b` has all its bits. -/
def exponentOf (a b : Nat) : Int :=
  let n := (a.log2 : Int) - b.log2
  max leastExponent ((if reaches a b n then n else n - 1) - 52)

/-- The number nearest to `a / b`, for a positive `b`. -/
def nearest? (a b : Nat) : Option Double :=
  let exponent := exponentOf a b
  let bits :=
    if 0 ≤ exponent then roundDiv a (b * Nat.pow 2 exponent.toNat)
    else roundDiv (a * Nat.pow 2 (-exponent).toNat) b
  if (bits.log2 : Int) + exponent < pastEnd then some ⟨bits, exponent⟩ else none

/-- The number nearest to a decimal: `mantissa` times ten to the power of
`exponent`. Ten is more than two to the power of three, so a decimal far out of
the range is known by its exponent. -/
def ofDecimal? (mantissa : Nat) (exponent : Int) : Option Double :=
  if mantissa = 0 then some zero
  else if 0 ≤ exponent then
    if (pastEnd : Int) ≤ mantissa.log2 + 3 * exponent then none
    else nearest? (mantissa * Nat.pow 10 exponent.toNat) 1
  else if (mantissa.log2 : Int) + 1 + 3 * exponent < leastExponent - 1 then some zero
  else nearest? mantissa (Nat.pow 10 (-exponent).toNat)

/-- The whole number that a number is, if it is one. -/
def whole? (x : Double) : Option Nat :=
  if 0 ≤ x.exponent then some (x.bits * Nat.pow 2 x.exponent.toNat)
  else
    let unit := Nat.pow 2 (-x.exponent).toNat
    if x.bits % unit = 0 then some (x.bits / unit) else none

end Double

end CommandTrace
