/-! The range of numbers. A number in a text is refused when it is too large for a 64-bit floating
point value. -/
namespace Constructicon

namespace Binary64

/-- The least number that rounds to infinity, half a step above the greatest finite one. -/
def overflow : Nat := Nat.pow 2 1024 - Nat.pow 2 970

/-- Rounds to a number with 53 significant bits, halves to even. -/
def round (n : Nat) : Nat :=
  let unit := Nat.pow 2 (n.log2 + 1 - 53)
  let quotient := n / unit
  let remainder := n % unit
  if 2 * remainder > unit ∨ (2 * remainder = unit ∧ quotient % 2 = 1) then (quotient + 1) * unit
  else quotient * unit

end Binary64

/-! Of the digits of a JSON number those that fit a 64-bit word are kept, the word and the power of
ten are rounded to 53 bits each, and their product must stay below the least value that would round
to infinity. -/
namespace Json

/-- A number as a 64-bit word times a power of ten. -/
structure Scaled where
  word : Nat
  exponent : Int
  deriving DecidableEq

/-- Appends digits as long as the word has room; every digit left out, and every digit kept,
moves the exponent by the given amounts. -/
def Scaled.absorb (kept leftOut : Int) : Scaled → List Nat → Scaled
  | scaled, [] => scaled
  | scaled, digit :: rest =>
    if scaled.word * 10 + digit < UInt64.size then
      absorb kept leftOut ⟨scaled.word * 10 + digit, scaled.exponent + kept⟩ rest
    else ⟨scaled.word, scaled.exponent + leftOut * (rest.length + 1 : Nat)⟩

/-- Whole digits left out scale the number up; digits after the point scale it down if kept. -/
def Scaled.ofDigits (whole fraction : List Nat) (exponent : Int) : Scaled :=
  let scaled := Scaled.absorb (-1) 0 (Scaled.absorb 0 1 ⟨0, 0⟩ whole) fraction
  { scaled with exponent := scaled.exponent + exponent }

def Scaled.isFinite (scaled : Scaled) : Bool :=
  scaled.word == 0 || scaled.exponent < 0 ||
    (scaled.exponent ≤ 308 &&
      Binary64.round scaled.word * Binary64.round (Nat.pow 10 scaled.exponent.toNat)
        < Binary64.overflow)

end Json

end Constructicon
