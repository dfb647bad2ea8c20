import Constructicon.Number
import Constructicon.Toml
import Constructicon.Text.Hex

/-! The spellings of numbers, truth values and moments. Digits may be grouped by single
underscores; whole numbers have 64 bits, and a fraction too large for a floating point value is
refused unless it is negative. -/
namespace Constructicon.Toml

def isDigit (c : Char) : Bool := '0' ≤ c && c ≤ '9'

/-- The digits of a group, which neither begins nor ends with an underscore nor has two in a
row. -/
def ungroup (ok : Char → Bool) : List Char → Option (List Char)
  | [] => none
  | [c] => if ok c then some [c] else none
  | c :: '_' :: rest => if ok c then (ungroup ok rest).map (c :: ·) else none
  | c :: rest => if ok c then (ungroup ok rest).map (c :: ·) else none

def valueIn (base : Nat) (digits : List Char) : Option Nat :=
  digits.foldlM (fun n c => do
    let digit ← Text.hexValue? c
    if digit < base then some (base * n + digit) else none) 0

def wholePart (spelling : List Char) : Option (List Char) := do
  let digits ← ungroup isDigit spelling
  if digits.head? = some '0' ∧ digits.length > 1 then none else some digits

def unsigned (spelling : List Char) : Bool × List Char :=
  match spelling with
  | '-' :: rest => (true, rest)
  | '+' :: rest => (false, rest)
  | _ => (false, spelling)

def integer? (spelling : List Char) : Option Int :=
  let inBase (base : Nat) (digits : List Char) : Option Int := do
    let value ← valueIn base (← ungroup (fun c => (Text.hexValue? c).isSome) digits)
    if value < UInt64.size / 2 then some value else none
  match spelling with
  | '0' :: 'x' :: digits => inBase 16 digits
  | '0' :: 'o' :: digits => inBase 8 digits
  | '0' :: 'b' :: digits => inBase 2 digits
  | _ => do
    let (negative, digits) := unsigned spelling
    let value ← valueIn 10 (← wholePart digits)
    if negative then (if value ≤ UInt64.size / 2 then some (-(value : Int)) else none)
    else if value < UInt64.size / 2 then some value else none

/-- Whether digits times a power of ten stay below the least value that rounds to infinity. -/
def staysFinite (digits : List Char) (power : Int) : Bool :=
  let value := (valueIn 10 digits).getD 0
  if value = 0 ∨ digits.length + power ≤ 300 then true
  else if digits.length + power > 400 + digits.length then false
  else if power ≤ 0 then value < Binary64.overflow * Nat.pow 10 (-power).toNat
  else value * Nat.pow 10 power.toNat < Binary64.overflow

def power? : List Char → Option Int
  | [] => some 0
  | mark :: exponent =>
    if mark = 'e' ∨ mark = 'E' then do
      let (negative, digits) := unsigned exponent
      let size ← valueIn 10 (← ungroup isDigit digits)
      return if negative then -(size : Int) else size
    else none

def isFloat (spelling : List Char) : Bool :=
  let (negative, digits) := unsigned spelling
  if digits = "inf".toList ∨ digits = "nan".toList then true
  else
    let isGrouped (c : Char) : Bool := isDigit c || c = '_'
    let (whole, tail) := digits.span isGrouped
    let (fraction, exponent) := match tail with
      | '.' :: after =>
        let (fraction, rest) := after.span isGrouped
        (ungroup isDigit fraction, rest)
      | _ => (some [], tail)
    match wholePart whole, fraction, power? exponent with
    | some whole, some fraction, some power =>
      tail ≠ [] ∧ (negative ∨ staysFinite (whole ++ fraction) (power - fraction.length))
    | _, _, _ => false

def fixed (count : Nat) (digits : List Char) : Option Nat :=
  if digits.length = count ∧ digits.all isDigit then valueIn 10 digits else none

def daysIn (year month : Nat) : Nat :=
  if month = 2 then
    (if year % 4 = 0 ∧ (year % 100 ≠ 0 ∨ year % 400 = 0) then 29 else 28)
  else if month = 4 ∨ month = 6 ∨ month = 9 ∨ month = 11 then 30
  else 31

def isDate : List Char → Bool
  | [a, b, c, d, '-', e, f, '-', g, h] =>
    match fixed 4 [a, b, c, d], fixed 2 [e, f], fixed 2 [g, h] with
    | some year, some month, some day =>
      1 ≤ month ∧ month ≤ 12 ∧ 1 ≤ day ∧ day ≤ daysIn year month
    | _, _, _ => false
  | _ => false

def isHourMinute : List Char → Bool
  | [a, b, ':', c, d] =>
    match fixed 2 [a, b], fixed 2 [c, d] with
    | some hour, some minute => hour ≤ 23 ∧ minute ≤ 59
    | _, _ => false
  | _ => false

def isTime (spelling : List Char) : Bool :=
  let (clock, fraction) := spelling.span (· ≠ '.')
  let second := match clock.drop 5 with
    | [':', a, b] => fixed 2 [a, b]
    | _ => none
  isHourMinute (clock.take 5) ∧ second.any (· ≤ 60) ∧
    (fraction = [] ∨ (fraction.length > 1 ∧ fraction.tail.all isDigit))

/-- A time of day, after which a distance from universal time may stand. -/
def isClock (spelling : List Char) : Bool :=
  let (time, offset) := spelling.span fun c => isDigit c || c = ':' || c = '.'
  isTime time &&
    match offset with
    | [] | ['Z'] | ['z'] => true
    | sign :: distance => (sign = '+' || sign = '-') && isHourMinute distance

def isMoment (spelling : List Char) : Bool :=
  isTime spelling || isDate spelling ||
    (isDate (spelling.take 10) &&
      match spelling.drop 10 with
      | delimiter :: clock => (delimiter = 'T' || delimiter = 't') && isClock clock
      | [] => false)

def scalar? (spelling : List Char) : Option Toml :=
  if spelling = "true".toList then some (.boolean true)
  else if spelling = "false".toList then some (.boolean false)
  else if isMoment spelling then some .moment
  else
    match integer? spelling with
    | some value => some (.integer value)
    | none => if isFloat spelling then some .float else none

end Constructicon.Toml
