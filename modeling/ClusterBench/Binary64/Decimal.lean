import ClusterBench.Binary64.Rounding

/-!
# Decimal numerals of doubles

A `Decimal` is `digits * 10 ^ exponent`. A finite double is written with a fixed number of places,
with a fixed number of significant digits, or with the fewest digits that read back as the same
double. The first two round the exact value once, a tie going to the even neighbour.
-/

namespace ClusterBench

def digitCount (n : Nat) : Nat := if h : n = 0 then 0 else 1 + digitCount (n / 10)
termination_by n
decreasing_by omega

def digitsText (n : Nat) : String := String.ofList (Nat.toDigits 10 n)

def padZeros (width : Nat) (text : String) : String :=
  String.ofList (List.replicate (width - text.length) '0') ++ text

def placesText (places n : Nat) : String :=
  let whole := digitsText (n / 10 ^ places)
  if places = 0 then whole else whole ++ "." ++ padZeros places (digitsText (n % 10 ^ places))

def trimZeros (numeral : String) : String :=
  if numeral.toList.contains '.' then
    let kept := numeral.toList.reverse.dropWhile (· == '0')
    String.ofList (kept.dropWhile (· == '.')).reverse
  else numeral

/-- `digits * 10 ^ exponent` -/
structure Decimal where
  digits : Nat
  exponent : Int
deriving DecidableEq, Repr

namespace Decimal

def normalize (d : Decimal) : Nat → Decimal
  | 0 => d
  | fuel + 1 =>
    if d.digits % 10 = 0 then normalize ⟨d.digits / 10, d.exponent + 1⟩ fuel else d

def leading (d : Decimal) : Int := digitCount d.digits + d.exponent - 1

def positional (d : Decimal) : String :=
  match d.exponent with
  | .ofNat e => digitsText (d.digits * 10 ^ e)
  | .negSucc e => placesText (e + 1) d.digits

def mantissa (d : Decimal) : String := placesText (digitCount d.digits - 1) d.digits

end Decimal

namespace Binary64

def signText (x : Binary64) : String := if x.negative then "-" else ""

def specialText (x : Binary64) : String :=
  if x.isNaN then "NaN" else x.signText ++ "inf"

def scaled (places : Nat) (x : Binary64) : Nat :=
  roundHalfEven (x.units * 10 ^ places) (2 ^ unitBits)

def fixed (places : Nat) (x : Binary64) : String :=
  if x.isFinite then x.signText ++ placesText places (x.scaled places) else x.specialText

def decimalExponent (units : Nat) : Int :=
  if 2 ^ unitBits ≤ units then digitCount (units / 2 ^ unitBits) - 1
  else -(digitCount ((2 ^ unitBits + units - 1) / units - 1) : Int)

/-- A positive magnitude of units as a quotient, in steps of `10 ^ step`. -/
def stepQuotient (units : Nat) : Int → Nat × Nat
  | .ofNat e => (units, 2 ^ unitBits * 10 ^ e)
  | .negSucc e => (units * 10 ^ (e + 1), 2 ^ unitBits)

def significant (count : Nat) (units : Nat) : Decimal :=
  let step := decimalExponent units - count
  let (num, den) := stepQuotient units step
  let digits := roundHalfEven num den
  if digits = 10 ^ (count + 1) then ⟨10 ^ count, step + 1⟩ else ⟨digits, step⟩

/-- The magnitudes that read back as `x`, in quarter units: both ends, and whether the ends read
back as `x` themselves. -/
def readBack (x : Binary64) : Nat × Nat × Bool :=
  let spacing := 2 ^ (x.exponent.val - 1)
  let below := if x.fraction.val = 0 ∧ 1 < x.exponent.val then spacing else 2 * spacing
  (4 * x.units - below, 4 * x.units + 2 * spacing, x.fraction.val % 2 == 0)

def readsBack (x : Binary64) (digits : Nat) (step : Int) : Bool :=
  let (low, high, ends) := x.readBack
  let (value, scale) := match step with
    | .ofNat e => (4 * digits * 10 ^ e * 2 ^ unitBits, 1)
    | .negSucc e => (4 * digits * 2 ^ unitBits, 10 ^ (e + 1))
  if ends then low * scale ≤ value && value ≤ high * scale
  else low * scale < value && value < high * scale

/-- The decimal with `count + 1` digits that reads back as `x` and is nearest to it, if any. -/
def candidate (x : Binary64) (count : Nat) : Option Decimal :=
  let step := decimalExponent x.units - count
  let (num, den) := stepQuotient x.units step
  let below := num / den
  match x.readsBack below step, x.readsBack (below + 1) step with
  | true, true => some ⟨roundHalfEven num den, step⟩
  | true, false => some ⟨below, step⟩
  | false, true => some ⟨below + 1, step⟩
  | false, false => none

/-- The fewest digits that read back as the same magnitude, and of those the nearest. Seventeen
digits always read back. -/
def shortest (x : Binary64) : Decimal :=
  if x.isZero then ⟨0, 0⟩
  else
    match (List.range 17).findSome? x.candidate with
    | some d => d.normalize 400
    | none => significant 16 x.units

/-- The fewest digits that read back, written out without an exponent; whole numbers have no
point. -/
def plain (x : Binary64) : String :=
  if x.isFinite then x.signText ++ x.shortest.positional else x.specialText

/-- Six significant digits at most: written out for exponents from -4 to 5, otherwise with a
signed exponent of at least two digits; zeros at the end are dropped and zero has no sign. -/
def general (x : Binary64) : String :=
  if x.isZero then "0"
  else if x.isFinite then
    let d := significant 5 x.units
    let exponent := d.leading
    if exponent < -4 || 6 ≤ exponent then
      x.signText ++ trimZeros d.mantissa ++ "e" ++ (if exponent < 0 then "-" else "+") ++
        padZeros 2 (digitsText exponent.natAbs)
    else trimZeros (x.fixed (5 - exponent).toNat)
  else x.specialText.toLower

end Binary64

end ClusterBench
