import ClusterBench.Binary64.Arithmetic
import ClusterBench.Binary64.Reading

/-!
# Numbers in JSON

A numeral without decimals and exponent that fits sixty-four bits is an integer. Any other one is a
double: as many digits as fit sixty-four bits are rounded to a double, which is scaled by a power of
ten and rounded again. The result need not be the double nearest to the numeral, and a numeral
whose scaling overflows is out of range.
-/

namespace ClusterBench

namespace Binary64

/-- The greatest power of ten that is a double. -/
abbrev decimalMax : Nat := 308

/-- `x * 10 ^ exponent` for the double of a sixty-four bit word. A power of ten that no double holds
takes two divisions. -/
def scaledByTen (x : Binary64) : Int → Binary64
  | .ofNat e =>
    if e ≤ decimalMax then x * ofNat (10 ^ e)
    else if x.isZero then x
    else infinity false
  | .negSucc e =>
    if e < decimalMax then x / ofNat (10 ^ (e + 1))
    else if e < 2 * decimalMax then x / ofNat (10 ^ decimalMax) / ofNat (10 ^ (e + 1 - decimalMax))
    else zero

end Binary64

namespace Json

/-- Appends digits to `n` as long as the result fits sixty-four bits, and gives back the others. -/
def appendDigits (n : Nat) : List Char → Nat × List Char
  | [] => (n, [])
  | c :: cs =>
    let next := n * 10 + digitValue c
    if next < 2 ^ wordBits then appendDigits next cs else (n, c :: cs)

structure Number where
  negative : Bool
  numeral : Numeral
  point : Bool
  power : Bool
deriving DecidableEq

namespace Number

/-- The value of a numeral without decimals and exponent, unless it is a negative zero or does not
fit sixty-four bits: those are read as doubles. -/
def integer? (n : Number) : Option Int :=
  if n.point || n.power then none
  else
    let magnitude := digitsValue n.numeral.whole
    if n.negative then
      if magnitude = 0 ∨ 2 ^ (wordBits - 1) < magnitude then none else some (-magnitude)
    else if magnitude < 2 ^ wordBits then some magnitude else none

/-- The leading digits and the exponent that they are scaled with: whole digits that are left out
count as zeros. -/
def leading (n : Number) : Nat × Int :=
  let (whole, zeros) := appendDigits 0 n.numeral.whole
  let (digits, unread) := appendDigits whole n.numeral.decimals
  (digits, n.numeral.exponent + zeros.length - (n.numeral.decimals.length - unread.length : Nat))

def real (n : Number) : Binary64 :=
  let (digits, exponent) := n.leading
  let magnitude := (Binary64.ofNat digits).scaledByTen exponent
  if n.negative then -magnitude else magnitude

/-- A numeral beyond the greatest double is not read. -/
def inRange (n : Number) : Bool := n.real.isFinite

end Number

end Json

end ClusterBench
