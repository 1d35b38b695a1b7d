import ClusterBench.Binary64.Rounding

/-!
# Reading doubles

A number is an optional sign followed by `inf`, `infinity` or `nan` in any case, or by digits with
an optional point and an optional exponent; at least one digit stands before the exponent, on
either side of the point. The nearest double is taken.
-/

namespace ClusterBench

/-- The value of a digit; other characters count as zero. -/
def digitValue (c : Char) : Nat := if c.isDigit then c.toNat - '0'.toNat else 0

def digitsValue (cs : List Char) : Nat := cs.foldl (fun n c => n * 10 + digitValue c) 0

/-- An optional sign: whether it is a minus, and what follows. -/
def splitSign : List Char → Bool × List Char
  | '-' :: cs => (true, cs)
  | '+' :: cs => (false, cs)
  | cs => (false, cs)

def splitDigits (cs : List Char) : List Char × List Char :=
  (cs.takeWhile Char.isDigit, cs.dropWhile Char.isDigit)

structure Numeral where
  whole : List Char
  decimals : List Char
  exponent : Int
deriving DecidableEq

namespace Numeral

def value (n : Numeral) (negative : Bool) : Binary64 :=
  Binary64.ofDecimal negative (digitsValue (n.whole ++ n.decimals))
    (n.exponent - n.decimals.length)

def readDecimals : List Char → List Char × List Char
  | '.' :: cs => splitDigits cs
  | cs => ([], cs)

def readExponent : List Char → Option Int
  | [] => some 0
  | c :: cs =>
    if c = 'e' ∨ c = 'E' then
      let (negative, cs) := splitSign cs
      let (digits, rest) := splitDigits cs
      if digits.isEmpty || !rest.isEmpty then none
      else some (if negative then -(digitsValue digits : Int) else digitsValue digits)
    else none

def read? (cs : List Char) : Option Numeral :=
  let (whole, cs) := splitDigits cs
  let (decimals, cs) := readDecimals cs
  if whole.isEmpty && decimals.isEmpty then none
  else (readExponent cs).map fun exponent => ⟨whole, decimals, exponent⟩

end Numeral

namespace Binary64

def readName? (negative : Bool) (cs : List Char) : Option Binary64 :=
  let name := String.ofList (cs.map Char.toLower)
  if name = "nan" then some (notANumber negative)
  else if name = "inf" ∨ name = "infinity" then some (infinity negative)
  else none

def readChars? (cs : List Char) : Option Binary64 :=
  let (negative, cs) := splitSign cs
  match Numeral.read? cs with
  | some n => some (n.value negative)
  | none => readName? negative cs

def read? (text : String) : Option Binary64 := readChars? text.toList

end Binary64

end ClusterBench
