import ClusterBench.Binary64.Basic

/-!
# Rounding a quotient to the nearest double

`roundHalfEven` is the nearest integer of a quotient, a tie going to the even neighbour.
`ofQuotient` gives the double nearest to a quotient of units: the quotient is cut to fifty-three
significant bits, or to whole units where that is coarser, and too large a result is infinite.
-/

namespace ClusterBench

/-- The integer nearest to `num / den`; a tie goes to the even neighbour. -/
def roundHalfEven (num den : Nat) : Nat :=
  let q := num / den
  let twice := 2 * (num % den)
  if twice < den then q
  else if den < twice then q + 1
  else if q % 2 = 0 then q else q + 1

/-- The integer nearest to `num / den`; a tie goes up. -/
def roundHalfUp (num den : Nat) : Nat := (2 * num + den) / (2 * den)

namespace Binary64

/-- The double with a magnitude of `units` units, if the fifty-three leading bits hold it. -/
def ofUnits (negative : Bool) (units : Nat) : Binary64 :=
  if units < 2 ^ fractionBits then ofFields negative 0 units
  else
    let shift := units.log2 - fractionBits
    if shift + 1 < 2047 then ofFields negative (shift + 1) (units / 2 ^ shift)
    else infinity negative

/-- The number of low bits that a magnitude of `units` whole units has to give up. -/
def droppedBits (units : Nat) : Nat := units.log2 - fractionBits

/-- The double nearest to `num / den` units. -/
def ofQuotient (negative : Bool) (num den : Nat) : Binary64 :=
  let dropped := droppedBits (num / den)
  ofUnits negative (roundHalfEven num (den * 2 ^ dropped) * 2 ^ dropped)

def ofFraction (negative : Bool) (num den : Nat) : Binary64 :=
  ofQuotient negative (num * 2 ^ unitBits) den

def ofNat (n : Nat) : Binary64 := ofFraction false n 1

/-- The double nearest to `digits * 10 ^ exponent`. Exponents out of the range of doubles are not
expanded. -/
def ofDecimal (negative : Bool) (digits : Nat) (exponent : Int) : Binary64 :=
  if digits = 0 then signedZero negative
  else
    let magnitude : Int := (digits.log2 : Int) * 30103 / 100000 + exponent
    if 310 < magnitude then infinity negative
    else if magnitude < -330 then signedZero negative
    else match exponent with
      | .ofNat e => ofFraction negative (digits * 10 ^ e) 1
      | .negSucc e => ofFraction negative digits (10 ^ (e + 1))

instance : OfScientific Binary64 where
  ofScientific digits negativeExponent exponent :=
    ofDecimal false digits (if negativeExponent then -(exponent : Int) else exponent)

instance : NatCast Binary64 := ⟨ofNat⟩

end Binary64

end ClusterBench
