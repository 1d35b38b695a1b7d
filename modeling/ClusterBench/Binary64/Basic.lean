/-!
# Double precision numbers

A binary64 number is a sign, an eleven bit exponent and a fifty-two bit fraction. Every finite
magnitude is a whole number of `units`, the least positive magnitude `2 ^ (-1074)`, so that all
reading, printing and arithmetic below is exact integer arithmetic followed by one rounding.
-/

namespace ClusterBench

/-- Powers of natural numbers are those of the core library, whatever else is imported. -/
scoped instance (priority := 2000) powNat : Pow Nat Nat := instPowNat

abbrev wordBits : Nat := 64

structure Binary64 where
  negative : Bool
  exponent : Fin 2048
  fraction : Fin 4503599627370496
deriving DecidableEq

namespace Binary64

abbrev fractionBits : Nat := 52

abbrev signBit : Nat := 63

/-- One is `2 ^ unitBits` units. -/
abbrev unitBits : Nat := 1074

def signedZero (negative : Bool) : Binary64 := ⟨negative, 0, 0⟩

def zero : Binary64 := signedZero false

/-- The number with the given fields; what does not fit a field is ignored. -/
def ofFields (negative : Bool) (exponent fraction : Nat) : Binary64 :=
  ⟨negative, Fin.ofNat 2048 exponent, Fin.ofNat 4503599627370496 fraction⟩

def infinity (negative : Bool) : Binary64 := ⟨negative, 2047, 0⟩

def notANumber (negative : Bool) : Binary64 := ⟨negative, 2047, 2251799813685248⟩

def nan : Binary64 := notANumber false

instance : Inhabited Binary64 := ⟨zero⟩

def isFinite (x : Binary64) : Bool := x.exponent.val != 2047

def isNaN (x : Binary64) : Bool := x.exponent.val == 2047 && x.fraction.val != 0

def isInfinite (x : Binary64) : Bool := x.exponent.val == 2047 && x.fraction.val == 0

/-- The magnitude of a finite number, in units of `2 ^ (-1074)`. -/
def units (x : Binary64) : Nat :=
  if x.exponent.val = 0 then x.fraction.val
  else (2 ^ fractionBits + x.fraction.val) * 2 ^ (x.exponent.val - 1)

/-- The value of a finite number, in units of `2 ^ (-1074)`; the sign of zero is lost. -/
def signedUnits (x : Binary64) : Int :=
  if x.negative then -(x.units : Int) else x.units

def isZero (x : Binary64) : Bool := x.exponent.val == 0 && x.fraction.val == 0

def neg (x : Binary64) : Binary64 := { x with negative := !x.negative }

instance : Neg Binary64 := ⟨neg⟩

def toBits (x : Binary64) : Nat :=
  (if x.negative then 2 ^ signBit else 0) + x.exponent.val * 2 ^ fractionBits + x.fraction.val

def ofBits (bits : Nat) : Binary64 :=
  ofFields (bits / 2 ^ signBit % 2 == 1) (bits / 2 ^ fractionBits) bits

theorem ofBits_toBits (x : Binary64) : ofBits x.toBits = x := by
  obtain ⟨s, e, f⟩ := x
  have he := e.isLt
  have hf := f.isLt
  cases s <;> simp [ofBits, ofFields, toBits, Fin.ext_iff, fractionBits, signBit] <;> omega

end Binary64

end ClusterBench
