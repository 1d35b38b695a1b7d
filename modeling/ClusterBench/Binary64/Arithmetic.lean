import ClusterBench.Binary64.Rounding

/-!
# Arithmetic on doubles

Every operation takes the exact result and rounds it once. `Arithmetic` names the operations that
statistics need, so that they can be computed with doubles and reasoned about with exact numbers.
-/

namespace ClusterBench

class Arithmetic (α : Type) extends
    NatCast α, OfScientific α, Add α, Sub α, Mul α, Div α, Neg α, Min α, Max α where
  /-- The result of what has none. -/
  undefined : α
  /-- At most, as a test; nothing compares with what is not a number. -/
  le : α → α → Bool
  /-- The whole part of a number that is not negative. -/
  floor : α → Nat
  /-- The least whole number that is not below a number that is not negative. -/
  ceil : α → Nat

class SquareRoot (α : Type) where
  sqrt : α → α

def squareRootFrom (n guess : Nat) : Nat → Nat
  | 0 => guess
  | fuel + 1 =>
    let next := (guess + n / guess) / 2
    if next < guess then squareRootFrom n next fuel else guess

def squareRoot (n : Nat) : Nat :=
  if n = 0 then 0 else squareRootFrom n (2 ^ (n.log2 / 2 + 1)) (n.log2 + 1)

namespace Binary64

def ofSignedUnits (zeroNegative : Bool) : Int → Binary64
  | .ofNat 0 => signedZero zeroNegative
  | .ofNat n => ofQuotient false n 1
  | .negSucc n => ofQuotient true (n + 1) 1

def add (x y : Binary64) : Binary64 :=
  if x.isNaN || y.isNaN then nan
  else if x.isInfinite then
    if y.isInfinite && x.negative != y.negative then nan else x
  else if y.isInfinite then y
  else ofSignedUnits (x.negative && y.negative) (x.signedUnits + y.signedUnits)

def sub (x y : Binary64) : Binary64 := add x (-y)

def mul (x y : Binary64) : Binary64 :=
  let negative := x.negative != y.negative
  if x.isNaN || y.isNaN then nan
  else if x.isInfinite || y.isInfinite then
    if x.isZero || y.isZero then nan else infinity negative
  else ofQuotient negative (x.units * y.units) (2 ^ unitBits)

def div (x y : Binary64) : Binary64 :=
  let negative := x.negative != y.negative
  if x.isNaN || y.isNaN then nan
  else if x.isInfinite then if y.isInfinite then nan else infinity negative
  else if y.isInfinite then signedZero negative
  else if y.isZero then if x.isZero then nan else infinity negative
  else ofQuotient negative (x.units * 2 ^ unitBits) y.units

/-- A root that is not whole is told apart from a tie by one more bit. -/
def sqrt (x : Binary64) : Binary64 :=
  if x.isNaN then nan
  else if x.isZero then x
  else if x.negative then nan
  else if x.isInfinite then x
  else
    let square := x.units * 2 ^ unitBits
    let root := squareRoot square
    ofQuotient false (2 * root + if root * root = square then 0 else 1) 2

def lt (x y : Binary64) : Bool :=
  if x.isNaN || y.isNaN then false
  else if x.isInfinite then x.negative && !(y.isInfinite && y.negative)
  else if y.isInfinite then !y.negative
  else x.signedUnits < y.signedUnits

def le (x y : Binary64) : Bool :=
  if x.isNaN || y.isNaN then false
  else x.lt y || (x.isInfinite && y.isInfinite && x.negative == y.negative) ||
    (x.isFinite && y.isFinite && x.signedUnits == y.signedUnits)

def min (x y : Binary64) : Binary64 :=
  if x.isNaN then y else if y.lt x then y else x

def max (x y : Binary64) : Binary64 :=
  if x.isNaN then y else if x.lt y then y else x

/-- The greatest whole number that sixty-four bits hold. -/
def wordMax : Nat := 2 ^ wordBits - 1

/-- The whole part of a number that is not negative, at most `wordMax`; zero for others. -/
def floor (x : Binary64) : Nat :=
  if x.isNaN || x.negative then 0
  else if x.isInfinite then wordMax
  else Nat.min (x.units / 2 ^ unitBits) wordMax

/-- The least whole number not below, at most `wordMax`; zero for negative numbers. -/
def ceil (x : Binary64) : Nat :=
  if x.isNaN || x.negative then 0
  else if x.isInfinite then wordMax
  else Nat.min ((x.units + (2 ^ unitBits - 1)) / 2 ^ unitBits) wordMax

def trunc (x : Binary64) : Binary64 :=
  if x.isFinite then ofQuotient x.negative (x.units / 2 ^ unitBits * 2 ^ unitBits) 1 else x

def round (x : Binary64) : Binary64 :=
  if x.isFinite then
    ofQuotient x.negative (roundHalfUp x.units (2 ^ unitBits) * 2 ^ unitBits) 1
  else x

instance : Add Binary64 := ⟨add⟩
instance : Sub Binary64 := ⟨sub⟩
instance : Mul Binary64 := ⟨mul⟩
instance : Div Binary64 := ⟨div⟩
instance : Min Binary64 := ⟨min⟩
instance : Max Binary64 := ⟨max⟩

instance : Arithmetic Binary64 where
  undefined := nan
  le := le
  floor := floor
  ceil := ceil

instance : SquareRoot Binary64 := ⟨sqrt⟩

end Binary64

end ClusterBench
