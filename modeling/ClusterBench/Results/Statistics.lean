import ClusterBench.Binary64.Arithmetic

/-!
# Means and confidence intervals

The mean of a sample with the half width of its 95% confidence interval, by Student's distribution.
Sums go from left to right and start at the zero that changes no sum, negative zero.
-/

namespace ClusterBench

structure MeanConf (α : Type) where
  mean : α
  ci : α
deriving DecidableEq

namespace Sample

variable {α : Type} [Arithmetic α]

def sum (values : List α) : α := values.foldl (· + ·) (-((0 : Nat) : α))

def mean (values : List α) : α := sum values / (values.length : α)

/-- The unbiased variance around `center`. -/
def variance (center : α) (values : List α) : α :=
  sum (values.map fun v => (v - center) * (v - center)) / ((values.length : α) - ((1 : Nat) : α))

/-- Two-sided critical values for one to thirty degrees of freedom. -/
def smallCriticalValues : List α :=
  [12.706, 4.303, 3.182, 2.776, 2.571, 2.447, 2.365, 2.306, 2.262, 2.228,
   2.201, 2.179, 2.160, 2.145, 2.131, 2.120, 2.110, 2.101, 2.093, 2.086,
   2.080, 2.074, 2.069, 2.064, 2.060, 2.056, 2.052, 2.048, 2.045, 2.042]

/-- The critical value of the closest degrees of freedom in the table that are not above. -/
def criticalValue (freedom : Nat) : α :=
  if freedom = 0 then ((0 : Nat) : α)
  else if freedom ≤ 30 then smallCriticalValues.getD (freedom - 1) 2.042
  else if 120 < freedom then 1.960
  else if 120 ≤ freedom then 1.980
  else if 60 ≤ freedom then 2.000
  else if 40 ≤ freedom then 2.021
  else 2.042

/-- No values give zeros, and a single value has no interval. -/
def meanConf [SquareRoot α] (values : List α) : MeanConf α :=
  match values with
  | [] => ⟨((0 : Nat) : α), ((0 : Nat) : α)⟩
  | [v] => ⟨v, ((0 : Nat) : α)⟩
  | values =>
    let center := mean values
    let spread := SquareRoot.sqrt (variance center values)
    ⟨center, criticalValue (values.length - 1) * spread /
      SquareRoot.sqrt (values.length : α)⟩

end Sample

def MeanConf.scaled {α : Type} [Arithmetic α] (m : MeanConf α) (divisor : α) : MeanConf α :=
  ⟨m.mean / divisor, m.ci / divisor⟩

end ClusterBench
