import ClusterBench.Results.Summary

/-!
# Labels and styles of charts

Styles are taken in turn, from the first one again after the last.
-/

namespace ClusterBench.Style

def latencyName : Latency → String
  | .mean => "Average"
  | .median => "Median"
  | .p95 => "95 perc."
  | .p99 => "99 perc."
  | .max => "Max"

def latencyLabel (l : Latency) : String := s!"{latencyName l} latency (ms)"

def throughputLabel : String := "Records per second (x$10^6$)"

def timeLabel : String := "Time (sec)"

def cdfLabel : String := "CDF"

def inTurn (styles : List String) (index : Nat) : String :=
  styles.getD (index % styles.length) ""

def color : Nat → String := inTurn
  ["#2b8cbe", "#cc4c02", "#fe9929", "#7bccc4", "#052538", "#6C7F63", "#ED3232", "#CC00CC",
   "#008837"]

def grey : Nat → String := inTurn
  ["#555555", "#777777", "#999999", "#aaaaaa", "#bbbbbb", "#cccccc"]

def marker : Nat → String := inTurn ["o", "s", "^", "*", "d", "v", "3", "4", "+"]

def lineStyle : Nat → String := inTurn ["-", "--", "-.", ":"]

def hatch : Nat → String := inTurn ["/", "\\", "o", "-", "x", ".", "*"]

end ClusterBench.Style
