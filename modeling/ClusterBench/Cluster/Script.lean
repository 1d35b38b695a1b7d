import ClusterBench.Cluster.World

/-!
# Scripted shells

For rehearsals, a script answers commands without running them: the first rule whose pattern occurs
in the command line and that is not used up tells what the command writes. No rule means silence.
-/

namespace ClusterBench

structure ScriptRule where
  pattern : String
  reply : Reply
  /-- How often the rule can still be used; without a number, always. -/
  uses : Option Nat

structure Script where
  rules : List ScriptRule
  /-- Can commands be started at all? -/
  working : Bool

namespace Script

def occurs (pattern : List Char) : List Char → Bool
  | [] => pattern.isEmpty
  | c :: cs => pattern.isPrefixOf (c :: cs) || occurs pattern cs

def ScriptRule.applies (rule : ScriptRule) (line : List Char) : Bool :=
  rule.uses != some 0 && occurs rule.pattern.toList line

/-- The reply of the first rule that applies, and the rules behind it used once less. -/
def answer (line : List Char) : List ScriptRule → Reply × List ScriptRule
  | [] => (⟨[], []⟩, [])
  | rule :: rules =>
    if ScriptRule.applies rule line then
      (rule.reply, { rule with uses := rule.uses.map (· - 1) } :: rules)
    else
      let (reply, rules) := answer line rules
      (reply, rule :: rules)

instance : Shell Script where
  execute script files line :=
    if script.working then
      let (reply, rules) := answer line.toList script.rules
      some (reply, { script with rules }, files)
    else none

end Script

end ClusterBench
