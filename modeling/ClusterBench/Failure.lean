import ClusterBench.Json.Node
import ClusterBench.Text.Quoted

/-!
# Failures

A failure is a cause and the trail of what was being done, outermost first. The causes that are
rules of this library have a wording; the others come from texts, files and data formats.
-/

namespace ClusterBench

/-- A rule of this library that an input breaks. -/
inductive Refusal
  | idWithoutIat (id : String)
  | idWithoutField (id tag : String)
  | idWithOtherField (id tag found : String)
  | idWithoutPrefix (id : String)
  | keyFileNeeded
  | noServers
  | noClients
  | noClientsPerMachine
  | noClientMachines
  | noCanonical (name : String)
  | noHistogramEntries
  | noLatencyHistogram
  | noThroughputLog
  | unequalBuckets (values counts : Nat)
  | histogramsOfOtherSystem
  | noResults (id file : String)
  | pointWithoutIat (value : Nat) (label : String)
deriving DecidableEq

def Refusal.message : Refusal → String
  | idWithoutIat id => s!"test id {quoted id} has no iat"
  | idWithoutField id tag => s!"test id {quoted id} is missing {tag}"
  | idWithOtherField id tag found =>
    s!"expected {tag} in test id {quoted id}, found {quoted found}"
  | idWithoutPrefix id => s!"test id {quoted id} has no prefix"
  | keyFileNeeded => "ec2 testbed requires a key file"
  | noServers => "at least one server is required"
  | noClients => "at least one client is required"
  | noClientsPerMachine => "clients_per_machine should be positive"
  | noClientMachines => "no client machines"
  | noCanonical name => s!"kawkab results have no {quoted name}"
  | noHistogramEntries => "histograms file has no entries"
  | noLatencyHistogram => "no latency histogram"
  | noThroughputLog => "no throughput log"
  | unequalBuckets values counts => s!"histogram has {values} values but {counts} counts"
  | histogramsOfOtherSystem => "only kawkab runs have latency histograms"
  | noResults id file => s!"no results for {id} in {file}"
  | pointWithoutIat value label => s!"point {value} of {label} has no iat"

inductive FileFault
  | notFound
  | isDirectory
  | notDirectory
  | alreadyExists
  | notText
deriving DecidableEq

inductive TableFault
  | unequalLengths
  | notText
  | notNumbers
deriving DecidableEq

inductive Cause
  | refused (refusal : Refusal)
  | json (fault : Json.Fault)
  | file (fault : FileFault)
  | table (fault : TableFault)
  | integer
  | real
  | snapshot
  /-- Something that the caller has to rule out: an index out of range, a share of nothing. -/
  | broken
deriving DecidableEq

structure Failure where
  trail : List String
  cause : Cause
deriving DecidableEq

namespace Failure

def of (cause : Cause) : Failure := ⟨[], cause⟩

def refuse (refusal : Refusal) : Failure := of (.refused refusal)

def broken : Failure := of .broken

def within (context : String) (f : Failure) : Failure := ⟨context :: f.trail, f.cause⟩

/-- The trail, and behind it the wording of a broken rule. -/
def messages (f : Failure) : List String :=
  match f.cause with
  | .refused refusal => f.trail ++ [refusal.message]
  | _ => f.trail

@[simp] theorem within_trail (context : String) (f : Failure) :
    (f.within context).trail = context :: f.trail := rfl

@[simp] theorem within_cause (context : String) (f : Failure) :
    (f.within context).cause = f.cause := rfl

end Failure

/-- A number that a machine word has to hold. -/
def inWord (n : Nat) : Except Failure Nat := if n < 2 ^ wordBits then .ok n else .error .broken

def inContext {α : Type} (context : String) : Except Failure α → Except Failure α
  | .ok value => .ok value
  | .error f => .error (f.within context)

end ClusterBench
