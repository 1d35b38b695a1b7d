/-!
# Systems under test and testbeds
-/

namespace ClusterBench

inductive DataStore
  | kawkab
  | btrdb
deriving DecidableEq

namespace DataStore

def name : DataStore → String
  | kawkab => "Kawkab"
  | btrdb => "BTrDB"

/-- How configurations and results spell the system. -/
def label : DataStore → String
  | kawkab => "Kawkab"
  | btrdb => "Btrdb"

def labels : List (String × DataStore) := [kawkab, btrdb].map fun s => (s.label, s)

def dirName : DataStore → String
  | kawkab => "kawkab"
  | btrdb => "btrdb"

end DataStore

/-- Where tests run: on lab machines that share a home directory, on rented machines, or with all
hosts on this machine. -/
inductive Testbed
  | cluster
  | ec2
  | localhost
deriving DecidableEq

namespace Testbed

def label : Testbed → String
  | cluster => "Cluster"
  | ec2 => "Ec2"
  | localhost => "Local"

def labels : List (String × Testbed) := [cluster, ec2, localhost].map fun t => (t.label, t)

def isEc2 (t : Testbed) : Bool := t == ec2

/-- A command that prints something while a process of that name is alive. -/
def pollCommand (t : Testbed) (process : String) : String :=
  if t.isEc2 then s!"pgrep -xl {process}" else s!"pgrep -fl {process} | grep java"

end Testbed

end ClusterBench
