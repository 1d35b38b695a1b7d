import ClusterBench.Binary64.Decimal

/-!
# Directories and files of a test run

Every host has the same scratch directories. Each process writes its output to a file of its own,
named for its kind and its number.
-/

namespace ClusterBench

structure RunDirs where
  run : String
deriving DecidableEq

inductive RunProcess
  | backend (index : Nat)
  | server (index : Nat)
  | client (id : Nat)
deriving DecidableEq

namespace RunProcess

/-- The number has at least two digits. -/
def name : RunProcess → String
  | backend index => "backend_" ++ padZeros 2 (digitsText index)
  | server index => "server_" ++ padZeros 2 (digitsText index)
  | client id => "client_" ++ padZeros 2 (digitsText id)

end RunProcess

namespace RunDirs

variable (dirs : RunDirs)

def results : String := dirs.run ++ "/results"

def histograms : String := dirs.run ++ "/histograms"

def clients : String := dirs.run ++ "/clients"

def servers : String := dirs.run ++ "/servers"

def out : String := dirs.run ++ "/out"

def all : List String :=
  [dirs.run, dirs.results, dirs.histograms, dirs.clients, dirs.servers, dirs.out]

def outputDir : RunProcess → String
  | .backend _ => dirs.out
  | .server _ => dirs.servers
  | .client _ => dirs.clients

def outputFile (p : RunProcess) : String := dirs.outputDir p ++ "/" ++ p.name ++ ".out"

end RunDirs

end ClusterBench
