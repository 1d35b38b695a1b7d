import ClusterBench.Cluster.Script
import ClusterBench.CommandLine.Programs

/-!
# Rehearsals

The first argument names a program, which reads the others and works on the files below the
working directory. Its commands are rehearsed: each one is listed on the standard error stream with
the rest of the log, and answered by silence.
-/

namespace ClusterBench.CommandLine

def program? : String → Option (String → List String → World Script → Outcome × World Script)
  | "batch" => some batch
  | "targets" => some targets
  | "dump" => some dump
  | _ => none

def logText : LogLine → String
  | .command line => "$ " ++ line
  | .info text => text
  | .warn text => "warning: " ++ text

/-- Snapshots stay out of a rehearsal: results are read afresh. -/
def isSnapshot (path : String) : Bool := path.endsWith ".bincode.gz"

def readTree : IO Files := do
  let root ← IO.currentDir
  let mut files := Files.empty
  for path in ← root.walkDir do
    let name := String.ofList (path.toString.toList.drop (root.toString.length + 1))
    if ← path.isDir then
      files := (files.createDirectories name).toOption.getD files
    else if !isSnapshot name then
      let bytes ← IO.FS.readBinFile path
      files := (files.place name (.plain bytes.toList)).toOption.getD files
  return files

def writeTree (before after : Files) : IO Unit := do
  let root ← IO.currentDir
  for (location, entry) in after.entries do
    if before.entry? location != some entry then
      let path := root / "/".intercalate location.reverse
      match entry with
      | .directory => IO.FS.createDirAll path
      | .plain bytes =>
        IO.FS.createDirAll (path.parent.getD root)
        IO.FS.writeBinFile path ⟨bytes.toArray⟩
      | .packed _ => pure ()

end ClusterBench.CommandLine

open ClusterBench in
def main : List String → IO UInt32
  | [] => return 2
  | name :: arguments => do
    match CommandLine.program? name with
    | none => return 2
    | some program =>
      let files ← CommandLine.readTree
      let (outcome, world) := program name arguments (.start ⟨[], true⟩ files 0)
      for line in world.log do
        IO.eprintln (CommandLine.logText line)
      CommandLine.writeTree files world.files
      IO.print outcome.printed
      outcome.complaints.forM fun text => IO.eprintln text
      return UInt32.ofNat outcome.status
