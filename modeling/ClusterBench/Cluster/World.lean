import ClusterBench.Files

/-!
# Running commands

A shell answers command lines; it may refuse to start one, and it may change files. `World` is what
a run can see and change: the shell, the files, the log, the time spent waiting and the progress of
a batch. A run that fails leaves the world as it is at that moment.
-/

namespace ClusterBench

structure Reply where
  stdout : List UInt8
  stderr : List UInt8

/-- The answer to a command, or nothing if it cannot be started. -/
class Shell (σ : Type) where
  execute : σ → Files → String → Option (Reply × σ × Files)

/-- What a command has written, as text without blanks around it. -/
structure Output where
  stdout : String
  stderr : String
deriving DecidableEq

def Output.ofReply (r : Reply) : Output :=
  ⟨trimBlanks (Utf8.decodeLossy r.stdout), trimBlanks (Utf8.decodeLossy r.stderr)⟩

inductive LogLine
  /-- A command line that is handed to the shell. -/
  | command (line : String)
  | info (text : String)
  | warn (text : String)
deriving DecidableEq

structure Progress where
  length : Nat
  position : Nat
  finished : Bool
deriving DecidableEq

namespace Progress

def start (length : Nat) : Progress := ⟨length, 0, false⟩

def advance (p : Progress) : Progress := { p with position := p.position + 1 }

def finish (p : Progress) : Progress := { p with position := p.length, finished := true }

/-- Text for the log passes by the progress; it is always taken whole. -/
def write (p : Progress) (bytes : List UInt8) : Nat × Progress := (bytes.length, p)

end Progress

structure World (σ : Type) where
  shell : σ
  files : Files
  log : List LogLine
  /-- Seconds spent waiting. -/
  slept : Nat
  progress : Progress

def World.start {σ : Type} (shell : σ) (files : Files) (tests : Nat) : World σ :=
  ⟨shell, files, [], 0, .start tests⟩

abbrev Run (σ α : Type) := ExceptT Failure (StateM (World σ)) α

namespace Run

variable {σ α : Type}

def lift (result : Except Failure α) : Run σ α := fun world => (result, world)

def within (context : String) (run : Run σ α) : Run σ α := fun world =>
  let (result, world) := run world
  (inContext context result, world)

/-- Runs and keeps a failure as a result. -/
def attempt (run : Run σ α) : Run σ (Except Failure α) := fun world =>
  let (result, world) := run world
  (.ok result, world)

def log (line : LogLine) : Run σ Unit := fun world =>
  (.ok (), { world with log := world.log ++ [line] })

def info (text : String) : Run σ Unit := log (.info text)

def warn (text : String) : Run σ Unit := log (.warn text)

def sleep (seconds : Nat) : Run σ Unit := fun world =>
  (.ok (), { world with slept := world.slept + seconds })

def pause (seconds : Nat) : Run σ Unit := do
  if seconds ≠ 0 then
    info s!"waiting {seconds}s"
    sleep seconds

def progress (f : Progress → Progress) : Run σ Unit := fun world =>
  (.ok (), { world with progress := f world.progress })

def advance : Run σ Unit := progress Progress.advance

def filing (action : Filing α) : Run σ α := fun world =>
  let (result, files) := action world.files
  (result, { world with files })

def execute [Shell σ] (line : String) : Run σ Output := do
  log (.command line)
  within "spawn command" fun world =>
    match Shell.execute world.shell world.files line with
    | some (reply, shell, files) => (.ok (.ofReply reply), { world with shell, files })
    | none => (.error (.of (.file .notFound)), world)

end Run

end ClusterBench
