import ClusterBench.TestId

/-!
# Command line interfaces

An interface lists the options and arguments of a command; a program may have commands of its own.
Arguments are read from left to right: an option takes its value behind an equals sign or from the
next argument, and after two dashes nothing is an option any more. Reading stops at the first fault
or request for help.
-/

namespace ClusterBench

inductive ValueKind
  | nothing
  | text
  | path
  | word
deriving DecidableEq

structure OptionSpec where
  short : Option Char := none
  long : String
  kind : ValueKind
  help : String := ""
  /-- The value when the option is not given. -/
  fallback : Option String := none
  repeated : Bool := false
  required : Bool := false
  /-- The name of the value in the usage, if it is not that of the option. -/
  valueName : Option String := none
  /-- Another option without which this one is not allowed. -/
  requires : Option String := none

structure ArgumentSpec where
  name : String
  required : Bool

structure Interface where
  about : String
  options : List OptionSpec := []
  arguments : List ArgumentSpec := []

structure Program where
  interface : Interface
  commands : List (String × Interface) := []
  needsCommand : Bool := false

/-- Why nothing is run: the arguments are wrong, or help is asked for, of a command or of all. -/
inductive Stop
  | misuse
  | help (command : Option String)
deriving DecidableEq

/-- What the arguments say: the options with their values in order, and the other arguments. -/
structure Given where
  options : List (String × String) := []
  arguments : List String := []

namespace Given

def has (g : Given) (long : String) : Bool := g.options.any (·.1 == long)

def values (g : Given) (long : String) : List String :=
  (g.options.filter (·.1 == long)).map Prod.snd

def value? (g : Given) (long : String) : Option String := (g.values long).head?

def word? (g : Given) (long : String) : Option Nat :=
  (g.value? long).bind fun text => readNatural? wordBits text.toList

end Given

namespace Interface

variable (i : Interface)

/-- Does an argument look like an option? A single dash does not. -/
def looksLikeOption (argument : String) : Bool :=
  argument.startsWith "-" && argument != "-"

def acceptsValue (kind : ValueKind) (value : String) : Bool :=
  match kind with
  | .nothing => false
  | .text => true
  | .path => !value.isEmpty
  | .word => (readNatural? wordBits value.toList).isSome

/-- Takes an option with its value; only some may be given again. -/
def take (g : Given) (option : OptionSpec) (value : String) : Except Stop Given :=
  if g.has option.long && !option.repeated then .error .misuse
  else .ok { g with options := g.options ++ [(option.long, value)] }

def takeValue (g : Given) (option : OptionSpec) (value : String) : Except Stop Given :=
  if acceptsValue option.kind value then take g option value else .error .misuse

/-- The part of a text behind its first equals sign, if there is one, and the part before it. -/
def splitAtEquals (text : List Char) : List Char × Option (List Char) :=
  match text.dropWhile (· != '=') with
  | [] => (text, none)
  | _ :: value => (text.takeWhile (· != '='), some value)

def findOption (argument : String) : Except Stop (OptionSpec × Option String) :=
  match argument.toList with
  | '-' :: '-' :: name =>
    let (name, value) := splitAtEquals name
    if String.ofList name = "help" then .error (if value.isSome then .misuse else .help none)
    else
      match i.options.find? (·.long == String.ofList name) with
      | some option => .ok (option, value.map String.ofList)
      | none => .error .misuse
  | '-' :: letter :: rest =>
    if letter = 'h' then .error (.help none)
    else
      match i.options.find? (·.short == some letter) with
      | some option =>
        let value := match rest with
          | [] => none
          | '=' :: value => some (String.ofList value)
          | value => some (String.ofList value)
        .ok (option, value)
      | none => .error .misuse
  | _ => .error .misuse

def takeArgument (g : Given) (argument : String) : Except Stop Given :=
  if g.arguments.length < i.arguments.length then
    .ok { g with arguments := g.arguments ++ [argument] }
  else .error .misuse

def complete (g : Given) : Bool :=
  (i.options.all fun option =>
    (!option.required || g.has option.long) &&
      (!g.has option.long || option.requires.all fun other => g.has other)) &&
  (i.arguments.filter (·.required)).length ≤ g.arguments.length

/-- Reads arguments; `pending` is an option that waits for its value. Where there are commands, the
first argument that is no option names one and is left with those behind it. -/
def read (commands : Bool) : Option OptionSpec → Given → List String →
    Except Stop (Given × List String)
  | none, g, [] => .ok (g, [])
  | some _, _, [] => .error .misuse
  | some option, g, argument :: rest => do
    if looksLikeOption argument then .error .misuse
    else read commands none (← takeValue g option argument) rest
  | none, g, argument :: rest => do
    if argument = "--" then return (← rest.foldlM i.takeArgument g, [])
    else if looksLikeOption argument then
      let (option, attached) ← i.findOption argument
      match option.kind, attached with
      | .nothing, none => read commands none (← take g option "") rest
      | .nothing, some _ => .error .misuse
      | _, some value => read commands none (← takeValue g option value) rest
      | _, none => read commands (some option) g rest
    else if commands then return (g, argument :: rest)
    else read commands none (← i.takeArgument g argument) rest

def valueText (option : OptionSpec) : String :=
  let name := option.valueName.getD
    (String.ofList (option.long.toList.map fun c => if c = '-' then '_' else c.toUpper))
  if option.kind = .nothing then "" else s!" <{name}>"

def argumentText (argument : ArgumentSpec) : String :=
  if argument.required then s!"<{argument.name}>" else s!"[{argument.name}]"

def columns (entries : List (String × String)) : List String :=
  let width := entries.foldl (fun width entry => Nat.max width entry.1.length) 0
  entries.map fun (entry, help) =>
    "  " ++ entry ++ String.ofList (List.replicate (width + 2 - entry.length) ' ') ++ help

def optionEntry (option : OptionSpec) : String × String :=
  let letter := match option.short with
    | some c => s!"-{c}, "
    | none => "    "
  let fallback := match option.fallback with
    | some value => s!" [default: {value}]"
    | none => ""
  (letter ++ "--" ++ option.long ++ valueText option, option.help ++ fallback)

def usage (name : String) (commands : List (String × String)) (needsCommand : Bool) : String :=
  let optional := i.options.any (!·.required)
  let required := (i.options.filter (·.required)).map fun o => "--" ++ o.long ++ valueText o
  let line := " ".intercalate (["Usage:", name] ++ (if optional then ["[OPTIONS]"] else []) ++
    required ++ i.arguments.map argumentText ++
    if commands.isEmpty then [] else [if needsCommand then "<COMMAND>" else "[COMMAND]"])
  let block (title : String) (entries : List (String × String)) : List String :=
    if entries.isEmpty then [] else ["", title] ++ columns entries
  let commandEntries := if commands.isEmpty then [] else
    commands ++ [("help", "Print this message or the help of the given subcommand(s)")]
  let lines := [i.about, "", line] ++ block "Commands:" commandEntries ++
    block "Arguments:" (i.arguments.map fun a => (argumentText a, "")) ++
    block "Options:" (i.options.map optionEntry ++ [("-h, --help", "Print help")])
  String.join (lines.map (· ++ "\n"))

end Interface

namespace Program

variable (p : Program)

def readCommand (name : String) (rest : List String) : Except Stop Given :=
  match p.commands.lookup name with
  | some i =>
    match i.read false none {} rest with
    | .ok (g, _) => if i.complete g then .ok g else .error .misuse
    | .error (.help _) => .error (.help (some name))
    | .error .misuse => .error .misuse
  | none =>
    if name = "help" then
      match rest with
      | [] => .error (.help none)
      | [topic] =>
        if (p.commands.lookup topic).isSome then .error (.help (some topic)) else .error .misuse
      | _ => .error .misuse
    else .error .misuse

def read (arguments : List String) : Except Stop (Given × Option (String × Given)) := do
  let (g, rest) ← p.interface.read (!p.commands.isEmpty) none {} arguments
  match rest with
  | [] =>
    if p.interface.complete g && !p.needsCommand then return (g, none) else .error .misuse
  | name :: rest =>
    let given ← p.readCommand name rest
    return (g, some (name, given))

def help (name : String) : Option String → String
  | none =>
    p.interface.usage name (p.commands.map fun c => (c.1, c.2.about)) p.needsCommand
  | some command =>
    match p.commands.lookup command with
    | some i => i.usage s!"{name} {command}" [] false
    | none => ""

end Program

end ClusterBench
