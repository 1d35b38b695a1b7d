import ClusterBench.Binary64.Decimal
import ClusterBench.Failure
import ClusterBench.DataStore
import ClusterBench.Text.Blank

/-!
# Test ids

A test id names one combination of parameters. Its text is the name of a results directory: a free
prefix and tagged numbers joined by dashes, the inter-arrival time last. Since the prefix may hold
dashes, and tags of its own, reading takes the fields from the end.
-/

namespace ClusterBench

structure TestId where
  system : DataStore
  /-- Holds the type of the test too, as in `rw-kw48`. -/
  prefixText : String
  /-- The clients of all machines together. -/
  numClients : Nat
  /-- Written for BTrDB only; zero when read for the other system. -/
  clientsPerMachine : Nat
  batchSize : Nat
  recordSize : Nat
  filesPerClient : Nat
  writeRatio : Nat
  /-- The time between two requests of a client. -/
  iat : Binary64
deriving DecidableEq

/-- A natural number below `2 ^ bits`: an optional plus and at least one digit. -/
def readNatural? (bits : Nat) (cs : List Char) : Option Nat :=
  let digits := match cs with
    | '+' :: cs => cs
    | cs => cs
  if !digits.isEmpty && digits.all Char.isDigit && digitsValue digits < 2 ^ bits then
    some (digitsValue digits)
  else none

/-- Splits at the last place where `pattern` occurs. -/
def splitLast? (pattern : List Char) : List Char → Option (List Char × List Char)
  | [] => none
  | c :: cs =>
    match splitLast? pattern cs with
    | some (before, after) => some (c :: before, after)
    | none =>
      if pattern.isPrefixOf (c :: cs) then some ([], (c :: cs).drop pattern.length) else none

namespace TestId

/-- The inter-arrival time as the id shows it: six significant digits, or two decimals. -/
def iatText (id : TestId) : String :=
  match id.system with
  | .kawkab => id.iat.general
  | .btrdb => id.iat.fixed 2

def perMachineText (id : TestId) : String :=
  match id.system with
  | .kawkab => ""
  | .btrdb => s!"-cpm{id.clientsPerMachine}"

def text (id : TestId) : String :=
  s!"{id.prefixText}-nc{id.numClients}" ++ id.perMachineText ++
    s!"-bs{id.batchSize}-rs{id.recordSize}-nf{id.filesPerClient}-wr{id.writeRatio}-iat" ++
    id.iatText

/-- Takes the field behind `tag` from the parts of an id, the last part first. -/
def takeField (id tag : String) : List (List Char) → Except Failure (Nat × List (List Char))
  | [] => .error (.refuse (.idWithoutField id tag))
  | part :: parts =>
    if tag.toList.isPrefixOf part then
      match readNatural? wordBits (part.drop tag.length) with
      | some n => .ok (n, parts)
      | none => .error ((Failure.of .integer).within s!"parse {tag} of test id {quoted id}")
    else .error (.refuse (.idWithOtherField id tag (String.ofList part)))

/-- Does the next part tell the clients of a machine? -/
def showsPerMachine : List (List Char) → Bool
  | part :: _ => "cpm".toList.isPrefixOf part
  | [] => false

def read (id : String) : Except Failure TestId :=
  match splitLast? "-iat".toList id.toList with
  | none => .error (.refuse (.idWithoutIat id))
  | some (rest, iatChars) =>
    match Binary64.readChars? iatChars with
    | none => .error ((Failure.of .real).within s!"parse iat of test id {quoted id}")
    | some iat => do
      let parts := (splitWhere (· == '-') rest).reverse
      let (writeRatio, parts) ← takeField id "wr" parts
      let (filesPerClient, parts) ← takeField id "nf" parts
      let (recordSize, parts) ← takeField id "rs" parts
      let (batchSize, parts) ← takeField id "bs" parts
      let (system, clientsPerMachine, parts) ←
        if showsPerMachine parts then do
          let (clientsPerMachine, parts) ← takeField id "cpm" parts
          pure (DataStore.btrdb, clientsPerMachine, parts)
        else pure (DataStore.kawkab, 0, parts)
      let (numClients, parts) ← takeField id "nc" parts
      if parts.isEmpty then .error (.refuse (.idWithoutPrefix id))
      else
        let prefixText := String.ofList (['-'].intercalate parts.reverse)
        return { system, prefixText, numClients, clientsPerMachine, batchSize, recordSize,
                 filesPerClient, writeRatio, iat }

end TestId

end ClusterBench
