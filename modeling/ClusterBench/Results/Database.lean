import ClusterBench.Files
import ClusterBench.Results.Summary
import ClusterBench.TestId

/-!
# Results databases

An entry holds all runs of a test as read from one result file, under the text of the test's id.
-/

namespace ClusterBench

structure Entry where
  /-- The text of the test id. -/
  key : String
  testId : TestId
  resFile : String
  runs : List (RunData Binary64)
  summary : Summary Binary64
deriving DecidableEq

abbrev Database := List Entry

structure Search where
  system : DataStore
  prefixText : String
  resFile : Option String := none
  numClients : Option Nat := none
  batchSize : Option Nat := none
  recordSize : Option Nat := none
  writeRatio : Option Nat := none
  filesPerClient : Option Nat := none

/-- Anything matches where nothing is looked for. -/
def matchesFilter {α : Type} [BEq α] (filter : Option α) (value : α) : Bool :=
  match filter with
  | some wanted => wanted == value
  | none => true

def Search.matchesTest (s : Search) (id : TestId) (resFile : String) : Bool :=
  id.system == s.system && id.prefixText == s.prefixText &&
    matchesFilter s.resFile resFile && matchesFilter s.numClients id.numClients &&
    matchesFilter s.batchSize id.batchSize && matchesFilter s.recordSize id.recordSize &&
    matchesFilter s.writeRatio id.writeRatio && matchesFilter s.filesPerClient id.filesPerClient

namespace TestId

def toJson (id : TestId) : Json.Value :=
  .object
    [("system", .text id.system.label), ("prefix", .text id.prefixText),
     ("num_clients", .word id.numClients), ("clients_per_machine", .word id.clientsPerMachine),
     ("batch_size", .word id.batchSize), ("record_size", .word id.recordSize),
     ("files_per_client", .word id.filesPerClient), ("write_ratio", .word id.writeRatio),
     ("iat", .real id.iat)]

open Json.Decoder in
def decode : Json.Decoder TestId :=
  record
    [field "system" .fault (oneOf DataStore.labels) fun x r => { r with system := x },
     field "prefix" .fault Json.Decoder.text fun x r => { r with prefixText := x },
     field "num_clients" .fault word fun x r => { r with numClients := x },
     field "clients_per_machine" .fault word fun x r => { r with clientsPerMachine := x },
     field "batch_size" .fault word fun x r => { r with batchSize := x },
     field "record_size" .fault word fun x r => { r with recordSize := x },
     field "files_per_client" .fault word fun x r => { r with filesPerClient := x },
     field "write_ratio" .fault word fun x r => { r with writeRatio := x },
     field "iat" .fault real fun x r => { r with iat := x }]
    ⟨.kawkab, "", 0, 0, 0, 0, 0, 0, .zero⟩

end TestId

namespace Entry

def ofRuns (id : TestId) (resFile : String) (runs : List (RunData Binary64)) : Entry :=
  ⟨id.text, id, resFile, runs, Summary.ofRuns runs⟩

def toJson (e : Entry) : Json.Value :=
  .object
    [("key", .text e.key), ("test_id", e.testId.toJson), ("res_file", .text e.resFile),
     ("runs", .array (e.runs.map RunData.toJson)), ("summary", e.summary.toJson)]

open Json.Decoder in
/-- Reads an entry as it is dumped; a number that is dumped as null is not read. -/
def decode : Json.Decoder Entry :=
  record
    [field "key" .fault text fun x r => { r with key := x },
     field "test_id" .fault TestId.decode fun x r => { r with testId := x },
     field "res_file" .fault text fun x r => { r with resFile := x },
     field "runs" .fault (list RunData.decode) fun x r => { r with runs := x },
     field "summary" .fault Summary.decode fun x r => { r with summary := x }]
    (ofRuns ⟨.kawkab, "", 0, 0, 0, 0, 0, 0, .zero⟩ "" [])

end Entry

namespace Database

/-- The last entry of a test, from a given result file or from any. -/
def get? (db : Database) (id : TestId) (resFile : Option String) : Option Entry :=
  db.reverse.find? fun e => e.key == id.text && matchesFilter resFile e.resFile

def select (db : Database) (search : Search) : Database :=
  db.filter fun e => search.matchesTest e.testId e.resFile

def toJson (db : Database) : Json.Value := .array (db.map Entry.toJson)

def ofDump (text : String) : Except Json.Fault Database :=
  Json.Decoder.ofText (Json.Decoder.list Entry.decode) text

/-- Writes all entries to `results.json` in a directory, which is created. -/
def dump (db : Database) (directory : String) : Filing Unit := do
  Filing.within s!"create {directory}" (Filing.change fun files =>
    files.createDirectories directory)
  Filing.within "serialize results" (Filing.within "serialize create file"
    (Filing.change fun files =>
      files.write (joinPath directory "results.json") (.plain (Utf8.encode (db.toJson.write 0)))))

end Database

end ClusterBench
