import ClusterBench.Json.Decoder
import ClusterBench.Json.Value
import ClusterBench.Results.Histogram
import ClusterBench.Results.TrailingCommas
import ClusterBench.DataStore

/-!
# Results of one run

The summary that the clients of a run leave: throughputs and latencies. One system writes tokens
that are scanned for pairs of a key and a number, the last one counting; the other writes a JSON
object in which commas may be missing or in excess.
-/

namespace ClusterBench

structure RunData (α : Type) where
  opsTput : α
  dataTput : α
  recordsTput : α
  meanLatency : α
  medianLatency : α
  p95Latency : α
  p99Latency : α
  minLatency : α
  maxLatency : α
deriving DecidableEq

namespace RunData

def names : List String :=
  ["OpsTput", "DataTput", "Records per second", "Mean latency", "Median latency", "95% latency",
   "99% latency", "Min latency", "Max latency"]

def toList {α : Type} (r : RunData α) : List α :=
  [r.opsTput, r.dataTput, r.recordsTput, r.meanLatency, r.medianLatency, r.p95Latency,
   r.p99Latency, r.minLatency, r.maxLatency]

def ofList? {α : Type} : List α → Option (RunData α)
  | [a, b, c, d, e, f, g, h, i] => some ⟨a, b, c, d, e, f, g, h, i⟩
  | _ => none

theorem ofList?_toList {α : Type} (r : RunData α) : ofList? r.toList = some r := rfl

/-- The record with latencies taken from a histogram. -/
def withLatencies {α : Type} [Arithmetic α] (r : RunData α) (h : Histogram) :
    Option (RunData α) := do
  let median ← h.percentile? (0.50 : α)
  let p95 ← h.percentile? (0.95 : α)
  let p99 ← h.percentile? (0.99 : α)
  return { r with
    meanLatency := h.mean, medianLatency := median, p95Latency := p95, p99Latency := p99,
    minLatency := h.min, maxLatency := h.max }

/-- The canonical name for each key of a token. -/
def tokenKeys : List (String × String) :=
  [("opsPs", "OpsTput"), ("thrMBps", "DataTput"), ("recsPs", "Records per second"),
   ("meanLat", "Mean latency"), ("50%Lat", "Median latency"), ("95%Lat", "95% latency"),
   ("99%Lat", "99% latency"), ("minLat", "Min latency"), ("maxLat", "Max latency")]

/-- A token `key:number`, its quotes and commas dropped, under the canonical name of the key. -/
def tokenPair? (token : List Char) : Option (String × Binary64) :=
  match splitWhere (· == ':') token with
  | [key, value] => do
    let x ← Binary64.readChars? (value.filter (· != ','))
    let name ← tokenKeys.lookup (String.ofList (key.filter (· != '"')))
    return (name, x)
  | _ => none

def lastValue (pairs : List (String × Binary64)) (name : String) : Except Failure Binary64 :=
  match pairs.reverse.lookup name with
  | some x => .ok x
  | none => .error (.refuse (.noCanonical name))

def ofTokens (text : String) : Except Failure (RunData Binary64) := do
  let pairs := (wordsOf text.toList).filterMap tokenPair?
  let value := lastValue pairs
  return {
    opsTput := ← value "OpsTput"
    dataTput := ← value "DataTput"
    recordsTput := ← value "Records per second"
    meanLatency := ← value "Mean latency"
    medianLatency := ← value "Median latency"
    p95Latency := ← value "95% latency"
    p99Latency := ← value "99% latency"
    minLatency := ← value "Min latency"
    maxLatency := ← value "Max latency" }

open Json.Decoder in
def decode : Json.Decoder (RunData Binary64) :=
  record
    [field "OpsTput" .fault real fun x r => { r with opsTput := x },
     field "DataTput" .fault real fun x r => { r with dataTput := x },
     field "Records per second" .fault real fun x r => { r with recordsTput := x },
     field "Mean latency" .fault real fun x r => { r with meanLatency := x },
     field "Median latency" .fault real fun x r => { r with medianLatency := x },
     field "95% latency" .fault real fun x r => { r with p95Latency := x },
     field "99% latency" .fault real fun x r => { r with p99Latency := x },
     field "Min latency" .fault real fun x r => { r with minLatency := x },
     field "Max latency" .fault real fun x r => { r with maxLatency := x }]
    ⟨0.0, 0.0, 0.0, 0.0, 0.0, 0.0, 0.0, 0.0, 0.0⟩

def toJson (r : RunData Binary64) : Json.Value :=
  .object (names.zip (r.toList.map .real))

/-- A line of the median gets the comma that it lacks. -/
def repairLine (line : List Char) : List Char :=
  if "\"Median".toList.isPrefixOf line && line.getLast? != some ',' then line ++ [','] else line

/-- The text with a comma behind the median and none behind the last field. -/
def repaired (text : String) : List Char :=
  TrailingCommas.stripFrom .outside
    (['\n'].intercalate ((linesOf text.toList).map repairLine))

def ofJson (text : String) : Except Failure (RunData Binary64) :=
  match Json.Decoder.document decode ((repaired text).map some) with
  | .ok r => .ok r
  | .error fault => .error ((Failure.of (.json fault)).within "parse btrdb results")

def ofText (system : DataStore) (text : String) : Except Failure (RunData Binary64) :=
  match system with
  | .kawkab => ofTokens text
  | .btrdb => ofJson text

def wordBytes (n : Nat) : List UInt8 :=
  (List.range 8).map fun i => UInt8.ofNat (n / 2 ^ (8 * i))

def wordOfBytes (bytes : List UInt8) : Nat := bytes.foldr (fun b n => b.toNat + 256 * n) 0

def snapshot (r : RunData Binary64) : List UInt8 := r.toList.flatMap fun x => wordBytes x.toBits

/-- The first `count` groups of eight bytes as doubles. -/
def readDoubles : Nat → List UInt8 → Option (List Binary64)
  | 0, _ => some []
  | count + 1, bytes =>
    if bytes.length < 8 then none
    else (readDoubles count (bytes.drop 8)).map (Binary64.ofBits (wordOfBytes (bytes.take 8)) :: ·)

/-- Bytes behind the record are ignored. -/
def ofSnapshot? (bytes : List UInt8) : Option (RunData Binary64) :=
  (readDoubles 9 bytes).bind ofList?

end RunData

end ClusterBench
