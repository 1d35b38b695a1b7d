import ClusterBench.Failure
import ClusterBench.Text.Blank
import ClusterBench.Text.Utf8

/-!
# Tables of comma separated values

Records end with a line feed, a carriage return, or both; empty lines are no records. A field may
be quoted, with a quote written twice inside. Every record has to be as long as the first one, and
its fields have to be texts; they are trimmed of blanks.
-/

namespace ClusterBench.Table

inductive Place
  | recordStart
  | afterReturn
  | fieldStart
  | plain
  | quoted
  | afterQuote
deriving DecidableEq

abbrev Bytes := List UInt8

def quote : UInt8 := 34
def comma : UInt8 := 44
def lineFeed : UInt8 := 10
def carriageReturn : UInt8 := 13

def endsLine (byte : UInt8) : Bool := byte == lineFeed || byte == carriageReturn

/-- The records of a table. `field` and `fields` are what has been read of the record, in
reverse. -/
def recordsFrom (place : Place) (field : Bytes) (fields : List Bytes) :
    Bytes → List (List Bytes)
  | [] =>
    if place = .recordStart ∨ place = .afterReturn then []
    else [(field.reverse :: fields).reverse]
  | byte :: rest =>
    let place := if place = .afterReturn ∧ byte ≠ lineFeed then .recordStart else place
    let place := if place = .recordStart ∧ ¬ endsLine byte then .fieldStart else place
    match place with
    | .recordStart | .afterReturn => recordsFrom .recordStart [] [] rest
    | .quoted =>
      if byte = quote then recordsFrom .afterQuote field fields rest
      else recordsFrom .quoted (byte :: field) fields rest
    | place =>
      if byte = quote ∧ place = .fieldStart then recordsFrom .quoted field fields rest
      else if byte = quote ∧ place = .afterQuote then
        recordsFrom .quoted (byte :: field) fields rest
      else if byte = comma then recordsFrom .fieldStart [] (field.reverse :: fields) rest
      else if endsLine byte then
        (field.reverse :: fields).reverse ::
          recordsFrom (if byte = carriageReturn then .afterReturn else .recordStart) [] [] rest
      else recordsFrom .plain (byte :: field) fields rest

def records : Bytes → List (List Bytes)
  | 0xef :: 0xbb :: 0xbf :: rest => recordsFrom .recordStart [] [] rest
  | bytes => recordsFrom .recordStart [] [] bytes

/-- The trimmed fields of a record that should have `length` fields. -/
def row (length : Nat) (record : List Bytes) : Except TableFault (List String) :=
  if record.length = length then
    match record.mapM Utf8.decode? with
    | some fields => .ok (fields.map trimBlanks)
    | none => .error .notText
  else .error .unequalLengths

def rows (bytes : Bytes) : List (Except TableFault (List String)) :=
  match records bytes with
  | [] => []
  | first :: rest => (first :: rest).map (row first.length)

end ClusterBench.Table
