import ClusterBench.Json.Scan

/-!
# Reading values from JSON

A decoder turns a node into a value or tells the first fault in document order. Records are read
from objects, or from arrays of their fields in order; fields that a record does not know are
skipped and no field may be repeated. A value that was held back while the document was read on is
known to be JSON: everything wrong with it is its shape.
-/

namespace ClusterBench.Json

/-- Where a node comes from: the document as it is read, or a value that was held back. -/
inductive Origin
  | stream
  | held
deriving DecidableEq

def Origin.excess : Origin → Fault
  | .stream => .malformed
  | .held => .shape

abbrev Decoder (α : Type) := Origin → Node → Except Fault α

namespace Decoder

variable {α σ : Type}

def text : Decoder String := fun _ node => node.readText

def bool : Decoder Bool
  | _, .bool b => .ok b
  | _, node => .error node.mismatch

def natural (bits : Nat) : Decoder Nat := fun _ node =>
  match node with
  | .number n =>
    match n.integer? with
    | some (.ofNat k) => if k < 2 ^ bits then .ok k else .error .shape
    | _ => .error node.mismatch
  | _ => .error node.mismatch

def word : Decoder Nat := natural wordBits

def real : Decoder Binary64 := fun _ node =>
  match node with
  | .number n => if n.inRange then .ok n.real else .error .malformed
  | _ => .error node.mismatch

def nullable (decode : Decoder α) : Decoder (Option α)
  | _, .null => .ok none
  | origin, node => (decode origin node).map some

def itemsOf (decode : Decoder α) (origin : Origin) : Items → Except Fault (List α)
  | .done => .ok []
  | .stopped fault => .error fault
  | .item node rest => do
    let value ← decode origin node
    return value :: (← itemsOf decode origin rest)

def list (decode : Decoder α) : Decoder (List α)
  | origin, .array items => itemsOf decode origin items
  | _, node => .error node.mismatch

def named (names : List (String × α)) (name : String) : Except Fault α :=
  match names.lookup name with
  | some value => .ok value
  | none => .error .shape

def isNothing (origin : Origin) : Node → Bool
  | .null => true
  | .object .done => origin == .held
  | _ => false

/-- What follows the only member of an object. -/
def lastMember (origin : Origin) : Members → Except Fault Unit
  | .done => .ok ()
  | .stopped fault => .error fault
  | _ => .error origin.excess

/-- One of several names, as a text or as the only key of an object with nothing behind it. -/
def oneOf (names : List (String × α)) : Decoder α
  | _, .text name => do named names (← name)
  | origin, .object (.member key value rest) => do
    let result ← named names (← key.readText)
    if isNothing origin value then
      lastMember origin rest
      return result
    else .error value.mismatch
  | origin, .object .done => .error origin.excess
  | _, .object (.stopped fault) => .error fault
  | _, .object (.stray key) => .error key.mismatch
  | _, .brokenText fault _ => .error fault
  | _, .missing => .error .ended
  | origin, _ => .error origin.excess

/-- What a missing field means. A nullable field may be missing in an object only. -/
inductive Absence
  | fault
  | nothing
  | default
deriving DecidableEq

structure RecordField (σ : Type) where
  name : String
  absence : Absence
  store : Origin → Node → σ → Except Fault σ

def field (name : String) (absence : Absence) (decode : Decoder α) (put : α → σ → σ) :
    RecordField σ :=
  ⟨name, absence, fun origin node record => do return put (← decode origin node) record⟩

def recordOfItems (origin : Origin) : List (RecordField σ) → Items → σ → Except Fault σ
  | _, .stopped fault, _ => .error fault
  | [], .done, record => .ok record
  | [], .item _ _, _ => .error origin.excess
  | field :: fields, .done, record =>
    if field.absence = .default then recordOfItems origin fields .done record else .error .shape
  | field :: fields, .item node rest, record => do
    recordOfItems origin fields rest (← field.store origin node record)

/-- Fields by name, from the members of an object, and the names that were there. -/
def recordOfMembers (origin : Origin) (fields : List (RecordField σ)) :
    Members → List String → σ → Except Fault (List String × σ)
  | .done, seen, record => .ok (seen, record)
  | .stopped fault, _, _ => .error fault
  | .stray _, _, _ => .error .malformed
  | .member key value rest, seen, record => do
    let name ← key.readText
    match fields.find? (·.name == name) with
    | some field =>
      if seen.contains name then .error .shape
      else recordOfMembers origin fields rest (name :: seen) (← field.store origin value record)
    | none =>
      value.skip
      recordOfMembers origin fields rest seen record

def record (fields : List (RecordField σ)) (start : σ) : Decoder σ
  | origin, .array items => recordOfItems origin fields items start
  | origin, .object members => do
    let (seen, record) ← recordOfMembers origin fields members [] start
    if fields.all fun field => field.absence != .fault || seen.contains field.name then
      return record
    else .error .shape
  | _, node => .error node.mismatch

/-- Finds the kind of a tagged record while its other members are held back. -/
def tagOfMembers (tag : String) (kinds : List (String × α)) (depth : Nat) :
    Members → Option α → Except Fault (Option α)
  | .done, found => .ok found
  | .stopped fault, _ => .error fault
  | .stray _, _ => .error .malformed
  | .member key value rest, found => do
    let name ← key.readText
    if name = tag then
      if found.isSome then .error .shape
      else tagOfMembers tag kinds depth rest (some (← named kinds (← value.readText)))
    else
      value.hold depth
      tagOfMembers tag kinds depth rest found

/-- A record whose fields depend on a tag among them; it is read whole, `depth` containers deep,
before its fields are looked at, and has no form as an array. -/
def tagged (tag : String) (depth : Nat) (kinds : List (String × Decoder α)) : Decoder α
  | _, .object members => do
    match ← tagOfMembers tag kinds depth members none with
    | some decode => decode .held (.object members)
    | none => .error .shape
  | _, .array (.item kind rest) => do
    let _ ← named kinds (← kind.readText)
    Node.holdItems depth rest
    .error .shape
  | _, .array (.stopped fault) => .error fault
  | _, node => .error node.mismatch

def document (decode : Decoder α) (cs : List Symbol) : Except Fault α := do
  let (node, rest) := scan cs
  let value ← decode .stream node
  if (skipBlanks rest).isEmpty then return value else .error .malformed

def ofText (decode : Decoder α) (text : String) : Except Fault α :=
  document decode (text.toList.map some)

end Decoder

end ClusterBench.Json
