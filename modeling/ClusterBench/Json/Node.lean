import ClusterBench.Json.Number
import ClusterBench.Text.Utf8

/-!
# JSON documents as far as they can be read

A `Node` is a value of a document up to the first place where the text is no JSON. That place is a
node of its own or the end of a list, so that a reader which walks the nodes in order meets the
first fault of the document first, be it one of form or one of type. What a reader skips is held
to the grammar only: the numbers in it may be out of range and its texts need not be characters.
-/

namespace ClusterBench.Json

/-- Why a document is not read: it is JSON of another shape than the reader wants, it is no JSON,
or it ends too early. -/
inductive Fault
  | shape
  | malformed
  | ended
deriving DecidableEq, Repr

mutual

inductive Node
  | null
  | bool (value : Bool)
  | number (value : Number)
  /-- A closed text, or the fault that reading it meets. -/
  | text (value : Except Fault String)
  | array (items : Items)
  | object (members : Members)
  /-- A text that is not closed; a reader and a skipper may see different faults. -/
  | brokenText (read skip : Fault)
  /-- Something else that breaks off. -/
  | broken (read skip : Fault)
  /-- The document ends before the value. -/
  | missing

inductive Items
  | done
  | stopped (fault : Fault)
  | item (node : Node) (rest : Items)

inductive Members
  | done
  | stopped (fault : Fault)
  /-- A key that is no text. -/
  | stray (key : Node)
  | member (key value : Node) (rest : Members)

end

namespace Node

/-- The fault of a node of another type than the reader wants: the node is read first, unless it is
an array or an object. -/
def mismatch : Node → Fault
  | .text (.error fault) => fault
  | .brokenText read _ | .broken read _ => read
  | .missing => .ended
  | .number n => if n.inRange then .shape else .malformed
  | _ => .shape

def readText : Node → Except Fault String
  | .text value => value
  | node => .error node.mismatch

mutual

def skip : Node → Except Fault Unit
  | .array items => skipItems items
  | .object members => skipMembers members
  | .brokenText _ fault | .broken _ fault => .error fault
  | .missing => .error .ended
  | _ => .ok ()

def skipItems : Items → Except Fault Unit
  | .done => .ok ()
  | .stopped fault => .error fault
  | .item node rest => do skip node; skipItems rest

def skipMembers : Members → Except Fault Unit
  | .done => .ok ()
  | .stopped fault => .error fault
  | .stray _ => .error .malformed
  | .member key value rest => do skip key; skip value; skipMembers rest

end

/-- Arrays and objects that are kept whole are nested less than this deep. -/
def depthLimit : Nat := 128

mutual

/-- Reads a value that is kept for later, `depth` containers deep: all its numbers are in range and
all its texts are characters. -/
def hold (depth : Nat) : Node → Except Fault Unit
  | .array items =>
    if depthLimit ≤ depth + 1 then .error .malformed else holdItems (depth + 1) items
  | .object members =>
    if depthLimit ≤ depth + 1 then .error .malformed else holdMembers (depth + 1) members
  | .number n => if n.inRange then .ok () else .error .malformed
  | .text (.error fault) => .error fault
  | .brokenText fault _ | .broken fault _ => .error fault
  | .missing => .error .ended
  | _ => .ok ()

def holdItems (depth : Nat) : Items → Except Fault Unit
  | .done => .ok ()
  | .stopped fault => .error fault
  | .item node rest => do hold depth node; holdItems depth rest

def holdMembers (depth : Nat) : Members → Except Fault Unit
  | .done => .ok ()
  | .stopped fault => .error fault
  | .stray _ => .error .malformed
  | .member key value rest => do hold depth key; hold depth value; holdMembers depth rest

end

end Node

end ClusterBench.Json
