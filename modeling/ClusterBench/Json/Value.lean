import ClusterBench.Binary64.Decimal

/-!
# Writing JSON

Values are written over several lines, two blanks deeper for each container. A double is written
with the fewest digits that read back; infinities and what is not a number are null.
-/

namespace ClusterBench

/-- A double in JSON: written out for exponents from -5 to 15, with a point in any case, otherwise
with a signed exponent and no zeros in front of it. -/
def Binary64.jsonText (x : Binary64) : String :=
  if x.isFinite then
    let d := x.shortest
    let exponent := d.leading
    x.signText ++
      if d.digits = 0 then "0.0"
      else if -5 ≤ exponent ∧ exponent ≤ 15 then
        if 0 ≤ d.exponent then d.positional ++ ".0" else d.positional
      else d.mantissa ++ "e" ++ (if exponent < 0 then "-" else "+") ++ digitsText exponent.natAbs
  else "null"

namespace Json

inductive Value
  | null
  | bool (value : Bool)
  | word (value : Nat)
  | real (value : Binary64)
  | text (value : String)
  | array (items : List Value)
  | object (members : List (String × Value))

def unitEscape (c : Char) : String := "\\u" ++ padZeros 4 (String.ofList (Nat.toDigits 16 c.toNat))

def writtenChar (c : Char) : String :=
  if c = '"' then "\\\""
  else if c = '\\' then "\\\\"
  else if c = '\n' then "\\n"
  else if c = '\r' then "\\r"
  else if c = '\t' then "\\t"
  else if c = '\x08' then "\\b"
  else if c = '\x0c' then "\\f"
  else if c < ' ' then unitEscape c
  else c.toString

def writtenText (text : String) : String :=
  "\"" ++ String.join (text.toList.map writtenChar) ++ "\""

def newLine (depth : Nat) : String := "\n" ++ String.ofList (List.replicate (2 * depth) ' ')

namespace Value

mutual

def write (depth : Nat) : Value → String
  | null => "null"
  | bool b => if b then "true" else "false"
  | word n => digitsText n
  | real x => x.jsonText
  | text s => writtenText s
  | array [] => "[]"
  | array (item :: items) =>
    "[" ++ newLine (depth + 1) ++ write (depth + 1) item ++ writeItems (depth + 1) items ++
      newLine depth ++ "]"
  | object [] => "\x7b\x7d"
  | object ((name, value) :: members) =>
    "\x7b" ++ newLine (depth + 1) ++ writtenText name ++ ": " ++ write (depth + 1) value ++
      writeMembers (depth + 1) members ++ newLine depth ++ "\x7d"

def writeItems (depth : Nat) : List Value → String
  | [] => ""
  | item :: items => "," ++ newLine depth ++ write depth item ++ writeItems depth items

def writeMembers (depth : Nat) : List (String × Value) → String
  | [] => ""
  | (name, value) :: members =>
    "," ++ newLine depth ++ writtenText name ++ ": " ++ write depth value ++
      writeMembers depth members

end

end Value

end Json

end ClusterBench
