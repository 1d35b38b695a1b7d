import ClusterBench.Text.Blank

/-!
# Trailing commas

Clients leave a comma behind the last element of an array or object. It is dropped where the next
character that is no blank closes something, and never inside a quoted text.
-/

namespace ClusterBench.TrailingCommas

/-- Where in the text a character stands: outside of quotes, inside, or inside behind a
backslash. -/
inductive Place
  | outside
  | quoted
  | escaped
deriving DecidableEq

def Place.next : Place → Char → Place
  | outside, '"' => quoted
  | outside, _ => outside
  | quoted, '\\' => escaped
  | quoted, '"' => outside
  | quoted, _ => quoted
  | escaped, _ => quoted

def closesNext (cs : List Char) : Bool :=
  match cs.dropWhile isBlank with
  | ']' :: _ | '\x7d' :: _ => true
  | _ => false

def stripFrom (place : Place) : List Char → List Char
  | [] => []
  | c :: cs =>
    if place = .outside ∧ c = ',' ∧ closesNext cs then stripFrom place cs
    else c :: stripFrom (place.next c) cs

def strip (text : String) : String := String.ofList (stripFrom .outside text.toList)

end ClusterBench.TrailingCommas
