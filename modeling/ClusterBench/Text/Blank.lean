/-!
# Blanks and words

A blank is a character of the Unicode property White_Space. Texts are trimmed of blanks and split
at them.
-/

namespace ClusterBench

def isBlank (c : Char) : Bool :=
  let n := c.toNat
  (9 ≤ n && n ≤ 13) || n == 32 || n == 0x85 || n == 0xa0 || n == 0x1680 ||
    (0x2000 ≤ n && n ≤ 0x200a) || n == 0x2028 || n == 0x2029 || n == 0x202f || n == 0x205f ||
    n == 0x3000

def isAsciiBlank (c : Char) : Bool := c == ' ' || c == '\t' || c == '\n' || c == '\r'

theorem isBlank_of_isAsciiBlank {c : Char} (h : isAsciiBlank c = true) : isBlank c = true := by
  simp only [isAsciiBlank, Bool.or_eq_true, beq_iff_eq] at h
  rcases h with ((rfl | rfl) | rfl) | rfl <;> decide

/-- Drops leading and trailing characters of a class. -/
def trimWhere (p : Char → Bool) (cs : List Char) : List Char :=
  ((cs.dropWhile p).reverse.dropWhile p).reverse

def trimBlanks (text : String) : String := String.ofList (trimWhere isBlank text.toList)

/-- The parts of a list between the members that satisfy `p`; there is always one part. -/
def splitWhere {α : Type} (p : α → Bool) : List α → List (List α)
  | [] => [[]]
  | a :: as =>
    if p a then [] :: splitWhere p as
    else match splitWhere p as with
      | part :: parts => (a :: part) :: parts
      | [] => [[a]]

def wordsOf (cs : List Char) : List (List Char) :=
  (splitWhere isBlank cs).filter fun word => !word.isEmpty

/-- The lines of a text. A line ends with a line feed, which a carriage return may precede; what
follows the last line feed is a line unless it is empty. -/
def linesOf (cs : List Char) : List (List Char) :=
  let parts := splitWhere (· == '\n') cs
  let ended := parts.dropLast.map fun line =>
    if line.getLast? = some '\r' then line.dropLast else line
  match parts.getLast? with
  | some [] | none => ended
  | some rest => ended ++ [rest]

end ClusterBench
