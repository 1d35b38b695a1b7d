import ClusterBench.Json.Node
import ClusterBench.Text.Blank

/-!
# Scanning JSON

`scan` turns a text into a node and what is left behind it. The text is a list of symbols, so that
a file need not be a text throughout.
-/

namespace ClusterBench.Json

def isBlankSymbol : Symbol → Bool
  | some c => isAsciiBlank c
  | none => false

def skipBlanks (cs : List Symbol) : List Symbol := cs.dropWhile isBlankSymbol

/-- A text that has begun: its characters in reverse, the first half of a surrogate pair, and
whether something in it has no character. -/
structure Draft where
  chars : List Char
  high : Option Nat
  faulty : Bool

namespace Draft

/-- Appends a character. The first half of a pair before it stays alone. -/
def push (d : Draft) (c : Char) : Draft := ⟨c :: d.chars, none, d.faulty || d.high.isSome⟩

def spoil (d : Draft) : Draft := ⟨d.chars, none, true⟩

def pushUnit (d : Draft) (unit : Nat) : Draft :=
  let isHigh := 0xd800 ≤ unit && unit ≤ 0xdbff
  let isLow := 0xdc00 ≤ unit && unit ≤ 0xdfff
  match d.high with
  | some high =>
    if isLow then
      ⟨Char.ofNat (0x10000 + (high - 0xd800) * 0x400 + (unit - 0xdc00)) :: d.chars, none, d.faulty⟩
    else d.spoil
  | none =>
    if isHigh then ⟨d.chars, some unit, d.faulty⟩
    else if isLow then d.spoil
    else d.push (Char.ofNat unit)

def endFault (d : Draft) : Fault := if d.faulty then .malformed else .ended

def close (d : Draft) (undecoded : Bool) : Except Fault String :=
  if d.faulty || d.high.isSome || undecoded then .error .malformed
  else .ok (String.ofList d.chars.reverse)

end Draft

def hexValue? : Symbol → Option Nat
  | some c =>
    if c.isDigit then some (c.toNat - 48)
    else if 'a' ≤ c ∧ c ≤ 'f' then some (c.toNat - 87)
    else if 'A' ≤ c ∧ c ≤ 'F' then some (c.toNat - 55)
    else none
  | none => none

def hexUnit? (a b c d : Symbol) : Option Nat := do
  return ((← hexValue? a) * 16 + (← hexValue? b)) * 256 + (← hexValue? c) * 16 + (← hexValue? d)

def escapedChar? : Char → Option Char
  | '"' => some '"'
  | '\\' => some '\\'
  | '/' => some '/'
  | 'b' => some '\x08'
  | 'f' => some '\x0c'
  | 'n' => some '\n'
  | 'r' => some '\r'
  | 't' => some '\t'
  | _ => none

def byteCount (cs : List Symbol) : Nat :=
  cs.foldl (fun n symbol => n + match symbol with | some c => c.utf8Size | none => 1) 0

/-- The text after an opening quote. `undecoded` tells whether it holds bytes that are no
character: that is found out when the text ends. -/
def scanText (d : Draft) (undecoded : Bool) : List Symbol → Node × List Symbol
  | [] => (.brokenText d.endFault .ended, [])
  | some '"' :: rest => (.text (d.close undecoded), rest)
  | some '\\' :: some 'u' :: a :: b :: c :: e :: rest =>
    match hexUnit? a b c e with
    | some unit => scanText (d.pushUnit unit) undecoded rest
    | none => (.brokenText .malformed .malformed, [])
  | some '\\' :: some 'u' :: short =>
    if byteCount short < 4 then (.brokenText d.endFault .ended, [])
    else (.brokenText .malformed .malformed, [])
  | some '\\' :: some c :: rest =>
    match escapedChar? c with
    | some c => scanText (d.push c) undecoded rest
    | none => (.brokenText .malformed .malformed, [])
  | some '\\' :: none :: _ => (.brokenText .malformed .malformed, [])
  | some '\\' :: [] => (.brokenText d.endFault .ended, [])
  | some c :: rest =>
    if c < ' ' then (.brokenText .malformed .malformed, []) else scanText (d.push c) undecoded rest
  | none :: rest => scanText ⟨d.chars, none, d.faulty || d.high.isSome⟩ true rest

def isDigitSymbol : Symbol → Bool
  | some c => c.isDigit
  | none => false

def spanDigits (cs : List Symbol) : List Char × List Symbol :=
  ((cs.takeWhile isDigitSymbol).filterMap id, cs.dropWhile isDigitSymbol)

def missingDigit : List Symbol → Node × List Symbol
  | [] => (.broken .ended .malformed, [])
  | _ => (.broken .malformed .malformed, [])

def scanPower (number : Number) : List Symbol → Node × List Symbol
  | some 'e' :: rest | some 'E' :: rest =>
    let (negative, rest) := match rest with
      | some '+' :: rest => (false, rest)
      | some '-' :: rest => (true, rest)
      | rest => (false, rest)
    match spanDigits rest with
    | ([], rest) => missingDigit rest
    | (digits, rest) =>
      let power : Int := digitsValue digits
      let numeral := { number.numeral with exponent := if negative then -power else power }
      (.number { number with numeral, power := true }, rest)
  | rest => (.number number, rest)

def scanDecimals (negative : Bool) (whole : List Char) : List Symbol → Node × List Symbol
  | some '.' :: rest =>
    match spanDigits rest with
    | ([], rest) => missingDigit rest
    | (decimals, rest) => scanPower ⟨negative, ⟨whole, decimals, 0⟩, true, false⟩ rest
  | rest => scanPower ⟨negative, ⟨whole, [], 0⟩, false, false⟩ rest

/-- A number after its sign; no digit follows a leading zero. -/
def scanNumber (negative : Bool) (cs : List Symbol) : Node × List Symbol :=
  match spanDigits cs with
  | ([], rest) => missingDigit rest
  | ('0' :: _ :: _, _) => (.broken .malformed .malformed, [])
  | (whole, rest) => scanDecimals negative whole rest

def scanWord (node : Node) : List Char → List Symbol → Node × List Symbol
  | [], rest => (node, rest)
  | _ :: _, [] => (.broken .ended .ended, [])
  | c :: word, symbol :: rest =>
    if symbol = some c then scanWord node word rest else (.broken .malformed .malformed, [])

mutual

/-- The value at the start of a text. `fuel` bounds its length. -/
def scanValue : Nat → List Symbol → Node × List Symbol
  | 0, _ => (.broken .malformed .malformed, [])
  | fuel + 1, cs =>
    match skipBlanks cs with
    | [] => (.missing, [])
    | some 'n' :: rest => scanWord .null ['u', 'l', 'l'] rest
    | some 't' :: rest => scanWord (.bool true) ['r', 'u', 'e'] rest
    | some 'f' :: rest => scanWord (.bool false) ['a', 'l', 's', 'e'] rest
    | some '"' :: rest => scanText ⟨[], none, false⟩ false rest
    | some '[' :: rest =>
      let (items, rest) := scanItems fuel true rest
      (.array items, rest)
    | some '\x7b' :: rest =>
      let (members, rest) := scanMembers fuel true rest
      (.object members, rest)
    | some '-' :: rest => scanNumber true rest
    | symbol :: rest =>
      if isDigitSymbol symbol then scanNumber false (symbol :: rest)
      else (.broken .malformed .malformed, [])

def scanItems : Nat → Bool → List Symbol → Items × List Symbol
  | 0, _, _ => (.stopped .malformed, [])
  | fuel + 1, first, cs =>
    let one (rest : List Symbol) : Items × List Symbol :=
      let (node, rest) := scanValue fuel rest
      let (items, rest) := scanItems fuel false rest
      (.item node items, rest)
    match skipBlanks cs with
    | [] => (.stopped .ended, [])
    | some ']' :: rest => (.done, rest)
    | symbol :: rest =>
      if first then one (symbol :: rest)
      else if symbol = some ',' then
        match skipBlanks rest with
        | some ']' :: _ => (.stopped .malformed, [])
        | rest => one rest
      else (.stopped .malformed, [])

/-- The members of an object behind its brace, or behind a member. A key that is no text ends
them. -/
def scanMembers : Nat → Bool → List Symbol → Members × List Symbol
  | 0, _, _ => (.stopped .malformed, [])
  | fuel + 1, first, cs =>
    let one (rest : List Symbol) : Members × List Symbol :=
      match rest with
      | [] => (.member .missing .missing .done, [])
      | some '"' :: rest =>
        let (key, rest) := scanText ⟨[], none, false⟩ false rest
        match skipBlanks rest with
        | some ':' :: rest =>
          let (value, rest) := scanValue fuel rest
          let (members, rest) := scanMembers fuel false rest
          (.member key value members, rest)
        | [] => (.member key .missing .done, [])
        | _ => (.member key (.broken .malformed .malformed) .done, [])
      | rest => (.stray (scanValue fuel rest).1, [])
    match skipBlanks cs with
    | [] => (.stopped .ended, [])
    | some '\x7d' :: rest => (.done, rest)
    | symbol :: rest =>
      if first then one (symbol :: rest)
      else if symbol = some ',' then
        match skipBlanks rest with
        | some '\x7d' :: _ => (.stopped .malformed, [])
        | rest => one rest
      else (.stopped .malformed, [])

end

def scan (cs : List Symbol) : Node × List Symbol := scanValue (3 * cs.length + 3) cs

end ClusterBench.Json
