import LiveQuery.Json.Tree

/-!
# Reading JSON

The tree of a JSON text. The grammar is strict: one value, blanks around its
parts, nothing after it.

Numbers with a fraction or an exponent, and integers beyond a 64-bit word, are
read as binary64 in two steps: the digits that fit a 64-bit word are gathered,
and the number they form is then scaled by a power of ten, each step rounded.
-/

namespace LiveQuery.Json

namespace Reader

/-- Blanks between the parts of a text. -/
def isBlank (c : Char) : Bool := c == ' ' || c == '\t' || c == '\n' || c == '\r'

def skipBlanks (cs : List Char) : List Char := cs.dropWhile isBlank

/-! ## Strings -/

def hexDigit? (c : Char) : Option Nat :=
  if '0' ≤ c ∧ c ≤ '9' then some (c.toNat - '0'.toNat)
  else if 'a' ≤ c ∧ c ≤ 'f' then some (c.toNat - 'a'.toNat + 10)
  else if 'A' ≤ c ∧ c ≤ 'F' then some (c.toNat - 'A'.toNat + 10)
  else none

/-- The character that a backslash and this character stand for. -/
def unescape? : Char → Option Char
  | '"' => some '"'
  | '\\' => some '\\'
  | '/' => some '/'
  | 'b' => some '\x08'
  | 'f' => some '\x0c'
  | 'n' => some '\n'
  | 'r' => some '\r'
  | 't' => some '\t'
  | _ => none

/-- The code points of a string, whether all its control characters are escaped, and what
    follows the closing quote. -/
structure StringPart where
  points : List Nat
  plain : Bool
  rest : List Char

def StringPart.push (point : Nat) (plain : Bool) (part : StringPart) : StringPart :=
  ⟨point :: part.points, plain && part.plain, part.rest⟩

/-- Reads up to the closing quote. An escaped surrogate stays a code point of its own here. -/
def stringPart? : List Char → Option StringPart
  | [] => none
  | ['\\'] => none
  | '"' :: rest => some ⟨[], true, rest⟩
  | '\\' :: 'u' :: a :: b :: c :: d :: rest => do
    let point := 4096 * (← hexDigit? a) + 256 * (← hexDigit? b) + 16 * (← hexDigit? c) +
      (← hexDigit? d)
    return (← stringPart? rest).push point true
  | '\\' :: c :: rest => do
    let char ← unescape? c
    return (← stringPart? rest).push char.toNat true
  | c :: rest => (stringPart? rest).map (·.push c.toNat (32 ≤ c.toNat))

def isLead (point : Nat) : Bool := 0xD800 ≤ point && point < 0xDC00

def isTrail (point : Nat) : Bool := 0xDC00 ≤ point && point < 0xE000

/-- Joins the two halves of each surrogate pair. -/
def joinPairs : List Nat → List Nat
  | [] => []
  | [a] => [a]
  | a :: b :: rest =>
    if isLead a && isTrail b then
      (0x10000 + (a - 0xD800) * 1024 + (b - 0xDC00)) :: joinPairs rest
    else a :: joinPairs (b :: rest)

/-- The bytes of a code point. Half of a surrogate pair is written as any other code point. -/
def pointBytes (n : Nat) : List UInt8 :=
  if n < 0x80 then [n.toUInt8]
  else if n < 0x800 then [(0xC0 + n / 64).toUInt8, (0x80 + n % 64).toUInt8]
  else if n < 0x10000 then
    [(0xE0 + n / 4096).toUInt8, (0x80 + n / 64 % 64).toUInt8, (0x80 + n % 64).toUInt8]
  else
    [(0xF0 + n / 262144).toUInt8, (0x80 + n / 4096 % 64).toUInt8, (0x80 + n / 64 % 64).toUInt8,
      (0x80 + n % 64).toUInt8]

/-- The tree of a string. -/
def StringPart.tree (part : StringPart) : Tree :=
  let points := joinPairs part.points
  if part.plain && points.all fun n => !(isLead n || isTrail n) then
    .string (String.ofList (points.map Char.ofNat))
  else .bytes (points.flatMap pointBytes) part.plain

/-! ## Numbers -/

/-- The digits of a number as written. -/
structure Literal where
  negative : Bool
  whole : List Nat
  fraction : Option (List Nat)
  exponent : Option (Bool × List Nat)

/-- The digits at the front, and what follows them. -/
def digits (cs : List Char) : List Nat × List Char :=
  ((cs.takeWhile Char.isDigit).map fun c => c.toNat - '0'.toNat, cs.dropWhile Char.isDigit)

/-- A part that needs at least one digit. -/
def digits? (cs : List Char) : Option (List Nat × List Char) :=
  match digits cs with
  | ([], _) => none
  | read => some read

def fraction? : List Char → Option (Option (List Nat) × List Char)
  | '.' :: cs => (digits? cs).map fun (ds, rest) => (some ds, rest)
  | cs => some (none, cs)

def exponent? (cs : List Char) : Option (Option (Bool × List Nat) × List Char) :=
  let signed (cs : List Char) : Option (Option (Bool × List Nat) × List Char) :=
    match cs with
    | '-' :: cs => (digits? cs).map fun (ds, rest) => (some (true, ds), rest)
    | '+' :: cs => (digits? cs).map fun (ds, rest) => (some (false, ds), rest)
    | cs => (digits? cs).map fun (ds, rest) => (some (false, ds), rest)
  match cs with
  | 'e' :: cs => signed cs
  | 'E' :: cs => signed cs
  | cs => some (none, cs)

/-- A number as written: no plus sign, and no zero before another digit. -/
def literal? (cs : List Char) : Option (Literal × List Char) := do
  let (negative, cs) := match cs with
    | '-' :: cs => (true, cs)
    | cs => (false, cs)
  let (whole, cs) ← match cs with
    | '0' :: cs => some ([0], cs)
    | cs => digits? cs
  let (fraction, cs) ← fraction? cs
  let (exponent, cs) ← exponent? cs
  return (⟨negative, whole, fraction, exponent⟩, cs)

/-- The greatest number that the gathered digits may form. -/
def gatherLimit : Nat := 2 ^ 64 - 1

/-- Gathers the digits before the point. From the first digit that does not fit on, a digit only
    raises the power of ten. -/
def gatherWhole : Nat → List Nat → Nat × Nat
  | sum, [] => (sum, 0)
  | sum, d :: ds => if sum * 10 + d ≤ gatherLimit then gatherWhole (sum * 10 + d) ds
    else (sum, ds.length + 1)

/-- Gathers the digits after the point, up to the first that does not fit. -/
def gatherFraction : Nat → List Nat → Nat × Nat
  | sum, [] => (sum, 0)
  | sum, d :: ds =>
    if sum * 10 + d ≤ gatherLimit then
      let (total, taken) := gatherFraction (sum * 10 + d) ds
      (total, taken + 1)
    else (sum, 0)

/-- A power of ten, if it is finite. -/
def powerOfTen? (n : Nat) : Option Binary64 := Binary64.ofRatio false (10 ^ n) 1

/-- Divides by `10 ^ n`, in steps of the largest power of ten that is finite. -/
def scaleDown? (x : Binary64) (n : Nat) : Option Binary64 :=
  if n ≤ 308 then do x.div (← powerOfTen? n)
  else if x.isZero then some x
  else do scaleDown? (← x.div (← powerOfTen? 308)) (n - 308)
termination_by n
decreasing_by omega

/-- Multiplies by `10 ^ n`, unless the result is too large. -/
def scaleUp? (x : Binary64) (n : Nat) : Option Binary64 :=
  if n ≤ 308 then do x.mul (← powerOfTen? n)
  else if x.isZero then some x else none

/-- The number of a literal. A literal without a fraction and an exponent is an integer if it
    fits a 64-bit word, only the negative zero is not; an exponent beyond 31 bits makes a
    number zero or too large. -/
def Literal.number? (l : Literal) : Option Number := do
  let (sum, dropped) := gatherWhole 0 l.whole
  let signed (x : Binary64) : Number := .float (if l.negative then x.neg else x)
  match l.fraction, l.exponent, dropped with
  | none, none, 0 =>
    match Number.ofInt? (if l.negative then -sum else sum), l.negative && sum == 0 with
    | some number, false => return number
    | _, _ => return signed (← Binary64.ofRatio false sum 1)
  | _, _, _ =>
    let (sum, taken) := gatherFraction sum (l.fraction.getD [])
    let (down, ds) := l.exponent.getD (false, [])
    let exponent : Nat := ds.foldl (· * 10 + ·) 0
    if 2 ^ 31 ≤ exponent then
      if sum ≠ 0 ∧ !down then none else return signed (← Binary64.ofRatio false 0 1)
    else
      let scale : Int := (dropped : Int) - taken + (if down then -(exponent : Int) else exponent)
      let x ← Binary64.ofRatio false sum 1
      return signed (← if 0 ≤ scale then scaleUp? x scale.toNat else scaleDown? x scale.natAbs)

/-! ## Trees -/

/-- How deep arrays and objects may be nested. -/
def depthLimit : Nat := 127

/-- An array or object that has been read. Below the deepest level allowed it has no value. -/
def close? (room : Nat) (t : Tree) : Option Tree :=
  if room ≠ 0 then some t else if t.skippable then some .unusable else none

/-- An object from its names and values. A name has to be text for the object to have a value. -/
def object? (members : List (Tree × Tree)) : Option Tree :=
  let texts := members.filterMap fun (name, value) => match name with
    | .string s => some (s, value)
    | _ => none
  if texts.length = members.length then some (.object texts)
  else if members.all fun (name, value) => name.skippable && value.skippable then some .unusable
  else none

mutual

/-- Reads a value; `room` counts the levels of nesting that are left. -/
def tree? : (fuel room : Nat) → List Char → Option (Tree × List Char)
  | 0, _, _ => none
  | fuel + 1, room, cs =>
    match skipBlanks cs with
    | 'n' :: 'u' :: 'l' :: 'l' :: rest => some (.null, rest)
    | 't' :: 'r' :: 'u' :: 'e' :: rest => some (.bool true, rest)
    | 'f' :: 'a' :: 'l' :: 's' :: 'e' :: rest => some (.bool false, rest)
    | '"' :: rest => (stringPart? rest).map fun part => (part.tree, part.rest)
    | '[' :: rest =>
      match skipBlanks rest with
      | ']' :: rest => (close? room (.array [])).map (·, rest)
      | rest => do
        let (items, rest) ← items? fuel (room - 1) rest
        return (← close? room (.array items), rest)
    | '\x7b' :: rest =>
      match skipBlanks rest with
      | '\x7d' :: rest => (close? room (.object [])).map (·, rest)
      | rest => do
        let (members, rest) ← members? fuel (room - 1) rest
        return (← close? room (← object? members), rest)
    | cs => do
      let (literal, rest) ← literal? cs
      return (literal.number?.elim .unusable .number, rest)

/-- Reads the items of an array up to its end. -/
def items? : (fuel room : Nat) → List Char → Option (List Tree × List Char)
  | 0, _, _ => none
  | fuel + 1, room, cs => do
    let (item, rest) ← tree? fuel room cs
    match skipBlanks rest with
    | ',' :: rest =>
      let (items, rest) ← items? fuel room rest
      return (item :: items, rest)
    | ']' :: rest => return ([item], rest)
    | _ => none

/-- Reads the members of an object up to its end. -/
def members? : (fuel room : Nat) → List Char → Option (List (Tree × Tree) × List Char)
  | 0, _, _ => none
  | fuel + 1, room, cs => do
    let '"' :: rest := skipBlanks cs | none
    let name ← stringPart? rest
    let ':' :: rest := skipBlanks name.rest | none
    let (value, rest) ← tree? fuel room rest
    match skipBlanks rest with
    | ',' :: rest =>
      let (members, rest) ← members? fuel room rest
      return ((name.tree, value) :: members, rest)
    | '\x7d' :: rest => return ([(name.tree, value)], rest)
    | _ => none

end

end Reader

/-- The tree of a text. Every step of the reader takes at least one character, so as many steps
    as there are characters, and one more, are enough. -/
def Tree.read? (text : String) : Option Tree := do
  let chars := text.toList
  let (tree, rest) ← Reader.tree? (chars.length + 1) Reader.depthLimit chars
  if (Reader.skipBlanks rest).isEmpty then some tree else none

end LiveQuery.Json
