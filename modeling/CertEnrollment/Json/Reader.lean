import CertEnrollment.Data.Record
import CertEnrollment.Text.Digits
import CertEnrollment.Text.Utf8

/-!
# Reading JSON text

Reads one document into a tree by the strict grammar. A numeral out of range and a
string with half of a surrogate pair are kept as unreadable leaves. Nesting is bounded
only when a tree is made a value, so a part that nobody reads may nest at any depth.
-/
namespace CertEnrollment.Json
open Data Decimal

/-- The blanks of JSON. -/
def isSpace (c : Char) : Bool := c == ' ' || c == '\t' || c == '\n' || c == '\r'

def skip (cs : List Char) : List Char := cs.dropWhile isSpace

/-- How many nested arrays and objects a value may have. -/
def maxNesting : Nat := 127

/-! ## Numerals -/

/-- A numeral as written: the digits before the point, after it, and of the exponent. -/
structure Numeral where
  negative : Bool
  whole : List Char
  fraction : Option (List Char)
  exponent : Option (Bool × List Char)

def digitValue (c : Char) : Nat := c.toNat - '0'.toNat

/-- The number of a digit sequence. -/
def digitsValue (cs : List Char) : Nat := cs.foldl (fun n c => n * 10 + digitValue c) 0

/-- Takes digits into a number as long as it stays within 64 bits; the rest is returned. -/
def takeDigits (n : Nat) : List Char → Nat × List Char
  | [] => (n, [])
  | c :: cs =>
    if n * 10 + digitValue c < Nat.pow 2 64 then takeDigits (n * 10 + digitValue c) cs
    else (n, c :: cs)

/-- The number of a numeral. Without fraction and exponent it is an integer if it
fits, and `-0` is a double. Otherwise the digits that fit into 64 bits are scaled:
later digits before the point count as zeros, later ones after it not at all. An
exponent beyond 31 bits makes zero, or is out of range when positive. -/
def Numeral.number? (x : Numeral) : Option Number :=
  let (n, more) := takeDigits 0 x.whole
  let scale (digits : Nat) (power : Int) : Option Number :=
    (Double.ofDecimal x.negative digits power).map .double
  match x.fraction, x.exponent with
  | none, none =>
    if more.isEmpty then
      if !x.negative then some (.int n)
      else if n = 0 ∨ Nat.pow 2 63 < n then scale n 0
      else some (.int (-n))
    else scale n more.length
  | fraction, exponent =>
    let (digits, unused) := takeDigits n (fraction.getD [])
    let used := (fraction.getD []).length - unused.length
    let power : Int := more.length - used
    match exponent with
    | none => scale digits power
    | some (down, e) =>
      if digitsValue e < Nat.pow 2 31 then
        scale digits (if down then power - digitsValue e else power + digitsValue e)
      else if digits ≠ 0 ∧ !down then none
      else some (.double ⟨x.negative, 0⟩)

/-- The digits at the front, at least one. -/
def digits? (cs : List Char) : Option (List Char × List Char) :=
  let ds := cs.takeWhile Char.isDigit
  if ds.isEmpty then none else some (ds, cs.dropWhile Char.isDigit)

/-- The digits before the point: a zero stands alone. -/
def whole? : List Char → Option (List Char × List Char)
  | '0' :: c :: rest => if c.isDigit then none else some (['0'], c :: rest)
  | cs => digits? cs

/-- The fraction, if one starts here; a point needs digits after it. -/
def fraction? : List Char → Option (Option (List Char) × List Char)
  | '.' :: rest => (digits? rest).map fun (ds, rest) => (some ds, rest)
  | rest => some (none, rest)

/-- The exponent, if one starts here. -/
def exponent? : List Char → Option (Option (Bool × List Char) × List Char)
  | c :: rest =>
    if c == 'e' || c == 'E' then
      match rest with
      | '+' :: rest => (digits? rest).map fun (ds, rest) => (some (false, ds), rest)
      | '-' :: rest => (digits? rest).map fun (ds, rest) => (some (true, ds), rest)
      | rest => (digits? rest).map fun (ds, rest) => (some (false, ds), rest)
    else some (none, c :: rest)
  | [] => some (none, [])

/-- The numeral at the front, after its sign. -/
def unsigned? (negative : Bool) (cs : List Char) : Option (Numeral × List Char) := do
  let (whole, cs) ← whole? cs
  let (fraction, cs) ← fraction? cs
  let (exponent, cs) ← exponent? cs
  return (⟨negative, whole, fraction, exponent⟩, cs)

/-- The numeral at the front. -/
def numeral? : List Char → Option (Numeral × List Char)
  | '-' :: rest => unsigned? true rest
  | cs => unsigned? false cs

/-! ## Strings -/

/-- A number of four hexadecimal digits. -/
def unit? : List Char → Option (Nat × List Char)
  | a :: b :: c :: d :: rest => do
    let a ← Text.digitIn? 16 a
    let b ← Text.digitIn? 16 b
    let c ← Text.digitIn? 16 c
    let d ← Text.digitIn? 16 d
    return (((a * 16 + b) * 16 + c) * 16 + d, rest)
  | _ => none

/-- The character of an escape letter other than `u`. -/
def escaped? : Char → Option Char
  | '"' => some '"'
  | '\\' => some '\\'
  | '/' => some '/'
  | 'b' => some '\x08'
  | 'f' => some '\x0c'
  | 'n' => some '\n'
  | 'r' => some '\r'
  | 't' => some '\t'
  | _ => none

/-- One place of a string: a character, or one 16-bit unit given by its number. -/
inductive Place where
  | char (c : Char)
  | unit (n : Nat)

/-- The text of the places; the halves of a pair have to stand together. -/
def textOf? : List Place → Option (List Char)
  | [] => some []
  | .char c :: rest => (textOf? rest).map (c :: ·)
  | .unit n :: .unit m :: rest =>
    if 0xD800 ≤ n ∧ n < 0xDC00 then
      if 0xDC00 ≤ m ∧ m < 0xE000 then
        (textOf? rest).map (Char.ofNat (0x10000 + (n - 0xD800) * 0x400 + (m - 0xDC00)) :: ·)
      else none
    else if 0xDC00 ≤ n ∧ n < 0xE000 then none
    else (textOf? (.unit m :: rest)).map (Char.ofNat n :: ·)
  | .unit n :: rest =>
    if 0xD800 ≤ n ∧ n < 0xE000 then none else (textOf? rest).map (Char.ofNat n :: ·)

/-- The rest of a string after its opening quote, place by place. -/
def places? : Nat → List Char → Option (List Place × List Char)
  | 0, _ => none
  | fuel + 1, cs =>
    match cs with
    | [] => none
    | '"' :: rest => some ([], rest)
    | '\\' :: 'u' :: rest => do
      let (n, rest) ← unit? rest
      let (places, rest) ← places? fuel rest
      return (.unit n :: places, rest)
    | '\\' :: c :: rest => do
      let c ← escaped? c
      let (places, rest) ← places? fuel rest
      return (.char c :: places, rest)
    | c :: rest => do
      if c.toNat < 0x20 ∨ c = '\\' then failure
      let (places, rest) ← places? fuel rest
      return (.char c :: places, rest)

/-- The rest of a string after its opening quote; unpaired halves make it unreadable. -/
def string? (cs : List Char) : Option (Option String × List Char) :=
  (places? (cs.length + 1) cs).map fun (places, rest) =>
    ((textOf? places).map String.ofList, rest)

/-! ## Trees -/

mutual
/-- The tree at the front. Each call consumes a character, so as much fuel as there
are characters is enough. -/
def tree? : Nat → List Char → Option (Tree × List Char)
  | 0, _ => none
  | fuel + 1, cs =>
    match skip cs with
    | 'n' :: 'u' :: 'l' :: 'l' :: rest => some (.null, rest)
    | 't' :: 'r' :: 'u' :: 'e' :: rest => some (.bool true, rest)
    | 'f' :: 'a' :: 'l' :: 's' :: 'e' :: rest => some (.bool false, rest)
    | '"' :: rest => (string? rest).map fun (s, rest) => (.text s, rest)
    | '[' :: rest =>
      match skip rest with
      | ']' :: rest => some (.array [], rest)
      | rest => (items? fuel rest).map fun (items, rest) => (.array items, rest)
    | '\x7b' :: rest =>
      match skip rest with
      | '\x7d' :: rest => some (.object [], rest)
      | rest => (members? fuel rest).map fun (members, rest) => (.object members, rest)
    | rest => (numeral? rest).map fun (n, rest) => (.number n.number?, rest)

/-- The items of an array up to the closing bracket. -/
def items? : Nat → List Char → Option (List Tree × List Char)
  | 0, _ => none
  | fuel + 1, cs => do
    let (t, rest) ← tree? fuel cs
    match skip rest with
    | ',' :: rest =>
      let (ts, rest) ← items? fuel rest
      return (t :: ts, rest)
    | ']' :: rest => return ([t], rest)
    | _ => none

/-- The members of an object up to the closing brace. -/
def members? : Nat → List Char → Option (List (Option String × Tree) × List Char)
  | 0, _ => none
  | fuel + 1, cs =>
    match skip cs with
    | '"' :: rest => do
      let (name, rest) ← string? rest
      let ':' :: rest := skip rest | none
      let (t, rest) ← tree? fuel rest
      match skip rest with
      | ',' :: rest =>
        let (ts, rest) ← members? fuel rest
        return ((name, t) :: ts, rest)
      | '\x7d' :: rest => return ([(name, t)], rest)
      | _ => none
    | _ => none
end

/-- The tree at the front of a text and what follows it. -/
def front? (text : String) : Option (Tree × List Char) :=
  tree? (2 * text.length + 2) text.toList

/-- The tree of a whole text. -/
def parse? (text : String) : Option Tree := do
  let (t, rest) ← front? text
  if (skip rest).isEmpty then some t else none

/-- The value of a text. -/
def parseValue? (text : String) : Option Value := do
  (← parse? text).value? maxNesting

/-- Reads a record from a text. The record is read before what follows it is looked at. -/
def readText {α : Type} (read : Tree → Reading α) (text : String) : Reading α := do
  let (t, rest) ← Reading.ofOption (front? text)
  let record ← read t
  if (skip rest).isEmpty then return record else throw .malformed

mutual
/-- Makes every text that holds the mark unreadable. -/
def unmark (mark : Char) : Tree → Tree
  | .text (some s) => .text (if s.toList.contains mark then none else some s)
  | .array items => .array (unmarkItems mark items)
  | .object members => .object (unmarkMembers mark members)
  | t => t

def unmarkItems (mark : Char) : List Tree → List Tree
  | [] => []
  | t :: ts => unmark mark t :: unmarkItems mark ts

def unmarkMembers (mark : Char) : List (Option String × Tree) → List (Option String × Tree)
  | [] => []
  | (name, t) :: ts =>
    (name.filter (!·.toList.contains mark), unmark mark t) :: unmarkMembers mark ts
end

/-- A character from the end of the last plane that the text does not hold. -/
def freshMark (text : String) : Char :=
  ((List.range 0xFFFE).map fun n => Char.ofNat (0x10FFFD - n)).find?
    (!text.toList.contains ·) |>.getD '\uFFFD'

/-- Reads a record from bytes. Ill-formed bytes make the string around them
unreadable and are a fault anywhere else. -/
def readBytes {α : Type} (read : Tree → Reading α) (bytes : List UInt8) : Reading α :=
  match Utf8.decode? bytes with
  | some text => readText read text
  | none =>
    let mark := freshMark (Utf8.decodeLossy bytes)
    readText (fun t => read (unmark mark t)) (Utf8.decodeMarked mark bytes)

end CertEnrollment.Json
