import CertEnrollment.Scanner

/-!
# DER elements

Elements of the distinguished encoding: a header with tag and length, then the content.
A reader takes an element from the front of the bytes and says what is left; a reader
that runs on the content of an element may leave some of it unread.
-/
namespace CertEnrollment.Der

open Scanner

/-- A scanner of bytes. -/
abbrev Reader (α : Type) := Scanner UInt8 α

structure Header where
  /-- Universal, application, context or private, as the two bits say. -/
  kind : Nat
  constructed : Bool
  number : Nat
  length : Nat
  deriving DecidableEq, Repr

structure Element where
  header : Header
  content : List UInt8
  deriving DecidableEq, Repr

namespace Tag
def boolean : Nat := 1
def integer : Nat := 2
def bitString : Nat := 3
def octetString : Nat := 4
def identifier : Nat := 6
def utf8Text : Nat := 12
def sequence : Nat := 16
def set : Nat := 17
def numericText : Nat := 18
def printableText : Nat := 19
def teletexText : Nat := 20
def asciiText : Nat := 22
def utcTime : Nat := 23
def generalizedTime : Nat := 24
end Tag

/-! ## Headers -/

/-- A tag number in groups of seven bits, of which there may be so many. It is counted
modulo `2 ^ 32`. -/
def longNumber : Nat → Nat → Reader Nat
  | 0, _ => failure
  | groups + 1, n => do
    let b ← next
    let n := (n * 128 + b.toNat % 128) % Nat.pow 2 32
    if b.toNat < 128 then return n else longNumber groups n

/-- The number that bytes spell, the highest one first. -/
def unsigned (bytes : List UInt8) : Nat := bytes.foldl (fun n b => n * 256 + b.toNat) 0

/-- A length: one byte, or as many as the first byte says. There is none that is left
open. -/
def length : Reader Nat := do
  let b ← next
  let n := b.toNat
  if n < 128 then return n
  else if n = 128 ∨ n = 255 then failure
  else
    let l := unsigned (← take (n - 128))
    if l < Nat.pow 2 64 then return l else failure

def header : Reader Header := do
  let b ← next
  let n := b.toNat
  let number ← if n % 32 = 31 then longNumber 5 0 else pure (n % 32)
  return ⟨n / 64, n / 32 % 2 = 1, number, ← length⟩

def element : Reader Element := do
  let h ← header
  return ⟨h, ← take h.length⟩

/-! ## Reading content -/

/-- Runs a reader on the content of an element with this tag number. -/
def within {α : Type} (number : Nat) (read : Reader α) : Reader α := do
  let e ← element
  if e.header.number = number then
    match read e.content with
    | some (a, _) => return a
    | none => failure
  else failure

def sequence {α : Type} (read : Reader α) : Reader α := within Tag.sequence read

/-- Reads an element if the bytes go on. -/
def ifAny {α : Type} (read : Reader α) : Reader (Option α) := fun bytes =>
  if bytes.isEmpty then some (none, bytes) else (some <$> read : Reader (Option α)) bytes

/-- The content of an element that has this tag number and no elements inside. -/
def primitive (number : Nat) : Reader (List UInt8) := do
  let e ← element
  if e.header.number = number ∧ ¬ e.header.constructed then return e.content else failure

/-- An object identifier, as its bytes. -/
def identifier : Reader (List UInt8) := primitive Tag.identifier

/-- A truth value, with any byte but zero for true. -/
def boolean : Reader Bool := do
  let e ← element
  match e.content with
  | [b] => if e.header.number = Tag.boolean then return b ≠ 0 else failure
  | _ => failure

/-- A natural number of at most so many bits, without needless bytes. -/
def natural (bits : Nat) : Reader Nat := do
  let content ← primitive Tag.integer
  let fits : Bool := match content with
    | [] => false
    | [b] => b < 128
    | b :: c :: _ => b < 128 && (b != 0 || 128 ≤ c)
  let n := unsigned content
  if fits ∧ n < Nat.pow 2 bits then return n else failure

/-- How many low bits of a byte are zero. -/
def trailingZeros (b : UInt8) : Nat :=
  ((List.range 8).takeWhile fun i => !b.toNat.testBit i).length

/-- A bit string, as its bytes. The first byte counts the unused bits at the end, which
have to be zero. -/
def bitString : Reader (List UInt8) := do
  match ← primitive Tag.bitString with
  | [] => failure
  | unused :: bits =>
    match bits.getLast? with
    | none => if unused = 0 then return [] else failure
    | some last => if unused.toNat ≤ trailingZeros last then return bits else failure

def octetString : Reader (List UInt8) := primitive Tag.octetString

end CertEnrollment.Der
