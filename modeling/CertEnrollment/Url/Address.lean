import CertEnrollment.Text.Digits
import CertEnrollment.Text.Pieces

/-!
# Numeric host addresses

The two kinds of numeric hosts in URLs. An address of version 4 may have fewer than
four parts, the last one filling the remaining bytes, each in decimal, octal or
hexadecimal notation. An address of version 6 is written with its longest run of at
least two zero pieces left out.
-/
namespace CertEnrollment.Url
open Text

/-- One part of an address of version 4: `0x` starts hexadecimal, `0` octal notation. -/
def ipv4Part? : List Char → Option Nat
  | [] => none
  | '0' :: 'x' :: digits => numberIn? 16 digits
  | '0' :: 'X' :: digits => numberIn? 16 digits
  | '0' :: d :: digits => numberIn? 8 (d :: digits)
  | digits => numberIn? 10 digits

/-- The parts of a name between dots, without an empty one at the end. -/
def dottedParts (name : List Char) : List (List Char) :=
  let parts := splitAt '.' name
  if parts.length > 1 ∧ parts.getLast? = some [] then parts.dropLast else parts

/-- A name whose last part is a number has to be an address of version 4. -/
def endsInNumber (name : List Char) : Bool :=
  match (dottedParts name).getLast? with
  | none => false
  | some part => (!part.isEmpty && part.all Char.isDigit) || (ipv4Part? part).isSome

/-- The 32 bits of an address of version 4. -/
def ipv4? (name : List Char) : Option Nat := do
  let numbers ← (dottedParts name).mapM ipv4Part?
  if numbers.length > 4 then failure
  let last ← numbers.getLast?
  let front := numbers.dropLast
  if front.any (· > 255) ∨ last ≥ Nat.pow 256 (4 - front.length) then failure
  return (front.zipIdx.map fun (n, i) => n * Nat.pow 256 (3 - i)).foldl (· + ·) last

def writeIpv4 (n : Nat) : List Char :=
  ['.'].intercalate ([24, 16, 8, 0].map fun shift => Nat.toDigits 10 (n / Nat.pow 2 shift % 256))

/-- A piece of an address of version 6: one to four hexadecimal digits. -/
def piece? (cs : List Char) : Option Nat :=
  if cs.isEmpty ∨ cs.length > 4 then none else numberIn? 16 cs

/-- A byte in decimal without leading zeros. -/
def byte? (cs : List Char) : Option Nat := do
  if cs.isEmpty ∨ (cs.length > 1 ∧ cs.head? = some '0') ∨ !cs.all Char.isDigit then failure
  let n ← numberIn? 10 cs
  if n < 256 then some n else none

/-- The pieces between colons; the last one may be an address of version 4 in full,
which makes two pieces. -/
def pieces? (final : Bool) : List (List Char) → Option (List Nat)
  | [] => some []
  | [p] =>
    if final ∧ p.contains '.' then do
      let [a, b, c, d] ← (splitAt '.' p).mapM byte? | failure
      return [a * 256 + b, c * 256 + d]
    else (piece? p).map ([·])
  | p :: ps => do return (← piece? p) :: (← pieces? final ps)

/-- The pieces of one side of a double colon, or of a whole address. -/
def side? (final : Bool) (cs : List Char) : Option (List Nat) :=
  if cs.isEmpty then some [] else pieces? final (splitAt ':' cs)

/-- The eight pieces of an address of version 6; one double colon stands for one or
more zero pieces. -/
def ipv6? (cs : List Char) : Option (List Nat) :=
  match cutAtWord [':', ':'] cs with
  | none => do
    let pieces ← pieces? true (splitAt ':' cs)
    if pieces.length = 8 then some pieces else none
  | some (before, after) => do
    if (cutAtWord [':', ':'] after).isSome then failure
    let front ← side? false before
    let back ← side? true after
    if front.length + back.length > 7 then failure
    return front ++ List.replicate (8 - front.length - back.length) 0 ++ back

/-- How many zeros a list starts with. -/
def zerosAhead (ns : List Nat) : Nat := (ns.takeWhile (· == 0)).length

/-- Start and length of the first longest run of zeros. -/
def longestZeros (pieces : List Nat) : Nat × Nat :=
  ((List.range pieces.length).map fun i => (i, zerosAhead (pieces.drop i))).foldl
    (fun best run => if best.2 < run.2 then run else best) (0, 0)

def writePieces (pieces : List Nat) : List Char :=
  [':'].intercalate (pieces.map (Nat.toDigits 16 ·))

def writeIpv6 (pieces : List Nat) : List Char :=
  let (start, length) := longestZeros pieces
  if length < 2 then writePieces pieces
  else writePieces (pieces.take start) ++ ':' :: ':' :: writePieces (pieces.drop (start + length))

end CertEnrollment.Url
