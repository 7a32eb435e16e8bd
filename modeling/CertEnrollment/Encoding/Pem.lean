import CertEnrollment.Encoding.Base64
import CertEnrollment.Text.Blank
import CertEnrollment.Text.Pieces

/-!
# PEM blocks

Bytes as text between a line that begins a block and one that ends it. The reader takes
the first block of a text and passes over everything around it; a fault in that block is
not made good by a later one. Headers are checked and dropped.
-/
namespace CertEnrollment.Pem
open Text

/-- The bytes of a block with the tag that says what they are. -/
structure Block where
  tag : String
  bytes : List UInt8
  deriving DecidableEq, Repr

def beginMark : List Char := "-----BEGIN ".toList
def endMark : List Char := "-----END ".toList
def dashes : List Char := "-----".toList

/-! ## Reading -/

/-- What may stand between the first line and the payload. -/
def isPadding (c : Char) : Bool := c == ' ' || c == '\t' || c == '\n' || c == '\r'

/-- Cuts a payload at its first blank line into headers and data. Without a blank line
all of it is data. -/
def splitHeaders (payload : List Char) : List Char × List Char :=
  match cutAtWord ['\n', '\n'] payload with
  | some parts => parts
  | none => match cutAtWord ['\r', '\n', '\r', '\n'] payload with
    | some parts => parts
    | none => ([], payload)

/-- Every line of the headers has a colon. -/
def headersFit (headers : List Char) : Bool :=
  headers.isEmpty || (splitAt '\n' headers).all (·.contains ':')

/-- The bytes of a payload. -/
def payloadBytes? (payload : List Char) : Option (List UInt8) :=
  let (headers, data) := splitHeaders payload
  if headersFit headers then Base64.decode? (data.filter fun c => !isBlank c) else none

/-- The first block of a text. -/
def Block.first? (text : List Char) : Option Block := do
  let (_, afterBegin) ← cutAtWord beginMark text
  let (tag, afterTag) ← cutAtWord dashes afterBegin
  let (payload, afterEnd) ← cutAtWord endMark (afterTag.dropWhile isPadding)
  let (closing, _) ← cutAtWord dashes afterEnd
  if tag = [] ∨ closing ≠ tag then none
  else
    let bytes ← payloadBytes? payload
    return ⟨String.ofList tag, bytes⟩

/-! ## Writing -/

/-- Pieces of 64 characters, the last one maybe shorter. -/
def rows (cs : List Char) : List (List Char) :=
  if cs = [] then [] else cs.take 64 :: rows (cs.drop 64)
termination_by cs.length
decreasing_by
  have := List.length_pos_iff.mpr ‹_›
  simp only [List.length_drop]
  omega

def lineEnd : List Char := ['\r', '\n']

def Block.chars (b : Block) : List Char :=
  beginMark ++ b.tag.toList ++ dashes ++ lineEnd ++
    (rows (Base64.encodeBytes b.bytes)).flatMap (· ++ lineEnd) ++
    endMark ++ b.tag.toList ++ dashes ++ lineEnd

/-- The block with rows of 64 signs. -/
def Block.text (b : Block) : String := String.ofList b.chars

end CertEnrollment.Pem
