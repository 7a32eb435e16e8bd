/-!
# UTF-8

Encoding, and a decoder that reads one byte at a time and marks every maximal
ill-formed piece as one unreadable place. The strict decoder refuses such a
place, the tolerant one puts the replacement character there.
-/
namespace CertEnrollment.Utf8

/-- The bytes of a text. -/
def encode (s : String) : List UInt8 := s.toList.flatMap String.utf8EncodeChar

/-- A character under way: the bits so far, how many bytes are still due, and the
bounds for the next one. -/
structure Pending where
  bits : Nat
  due : Nat
  low : UInt8
  high : UInt8

/-- What a byte at the start of a character says: a whole character, nothing
readable, or a character with more bytes due. -/
def start (b : UInt8) : List (Option Char) × Option Pending :=
  let n := b.toNat
  if n < 0x80 then ([some (Char.ofNat n)], none)
  else if 0xC2 ≤ n && n ≤ 0xDF then ([], some ⟨n - 0xC0, 1, 0x80, 0xBF⟩)
  else if n == 0xE0 then ([], some ⟨0, 2, 0xA0, 0xBF⟩)
  else if n == 0xED then ([], some ⟨0xD, 2, 0x80, 0x9F⟩)
  else if 0xE1 ≤ n && n ≤ 0xEF then ([], some ⟨n - 0xE0, 2, 0x80, 0xBF⟩)
  else if n == 0xF0 then ([], some ⟨0, 3, 0x90, 0xBF⟩)
  else if n == 0xF4 then ([], some ⟨4, 3, 0x80, 0x8F⟩)
  else if 0xF1 ≤ n && n ≤ 0xF3 then ([], some ⟨n - 0xF0, 3, 0x80, 0xBF⟩)
  else ([none], none)

/-- One more byte: the places it completes, and what is then under way. A byte out
of bounds ends the character under way as unreadable and starts afresh. -/
def advance (pending : Option Pending) (b : UInt8) : List (Option Char) × Option Pending :=
  match pending with
  | none => start b
  | some p =>
    if p.low ≤ b && b ≤ p.high then
      let bits := p.bits * 64 + (b.toNat - 0x80)
      if p.due = 1 then ([some (Char.ofNat bits)], none)
      else ([], some ⟨bits, p.due - 1, 0x80, 0xBF⟩)
    else (none :: (start b).1, (start b).2)

/-- The characters of the bytes, `none` for each unreadable piece. -/
def places (pending : Option Pending) : List UInt8 → List (Option Char)
  | [] => if pending.isSome then [none] else []
  | b :: bs => (advance pending b).1 ++ places (advance pending b).2 bs

/-- The text of the bytes, when they are well-formed. -/
def decode? (bytes : List UInt8) : Option String :=
  ((places none bytes).mapM id).map String.ofList

/-- The text of the bytes with U+FFFD for each unreadable piece. -/
def decodeLossy (bytes : List UInt8) : String :=
  String.ofList ((places none bytes).map (·.getD '\uFFFD'))

/-- The text of the bytes with `mark` for each unreadable piece. -/
def decodeMarked (mark : Char) (bytes : List UInt8) : String :=
  String.ofList ((places none bytes).map (·.getD mark))

end CertEnrollment.Utf8
