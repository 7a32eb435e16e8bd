import CertEnrollment.Text.Digits
import CertEnrollment.Text.Utf8

/-!
# Percent encoding

A character that may not stand in a part of a URL is written as the bytes of its
UTF-8 form, each as a percent sign and two hexadecimal digits. Every part has its own
set of such ASCII characters; outside ASCII all are encoded.
-/
namespace CertEnrollment.Url

def hexUpper (n : Nat) : Char := (Nat.digitChar n).toUpper

/-- A byte as percent sign and two digits. -/
def encodeByte (b : UInt8) : List Char :=
  ['%', hexUpper (b.toNat / 16), hexUpper (b.toNat % 16)]

/-- Encodes one character if it is outside ASCII or in the set. -/
def encodeChar (reserved : Char → Bool) (c : Char) : List Char :=
  if c.toNat < 0x80 ∧ reserved c = false then [c]
  else (String.utf8EncodeChar c).flatMap encodeByte

def percentEncode (reserved : Char → Bool) (cs : List Char) : List Char :=
  cs.flatMap (encodeChar reserved)

def isControl (c : Char) : Bool := c.toNat < 0x20 || c.toNat == 0x7F

def inFragmentSet (c : Char) : Bool := isControl c || [' ', '"', '<', '>', '\x60'].contains c

def inPathSet (c : Char) : Bool := inFragmentSet c || ['#', '?', '\x7b', '\x7d'].contains c

def inUserinfoSet (c : Char) : Bool :=
  inPathSet c || ['/', ':', ';', '=', '@', '[', '\\', ']', '^', '|'].contains c

/-- The set of a query; a special scheme adds the apostrophe. -/
def inQuerySet (special : Bool) (c : Char) : Bool :=
  isControl c || [' ', '"', '#', '<', '>'].contains c || (special && c == '\'')

/-- The value of a hexadecimal digit. -/
def hexDigit? (b : UInt8) : Option Nat := Text.digitIn? 16 (Char.ofNat b.toNat)

/-- The bytes that an encoded text stands for. A percent sign without two digits
after it stands for itself. -/
def percentDecodeBytes : List UInt8 → List UInt8
  | [] => []
  | b :: c :: d :: rest =>
    if b = 0x25 then
      match hexDigit? c, hexDigit? d with
      | some h, some l => UInt8.ofNat (h * 16 + l) :: percentDecodeBytes rest
      | _, _ => b :: percentDecodeBytes (c :: d :: rest)
    else b :: percentDecodeBytes (c :: d :: rest)
  | b :: rest => b :: percentDecodeBytes rest

def percentDecode (s : String) : List UInt8 := percentDecodeBytes (Utf8.encode s)

end CertEnrollment.Url
