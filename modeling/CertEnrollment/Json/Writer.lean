import CertEnrollment.Data.Value
import CertEnrollment.Decimal.Shortest

/-!
# Writing JSON text

Compact text: no blanks, members in the order of the object, only what has to be
escaped is escaped.
-/
namespace CertEnrollment.Json
open Data

def hexDigit (n : Nat) : Char := Nat.digitChar n

/-- A character inside a string. -/
def writeChar (c : Char) : List Char :=
  match c with
  | '"' => ['\\', '"']
  | '\\' => ['\\', '\\']
  | '\x08' => ['\\', 'b']
  | '\x0c' => ['\\', 'f']
  | '\n' => ['\\', 'n']
  | '\r' => ['\\', 'r']
  | '\t' => ['\\', 't']
  | c =>
    if c.toNat < 0x20 then
      ['\\', 'u', '0', '0', hexDigit (c.toNat / 16), hexDigit (c.toNat % 16)]
    else [c]

def writeString (s : String) : List Char := '"' :: (s.toList.flatMap writeChar ++ ['"'])

def writeInt (n : Int) : List Char :=
  if n < 0 then '-' :: Nat.toDigits 10 n.natAbs else Nat.toDigits 10 n.natAbs

def writeNumber : Number → List Char
  | .int n => writeInt n
  | .double x => x.write

mutual
def writeValue : Value → List Char
  | .null => ['n', 'u', 'l', 'l']
  | .bool true => ['t', 'r', 'u', 'e']
  | .bool false => ['f', 'a', 'l', 's', 'e']
  | .number n => writeNumber n
  | .text s => writeString s
  | .array [] => ['[', ']']
  | .array (v :: vs) => '[' :: (writeValue v ++ writeItems vs)
  | .object [] => ['\x7b', '\x7d']
  | .object ((name, v) :: vs) =>
    '\x7b' :: (writeString name ++ ':' :: (writeValue v ++ writeMembers vs))

/-- The further items and the closing bracket. -/
def writeItems : List Value → List Char
  | [] => [']']
  | v :: vs => ',' :: (writeValue v ++ writeItems vs)

/-- The further members and the closing brace. -/
def writeMembers : List (String × Value) → List Char
  | [] => ['\x7d']
  | (name, v) :: vs =>
    ',' :: (writeString name ++ ':' :: (writeValue v ++ writeMembers vs))
end

/-- The compact text of a value. -/
def write (v : Value) : String := String.ofList (writeValue v)

end CertEnrollment.Json
