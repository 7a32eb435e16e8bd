import CertEnrollment.Data.SortedMap
import CertEnrollment.Decimal.Double

/-!
# Values

The values that records are made of. An object built from members by `ofMembers` lists
them in the order of their names, each name once; a record that is only written lists
its fields in an order of its own. Integers and doubles are different numbers, also when
they stand for the same quantity.
-/
namespace CertEnrollment.Data
open Decimal (Double)

/-- The least integer of 64 bits with a sign. -/
def leastInt : Int := -Int.ofNat (Nat.pow 2 63)

/-- The greatest integer of 64 bits with a sign. -/
def greatestInt : Int := Int.ofNat (Nat.pow 2 63) - 1

inductive Number where
  /-- An integer from `-2 ^ 63` to `2 ^ 64 - 1`. -/
  | int (value : Int)
  | double (value : Double)
  deriving DecidableEq, Repr, Inhabited

/-- Equality of numbers: the two zeros among the doubles are equal. -/
def Number.same : Number → Number → Bool
  | .int a, .int b => a == b
  | .double a, .double b => a.same b
  | _, _ => false

inductive Value where
  | null
  | bool (value : Bool)
  | number (value : Number)
  | text (value : String)
  | array (items : List Value)
  | object (members : List (String × Value))
  deriving Repr, Inhabited

namespace Value

mutual
/-- Equality of values, member by member. -/
def same : Value → Value → Bool
  | null, null => true
  | bool a, bool b => a == b
  | number a, number b => a.same b
  | text a, text b => a == b
  | array xs, array ys => sameItems xs ys
  | object xs, object ys => sameMembers xs ys
  | _, _ => false

def sameItems : List Value → List Value → Bool
  | [], [] => true
  | x :: xs, y :: ys => same x y && sameItems xs ys
  | _, _ => false

def sameMembers : List (String × Value) → List (String × Value) → Bool
  | [], [] => true
  | (k, x) :: xs, (l, y) :: ys => k == l && same x y && sameMembers xs ys
  | _, _ => false
end

/-- The object with these members; of two with the same name the later one counts. -/
def ofMembers (members : List (String × Value)) : Value :=
  .object (members.foldl (fun kept m => insertEntry m.1 m.2 kept) [])

/-- The object that a map spells out. -/
def ofMap {β : Type} (f : β → Value) (m : SortedMap β) : Value :=
  .object (m.entries.map fun e => (e.1, f e.2))

/-- The value or, in its absence, null. -/
def ofOption {β : Type} (f : β → Value) : Option β → Value
  | none => .null
  | some x => f x

def ofNat (n : Nat) : Value := .number (.int n)

/-- The member of that name, if the value is an object and has one. -/
def member? (name : String) : Value → Option Value
  | .object members => members.lookup name
  | _ => none

def bool? : Value → Option Bool
  | .bool b => some b
  | _ => none

def text? : Value → Option String
  | .text s => some s
  | _ => none

end Value
end CertEnrollment.Data
