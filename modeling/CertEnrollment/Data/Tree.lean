import CertEnrollment.Data.Value

/-!
# Trees as read

What a document spells out before anyone asks for a value: members stand in the
order of the document, names may repeat, and a leaf that spells no value, such as a
number out of range, is kept as `none` because it does no harm where nobody looks.
A tree becomes a value only within a bound on its nesting.
-/
namespace CertEnrollment.Data

inductive Tree where
  | null
  | bool (value : Bool)
  | number (value : Option Number)
  | text (value : Option String)
  | array (items : List Tree)
  | object (members : List (Option String × Tree))
  deriving Inhabited

mutual
/-- The value of a tree with at most `room` nested arrays and objects. -/
def Tree.value? (room : Nat) : Tree → Option Value
  | .null => some .null
  | .bool b => some (.bool b)
  | .number n => n.map .number
  | .text s => s.map .text
  | .array items =>
    if room = 0 then none else (Tree.values? (room - 1) items).map .array
  | .object members =>
    if room = 0 then none else (Tree.members? (room - 1) members).map .ofMembers

def Tree.values? (room : Nat) : List Tree → Option (List Value)
  | [] => some []
  | t :: ts =>
    match Tree.value? room t, Tree.values? room ts with
    | some v, some vs => some (v :: vs)
    | _, _ => none

def Tree.members? (room : Nat) : List (Option String × Tree) → Option (List (String × Value))
  | [] => some []
  | (name, t) :: ts =>
    match name, Tree.value? room t, Tree.members? room ts with
    | some name, some v, some vs => some ((name, v) :: vs)
    | _, _, _ => none
end

mutual
/-- The tree that spells a value. -/
def Value.tree : Value → Tree
  | .null => .null
  | .bool b => .bool b
  | .number n => .number (some n)
  | .text s => .text (some s)
  | .array items => .array (Value.treeItems items)
  | .object members => .object (Value.treeMembers members)

def Value.treeItems : List Value → List Tree
  | [] => []
  | v :: vs => v.tree :: Value.treeItems vs

def Value.treeMembers : List (String × Value) → List (Option String × Tree)
  | [] => []
  | (name, v) :: vs => (some name, v.tree) :: Value.treeMembers vs
end

end CertEnrollment.Data
