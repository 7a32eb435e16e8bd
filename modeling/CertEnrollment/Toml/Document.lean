import CertEnrollment.Toml.Scalar
import CertEnrollment.Toml.Table

/-!
# Documents of TOML

Reads a document into the tree of its root table. The members of a table are in the
order in which they were first defined.
-/
namespace CertEnrollment.Toml
open Scanner Data

/-! ## Values -/

/-- An array of values; a comma may follow the last one. -/
def array (item : Reader Tree) : Reader Tree := do
  exactly ['[']
  let one : Reader Tree := do
    gap
    let t ← item
    gap
    return t
  let items ← optional do
    let items ← separated one (exactly [','])
    let _ ← optional (exactly [','])
    return items
  gap
  exactly [']']
  return .array (items.getD [])

/-- An inline table of values. -/
def inlineTable (item : Reader Tree) : Reader Tree := do
  exactly ['\x7b']
  let pair : Reader (List String × Tree) := do
    let path ← key
    exactly ['=']
    blanks
    let t ← item
    blanks
    return (path, t)
  let pairs ← optional (separated pair (exactly [',']))
  blanks
  exactly ['\x7d']
  let add (members : Members) (pair : List String × Tree) : Option Members :=
    members.put (.value pair.2) pair.1
  match (pairs.getD []).foldlM add [] with
  | none => failure
  | some members => return .object (membersTree members)

/-- A value with at most so many arrays and inline tables around each other. -/
def value : Nat → Reader Tree
  | 0 => scalar
  | room + 1 => scalar <|> array (value room) <|> inlineTable (value room)

/-! ## Lines -/

inductive Line where
  | table (path : List String)
  | row (path : List String)
  | pair (path : List String) (t : Tree)
  | empty

def line : Reader Line :=
  (do comment; lineFeed <|> atEnd; return .empty) <|>
  (do lineFeed; return .empty) <|>
  (do
    exactly ['[', '[']
    let path ← key
    exactly [']', ']']
    lineRest
    return .row path) <|>
  (do
    exactly ['[']
    let path ← key
    exactly [']']
    lineRest
    return .table path) <|>
  (do
    let path ← key
    exactly ['=']
    blanks
    let t ← value maxDepth
    lineRest
    return .pair path t)

/-- Adds a line to the document. -/
def Draft.add (d : Draft) : Line → Option Draft
  | .table path => d.openTable path
  | .row path => d.openRow path
  | .pair path t => d.put path t
  | .empty => some d

/-- All lines of a document, which may start with a byte order mark. -/
def lines : Reader (List Line) := do
  let _ ← optional (exactly ['\uFEFF'])
  blanks
  whole <| many do
    let l ← line
    blanks
    return l

/-- The tree of a document. -/
def parse? (text : String) : Option Tree := do
  let (ls, _) ← lines text.toList
  let d ← ls.foldlM Draft.add Draft.empty
  return .object (membersTree (← d.close))

end CertEnrollment.Toml
