import CertEnrollment.Data.Tree

/-!
# Tables under construction

A table is filled from several places of a document: by a header of its own, by headers
of tables inside it, and by keys with dots. What may still be added to it depends on how
it came to be. A name is never defined twice.
-/
namespace CertEnrollment.Toml
open Data

/-- How a table came to be. -/
inductive Making where
  /-- By its own header, or as an inline table. -/
  | header
  /-- By the header of a table inside it. -/
  | implied
  /-- By a key with dots. -/
  | dotted
  deriving DecidableEq, Repr

inductive Item where
  /-- A value, to which nothing is added. -/
  | value (t : Tree)
  | table (making : Making) (members : List (String × Item))
  /-- An array of tables, each of which has a header. -/
  | tables (rows : List (List (String × Item)))

abbrev Members := List (String × Item)

mutual
def Item.tree : Item → Tree
  | .value t => t
  | .table _ members => .object (membersTree members)
  | .tables rows => .array (rowsTree rows)

def membersTree : List (String × Item) → List (Option String × Tree)
  | [] => []
  | (name, item) :: rest => (some name, item.tree) :: membersTree rest

def rowsTree : List (List (String × Item)) → List Tree
  | [] => []
  | members :: rest => .object (membersTree members) :: rowsTree rest
end

namespace Members

/-- Puts an item in the place of the one with this name, or at the end. -/
def replace (name : String) (item : Item) : Members → Members
  | [] => [(name, item)]
  | (n, i) :: rest => if n = name then (n, item) :: rest else (n, i) :: replace name item rest

/-- Adds a value under a key with dots. The tables on the way are made if there are
none; otherwise they must not have a header, and the last one has to be one that such a
key has made. -/
def put (value : Item) : List String → Members → Option Members
  | [], _ => none
  | [name], members => match members.lookup name with
    | none => some (members ++ [(name, value)])
    | some _ => none
  | name :: more, members => match members.lookup name with
    | none => do return members ++ [(name, .table .dotted (← put value more []))]
    | some (.table making inner) =>
      if making = .header ∨ (more.length = 1 ∧ making ≠ .dotted) then none
      else do return replace name (.table making (← put value more inner)) members
    | some (.tables rows) => match rows.getLast? with
      | none => none
      | some row =>
        if more.length = 1 then none
        else do return replace name (.tables (rows.dropLast ++ [← put value more row])) members
    | some (.value _) => none

/-- Does something to the members of the table at the end of a path of headers. The
tables on the way are made if there are none; in an array of tables the last one is
meant. -/
def descend {α : Type} (act : Members → Option (α × Members)) :
    List String → Members → Option (α × Members)
  | [], members => act members
  | name :: more, members => match members.lookup name with
    | none => do
      let (a, inner) ← descend act more []
      return (a, members ++ [(name, .table .implied inner)])
    | some (.table making inner) => do
      let (a, inner) ← descend act more inner
      return (a, replace name (.table making inner) members)
    | some (.tables rows) => match rows.getLast? with
      | none => none
      | some row => do
        let (a, row) ← descend act more row
        return (a, replace name (.tables (rows.dropLast ++ [row])) members)
    | some (.value _) => none

end Members

/-- The document so far and the table that its last header opened. -/
structure Draft where
  root : Members
  /-- The path of the open table; without a header it is the root itself. -/
  path : List String
  /-- Whether the open table is a row of an array of tables. -/
  isRow : Bool
  body : Members

namespace Draft

def empty : Draft := ⟨[], [], false, []⟩

/-- Adds the open table to the members of the table around it. -/
def attach (d : Draft) (name : String) (members : Members) : Option (Unit × Members) :=
  match members.lookup name with
  | none =>
    some ((), members ++ [(name, if d.isRow then .tables [d.body] else .table .header d.body)])
  | some (.tables rows) =>
    if d.isRow then some ((), members.replace name (.tables (rows ++ [d.body]))) else none
  | some _ => none

/-- The document with the open table in its place. -/
def close (d : Draft) : Option Members :=
  match d.path.getLast? with
  | none => some d.body
  | some name => (Members.descend (d.attach name) d.path.dropLast d.root).map (·.2)

/-- Opens the table of a header. One that is there already must be implied by the
headers of tables inside it, which it keeps. -/
def openTable (d : Draft) (path : List String) : Option Draft := do
  let root ← d.close
  let name ← path.getLast?
  let (body, root) ← root.descend (fun members => match members.lookup name with
    | none => some ([], members)
    | some (.table .implied inner) => some (inner, members.filter (·.1 ≠ name))
    | some _ => none) path.dropLast
  return ⟨root, path, false, body⟩

/-- Opens a new row of an array of tables. -/
def openRow (d : Draft) (path : List String) : Option Draft := do
  let root ← d.close
  let name ← path.getLast?
  let (_, root) ← root.descend (fun members => match members.lookup name with
    | none | some (.tables _) => some ((), members)
    | some _ => none) path.dropLast
  return ⟨root, path, true, []⟩

/-- Adds a value to the open table. -/
def put (d : Draft) (key : List String) (value : Tree) : Option Draft := do
  return { d with body := ← d.body.put (.value value) key }

end Draft
end CertEnrollment.Toml
