import CertEnrollment.Data.Tree

/-!
# Reading records

A record is read from an object, or from an array of its fields in their order.
Fields that the record does not know are passed over without a look at their value.
The first fault in document order is reported; only when there is none, a missing
field is, the first one in the order of the record.
-/
namespace CertEnrollment.Data

inductive ReadError where
  /-- The document or one of its values has not the expected form. -/
  | malformed
  /-- Everything present is fine, but a required field is absent. -/
  | missing (field : String)
  deriving DecidableEq, Repr

def ReadError.message : ReadError → String
  | .malformed => "unexpected form"
  | .missing field => "missing field `" ++ field ++ "`"

abbrev Reading (α : Type) := Except ReadError α

/-- What was found, or else a fault of form. -/
def Reading.ofOption {α : Type} : Option α → Reading α
  | some a => .ok a
  | none => .error .malformed

namespace Tree

def asText : Tree → Reading String
  | .text s => .ofOption s
  | _ => .error .malformed

def asBool : Tree → Reading Bool
  | .bool b => .ok b
  | _ => .error .malformed

/-- An integer within bounds. -/
def asInt (low high : Int) : Tree → Reading Int
  | .number (some (.int n)) => if low ≤ n ∧ n ≤ high then .ok n else .error .malformed
  | _ => .error .malformed

/-- A natural number of at most so many bits. -/
def asNat (bits : Nat) (t : Tree) : Reading Nat :=
  (t.asInt 0 (Int.ofNat (Nat.pow 2 bits - 1))).map Int.toNat

/-- Null or a value. -/
def asOption {α : Type} (read : Tree → Reading α) : Tree → Reading (Option α)
  | .null => .ok none
  | t => (read t).map some

def asList {α : Type} (read : Tree → Reading α) : Tree → Reading (List α)
  | .array items => items.mapM read
  | _ => .error .malformed

/-- An object as a map; of two members with the same name the later one counts, but
both have to be readable. -/
def asMap {β : Type} (read : Tree → Reading β) : Tree → Reading (SortedMap β)
  | .object members => do
    let entries ← members.mapM fun (name, t) => do
      let name ← Reading.ofOption name
      return (name, ← read t)
    return .ofList entries
  | _ => .error .malformed

end Tree

/-- A field of a record: its name and what its value has to satisfy. -/
structure Field where
  name : String
  check : Tree → Reading Unit

/-- The field whose value `read` reads. -/
def field {α : Type} (name : String) (read : Tree → Reading α) : Field :=
  ⟨name, fun t => (read t).map fun _ => ()⟩

/-- The fields found, by name or by position. -/
structure Row where
  byName : Bool
  cells : List (String × Tree)

/-- Collects the known members of an object in document order. A known name that
repeats is a fault, an unreadable name too. -/
def Row.collect (fields : List Field) (seen : List (String × Tree)) :
    List (Option String × Tree) → Reading (List (String × Tree))
  | [] => .ok seen
  | (none, _) :: _ => .error .malformed
  | (some name, t) :: rest =>
    match fields.find? (·.name == name) with
    | none => collect fields seen rest
    | some f =>
      if (seen.lookup name).isSome then .error .malformed
      else match f.check t with
        | .error e => .error e
        | .ok _ => collect fields (seen ++ [(name, t)]) rest

/-- Pairs the items of an array with the fields. Items beyond the last field are a
fault unless `spare` allows them. -/
def Row.align (spare : Bool) : List Field → List Tree → Reading (List (String × Tree))
  | _, [] => .ok []
  | [], _ :: _ => if spare then .ok [] else .error .malformed
  | f :: fields, t :: items => do
    f.check t
    return (f.name, t) :: (← align spare fields items)

/-- The fields of a record; the checks run in document order. -/
def Row.read (spare : Bool) (fields : List Field) : Tree → Reading Row
  | .object members => (collect fields [] members).map (⟨true, ·⟩)
  | .array items => (align spare fields items).map (⟨false, ·⟩)
  | _ => .error .malformed

/-- A field that has to be there. In an array its absence is a fault of form. -/
def Row.required {α : Type} (row : Row) (name : String) (read : Tree → Reading α) : Reading α :=
  match row.cells.lookup name with
  | some t => read t
  | none => .error (if row.byName then .missing name else .malformed)

/-- A field that may be absent. -/
def Row.optional {α : Type} (row : Row) (name : String) (read : Tree → Reading α)
    (absent : α) : Reading α :=
  match row.cells.lookup name with
  | some t => read t
  | none => .ok absent

end CertEnrollment.Data
