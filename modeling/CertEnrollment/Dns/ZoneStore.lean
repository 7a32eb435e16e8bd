import CertEnrollment.Dns.Error
import CertEnrollment.Interaction
import CertEnrollment.Json.Reader
import CertEnrollment.Json.Writer
import CertEnrollment.Store.Hash
import CertEnrollment.Text.Blank
import CertEnrollment.Text.Lowercase

/-!
# Zones in a hash store

The layout that the name server reads: a hash per zone and branch, named with a dot at
the end; in it a field per first label, holding a JSON object from record types to lists
of records. Names are in lowercase. New records stand before the earlier ones of their
type, and no record stands twice.
-/
namespace CertEnrollment.Dns
open Data Store

/-- A zone served from a hash store. -/
structure ZoneStore where
  zone : String
  deriving DecidableEq, Repr

/-- Interactions with a hash store that may fail. -/
abbrev StoreAction := ExceptT Error (Interaction HashAsk HashAsk.Answer)

/-- The records of one field by type. -/
abbrev RecordMap := SortedMap (List Value)

namespace RecordMap

/-- How many nested arrays and objects a record may have, inside the two of the map. -/
def recordNesting : Nat := 125

def readRecord (t : Tree) : Reading Value := .ofOption (t.value? recordNesting)

/-- The records that a stored text spells. -/
def ofText (text : String) : Reading RecordMap :=
  Json.readText (Tree.asMap (Tree.asList readRecord)) text

/-- The text that is stored for records. -/
def text (m : RecordMap) : String := Json.write (.ofMap .array m)

/-- Appends the earlier records that do not yet stand in the list. -/
def merge (records : List Value) (earlier : List Value) : List Value :=
  earlier.foldl (fun kept r => if kept.any (·.same r) then kept else kept ++ [r]) records

end RecordMap

namespace ZoneStore

/-- The store of a zone, whose name is trimmed. -/
def ofZone (zone : String) : ZoneStore := ⟨Text.trim zone⟩

/-- The name of the hash for a branch of the zone. -/
def hashKey (z : ZoneStore) (branch : String) : String :=
  let name := if branch.isEmpty then z.zone else branch ++ "." ++ z.zone
  Text.lowercase (if name.toList.getLast? = some '.' then name else name ++ ".")

/-- The name of the field for a first label. -/
def fieldName (subdomain : String) : String := Text.lowercase subdomain

/-- Reads a field. A failure of the store is an error of the zone store, here and below. -/
def getField (key field : String) : StoreAction (Option String) :=
  ExceptT.mk (.ask (.get key field) fun r => .done (r.mapError .store))

def setField (key field value : String) : StoreAction Unit :=
  ExceptT.mk (.ask (.set key field value) fun r => .done (r.mapError .store))

def deleteField (key field : String) : StoreAction Unit :=
  ExceptT.mk (.ask (.delete key field) fun r => .done (r.mapError .store))

/-- The records of a field; an absent field has none. -/
def records (key field : String) : StoreAction RecordMap := do
  match ← getField key field with
  | none => return .empty
  | some text => match RecordMap.ofText text with
    | .ok m => return m
    | .error e => throw (.json e)

/-- Puts records of one type in front of the earlier ones. -/
def create (z : ZoneStore) (subdomain branch type : String) (new : List Value) :
    StoreAction Unit := do
  let key := z.hashKey branch
  let field := fieldName subdomain
  let m ← records key field
  let merged := RecordMap.merge new ((m.get? type).getD [])
  setField key field (RecordMap.text (m.insert type merged))

/-- Removes all records of one type. Without any, nothing is written; a field that is
left without records is removed. -/
def delete (z : ZoneStore) (subdomain branch type : String) : StoreAction Unit := do
  let key := z.hashKey branch
  let field := fieldName subdomain
  let m ← records key field
  if (m.get? type).isNone then return
  let rest := m.erase type
  if rest.isEmpty then deleteField key field else setField key field (RecordMap.text rest)

/-- The record of a CNAME. -/
def cnameRecord (target : String) : Value := .ofMembers [("host", .text target)]

def createCname (z : ZoneStore) (subdomain branch target : String) : StoreAction Unit :=
  z.create subdomain branch "cname" [cnameRecord target]

def deleteCname (z : ZoneStore) (subdomain branch : String) : StoreAction Unit :=
  z.delete subdomain branch "cname"

end ZoneStore
end CertEnrollment.Dns
