import CertEnrollment.Dns.Error
import CertEnrollment.Dns.Options
import CertEnrollment.Http
import CertEnrollment.Interaction
import CertEnrollment.Json.Reader
import CertEnrollment.Json.Writer

/-!
# Zones at a hosted provider

The records of a zone are changed through the provider's web interface. Records are
found by listing the zone page by page; the listing ends at a page that names no later
one, so it ends after finitely many pages whatever the provider answers.
-/
namespace CertEnrollment.Dns
open Data

/-- An account at the provider, for one zone. -/
structure Provider where
  baseUrl : String
  zone : String
  username : String
  token : String
  deriving DecidableEq, Repr

/-- The answers to requests: a response or the reason why there is none. -/
abbrev ExchangeAnswer : Http.Request → Type := fun _ => Except Http.Failure Http.Response

/-- Interactions with the provider that may fail. -/
abbrev ProviderAction := ExceptT Error (Interaction Http.Request ExchangeAnswer)

/-- A record as the provider lists it. -/
structure ListedRecord where
  id : Nat
  host : String
  type : String
  answer : String
  deriving DecidableEq, Repr

/-- One page of a listing. -/
structure ListedPage where
  records : List ListedRecord
  nextPage : Option Nat
  deriving DecidableEq, Repr

namespace ListedRecord

def read (t : Tree) : Reading ListedRecord := do
  let row ← Row.read false [field "id" (Tree.asNat 64), field "host" Tree.asText,
    field "type" Tree.asText, field "answer" Tree.asText] t
  return {
    id := ← row.required "id" (Tree.asNat 64)
    host := ← row.optional "host" Tree.asText ""
    type := ← row.optional "type" Tree.asText ""
    answer := ← row.optional "answer" Tree.asText "" }

/-- Whether a record is a CNAME to the target, up to ASCII case and dots at the end. -/
def isCnameTo (target : String) (r : ListedRecord) : Bool :=
  Text.sameIgnoringAsciiCase r.type "CNAME" &&
    Text.sameIgnoringAsciiCase (Text.trimEnd '.' r.answer) (Text.trimEnd '.' target)

end ListedRecord

def ListedPage.read (t : Tree) : Reading ListedPage := do
  let records := Tree.asList ListedRecord.read
  let next := Tree.asOption (Tree.asNat 32)
  let row ← Row.read false [field "records" records, field "nextPage" next] t
  return ⟨← row.optional "records" records [], ← row.optional "nextPage" next none⟩

/-- The message of an error answer. -/
def readErrorMessage (t : Tree) : Reading String := do
  let row ← Row.read false [field "message" Tree.asText] t
  row.required "message" Tree.asText

namespace Provider

/-- A text that is not blank, trimmed. -/
def nonBlank (s : Option String) : Option String := (s.map Text.trim).filter (· ≠ "")

/-- The account for a zone. Name and token are needed; a base address of the options
goes before the provider's own ones. -/
def ofOptions (zone : String) (o : ProviderOptions) : Except Error Provider :=
  match nonBlank o.username, nonBlank o.token with
  | some username, some token =>
    let base := o.baseUrl.getD
      (if o.sandbox then "https://api.dev.name.com" else "https://api.name.com")
    .ok ⟨Text.trimEnd '/' base, Text.trim zone, username, token⟩
  | _, _ => .error (.credentialsMissing "username and token")

/-- A host relative to the zone. -/
def composeHost (subdomain branch : String) : String :=
  if branch.isEmpty then subdomain else subdomain ++ "." ++ branch

/-- The address of the zone's records, or of one of them. -/
def recordsAddress (p : Provider) (id : Option Nat) : String :=
  p.baseUrl ++ "/v4/domains/" ++ p.zone ++ "/records" ++
    (match id with
      | some id => "/" ++ toString id
      | none => "")

/-- Sends a request to an address, with the account's authorization. -/
def send (p : Provider) (method : Http.Method) (address : String)
    (query : List (String × String)) (json : Option Value) : ProviderAction Http.Response :=
  let failed (f : Http.Failure) : Error := .http f.message
  match Url.parse? address with
  | none => throw (failed .badUrl)
  | some url =>
    let request : Http.Request := {
      method
      url := if query.isEmpty then url else url.appendPairs query
      contentType := json.map fun _ => "application/json"
      authorization := some (Http.basicAuth p.username p.token)
      userAgent := none
      body := (json.map Json.write).getD "" }
    match request.prepare with
    | .error f => throw (failed f)
    | .ok request => ExceptT.mk (.ask request fun r => .done (r.mapError failed))

/-- Passes a 2xx response on; another one is an error with the message in its body, or
the whole body. -/
def check (r : Http.Response) : Except Error Http.Response :=
  if r.isSuccess then .ok r
  else .error (.provider r.status (match Json.readText readErrorMessage r.text with
    | .ok message => message
    | .error _ => r.text))

/-- Reads the body of a 2xx response. -/
def decode {α : Type} (read : Tree → Reading α) (r : Http.Response) : Except Error α := do
  let r ← check r
  (Json.readBytes read r.body).mapError fun _ => .http "error decoding response body"

/-- An outcome that needs no exchange. -/
def settled {α : Type} (r : Except Error α) : ProviderAction α := ExceptT.mk (.done r)

/-- The highest page number. -/
def maxPage : Nat := Nat.pow 2 32 - 1

/-- Asks for one page. -/
def listPage (p : Provider) (page : Nat) : ProviderAction ListedPage := do
  let query := [("page", toString page), ("perPage", "1000")]
  let response ← p.send .get (p.recordsAddress none) query none
  settled (decode ListedPage.read response)

/-- The records of a host from a page on. A page is followed only by a later one, so
there are at most as many pages as there are numbers above the first. -/
def findFrom (p : Provider) (host : String) : (pagesLeft page : Nat) →
    ProviderAction (List ListedRecord)
  | 0, _ => pure []
  | pagesLeft + 1, page => do
    let listing ← p.listPage page
    let found := listing.records.filter fun r => Text.sameIgnoringAsciiCase r.host host
    match listing.nextPage with
    | some next =>
      if page < next then return found ++ (← p.findFrom host pagesLeft next) else return found
    | none => return found

/-- All records of a host, in the order of the listing. -/
def findRecords (p : Provider) (host : String) : ProviderAction (List ListedRecord) :=
  p.findFrom host maxPage 1

/-- The request for a new record. -/
def newRecord (host target : String) : Value :=
  .object [("host", .text host), ("type", .text "CNAME"), ("answer", .text target),
    ("ttl", .ofNat 300)]

/-- Makes sure that there is a CNAME to the target, and gives its id: the first one
that exists already, or a new one. -/
def createCname (p : Provider) (subdomain branch target : String) : ProviderAction String := do
  let host := composeHost subdomain branch
  let records ← p.findRecords host
  match records.find? (·.isCnameTo target) with
  | some r => return toString r.id
  | none =>
    let response ← p.send .post (p.recordsAddress none) [] (some (newRecord host target))
    let r ← settled (decode ListedRecord.read response)
    return toString r.id

/-- Deletes records one after another; one that is gone already counts as deleted. -/
def deleteAll (p : Provider) : List ListedRecord → ProviderAction Unit
  | [] => pure ()
  | r :: rest => do
    let response ← p.send .delete (p.recordsAddress (some r.id)) [] none
    if response.status ≠ 404 then
      let _ ← settled (check response)
    p.deleteAll rest

/-- Deletes all records of a host, of whatever type. -/
def deleteCname (p : Provider) (subdomain branch : String) : ProviderAction Unit := do
  p.deleteAll (← p.findRecords (composeHost subdomain branch))

end Provider
end CertEnrollment.Dns
