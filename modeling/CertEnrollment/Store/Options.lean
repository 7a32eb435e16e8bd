import CertEnrollment.Data.Record
import CertEnrollment.Url.Basic

/-!
# Where a key-value server is

The options of a connection to a key-value server, the URL made of them, and what the
server's client takes from that URL.
-/
namespace CertEnrollment.Store
open Data

structure Options where
  host : String
  port : Nat
  password : Option String
  deriving DecidableEq, Repr

namespace Options

def default : Options := ⟨"localhost", 6379, none⟩

def read (spare : Bool) (t : Tree) : Reading Options := do
  let password := Tree.asOption Tree.asText
  let row ← Row.read spare [field "host" Tree.asText, field "port" (Tree.asNat 16),
    field "password" password] t
  return {
    host := ← row.optional "host" Tree.asText default.host
    port := ← row.optional "port" (Tree.asNat 16) default.port
    password := ← row.optional "password" password none }

def value (o : Options) : Value :=
  .ofMembers [("host", .text o.host), ("port", .ofNat o.port),
    ("password", .ofOption .text o.password)]

/-- The address as URL. Host and port are put into the text of the URL, and may change
its shape; the password is set afterwards, and an empty one is no password. -/
def url (o : Options) : Except String Url :=
  match Url.parse? ("redis://" ++ o.host ++ ":" ++ toString o.port ++ "/") with
  | none => .error "invalid redis address: not a URL"
  | some u => match o.password.filter (· ≠ "") with
    | none => .ok u
    | some password => match u.setPassword? password with
      | some u => .ok u
      | none => .error "invalid redis password"

end Options

/-- What a client needs to know for connecting. -/
structure Target where
  host : String
  port : Nat
  database : Int
  username : Option String
  password : Option String
  deriving DecidableEq, Repr

/-- A part of the user information, percent-decoded; an empty one is absent. -/
def decodePart (what part : String) : Except String (Option String) :=
  if part.isEmpty then .ok none
  else match Utf8.decode? (Url.percentDecode part) with
    | some s => .ok (some s)
    | none => .error (what ++ " is not valid UTF-8 string- InvalidClientConfig")

/-- A signed decimal number of 64 bits. -/
def databaseNumber? (cs : List Char) : Option Int := do
  let (negative, digits) := match cs with
    | '-' :: ds => (true, ds)
    | '+' :: ds => (false, ds)
    | ds => (false, ds)
  if digits.isEmpty ∨ !digits.all Char.isDigit then failure
  let n ← Text.numberIn? 10 digits
  let n : Int := if negative then -n else n
  if leastInt ≤ n ∧ n ≤ greatestInt then some n else none

/-- Takes the target of a connection from its URL; the path names the database. -/
def Target.ofUrl (u : Url) : Except String Target := do
  let some host := u.host.filter (· ≠ "")
    | throw "Missing hostname- InvalidClientConfig"
  let path := Text.dropEndWhile (· == '/') (u.path.write.dropWhile (· == '/'))
  let database ← if path.isEmpty then pure 0 else match databaseNumber? path with
    | some n => pure n
    | none => throw "Invalid database number- InvalidClientConfig"
  return {
    host
    port := u.port.getD 6379
    database
    username := ← decodePart "Username" u.username
    password := ← decodePart "Password" u.password }

/-- The target of the options. -/
def Options.target (o : Options) : Except String Target := do
  Target.ofUrl (← o.url)

end CertEnrollment.Store
