import CertEnrollment.Text.Blank
import CertEnrollment.Url.Form
import CertEnrollment.Url.Host

/-!
# URLs

Absolute URLs by the living standard: blanks and controls around the text are dropped,
tabs and line breaks anywhere in it; the special schemes have a host in any case, take a
backslash for a slash and leave out their default port; dot segments are resolved; each
part is percent-encoded with its own set. A scheme that is not special may also have a
path of no structure.
-/
namespace CertEnrollment
open Url Text

inductive Url.Path where
  /-- Segments, each written after a slash. -/
  | segments (names : List String)
  /-- A text without structure. -/
  | opaquePath (text : String)
  deriving DecidableEq, Repr

/-- An absolute URL; all parts are in written form. -/
structure Url where
  scheme : String
  username : String
  password : String
  host : Option String
  port : Option Nat
  path : Url.Path
  query : Option String
  fragment : Option String
  deriving DecidableEq, Repr

namespace Url

/-- The default port of the special schemes; one of them has none. -/
def defaultPort? (scheme : String) : Option Nat :=
  if scheme = "http" ∨ scheme = "ws" then some 80
  else if scheme = "https" ∨ scheme = "wss" then some 443
  else if scheme = "ftp" then some 21
  else none

def isSpecial (scheme : String) : Bool := (defaultPort? scheme).isSome || scheme == "file"

/-! ## Writing -/

def Path.write : Path → List Char
  | .segments names => names.flatMap fun n => '/' :: n.toList
  | .opaquePath text => text.toList

def writeUserinfo (username password : String) : List Char :=
  if username.isEmpty ∧ password.isEmpty then []
  else username.toList ++ (if password.isEmpty then [] else ':' :: password.toList) ++ ['@']

def writeAuthority (u : Url) : List Char :=
  match u.host with
  | none => match u.path with
    | .segments ("" :: _ :: _) => ['/', '.']
    | _ => []
  | some host =>
    '/' :: '/' :: (writeUserinfo u.username u.password ++ host.toList ++
      (match u.port with
        | some p => ':' :: Nat.toDigits 10 p
        | none => []))

/-- The path and, after a question mark, the query: what a request names. -/
def target (u : Url) : String :=
  String.ofList (u.path.write ++ (match u.query with
    | some q => '?' :: q.toList
    | none => []))

/-- The text of a URL. -/
def write (u : Url) : String :=
  String.ofList (u.scheme.toList ++ ':' :: (writeAuthority u ++ u.target.toList ++
    (match u.fragment with
      | some f => '#' :: f.toList
      | none => [])))

/-! ## Reading -/

/-- Scheme and rest of a text: a letter, then letters, digits and `+-.`, then a colon. -/
def scheme? (cs : List Char) : Option (String × List Char) :=
  match cutAt ':' cs with
  | (c :: name, some rest) =>
    if c.isAlpha ∧ name.all (fun c => c.isAlphanum || c == '+' || c == '-' || c == '.') then
      some (String.ofList ((c :: name).map Char.toLower), rest)
    else none
  | _ => none

/-- Whether a character ends the authority. -/
def endsAuthority (special : Bool) (c : Char) : Bool :=
  c == '/' || c == '?' || c == '#' || (special && c == '\\')

/-- Cuts at the last `@`, if there is one. -/
def cutUserinfo (cs : List Char) : Option (List Char) × List Char :=
  if cs.contains '@' then
    let after := (cs.reverse.takeWhile (· ≠ '@')).reverse
    (some (cs.take (cs.length - after.length - 1)), after)
  else (none, cs)

/-- Cuts at the first colon outside brackets. -/
def cutPort : Bool → List Char → List Char × Option (List Char)
  | _, [] => ([], none)
  | inside, c :: cs =>
    if c == ':' && !inside then ([], some cs)
    else
      let (host, port) := cutPort (if c == '[' then true else if c == ']' then false else inside) cs
      (c :: host, port)

/-- A port: digits, at most 65535; an absent number and the default one are left out. -/
def port? (scheme : String) (digits : List Char) : Option (Option Nat) := do
  if !digits.all Char.isDigit then failure
  let n ← numberIn? 10 digits
  if n > 65535 then failure
  return if digits.isEmpty ∨ defaultPort? scheme = some n then none else some n

structure Authority where
  username : String
  password : String
  host : String
  port : Option Nat

/-- The authority of a URL. Its host may be empty only under a scheme that is not
special, and then nothing else may stand with it. For a scheme that is not special a
backslash also ends the port; what follows it is returned. -/
def authority? (scheme : String) (cs : List Char) : Option (Authority × List Char) := do
  let special := isSpecial scheme
  let (userinfo, place) := cutUserinfo cs
  let (username, password) := cutAt ':' (userinfo.getD [])
  let (hostText, portText) := cutPort false place
  let host ← if special then specialHost? hostText else opaqueHost? hostText
  let written (part : List Char) : String := String.ofList (percentEncode inUserinfoSet part)
  let username := written username
  let password := written (password.getD [])
  if host.isEmpty ∧ (portText.isSome ∨ userinfo.isSome) then failure
  let (portDigits, rest) := (portText.getD []).span (· ≠ '\\')
  return (⟨username, password, String.ofList host, ← port? scheme portDigits⟩, rest)

/-- The spellings of a segment that stands for the same or the upper level. -/
def dots (segment : List Char) : Nat :=
  let s := String.ofList (segment.map Char.toLower)
  if s = "." ∨ s = "%2e" then 1
  else if s = ".." ∨ s = ".%2e" ∨ s = "%2e." ∨ s = "%2e%2e" then 2
  else 0

/-- Resolves dot segments; `above` holds the segments so far, the last one first. A
dot segment at the end leaves an empty segment. -/
def resolveDots (above : List (List Char)) : List (List Char) → List (List Char)
  | [] => above.reverse
  | s :: rest =>
    let kept := match dots s with
      | 0 => s :: above
      | 1 => above
      | _ => above.tail
    if rest.isEmpty ∧ dots s ≠ 0 then (([] : List Char) :: kept).reverse
    else resolveDots kept rest

/-- The segments of a path text, which stands without its first slash. -/
def segmentsOf (special : Bool) (cs : List Char) : Path :=
  let slashed := if special then cs.map fun c => if c = '\\' then '/' else c else cs
  let raw := (splitAt '/' slashed).map (percentEncode inPathSet)
  .segments ((resolveDots [] raw).map String.ofList)

/-- The path after an authority. -/
def pathAfter (special : Bool) : List Char → Path
  | [] => if special then .segments [""] else .segments []
  | c :: cs => segmentsOf special (if c == '/' || (special && c == '\\') then cs else c :: cs)

/-- Query and fragment at the end of a text, and what stands before them. -/
def cutTail (cs : List Char) : List Char × Option (List Char) × Option (List Char) :=
  let (front, fragment) := cutAt '#' cs
  let (path, query) := cutAt '?' front
  (path, query, fragment)

/-- Drops what a URL text may hold without meaning. -/
def clean (s : String) : List Char :=
  (dropEndWhile (·.toNat ≤ 0x20) (s.toList.dropWhile (·.toNat ≤ 0x20))).filter
    fun c => !(c == '\t' || c == '\n' || c == '\r')

/-- Drops all leading slashes, backslashes too. -/
def dropSlashes (cs : List Char) : List Char := cs.dropWhile fun c => c == '/' || c == '\\'

/-- What stands after the scheme: its authority, if any, and the rest. -/
def authorityText? (scheme : String) (cs : List Char) : Option (List Char) :=
  if scheme = "file" then
    match cs with
    | a :: b :: rest => if (a = '/' ∨ a = '\\') ∧ (b = '/' ∨ b = '\\') then some rest else none
    | _ => none
  else if isSpecial scheme then some (dropSlashes cs)
  else afterStart? ['/', '/'] cs

/-- Reads an absolute URL. -/
def parse? (text : String) : Option Url := do
  let (scheme, rest) ← scheme? (clean text)
  let special := isSpecial scheme
  let make (a : Option Authority) (path : Path) (query fragment : Option (List Char)) : Url :=
    { scheme
      username := (a.map (·.username)).getD ""
      password := (a.map (·.password)).getD ""
      host := a.map (·.host)
      port := a.bind (·.port)
      path
      query := query.map fun q => String.ofList (percentEncode (inQuerySet special) q)
      fragment := fragment.map fun f => String.ofList (percentEncode inFragmentSet f) }
  match authorityText? scheme rest with
  | some rest =>
    let (front, rest) := rest.span (!endsAuthority special ·)
    let (path, query, fragment) := cutTail rest
    if scheme = "file" then
      let host ← if front.isEmpty then some [] else specialHost? front
      let host := if String.ofList host = "localhost" then [] else host
      return make (some ⟨"", "", String.ofList host, none⟩) (pathAfter special path) query fragment
    else
      let (a, extra) ← authority? scheme front
      return make (some a) (pathAfter special (extra ++ path)) query fragment
  | none =>
    let (path, query, fragment) := cutTail rest
    if special then
      return make (some ⟨"", "", "", none⟩) (pathAfter special path) query fragment
    else match path with
      | '/' :: path => return make none (segmentsOf false path) query fragment
      | path =>
        let encoded := String.ofList (percentEncode isControl path)
        return make none (.opaquePath encoded) query fragment

/-- Appends pairs to the query. -/
def appendPairs (u : Url) (pairs : List (String × String)) : Url :=
  let form := encodeForm pairs
  let query := match u.query with
    | none => form
    | some q => if q.isEmpty then form else q.toList ++ '&' :: form
  { u with query := some (String.ofList query) }

/-- Sets a password that is not empty; a URL without a host has no place for one. -/
def setPassword? (u : Url) (password : String) : Option Url :=
  if u.host.all (·.isEmpty) ∨ u.scheme = "file" then none
  else some { u with password := String.ofList (percentEncode inUserinfoSet password.toList) }

end Url
end CertEnrollment
