import CertEnrollment.Cache.Prefetch
import CertEnrollment.Dns.Options
import CertEnrollment.Enrollment.Policy
import CertEnrollment.Toml.Document

/-!
# Configuration

What a handler is configured with: an account with the authority, zones with the branches
allowed in them, and the backends, bounds and caches, each with defaults. It is read from
a TOML document. Items of an array beyond the fields of a section do not matter.
-/
namespace CertEnrollment.Enrollment
open Data

/-! ## Sections -/

/-- The account with the authority. -/
structure Account where
  accessKey : String
  validityDays : Nat
  baseUrl : Option String
  deriving DecidableEq, Repr

namespace Account

def read (t : Tree) : Reading Account := do
  let text := Tree.asOption Tree.asText
  let row ← Row.read true [field "access_key" Tree.asText,
    field "cert_validity_days" (Tree.asNat 32), field "base_url" text] t
  return {
    accessKey := ← row.required "access_key" Tree.asText
    validityDays := ← row.optional "cert_validity_days" (Tree.asNat 32) Policy.default.validityDays
    baseUrl := ← row.optional "base_url" text none }

def value (a : Account) : Value :=
  .ofMembers [("access_key", .text a.accessKey), ("cert_validity_days", .ofNat a.validityDays),
    ("base_url", .ofOption .text a.baseUrl)]

end Account

/-- What is configured for a zone: its branches with commas between them, alone or in a
table that may also name a backend. -/
inductive ZoneEntry where
  | plain (branches : String)
  | table (branches : String) (backend : Option Dns.BackendKind)
  deriving DecidableEq, Repr

namespace ZoneEntry

def readKind (t : Tree) : Reading Dns.BackendKind := do
  Reading.ofOption (Dns.BackendKind.ofWord? (← t.asText))

/-- Reads an entry. One that fits neither form is a fault of form, whatever is wrong. -/
def read : Tree → Reading ZoneEntry
  | .text s => plain <$> Reading.ofOption s
  | .object members => do
    let kind := Tree.asOption readKind
    let row ← Row.read false [field "prefixes" Tree.asText, field "backend" kind]
      (.object members)
    return table (← row.optional "prefixes" Tree.asText "") (← row.optional "backend" kind none)
  | _ => .error .malformed

def value : ZoneEntry → Value
  | plain branches => .text branches
  | table branches backend => .ofMembers [("prefixes", .text branches),
      ("backend", .ofOption (fun k => .text k.word) backend)]

def text : ZoneEntry → String
  | plain branches | table branches _ => branches

def backend : ZoneEntry → Option Dns.BackendKind
  | plain _ => none
  | table _ backend => backend

/-- The branches between the commas that are not blank. -/
def branches (e : ZoneEntry) : List String :=
  ((Text.splitAt ',' e.text.toList).map fun b => Text.trim (String.ofList b)).filter (· ≠ "")

end ZoneEntry

/-- The bounds in the units of the configuration. -/
structure Bounds where
  verifyTrials : Nat
  /-- In milliseconds. -/
  pollDelay : Nat
  /-- In seconds. -/
  pollTimeout : Nat
  deriving DecidableEq, Repr

namespace Bounds

def default : Bounds :=
  ⟨Policy.default.verifyTrials, Policy.default.pollDelay, Policy.default.pollTimeout / 1000⟩

def read (t : Tree) : Reading Bounds := do
  let row ← Row.read true [field "verify_trials" (Tree.asNat 32),
    field "poll_delay_ms" (Tree.asNat 64), field "poll_timeout_secs" (Tree.asNat 64)] t
  return {
    verifyTrials := ← row.optional "verify_trials" (Tree.asNat 32) default.verifyTrials
    pollDelay := ← row.optional "poll_delay_ms" (Tree.asNat 64) default.pollDelay
    pollTimeout := ← row.optional "poll_timeout_secs" (Tree.asNat 64) default.pollTimeout }

def value (b : Bounds) : Value :=
  .ofMembers [("verify_trials", .ofNat b.verifyTrials), ("poll_delay_ms", .ofNat b.pollDelay),
    ("poll_timeout_secs", .ofNat b.pollTimeout)]

end Bounds

/-- How long cached certificates live, in seconds. -/
structure Lifetime where
  seconds : Nat
  deriving DecidableEq, Repr

namespace Lifetime

def default : Lifetime := ⟨36000⟩

def read (t : Tree) : Reading Lifetime := do
  let row ← Row.read true [field "ttl_secs" (Tree.asNat 64)] t
  return ⟨← row.optional "ttl_secs" (Tree.asNat 64) default.seconds⟩

def value (l : Lifetime) : Value := .ofMembers [("ttl_secs", .ofNat l.seconds)]

end Lifetime

/-! ## The whole -/

structure Config where
  account : Account
  zoneEntries : SortedMap ZoneEntry
  coredns : Option Store.Options
  namecom : Option Dns.ProviderOptions
  bounds : Bounds
  lifetime : Lifetime
  /-- The server for cached certificates; without it they are kept in memory. -/
  redis : Option Store.Options

namespace Config

def read (t : Tree) : Reading Config := do
  let store := Tree.asOption (Store.Options.read true)
  let provider := Tree.asOption (Dns.ProviderOptions.read true)
  let entries := Tree.asMap ZoneEntry.read
  let row ← Row.read true [field "ca" Account.read, field "domains" entries,
    field "coredns" store, field "namecom" provider, field "enrollment" Bounds.read,
    field "cache" Lifetime.read, field "redis" store] t
  return {
    account := ← row.required "ca" Account.read
    zoneEntries := ← row.required "domains" entries
    coredns := ← row.optional "coredns" store none
    namecom := ← row.optional "namecom" provider none
    bounds := ← row.optional "enrollment" Bounds.read Bounds.default
    lifetime := ← row.optional "cache" Lifetime.read Lifetime.default
    redis := ← row.optional "redis" store none }

/-- Reads a configuration from the text of a document. -/
def ofText (text : String) : Except Error Config :=
  (Reading.ofOption (Toml.parse? text) >>= read).mapError fun e => .config e.message

/-- Reads a configuration from the bytes of a file. -/
def ofBytes (bytes : List UInt8) : Except Error Config :=
  match Utf8.decode? bytes with
  | none => .error (.io "stream did not contain valid UTF-8")
  | some text => ofText text

def value (c : Config) : Value :=
  .ofMembers [("ca", c.account.value), ("domains", .ofMap ZoneEntry.value c.zoneEntries),
    ("coredns", .ofOption Store.Options.value c.coredns),
    ("namecom", .ofOption Dns.ProviderOptions.value c.namecom),
    ("enrollment", c.bounds.value), ("cache", c.lifetime.value),
    ("redis", .ofOption Store.Options.value c.redis)]

/-- The zones, in the order of their names in the configuration. -/
def zones (c : Config) : List Dns.Zone :=
  c.zoneEntries.entries.map fun (name, e) => .make name e.branches e.backend

def options (c : Config) : Dns.Options := ⟨c.coredns, c.namecom⟩

def policy (c : Config) : Policy :=
  ⟨c.bounds.verifyTrials, c.bounds.pollDelay, c.bounds.pollTimeout * 1000,
    c.account.validityDays⟩

def cache (c : Config) : Cache.Prefetch := ⟨c.lifetime.seconds * 1000⟩

end Config
end CertEnrollment.Enrollment
