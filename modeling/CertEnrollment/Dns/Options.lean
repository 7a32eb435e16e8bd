import CertEnrollment.Dns.Zone
import CertEnrollment.Store.Options

/-!
# Options of the backends

A section for each kind of backend. The kinds with a section are the configured ones,
and the first of them is the default.
-/
namespace CertEnrollment.Dns
open Data

/-- Account of the hosted provider. -/
structure ProviderOptions where
  username : Option String
  token : Option String
  /-- Whether the sandbox of the provider is meant. -/
  sandbox : Bool
  baseUrl : Option String
  deriving DecidableEq, Repr

namespace ProviderOptions

def default : ProviderOptions := ⟨none, none, false, none⟩

def read (spare : Bool) (t : Tree) : Reading ProviderOptions := do
  let text := Tree.asOption Tree.asText
  let row ← Row.read spare [field "username" text, field "token" text,
    field "debug" Tree.asBool, field "base_url" text] t
  return {
    username := ← row.optional "username" text none
    token := ← row.optional "token" text none
    sandbox := ← row.optional "debug" Tree.asBool false
    baseUrl := ← row.optional "base_url" text none }

def value (o : ProviderOptions) : Value :=
  .ofMembers [("username", .ofOption .text o.username), ("token", .ofOption .text o.token),
    ("debug", .bool o.sandbox), ("base_url", .ofOption .text o.baseUrl)]

end ProviderOptions

structure Options where
  coredns : Option Store.Options
  namecom : Option ProviderOptions
  deriving DecidableEq, Repr

namespace Options

def empty : Options := ⟨none, none⟩

def withCoredns (o : Options) (section' : Store.Options) : Options :=
  { o with coredns := some section' }

def withNamecom (o : Options) (section' : ProviderOptions) : Options :=
  { o with namecom := some section' }

def read (t : Tree) : Reading Options := do
  let store := Tree.asOption (Store.Options.read false)
  let provider := Tree.asOption (ProviderOptions.read false)
  let row ← Row.read false [field "coredns" store, field "namecom" provider] t
  return ⟨← row.optional "coredns" store none,
    ← row.optional "namecom" provider none⟩

def value (o : Options) : Value :=
  .ofMembers [("coredns", .ofOption Store.Options.value o.coredns),
    ("namecom", .ofOption ProviderOptions.value o.namecom)]

/-- The kinds with a section, in the order in which a default is chosen. -/
def kinds (o : Options) : List BackendKind :=
  (if o.coredns.isSome then [.coredns] else []) ++ (if o.namecom.isSome then [.namecom] else [])

end Options
end CertEnrollment.Dns
