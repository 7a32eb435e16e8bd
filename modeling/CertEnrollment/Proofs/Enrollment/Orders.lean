import CertEnrollment.Proofs.Cache.Keys
import CertEnrollment.Proofs.Enrollment.Handlers
import CertEnrollment.Proofs.Enrollment.Protocol
import CertEnrollment.Proofs.Url.Forms

/-!
# Orders as the authority reads them

A certificate is ordered with a form that lists its domains with commas between them, and the
authority takes what stands between the commas for the domains. All names of the request were
placed before. But a name may have commas in its first label: then it is read as several domains,
and the first of them has no dot, so it is none that could have been placed.
-/
namespace CertEnrollment.Text

/-- What stands between the commas of a text. -/
def betweenCommas (text : String) : List String := (splitAt ',' text.toList).map String.ofList

theorem betweenCommas_join {names : List String} (some_there : names ≠ []) :
    betweenCommas (join "," names) = names.flatMap betweenCommas := by
  have comma : ",".toList = [','] := rfl
  rw [betweenCommas, toList_join, comma, splitAt_intercalate_flatMap (by simpa using some_there),
    List.flatMap_map, List.map_flatMap]
  rfl

/-- Texts without commas are all that stands between commas, and only they are. -/
theorem flatMap_betweenCommas_eq_self_iff {names : List String} :
    names.flatMap betweenCommas = names ↔ ∀ n ∈ names, ',' ∉ n.toList := by
  have spelled : (names.flatMap betweenCommas).map String.toList =
      (names.map String.toList).flatMap (splitAt ',') := by
    simp [betweenCommas, List.map_flatMap, List.flatMap_map, Function.comp_def]
  rw [← List.map_inj_right (f := String.toList) fun _ _ => String.toList_inj.mp, spelled,
    flatMap_splitAt_eq_self_iff]
  simp

end CertEnrollment.Text

namespace CertEnrollment.Enrollment
open Authority Cache Interaction

/-- The configuration cuts lists of branches at commas, so no branch has one. -/
theorem ZoneEntry.not_mem_branches (entry : ZoneEntry) : ∀ b ∈ entry.branches, ',' ∉ b.toList := by
  intro b hb comma
  obtain ⟨listed, -⟩ := List.mem_filter.mp hb
  obtain ⟨piece, hp, rfl⟩ := List.mem_map.mp listed
  rw [Text.trim, String.toList_ofList, String.toList_ofList] at comma
  exact Text.not_mem_of_mem_splitAt hp (Text.mem_of_mem_trimChars comma)

theorem Config.not_mem_branches (config : Config) :
    ∀ z ∈ config.zones, ∀ b ∈ z.branches, ',' ∉ b.toList := by
  intro z hz
  obtain ⟨⟨name, entry⟩, -, rfl⟩ := List.mem_map.mp hz
  exact Dns.Zone.make_commaFree entry.not_mem_branches

/-! ## Orders -/

/-- The enrollment of a request gets to have a certificate created for these names, and this is
what the handler sends for it. -/
def Handler.Orders (h : Handler) (csr : List UInt8) (names : List String)
    (request : Http.Request) : Prop :=
  ∃ pem days t next memory sent next',
    Becomes (issue h.setup csr).run t (.ask (.call (.create names pem days)) next) ∧
    h.Answered t ∧
    Becomes ((h.respond (.create names pem days)).run memory) sent (.ask (.exchange request) next')

/-- The domains of an order, as its body is read. -/
def orderedDomains? (body : String) : Option (List String) :=
  ((Url.decodeForm body.toList).lookup "certificate_domains").map Text.betweenCommas

/-- How an order is read that is made for these names where these zones are configured. -/
structure OrderFor (zones : List Dns.Zone) (names : List String) (body : String) : Prop where
  /-- The names were placed one by one. -/
  placed : Placeable zones names
  /-- The domains of the order are the names, each cut at its commas. -/
  reads : orderedDomains? body = some (names.flatMap Text.betweenCommas)
  /-- They are the names themselves just when none of these has a comma. -/
  faithful : orderedDomains? body = some names ↔ ∀ n ∈ names, ',' ∉ n.toList
  /-- Where the names of zones have no commas, only then all of them could be placed. -/
  accepted : (∀ z ∈ zones, ',' ∉ z.name.toList) →
    (Placeable zones (names.flatMap Text.betweenCommas) ↔ ∀ n ∈ names, ',' ∉ n.toList)

variable {zones : List Dns.Zone} {names : List String} {request : Http.Request}

theorem Handler.Orders.reads {h : Handler} {csr : List UInt8} (orders : h.Orders csr names request)
    (some_there : names ≠ []) :
    orderedDomains? request.body = some (names.flatMap Text.betweenCommas) := by
  obtain ⟨pem, days, t, next, memory, sent, next', -, -, sends⟩ := orders
  rw [orderedDomains?, Handler.posts_of_create sends, String.toList_ofList,
    Url.decodeForm_encodeForm]
  simp [Client.orderForm, Text.betweenCommas_join some_there]

/-- A domain that could be placed has a dot, and the first one that is read of a name with commas
has none. -/
theorem commaFree_of_placeable (free : Dns.CommaFree zones) (placed : Placeable zones names)
    (canonical : ∀ n ∈ names, DomainSet.canonical n = n)
    (pieces : Placeable zones (names.flatMap Text.betweenCommas)) : ∀ n ∈ names, ',' ∉ n.toList := by
  intro n hn comma
  obtain ⟨p, resolved⟩ := placed n hn
  have commasFirst := Dns.commasFirst_of_resolve free resolved
  rw [canonical n hn] at commasFirst
  obtain ⟨piece, hp, noDot⟩ := commasFirst.exists_piece comma
  have read : String.ofList piece ∈ Text.betweenCommas n := List.mem_map.mpr ⟨piece, hp, rfl⟩
  obtain ⟨q, resolved'⟩ := pieces _ (List.mem_flatMap.mpr ⟨n, hn, read⟩)
  have dot := Dns.dot_mem_of_resolve resolved'
  rw [String.toList_ofList] at dot
  exact noDot dot

/-- What a handler orders for a request is for its names, which were all placed, and it is read as
these names unless one of them has a comma. -/
theorem order_of_placed {config : Config} {h : Handler} (made : Handler.ofConfig config = .ok h)
    {csr : List UInt8} (orders : h.Orders csr names request) :
    ∃ r, SigningRequest.parse csr = .ok r ∧ r.names = names ∧
      OrderFor config.zones names request.body := by
  have reads := orders.reads
  obtain ⟨pem, days, t, next, memory, sent, next', reached, answered, -⟩ := orders
  have due : Due h.setup csr t (.call (.create names pem days)) := (obeys_issue.becomes reached).1
  obtain ⟨-, r, parsed, creation⟩ := due
  obtain ⟨rfl, -⟩ : names = r.names ∧ pem = r.pem := by
    injection creation with same same'
    exact ⟨same, same'⟩
  obtain ⟨some_there, canonical⟩ := SigningRequest.names_of_parse parsed
  have placed : Placeable config.zones r.names := by
    intro n hn
    have there := placed_of_asks parsed reached (by rintro ⟨host, ⟨⟩⟩) n hn
    have answer := answered.placed there
    rw [Handler.zones_of_ofConfig made] at answer
    cases resolved : Dns.resolve config.zones n with
    | error e =>
      rw [resolved] at answer
      cases answer
    | ok p => exact ⟨p, rfl⟩
  refine ⟨r, parsed, rfl, placed, reads some_there, ?_, fun free => ⟨?_, fun plain => ?_⟩⟩
  · rw [reads some_there, Option.some_inj, Text.flatMap_betweenCommas_eq_self_iff]
  · exact commaFree_of_placeable (fun z hz => ⟨free z hz, config.not_mem_branches z hz⟩) placed
      fun n hn => (canonical n hn).1
  · rwa [Text.flatMap_betweenCommas_eq_self_iff.mpr plain]

/-! ## Two orders in the zone `org` -/

/-- When the cache has nothing, a certificate is created next. -/
theorem becomes_of_miss {α : Type} {s : Setup} {r : SigningRequest} {domains : DomainSet}
    {answer : (readAsk domains).Answer} (miss : found domains answer = none)
    (f : Except String Issued → Flow α) :
    ∃ next, Becomes ((issueLocked s r domains).run >>= f) [⟨readAsk domains, answer⟩]
      (.ask (.call (r.creation s)) next) := by
  have creates : ∃ next, issueAnew s r domains >>= f = .ask (.call (r.creation s)) next := ⟨_, rfl⟩
  obtain ⟨next, creates⟩ := creates
  rw [issueLocked_eq, ask_bind]
  refine ⟨next, .ask answer ?_⟩
  rw [miss, ← creates]
  exact .start _

/-- When all names can be placed and the cache is empty, an enrollment gets to its order. -/
theorem reaches_order {h : Handler} {csr : List UInt8} {r : SigningRequest}
    (parsed : SigningRequest.parse csr = .ok r) (placed : Placeable h.router.zones r.names)
    (inMemory : h.cacheServer = none) :
    ∃ t next, Becomes (issue h.setup csr).run t (.ask (.call (r.creation h.setup)) next) ∧
      h.Answered t := by
  have miss : found (.ofNames r.names) (.ok none) = none := rfl
  obtain ⟨next, locked⟩ := becomes_of_miss (s := h.setup) (r := r) miss fun result =>
    .ask .unlock fun _ => .done result
  have reaches : Becomes (issue h.setup csr).run
      (r.names.map (fun host => ⟨.call (.place host), .ok ()⟩) ++
        [⟨.lock (.ofNames r.names), ()⟩, ⟨readAsk (.ofNames r.names), .ok none⟩])
      (.ask (.call (r.creation h.setup)) next) := by
    rw [issue_eq parsed]
    refine (runs_placeAll r.names).becomes ?_
    exact becomes_ask.mpr (.inr ⟨(), _, rfl, locked⟩)
  refine ⟨_, next, reaches, fun c answer he => ?_⟩
  rcases List.mem_append.mp he with he | he
  · obtain ⟨host, hh, same⟩ := List.mem_map.mp he
    obtain ⟨p, resolved⟩ := placed host hh
    cases same
    exact ⟨.fresh, [], .fresh, Handler.runs_of_placed resolved .fresh⟩
  · simp only [List.mem_cons, List.not_mem_nil, or_false] at he
    rcases he with same | same
    · cases same
    · cases same
      refine ⟨.fresh, [⟨.clock, (0 : Nat)⟩], .fresh, ?_⟩
      change Runs (h.onCacheStore (.read (entryKey (.ofNames r.names))) .fresh) _ _
      rw [Handler.onCacheStore_inMemory inMemory]
      exact .ask _ (.done _)

/-- An account and the zone `org`, with its records in a hash store. -/
def orgConfig : Config :=
  ⟨⟨"k", 90, none⟩, .ofList [("org", .plain "")], some .default, none, .default, .default, none⟩

def orgHandler : Handler :=
  ⟨⟨"k", Client.defaultBaseUrl, Client.defaultUserAgent⟩,
    ⟨orgConfig.zones, orgConfig.options, .coredns⟩,
    { policy := orgConfig.policy, cache := orgConfig.cache }, none⟩

theorem made_orgHandler : Handler.ofConfig orgConfig = .ok orgHandler := rfl

/-- A request for the domain `a,b.org`. -/
def commaDomain : List UInt8 :=
  [0x30, 0x2D, 0x30, 0x23, 0x02, 0x01, 0x00, 0x30, 0x12, 0x31, 0x10, 0x30, 0x0E, 0x06, 0x03,
    0x55, 0x04, 0x03, 0x0C, 0x07, 0x61, 0x2C, 0x62, 0x2E, 0x6F, 0x72, 0x67, 0x30, 0x08, 0x30,
    0x03, 0x06, 0x01, 0x2A, 0x03, 0x01, 0x00, 0xA0, 0x00, 0x30, 0x03, 0x06, 0x01, 0x2A, 0x03,
    0x01, 0x00]

/-- What is sent first, if that is all that was asked for. -/
def firstExchange? {α : Type} : Handler.World α → Option Http.Request
  | .ask (.exchange request) _ => some request
  | _ => none

theorem exists_exchange {α : Type} {x : Handler.World α} (h : (firstExchange? x).isSome = true) :
    ∃ request next, x = .ask (.exchange request) next := by
  unfold firstExchange? at h
  split at h
  · next request next => exact ⟨request, next, rfl⟩
  · cases h

/-- The names of a request, and whether they are placed and ordered. -/
def orderedNames? (csr : List UInt8) : Option (List String × Bool) :=
  (SigningRequest.parse csr).toOption.map fun r =>
    (r.names, (r.names.all fun n => (Dns.resolve orgConfig.zones n).toOption.isSome) &&
      (firstExchange? ((orgHandler.respond (r.creation orgHandler.setup)).run .fresh)).isSome)

theorem exists_orders {csr : List UInt8} (h : orderedNames? csr = some (names, true)) :
    ∃ request, orgHandler.Orders csr names request := by
  obtain ⟨r, parsed, same⟩ := Option.map_eq_some_iff.mp h
  obtain ⟨rfl, evaluated⟩ := Prod.mk.inj same
  obtain ⟨all, sending⟩ := (Bool.and_eq_true _ _).mp evaluated
  obtain ⟨t, next, reached, answered⟩ :=
    reaches_order (h := orgHandler) (Data.eq_ok_of_toOption parsed) (placeable_of_all all) rfl
  obtain ⟨request, next', sends⟩ := exists_exchange sending
  refine ⟨request, _, _, t, next, .fresh, [], next', reached, answered, ?_⟩
  exact sends ▸ .start _

/-- The order for `a.org` is for that. -/
theorem order_of_placed_org :
    ∃ request, Handler.ofConfig orgConfig = .ok orgHandler ∧
      orgHandler.Orders SigningRequest.oneDomain ["a.org"] request ∧
      OrderFor orgConfig.zones ["a.org"] request.body := by
  have evaluated : orderedNames? SigningRequest.oneDomain = some (["a.org"], true) := by
    decide +kernel
  obtain ⟨request, orders⟩ := exists_orders evaluated
  obtain ⟨r, -, -, order⟩ := order_of_placed made_orgHandler orders
  exact ⟨request, made_orgHandler, orders, order⟩

/-- The order for `a,b.org` is read as one for `a` and `b.org`, and `a` lies in no zone. -/
theorem ordered_unplaced :
    ∃ request, Handler.ofConfig orgConfig = .ok orgHandler ∧
      orgHandler.Orders commaDomain ["a,b.org"] request ∧
      orderedDomains? request.body = some ["a", "b.org"] ∧
      ∀ p, Dns.resolve orgConfig.zones "a" ≠ .ok p := by
  have evaluated : orderedNames? commaDomain = some (["a,b.org"], true) := by decide +kernel
  obtain ⟨request, orders⟩ := exists_orders evaluated
  refine ⟨request, made_orgHandler, orders, ?_, fun p resolved => ?_⟩
  · rw [orders.reads (by decide)]
    decide +kernel
  · exact absurd (Dns.dot_mem_of_resolve resolved) (by decide)

end CertEnrollment.Enrollment
