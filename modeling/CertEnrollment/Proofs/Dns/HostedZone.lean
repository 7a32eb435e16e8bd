import CertEnrollment.Proofs.Dns.Listing
import CertEnrollment.Proofs.Text.Decoding
import Mathlib.Data.Finset.Basic
import Mathlib.Data.Finset.Dedup
import Mathlib.Data.Finset.Filter
import Mathlib.Data.Finset.Insert

/-!
# A zone at an honest provider

The provider keeps the records of a zone on numbered pages. It answers the request for a page with
its records and the number of the next one. It adds a record as it was sent, under an id that no
record has, and it removes a record by its id. How it lays out the records after a change is up to
it, and what its answers say besides.
-/
namespace CertEnrollment

/-- Steps one after another, each with its label. -/
inductive Steps {σ ι : Type} (step : σ → ι → σ → Prop) : σ → List ι → σ → Prop
  | nil (s : σ) : Steps step s [] s
  | cons {s s' s'' : σ} {i : ι} {is : List ι} (first : step s i s') (rest : Steps step s' is s'') :
      Steps step s (i :: is) s''

section
variable {σ ι : Type} {step step' : σ → ι → σ → Prop} {s s' : σ} {i : ι} {is js : List ι}

theorem steps_singleton : Steps step s [i] s' ↔ step s i s' := by
  constructor
  · intro h
    cases h with
    | cons first rest =>
      cases rest
      exact first
  · exact fun h => .cons h (.nil s')

theorem steps_append : Steps step s (is ++ js) s' ↔
    ∃ mid, Steps step s is mid ∧ Steps step mid js s' := by
  induction is generalizing s with
  | nil =>
    constructor
    · exact fun h => ⟨s, .nil s, h⟩
    · rintro ⟨mid, first, second⟩
      cases first
      exact second
  | cons i is ih =>
    constructor
    · intro h
      cases h with
      | cons first rest =>
        obtain ⟨mid, others, second⟩ := ih.mp rest
        exact ⟨mid, .cons first others, second⟩
    · rintro ⟨mid, first, second⟩
      cases first with
      | cons first rest => exact .cons first (ih.mpr ⟨mid, rest, second⟩)

theorem Steps.imp (h : Steps step s is s') (each : ∀ s i s', step s i s' → step' s i s') :
    Steps step' s is s' := by
  induction h with
  | nil s => exact .nil s
  | cons first rest ih => exact .cons (each _ _ _ first) ih

end

namespace Dns
open Data

/-! ## Records -/

/-- A record as the provider keeps it. -/
structure HostedRecord where
  id : Nat
  host : String
  type : String
  answer : String
  ttl : Nat
  deriving DecidableEq, Repr

namespace HostedRecord
variable {host target : String} {r : HostedRecord}

/-- The record as it is listed. -/
def listed (r : HostedRecord) : ListedRecord := ⟨r.id, r.host, r.type, r.answer⟩

/-- A record is on a host up to ASCII case. -/
def isOn (host : String) (r : HostedRecord) : Bool := Text.sameIgnoringAsciiCase r.host host

/-- Whether a record is a CNAME on the host to the target, up to ASCII case and dots at the end of
the target. -/
def isCname (host target : String) (r : HostedRecord) : Bool :=
  r.isOn host && Text.sameIgnoringAsciiCase r.type "CNAME" &&
    Text.sameIgnoringAsciiCase (Text.trimEnd '.' r.answer) (Text.trimEnd '.' target)

theorem isCname_eq : r.isCname host target = (r.isOn host && r.listed.isCnameTo target) :=
  Bool.and_assoc _ _ _

theorem isCname_self (id : Nat) (host target : String) (ttl : Nat) :
    (HostedRecord.mk id host "CNAME" target ttl).isCname host target = true := by
  simp [isCname, isOn, Text.sameIgnoringAsciiCase]

/-- The record that a request describes, under the id that it gets. -/
def readSent (id : Nat) (t : Tree) : Reading HostedRecord := do
  let row ← Row.read false [field "host" Tree.asText, field "type" Tree.asText,
    field "answer" Tree.asText, field "ttl" (Tree.asNat 32)] t
  return {
    id
    host := ← row.required "host" Tree.asText
    type := ← row.required "type" Tree.asText
    answer := ← row.required "answer" Tree.asText
    ttl := ← row.required "ttl" (Tree.asNat 32) }

/-- What is sent for a new record describes a CNAME to the target. -/
theorem readSent_newRecord (id : Nat) (host target : String) :
    Json.readText (readSent id) (Json.write (Provider.newRecord host target)) =
      .ok ⟨id, host, "CNAME", target, 300⟩ := by
  have exact : ∀ n ∈ Json.numbers (Provider.newRecord host target), Json.Exact n := by
    simp only [Provider.newRecord, Value.ofNat, Json.numbers, Json.numbersUnder, List.nil_append,
      List.append_nil, List.mem_singleton, forall_eq]
    exact Json.exact_int (by decide) (by decide)
  rw [Json.readText_write exact]
  rfl

end HostedRecord

/-! ## Zones -/

structure HostedPage where
  number : Nat
  records : List HostedRecord
  deriving DecidableEq, Repr

/-- A zone laid out on pages, where no two records have the same id. -/
structure HostedZone where
  pages : List HostedPage
  first : pages.head?.map (·.number) = some 1
  ascending : pages.Pairwise fun page later => page.number < later.number
  distinct : ∀ r ∈ pages.flatMap (·.records), ∀ s ∈ pages.flatMap (·.records), r.id = s.id → r = s

namespace HostedZone

/-- The records in the order of the pages. -/
def listing (z : HostedZone) : List HostedRecord := z.pages.flatMap (·.records)

/-- The records of all pages. -/
def records (z : HostedZone) : Finset HostedRecord := z.listing.toFinset

@[simp] theorem mem_records {z : HostedZone} {r : HostedRecord} : r ∈ z.records ↔ r ∈ z.listing :=
  List.mem_toFinset

theorem number_lt {z : HostedZone} {before after : List HostedPage} {page later : HostedPage}
    (there : z.pages = before ++ page :: later :: after) : page.number < later.number := by
  have ascending := z.ascending
  rw [there] at ascending
  exact (List.pairwise_cons.mp (List.pairwise_append.mp ascending).2.1).1 later (by simp)

/-- A page stands at one place. -/
theorem place_unique {z : HostedZone} {before before' after after' : List HostedPage}
    {page page' : HostedPage} (there : z.pages = before ++ page :: after)
    (there' : z.pages = before' ++ page' :: after') (same : page.number = page'.number) :
    page = page' ∧ after = after' := by
  have ascending := z.ascending
  have both := there.symm.trans there'
  rw [there] at ascending
  clear there there'
  induction before generalizing before' with
  | nil =>
    cases before' with
    | nil => exact List.cons.inj both
    | cons other before' =>
      obtain ⟨rfl, rfl⟩ := List.cons.inj both
      have := (List.pairwise_cons.mp ascending).1 page' (by simp)
      omega
  | cons other before ih =>
    cases before' with
    | nil =>
      obtain ⟨rfl, rfl⟩ := List.cons.inj both
      have := (List.pairwise_cons.mp ascending).1 page (by simp)
      omega
    | cons other' before' =>
      exact ih (List.pairwise_cons.mp ascending).2 (List.cons.inj both).2

end HostedZone

namespace Provider
variable {p : Provider} {z z' : HostedZone} {request : Http.Request} {host target : String}

/-! ## Requests as the provider reads them -/

/-- A request for a page of the zone. -/
def AsksPage (p : Provider) (page : Nat) (request : Http.Request) : Prop :=
  request.method = .get ∧ ∃ url size, Url.parse? (p.recordsAddress none) = some url ∧
    request.url = (plain url).appendPairs [("page", toString page), ("perPage", size)]

theorem asksPage_of_request {n : Nat} (h : p.pageRequest n = .ok request) :
    p.AsksPage n request := by
  obtain ⟨url, address, -, rfl⟩ := request_eq_ok.mp h
  exact ⟨rfl, url, "1000", address, rfl⟩

theorem AsksPage.eq {m n : Nat} (h : p.AsksPage m request)
    (sent : p.pageRequest n = .ok request) : m = n := by
  obtain ⟨-, url, size, address, same⟩ := h
  obtain ⟨-, url', size', address', same'⟩ := asksPage_of_request sent
  cases Option.some.inj (address.symm.trans address')
  have pairs := Url.appendPairs_injective (plain url) (same.symm.trans same')
  exact Url.toString_injective (Prod.mk.inj (List.cons.inj pairs).1).2

theorem sentTo_of_creation (h : p.creationRequest host target = .ok request) :
    SentTo (p.recordsAddress none) request ∧ request.body = Json.write (newRecord host target) := by
  obtain ⟨url, address, -, rfl⟩ := request_eq_ok.mp h
  exact ⟨⟨url, address, rfl⟩, rfl⟩

theorem sentTo_of_deletion {id : Nat} (h : p.deletionRequest id = .ok request) :
    SentTo (p.recordsAddress (some id)) request := by
  obtain ⟨url, address, -, rfl⟩ := request_eq_ok.mp h
  exact ⟨url, address, rfl⟩

/-- Different records have different addresses. -/
theorem Reaches.id_eq (h : p.Reaches) {m n : Nat}
    (first : SentTo (p.recordsAddress (some m)) request)
    (second : SentTo (p.recordsAddress (some n)) request) : m = n := by
  obtain ⟨_, sent⟩ := h.page 1
  obtain ⟨base, address, usable, -⟩ := request_eq_ok.mp sent
  obtain ⟨cs, last⟩ := p.recordsAddress_last
  obtain ⟨tail, injective, below⟩ := Url.exists_appended last rfl address (isWeb_of_usable usable)
  rw [SentTo, recordsAddress_some] at first second
  obtain ⟨url, read, same⟩ := first
  obtain ⟨url', read', same'⟩ := second
  rw [below] at read read'
  cases read
  cases read'
  have urls := same.symm.trans same'
  refine injective (Prod.ext ?_ (Prod.ext ?_ ?_))
  · exact congrArg Url.path urls
  · exact congrArg Url.query urls
  · exact congrArg Url.fragment urls

/-! ## Answers -/

/-- What an answer says about the page after one: its number, or none that is later. -/
def Onward (next : Option Nat) (page : Nat) : List HostedPage → Prop
  | [] => ∀ n ∈ next, n ≤ page
  | later :: _ => next = some later.number

/-- How an honest provider answers, and which zone it is left with. -/
inductive Answers (p : Provider) :
    HostedZone → Event Http.Request ExchangeAnswer → HostedZone → Prop
  | page {z : HostedZone} {before after : List HostedPage} {page : HostedPage} {next : Option Nat}
      {request : Http.Request} {answer : Except Http.Failure Http.Response}
      (asked : p.AsksPage page.number request) (there : z.pages = before ++ page :: after)
      (onward : Onward next page.number after)
      (given : pageOf answer = .ok ⟨page.records.map (·.listed), next⟩) :
      Answers p z ⟨request, answer⟩ z
  /-- There is nothing to say about pages that do not exist. -/
  | noPage {z : HostedZone} {n : Nat} {request : Http.Request}
      {answer : Except Http.Failure Http.Response} (asked : p.AsksPage n request)
      (missing : ∀ page ∈ z.pages, page.number ≠ n) : Answers p z ⟨request, answer⟩ z
  | added {z z' : HostedZone} {record : HostedRecord} {request : Http.Request}
      {answer : Except Http.Failure Http.Response} (asked : request.method = .post)
      (address : SentTo (p.recordsAddress none) request)
      (sent : Json.readText (HostedRecord.readSent record.id) request.body = .ok record)
      (fresh : ∀ r ∈ z.records, r.id ≠ record.id) (grown : z'.records = insert record z.records)
      (given : createdId answer = .ok (toString record.id)) : Answers p z ⟨request, answer⟩ z'
  | removed {z z' : HostedZone} {record : HostedRecord} {request : Http.Request}
      {response : Http.Response} (asked : request.method = .delete)
      (address : SentTo (p.recordsAddress (some record.id)) request) (there : record ∈ z.records)
      (left : z'.records = z.records.erase record)
      (given : response.isSuccess = true) : Answers p z ⟨request, .ok response⟩ z'
  | absent {z : HostedZone} {id : Nat} {request : Http.Request} {response : Http.Response}
      (asked : request.method = .delete) (address : SentTo (p.recordsAddress (some id)) request)
      (missing : ∀ r ∈ z.records, r.id ≠ id)
      (given : response.status = 404) : Answers p z ⟨request, .ok response⟩ z

variable {e : Event Http.Request ExchangeAnswer}

theorem answers_page {before after : List HostedPage} {page : HostedPage}
    (h : p.Answers z e z') (sent : p.pageRequest page.number = .ok e.request)
    (there : z.pages = before ++ page :: after) :
    z' = z ∧ ∃ next, Onward next page.number after ∧
      pageOf e.answer = .ok ⟨page.records.map (·.listed), next⟩ := by
  have method := method_of_request sent
  cases h with
  | page asked there' onward given =>
    obtain ⟨rfl, rfl⟩ := HostedZone.place_unique there' there (asked.eq sent)
    exact ⟨rfl, _, onward, given⟩
  | noPage asked missing =>
    exact absurd (asked.eq sent).symm (missing page (by simp [there]))
  | added asked => cases asked.symm.trans method
  | removed asked => cases asked.symm.trans method
  | absent asked => cases asked.symm.trans method

theorem answers_creation (h : p.Answers z e z')
    (sent : p.creationRequest host target = .ok e.request) :
    ∃ id, (∀ r ∈ z.records, r.id ≠ id) ∧
      z'.records = insert ⟨id, host, "CNAME", target, 300⟩ z.records ∧
      createdId e.answer = .ok (toString id) := by
  have method := method_of_request sent
  cases h with
  | page asked => cases asked.1.symm.trans method
  | noPage asked => cases asked.1.symm.trans method
  | @added _ record _ _ asked address read fresh grown given =>
    dsimp only at sent
    rw [(sentTo_of_creation sent).2, HostedRecord.readSent_newRecord] at read
    have same := Except.ok.inj read
    exact ⟨record.id, fresh, by rw [grown, same], given⟩
  | removed asked => cases asked.symm.trans method
  | absent asked => cases asked.symm.trans method

theorem answers_deletion (reaches : p.Reaches) {id : Nat} (h : p.Answers z e z')
    (sent : p.deletionRequest id = .ok e.request) :
    deleted e.answer = .ok () ∧ z'.records = z.records.filter (·.id ≠ id) := by
  have method := method_of_request sent
  cases h with
  | page asked => cases asked.1.symm.trans method
  | noPage asked => cases asked.1.symm.trans method
  | added asked => cases asked.symm.trans method
  | @removed _ record _ response asked address there left given =>
    have found : record.id = id := reaches.id_eq address (sentTo_of_deletion sent)
    refine ⟨deleted_eq_ok.mpr ⟨response, rfl, .inr (Http.Response.isSuccess_iff.mp given)⟩, ?_⟩
    rw [left]
    ext r
    rw [Finset.mem_erase, Finset.mem_filter, ← found]
    constructor
    · rintro ⟨other, inside⟩
      refine ⟨inside, fun same => other ?_⟩
      exact z.distinct r (HostedZone.mem_records.mp inside) record
        (HostedZone.mem_records.mp there) same
    · rintro ⟨inside, other⟩
      exact ⟨fun same => other (congrArg _ same), inside⟩
  | @absent _ _ response asked address missing given =>
    cases reaches.id_eq address (sentTo_of_deletion sent)
    refine ⟨deleted_eq_ok.mpr ⟨response, rfl, .inl given⟩, ?_⟩
    rw [Finset.filter_true_of_mem missing]

end Provider
end Dns
end CertEnrollment
