import CertEnrollment.Proofs.Data.Rows
import CertEnrollment.Proofs.Dns.Backends
import CertEnrollment.Proofs.Json.Reading
import CertEnrollment.Proofs.Transcript
import CertEnrollment.Proofs.Url.Appended
import Mathlib.Data.List.Forall2

/-!
# Listing a zone

The records of a host are found page by page. Every page that is asked for is named by the page
before it and has a greater number, and numbers have a bound, so the listing ends at a page that
names no later one, whatever the provider answers. The result is all or nothing: the records of
all pages, or the first error. Only after a complete listing anything is created or deleted.
-/
namespace CertEnrollment.Data

/-- A natural number that was read has no more bits than it may. -/
theorem Tree.asNat_le {bits n : Nat} {t : Tree} (h : t.asNat bits = .ok n) :
    n ≤ Nat.pow 2 bits - 1 := by
  obtain ⟨i, read, rfl⟩ := map_eq_ok.mp h
  unfold asInt at read
  split at read
  · split at read
    · next bounds =>
      cases read
      exact Int.toNat_le.mpr bounds.2
    · cases read
  · cases read

end CertEnrollment.Data

namespace CertEnrollment.Dns
open Data Interaction

abbrev Exchanges := List (Event Http.Request ExchangeAnswer)

namespace Provider
variable {p : Provider} {t : Exchanges} {host subdomain branch target : String}

/-! ## Requests -/

/-- The request that is sent to an address, if one can be made. -/
def request (p : Provider) (method : Http.Method) (address : String)
    (query : List (String × String)) (json : Option Value) : Except Error Http.Request :=
  match Url.parse? address with
  | none => .error (.http Http.Failure.badUrl.message)
  | some url =>
    let request : Http.Request := {
      method
      url := if query.isEmpty then url else url.appendPairs query
      contentType := json.map fun _ => "application/json"
      authorization := some (Http.basicAuth p.username p.token)
      userAgent := none
      body := (json.map Json.write).getD "" }
    request.prepare.mapError fun f => .http f.message

/-- The request for a page of the listing. -/
def pageRequest (p : Provider) (page : Nat) : Except Error Http.Request :=
  p.request .get (p.recordsAddress none) [("page", toString page), ("perPage", "1000")] none

/-- The request to create a record. -/
def creationRequest (p : Provider) (host target : String) : Except Error Http.Request :=
  p.request .post (p.recordsAddress none) [] (some (newRecord host target))

/-- The request to delete a record. -/
def deletionRequest (p : Provider) (id : Nat) : Except Error Http.Request :=
  p.request .delete (p.recordsAddress (some id)) [] none

/-- What came back, with the failures of the exchange as errors. -/
def received (answer : Except Http.Failure Http.Response) : Except Error Http.Response :=
  answer.mapError fun f => .http f.message

theorem run_send (method : Http.Method) (address : String) (query : List (String × String))
    (json : Option Value) : (p.send method address query json).run =
      match p.request method address query json with
      | .error e => .done (.error e)
      | .ok request => .ask request fun answer => .done (received answer) := by
  rw [send, request]
  cases Url.parse? address with
  | none => rfl
  | some url =>
    dsimp only
    split
    · next failed => rw [failed]; rfl
    · next ready => rw [ready]; rfl

/-- A request is sent and its answer made something of, or there is no request. -/
theorem runs_exchange {α : Type} {method : Http.Method} {address : String}
    {query : List (String × String)} {json : Option Value} {f : Http.Response → Except Error α}
    {r : Except Error α} :
    Runs (p.send method address query json >>= fun response => settled (f response)).run t r ↔
      (∃ e, p.request method address query json = .error e ∧ t = [] ∧ r = .error e) ∨
      ∃ request answer, p.request method address query json = .ok request ∧
        t = [⟨request, answer⟩] ∧ r = received answer >>= f := by
  have run : (p.send method address query json >>= fun response => settled (f response)).run =
      match p.request method address query json with
      | .error e => .done (.error e)
      | .ok request => .ask request fun answer => .done (received answer >>= f) := by
    rw [ExceptT.run_bind, run_send]
    cases p.request method address query json with
    | error e => rfl
    | ok request =>
      refine congrArg (Interaction.ask request) (funext fun answer => ?_)
      cases answer <;> rfl
  rw [run]
  cases p.request method address query json with
  | error e => simp
  | ok request => simp [runs_ask]

theorem runs_exchange_of_request {α : Type} {method : Http.Method} {address : String}
    {query : List (String × String)} {json : Option Value} {f : Http.Response → Except Error α}
    {r : Except Error α} {request : Http.Request}
    (sent : p.request method address query json = .ok request) :
    Runs (p.send method address query json >>= fun response => settled (f response)).run t r ↔
      ∃ answer, t = [⟨request, answer⟩] ∧ r = received answer >>= f := by
  rw [runs_exchange, sent]
  simp

/-- The address of the records ends in a letter. -/
theorem recordsAddress_last (p : Provider) :
    ∃ cs, (p.recordsAddress none).toList = cs ++ ['s'] := by
  refine ⟨(p.baseUrl ++ "/v4/domains/" ++ p.zone ++ "/record").toList, ?_⟩
  simp [recordsAddress]

theorem recordsAddress_some (p : Provider) (id : Nat) :
    p.recordsAddress (some id) = p.recordsAddress none ++ ("/" ++ toString id) := by
  simp [recordsAddress, String.append_assoc]

/-- User information is no part of a URL that is asked. -/
def plain (url : Url) : Url := { url with username := "", password := "" }

/-- A request to a URL, with the account's authorization. -/
def requestTo (p : Provider) (method : Http.Method) (url : Url) (query : List (String × String))
    (json : Option Value) : Http.Request where
  method
  url := plain (if query.isEmpty then url else url.appendPairs query)
  contentType := json.map fun _ => "application/json"
  authorization := some (Http.basicAuth p.username p.token)
  userAgent := none
  body := (json.map Json.write).getD ""

/-- Whether a request can be made is a matter of scheme and host alone. -/
theorem request_eq_ok {method : Http.Method} {address : String} {query : List (String × String)}
    {json : Option Value} {request : Http.Request} :
    p.request method address query json = .ok request ↔
      ∃ url, Url.parse? address = some url ∧ Http.isUsable (plain url) = true ∧
        request = p.requestTo method url query json := by
  rw [Provider.request]
  cases Url.parse? address with
  | none => simp
  | some url =>
    have usable : Http.isUsable (plain (if query.isEmpty then url else url.appendPairs query)) =
        Http.isUsable (plain url) := by
      split <;> rfl
    simp only [Http.Request.prepare]
    change Except.mapError _ (if Http.isUsable (plain _) = true then _ else _) = _ ↔ _
    rw [usable]
    split
    · next h =>
      constructor
      · intro same
        exact ⟨url, rfl, h, (Except.ok.inj same).symm⟩
      · rintro ⟨_, same, -, rfl⟩
        cases same
        rfl
    · next h =>
      constructor
      · intro absurd
        cases absurd
      · rintro ⟨_, same, usable, -⟩
        cases same
        exact absurd usable h

/-- Where one request to the records can be made, every request to them or to one of them can. -/
structure Reaches (p : Provider) : Prop where
  page : ∀ n, ∃ request, p.pageRequest n = .ok request
  creation : ∀ host target, ∃ request, p.creationRequest host target = .ok request
  deletion : ∀ id, ∃ request, p.deletionRequest id = .ok request

/-- A web address is used for a request. -/
theorem isWeb_of_usable {url : Url} (h : Http.isUsable (plain url) = true) :
    Url.IsWeb url.scheme := by
  rw [Http.isUsable, Bool.and_eq_true, Bool.or_eq_true] at h
  simpa [plain, Url.IsWeb] using h.1

theorem reaches_of_usable {url : Url} (address : Url.parse? (p.recordsAddress none) = some url)
    (usable : Http.isUsable (plain url) = true) : p.Reaches := by
  obtain ⟨cs, last⟩ := p.recordsAddress_last
  obtain ⟨tail, -, below⟩ := Url.exists_appended last rfl address (isWeb_of_usable usable)
  refine ⟨fun n => ⟨_, request_eq_ok.mpr ⟨url, address, usable, rfl⟩⟩,
    fun host target => ⟨_, request_eq_ok.mpr ⟨url, address, usable, rfl⟩⟩, fun id => ?_⟩
  have address' := below id
  rw [← recordsAddress_some] at address'
  exact ⟨_, request_eq_ok.mpr ⟨_, address', usable, rfl⟩⟩

theorem reaches_of_page {n : Nat} {request : Http.Request} (h : p.pageRequest n = .ok request) :
    p.Reaches := by
  obtain ⟨url, address, usable, -⟩ := request_eq_ok.mp h
  exact reaches_of_usable address usable

theorem method_of_request {method : Http.Method} {address : String}
    {query : List (String × String)} {json : Option Value} {request : Http.Request}
    (h : p.request method address query json = .ok request) : request.method = method := by
  obtain ⟨url, -, -, rfl⟩ := request_eq_ok.mp h
  rfl

/-! ## Answers -/

/-- The response is in 2xx. -/
def In2xx (response : Http.Response) : Prop := 200 ≤ response.status ∧ response.status < 300

/-- The answer is a response in 2xx, and this is read from its body. -/
def Brings {α : Type} (read : Tree → Reading α) (answer : Except Http.Failure Http.Response)
    (a : α) : Prop :=
  ∃ response, answer = .ok response ∧ In2xx response ∧ Json.readBytes read response.body = .ok a

/-- The answer is a response in 2xx, or it says that there is no such record. -/
def Removes (answer : Except Http.Failure Http.Response) : Prop :=
  ∃ response, answer = .ok response ∧ (response.status = 404 ∨ In2xx response)

theorem check_eq_ok {response checked : Http.Response} :
    check response = .ok checked ↔ In2xx response ∧ response = checked := by
  rw [In2xx, ← Http.Response.isSuccess_iff, check]
  split
  · next passes => simp [passes]
  · next fails => simp [fails]

theorem received_bind_eq_ok {α : Type} {answer : Except Http.Failure Http.Response}
    {f : Http.Response → Except Error α} {a : α} :
    received answer >>= f = .ok a ↔ ∃ response, answer = .ok response ∧ f response = .ok a := by
  simp only [received, bind_eq_ok, mapError_eq_ok]

theorem decode_eq_ok {α : Type} {read : Tree → Reading α} {response : Http.Response} {a : α} :
    decode read response = .ok a ↔
      In2xx response ∧ Json.readBytes read response.body = .ok a := by
  simp only [decode, bind_eq_ok, check_eq_ok, mapError_eq_ok]
  constructor
  · rintro ⟨_, ⟨success, rfl⟩, body⟩
    exact ⟨success, body⟩
  · rintro ⟨success, body⟩
    exact ⟨response, ⟨success, rfl⟩, body⟩

theorem decoded_eq_ok {α : Type} {read : Tree → Reading α}
    {answer : Except Http.Failure Http.Response} {a : α} :
    received answer >>= decode read = .ok a ↔ Brings read answer a := by
  simp only [received_bind_eq_ok, decode_eq_ok, Brings]

/-! ## Pages -/

/-- The page that an answer gives, or why there is none. -/
def pageOf (answer : Except Http.Failure Http.Response) : Except Error ListedPage :=
  received answer >>= decode ListedPage.read

theorem pageOf_eq_ok {answer : Except Http.Failure Http.Response} {page : ListedPage} :
    pageOf answer = .ok page ↔ Brings ListedPage.read answer page :=
  decoded_eq_ok

theorem runs_listPage {n : Nat} {r : Except Error ListedPage} :
    Runs (p.listPage n).run t r ↔
      (∃ e, p.pageRequest n = .error e ∧ t = [] ∧ r = .error e) ∨
      ∃ request answer, p.pageRequest n = .ok request ∧ t = [⟨request, answer⟩] ∧
        r = pageOf answer :=
  runs_exchange

theorem nextPage_of_read {tree : Tree} {page : ListedPage} {next : Nat}
    (h : ListedPage.read tree = .ok page) (named : page.nextPage = some next) : next ≤ maxPage := by
  obtain ⟨row, -, h⟩ := bind_eq_ok.mp h
  obtain ⟨records, -, h⟩ := bind_eq_ok.mp h
  obtain ⟨nextPage, read, h⟩ := bind_eq_ok.mp h
  cases h
  cases named
  unfold Row.optional at read
  split at read
  · next cell _ =>
    unfold Tree.asOption at read
    split at read
    · cases read
    · obtain ⟨_, number, same⟩ := map_eq_ok.mp read
      cases same
      exact Tree.asNat_le number
  · cases read

/-- A page names no page beyond the last number. -/
theorem nextPage_le {answer : Except Http.Failure Http.Response} {page : ListedPage} {next : Nat}
    (h : Brings ListedPage.read answer page) (named : page.nextPage = some next) :
    next ≤ maxPage := by
  obtain ⟨response, -, -, parsed⟩ := h
  obtain ⟨tree, record⟩ := Json.tree_of_readBytes parsed
  exact nextPage_of_read record named

/-! ## Listings -/

/-- A page that was asked for, and what came back. -/
structure Visit where
  page : Nat
  answer : Except Http.Failure Http.Response

/-- The next page is a later one, and the answer names it. -/
def Visit.LeadsTo (v w : Visit) : Prop :=
  ∃ page, Brings ListedPage.read v.answer page ∧ page.nextPage = some w.page ∧ v.page < w.page

/-- All records of a host on the pages, in order, or the first error. -/
def collected (host : String) (visits : List Visit) : Except Error (List ListedRecord) :=
  (visits.mapM fun v => pageOf v.answer).map fun pages =>
    (pages.flatMap (·.records)).filter fun r => Text.sameIgnoringAsciiCase r.host host

/-- Every visit brought a page, and these are the records of the host on them, in order. -/
def CollectedFrom (host : String) (visits : List Visit) (records : List ListedRecord) : Prop :=
  ∃ pages, List.Forall₂ (fun v page => Brings ListedPage.read v.answer page) visits pages ∧
    records = (pages.flatMap (·.records)).filter fun r => Text.sameIgnoringAsciiCase r.host host

theorem collected_eq_ok {visits : List Visit} {records : List ListedRecord} :
    collected host visits = .ok records ↔ CollectedFrom host visits records := by
  rw [collected, map_eq_ok]
  simp only [CollectedFrom, mapM_eq_ok, pageOf_eq_ok, eq_comm (a := records)]

/-- A listing from a page on, with the pages that were asked for and what it comes to. -/
structure Lists (p : Provider) (host : String) (start : Nat) (visits : List Visit) (t : Exchanges)
    (r : Except Error (List ListedRecord)) : Prop where
  asked : List.Forall₂ (fun v e => p.pageRequest v.page = .ok e.request ∧ e.answer = v.answer)
    visits t
  onlyReads : ∀ e ∈ t, e.request.method = .get
  first : ∀ v ∈ visits.head?, v.page = start
  chain : visits.IsChain Visit.LeadsTo
  /-- The last page names no later one. -/
  last : ∀ v ∈ visits.getLast?, ∀ page next, Brings ListedPage.read v.answer page →
    page.nextPage = some next → next ≤ v.page
  bounded : start + visits.length ≤ maxPage + 1
  result : visits ≠ [] → r = collected host visits
  /-- There are records just when every visit brought a page: those of the host on all pages. -/
  complete : ∀ records, r = .ok records ↔ visits ≠ [] ∧ CollectedFrom host visits records
  /-- Without any page there is no request to make. -/
  unsent : visits = [] → ∃ e, p.pageRequest start = .error e ∧ r = .error e

variable {v : Visit} {visits : List Visit} {page : ListedPage}

theorem collected_cons (h : pageOf v.answer = .ok page) : collected host (v :: visits) =
    (collected host visits).map
      (page.records.filter (fun r => Text.sameIgnoringAsciiCase r.host host) ++ ·) := by
  rw [collected, collected, List.mapM_cons, h]
  cases visits.mapM fun v => pageOf v.answer with
  | error e => rfl
  | ok pages => exact congrArg Except.ok (by simp)

theorem collected_singleton (h : pageOf v.answer = .ok page) : collected host [v] =
    .ok (page.records.filter fun r => Text.sameIgnoringAsciiCase r.host host) := by
  rw [collected_cons h]
  exact congrArg Except.ok (List.append_nil _)

theorem collected_of_error {e : Error} (h : pageOf v.answer = .error e) :
    collected host (v :: visits) = .error e := by
  rw [collected, List.mapM_cons, h]
  rfl

/-- The listing ends with one page more. -/
theorem lists_last {n : Nat} {request : Http.Request} (bound : n ≤ maxPage)
    (sent : p.pageRequest n = .ok request) {answer : Except Http.Failure Http.Response}
    (last : ∀ page next, Brings ListedPage.read answer page → page.nextPage = some next →
      next ≤ n) :
    p.Lists host n [⟨n, answer⟩] [⟨request, answer⟩] (collected host [⟨n, answer⟩]) where
  asked := .cons ⟨sent, rfl⟩ .nil
  onlyReads := by simpa using method_of_request sent
  first := by simp
  chain := .singleton _
  last := by simpa using last
  bounded := by simpa using bound
  result _ := rfl
  complete _ := by simp [collected_eq_ok]
  unsent absurd := by cases absurd

/-- The listing goes on with the page that is named. -/
theorem Lists.cons {n next : Nat} {request : Http.Request} {r : Except Error (List ListedRecord)}
    {answer : Except Http.Failure Http.Response} (sent : p.pageRequest n = .ok request)
    (given : Brings ListedPage.read answer page) (named : page.nextPage = some next)
    (later : n < next) (rest : p.Lists host next visits t r) :
    p.Lists host n (⟨n, answer⟩ :: visits) (⟨request, answer⟩ :: t)
      (r.map (page.records.filter (fun r => Text.sameIgnoringAsciiCase r.host host) ++ ·)) := by
  have some_there : visits ≠ [] := by
    intro none
    obtain ⟨e, failed, -⟩ := rest.unsent none
    obtain ⟨_, sent'⟩ := (reaches_of_page sent).page next
    cases failed.symm.trans sent'
  obtain ⟨v, visits, rfl⟩ := List.exists_cons_of_ne_nil some_there
  have onward : Visit.LeadsTo ⟨n, answer⟩ v := by
    have first := rest.first v rfl
    exact ⟨page, given, first ▸ named, first ▸ later⟩
  have whole : collected host (⟨n, answer⟩ :: v :: visits) = _ :=
    collected_cons (pageOf_eq_ok.mpr given)
  refine ⟨.cons ⟨sent, rfl⟩ rest.asked,
    List.forall_mem_cons.mpr ⟨method_of_request sent, rest.onlyReads⟩, by simp,
    rest.chain.cons_cons onward, ?_, ?_, fun _ => ?_, ?_, fun absurd => by cases absurd⟩
  · rw [List.getLast?_cons_cons]
    exact rest.last
  · have := rest.bounded
    simp only [List.length_cons] at this ⊢
    omega
  · rw [whole, rest.result some_there]
  · intro records
    rw [rest.result some_there, ← whole, collected_eq_ok]
    simp

/-- There are as many pages left as there are numbers, so the listing never ends for want of
them. -/
theorem exists_lists {pagesLeft n : Nat} {r : Except Error (List ListedRecord)}
    (bound : n ≤ maxPage) (enough : maxPage < n + pagesLeft)
    (run : Runs (p.findFrom host pagesLeft n).run t r) :
    ∃ visits, p.Lists host n visits t r := by
  induction pagesLeft generalizing n t r with
  | zero => omega
  | succ pagesLeft ih =>
    rw [findFrom, runs_run_bind] at run
    obtain ⟨e, failed, rfl⟩ | ⟨t₁, t₂, page, rfl, listed, rest⟩ := run
    · obtain ⟨e', none, rfl, same⟩ | ⟨request, answer, sent, rfl, same⟩ := runs_listPage.mp failed
      · cases same
        exact ⟨[], .nil, by simp, by simp, .nil, by simp, Nat.le_succ_of_le bound,
          fun absurd => (absurd rfl).elim, by simp, fun _ => ⟨e, none, rfl⟩⟩
      · have lists : p.Lists host n [⟨n, answer⟩] [⟨request, answer⟩]
            (collected host [⟨n, answer⟩]) :=
          lists_last bound sent fun page _ given => by
            cases (pageOf_eq_ok.mpr given).symm.trans same.symm
        rw [collected_of_error (v := ⟨n, answer⟩) same.symm] at lists
        exact ⟨_, lists⟩
    obtain ⟨_, -, -, absurd⟩ | ⟨request, answer, sent, rfl, given⟩ := runs_listPage.mp listed
    · cases absurd
    -- without a later page, this one is all
    have ends {r : Except Error (List ListedRecord)}
        (last : ∀ next, page.nextPage = some next → next ≤ n)
        (done : Runs (pure (page.records.filter fun r => Text.sameIgnoringAsciiCase r.host host) :
          ProviderAction _).run t₂ r) :
        ∃ visits, p.Lists host n visits ([⟨request, answer⟩] ++ t₂) r := by
      obtain ⟨rfl, rfl⟩ := runs_pure.mp done
      have lists : p.Lists host n [⟨n, answer⟩] [⟨request, answer⟩]
          (collected host [⟨n, answer⟩]) :=
        lists_last bound sent fun page' next same => by
          cases given.trans (pageOf_eq_ok.mpr same)
          exact last next
      rw [collected_singleton (v := ⟨n, answer⟩) given.symm] at lists
      exact ⟨_, lists⟩
    have brought := pageOf_eq_ok.mp given.symm
    dsimp only at rest
    split at rest
    · next next named =>
      split at rest
      · next later =>
        obtain ⟨e, failed, rfl⟩ | ⟨t₃, t₄, found, rfl, listed, done⟩ := runs_run_bind.mp rest
        · obtain ⟨visits, lists⟩ := ih (nextPage_le brought named) (by omega) failed
          exact ⟨_, lists.cons sent brought named later⟩
        · obtain ⟨visits, lists⟩ := ih (nextPage_le brought named) (by omega) listed
          obtain ⟨rfl, rfl⟩ := runs_pure.mp done
          rw [List.append_nil]
          exact ⟨_, lists.cons sent brought named later⟩
      · next notLater => exact ends (by simp [named]; omega) rest
    · next none => exact ends (by simp [none]) rest

theorem lists_of_findRecords {r : Except Error (List ListedRecord)}
    (run : Runs (p.findRecords host).run t r) : ∃ visits, p.Lists host 1 visits t r :=
  exists_lists (by decide) (by omega) run

/-! ## Changes after a listing -/

/-- What came of creating a record: its id, or why there is none. -/
def createdId (answer : Except Http.Failure Http.Response) : Except Error String :=
  (received answer >>= decode ListedRecord.read).map fun r => toString r.id

theorem createdId_eq_ok {answer : Except Http.Failure Http.Response} {id : String} :
    createdId answer = .ok id ↔
      ∃ record, Brings ListedRecord.read answer record ∧ toString record.id = id := by
  simp only [createdId, map_eq_ok, decoded_eq_ok]

/-- What a creation does when these records of the host were listed. -/
structure Creates (p : Provider) (host target : String) (records : List ListedRecord)
    (t : Exchanges) (r : Except Error String) : Prop where
  present : ∀ found, records.find? (·.isCnameTo target) = some found →
    t = [] ∧ r = .ok (toString found.id)
  absent : records.find? (·.isCnameTo target) = none → ∃ request answer,
    p.creationRequest host target = .ok request ∧ t = [⟨request, answer⟩] ∧
      r = createdId answer ∧ ∀ id, r = .ok id ↔
        ∃ record, Brings ListedRecord.read answer record ∧ toString record.id = id

/-- A record is gone when it was deleted, and when it was not there. -/
def gone (response : Http.Response) : Except Error Unit :=
  if response.status = 404 then .ok () else (check response).map fun _ => ()

/-- What came of deleting a record. -/
def deleted (answer : Except Http.Failure Http.Response) : Except Error Unit :=
  received answer >>= gone

theorem deleted_eq_ok {answer : Except Http.Failure Http.Response} :
    deleted answer = .ok () ↔ Removes answer := by
  have each (response : Http.Response) :
      gone response = .ok () ↔ response.status = 404 ∨ In2xx response := by
    rw [gone]
    split
    · next absent => simp [absent]
    · next present => simp [map_eq_ok, check_eq_ok, present]
  simp only [deleted, received_bind_eq_ok, each, Removes]

/-- What a deletion does when these records of the host were listed: they are deleted in order, up
to the first failure. -/
structure Deletes (p : Provider) (records : List ListedRecord) (t : Exchanges)
    (r : Except Error Unit) : Prop where
  asked : List.Forall₂ (fun record e => p.deletionRequest record.id = .ok e.request)
    (records.take t.length) t
  goesOn : ∀ e ∈ t.dropLast, Removes e.answer
  result : r = forM t fun e => deleted e.answer
  /-- There is no error just when there was an answer for every record, and each one removes it. -/
  complete : r = .ok () ↔ t.length = records.length ∧ ∀ e ∈ t, Removes e.answer

theorem deleteAll_cons (record : ListedRecord) (records : List ListedRecord) :
    p.deleteAll (record :: records) =
      (p.send .delete (p.recordsAddress (some record.id)) [] none >>= fun response =>
        settled (gone response)) >>= fun _ => p.deleteAll records := by
  rw [deleteAll, bind_assoc]
  refine congrArg _ (funext fun response => ?_)
  rw [gone]
  by_cases absent : response.status = 404
  · rw [if_neg (not_not.mpr absent), if_pos absent]
    rfl
  · rw [if_pos absent, if_neg absent]
    cases check response <;> rfl

/-- Records are deleted one after the other, up to the first failure. -/
theorem runs_deleteAll_cons {record : ListedRecord} {records : List ListedRecord}
    {request : Http.Request} (sent : p.deletionRequest record.id = .ok request)
    {r : Except Error Unit} : Runs (p.deleteAll (record :: records)).run t r ↔
      ∃ answer, (∃ e, deleted answer = .error e ∧ t = [⟨request, answer⟩] ∧ r = .error e) ∨
        ∃ rest, deleted answer = .ok () ∧ t = ⟨request, answer⟩ :: rest ∧
          Runs (p.deleteAll records).run rest r := by
  rw [deleteAll_cons, runs_run_bind]
  constructor
  · rintro (⟨e, failed, rfl⟩ | ⟨t₁, t₂, ⟨⟩, rfl, done, rest⟩)
    · obtain ⟨answer, rfl, failure⟩ := (runs_exchange_of_request sent).mp failed
      exact ⟨answer, .inl ⟨e, failure.symm, rfl, rfl⟩⟩
    · obtain ⟨answer, rfl, success⟩ := (runs_exchange_of_request sent).mp done
      exact ⟨answer, .inr ⟨t₂, success.symm, rfl, rest⟩⟩
  · rintro ⟨answer, ⟨e, failure, rfl, rfl⟩ | ⟨rest, success, rfl, run⟩⟩
    · exact .inl ⟨e, (runs_exchange_of_request sent).mpr ⟨answer, rfl, failure.symm⟩, rfl⟩
    · have done := (runs_exchange_of_request sent).mpr ⟨answer, rfl, success.symm⟩
      exact .inr ⟨_, rest, (), rfl, done, run⟩

theorem deletes_of_deleteAll (reaches : p.Reaches) {records : List ListedRecord}
    {r : Except Error Unit} (run : Runs (p.deleteAll records).run t r) : p.Deletes records t r := by
  induction records generalizing t r with
  | nil =>
    obtain ⟨rfl, rfl⟩ := runs_pure.mp run
    exact ⟨.nil, by simp, rfl, by simp⟩
  | cons record records ih =>
    obtain ⟨request, sent⟩ := reaches.deletion record.id
    obtain ⟨answer, ⟨e, failure, rfl, rfl⟩ | ⟨t, success, rfl, rest⟩⟩ :=
      (runs_deleteAll_cons sent).mp run
    · refine ⟨.cons sent .nil, by simp, ?_, ?_⟩
      · rw [List.forM_cons, failure]
        rfl
      · simp [← deleted_eq_ok, failure]
    · obtain ⟨asked, goesOn, result, complete⟩ := ih rest
      have removed := deleted_eq_ok.mp success
      refine ⟨.cons sent asked, ?_, ?_, ?_⟩
      · cases t with
        | nil => simp
        | cons e t => simpa [removed] using goesOn
      · rw [List.forM_cons, success, result]
        rfl
      · rw [complete, List.length_cons, List.length_cons, Nat.succ_inj, List.forall_mem_cons]
        simp [removed]

/-- What is left of a creation when the records were listed. -/
def createAmong (p : Provider) (host target : String) (records : List ListedRecord) :
    ProviderAction String :=
  match records.find? (·.isCnameTo target) with
  | some r => pure (toString r.id)
  | none => do
    let response ← p.send .post (p.recordsAddress none) [] (some (newRecord host target))
    let r ← settled (decode ListedRecord.read response)
    return toString r.id

theorem createCname_eq : p.createCname subdomain branch target =
    p.findRecords (composeHost subdomain branch) >>=
      p.createAmong (composeHost subdomain branch) target := rfl

/-- Without a record of its kind, a new one is sent. -/
theorem runs_createAmong {records : List ListedRecord} {request : Http.Request}
    (absent : records.find? (·.isCnameTo target) = none)
    (sent : p.creationRequest host target = .ok request) {r : Except Error String} :
    Runs (p.createAmong host target records).run t r ↔
      ∃ answer, t = [⟨request, answer⟩] ∧ r = createdId answer := by
  rw [createAmong, absent]
  dsimp only
  rw [← bind_assoc, runs_run_bind]
  constructor
  · rintro (⟨e, failed, rfl⟩ | ⟨t₁, t₂, record, rfl, done, rest⟩)
    · obtain ⟨answer, rfl, same⟩ := (runs_exchange_of_request sent).mp failed
      exact ⟨answer, rfl, by rw [createdId, ← same]; rfl⟩
    · obtain ⟨answer, rfl, same⟩ := (runs_exchange_of_request sent).mp done
      obtain ⟨rfl, rfl⟩ := runs_pure.mp rest
      exact ⟨answer, rfl, by rw [createdId, ← same]; rfl⟩
  · rintro ⟨answer, rfl, rfl⟩
    have exchange {r : Except Error ListedRecord}
        (same : received answer >>= decode ListedRecord.read = r) :=
      (runs_exchange_of_request sent).mpr ⟨answer, rfl, same.symm⟩
    rw [createdId]
    cases decoded : received answer >>= decode ListedRecord.read with
    | error e => exact .inl ⟨e, exchange decoded, rfl⟩
    | ok record => exact .inr ⟨_, [], record, rfl, exchange decoded, runs_pure.mpr ⟨rfl, rfl⟩⟩

theorem creates_of_createAmong (reaches : p.Reaches) {records : List ListedRecord}
    {r : Except Error String} (run : Runs (p.createAmong host target records).run t r) :
    p.Creates host target records t r := by
  cases there : records.find? (·.isCnameTo target) with
  | some found =>
    rw [createAmong, there] at run
    obtain ⟨rfl, rfl⟩ := runs_pure.mp run
    refine ⟨fun _ same => ?_, fun absurd => ?_⟩
    · cases there.symm.trans same
      exact ⟨rfl, rfl⟩
    · cases there.symm.trans absurd
  | none =>
    refine ⟨fun _ absurd => (by cases there.symm.trans absurd), fun _ => ?_⟩
    obtain ⟨request, sent⟩ := reaches.creation host target
    obtain ⟨answer, rfl, named⟩ := (runs_createAmong there sent).mp run
    refine ⟨request, answer, sent, rfl, named, fun id => ?_⟩
    rw [named, createdId_eq_ok]

/-- A call that lists the records of a host first. A failure of the listing is one of the call, and
then nothing else is asked for. -/
inductive AfterListing {α : Type} (p : Provider) (host : String)
    (goesOn : List ListedRecord → Exchanges → Except Error α → Prop) :
    Exchanges → Except Error α → Prop
  | failed {visits : List Visit} {t : Exchanges} {e : Error}
      (listing : p.Lists host 1 visits t (.error e)) : AfterListing p host goesOn t (.error e)
  | listed {visits : List Visit} {t u : Exchanges} {records : List ListedRecord}
      {r : Except Error α} (listing : p.Lists host 1 visits t (.ok records))
      (rest : goesOn records u r) : AfterListing p host goesOn (t ++ u) r

theorem Lists.reaches {records : List ListedRecord} (h : p.Lists host 1 visits t (.ok records)) :
    p.Reaches := by
  cases visits with
  | nil =>
    obtain ⟨e, -, absurd⟩ := h.unsent rfl
    cases absurd
  | cons v visits =>
    cases h.asked with
    | cons sent _ => exact reaches_of_page sent.1

theorem afterListing_of_runs {α : Type} {f : List ListedRecord → ProviderAction α}
    {goesOn : List ListedRecord → Exchanges → Except Error α → Prop} {r : Except Error α}
    (each : p.Reaches → ∀ records t r, Runs (f records).run t r → goesOn records t r)
    (run : Runs (p.findRecords host >>= f).run t r) : AfterListing p host goesOn t r := by
  obtain ⟨e, failed, rfl⟩ | ⟨t₁, t₂, records, rfl, listed, rest⟩ := runs_run_bind.mp run
  · obtain ⟨visits, listing⟩ := lists_of_findRecords failed
    exact .failed listing
  · obtain ⟨visits, listing⟩ := lists_of_findRecords listed
    exact .listed listing (each listing.reaches records t₂ r rest)

/-- Whatever is answered one after the other, an interaction comes to an end. -/
theorem exists_runs_of_answers {Ask Answer α : Type} (x : Interaction Ask (fun _ => Answer) α)
    (answers : Nat → Answer) : ∃ t a, Runs x t a ∧
      t.map (fun e => e.answer) = (List.range t.length).map answers := by
  induction x generalizing answers with
  | done a => exact ⟨[], a, .done a, rfl⟩
  | ask request next ih =>
    obtain ⟨t, a, run, same⟩ := ih (answers 0) fun n => answers (n + 1)
    refine ⟨⟨request, answers 0⟩ :: t, a, .ask _ run, ?_⟩
    rw [List.map_cons, same, List.length_cons, List.range_succ_eq_map, List.map_cons, List.map_map]
    rfl

/-- Whatever the provider answers, a listing ends. Its pages are the first one and always later ones
that the page before names, and it comes to all records of the host on them, or to the first error.
After an error nothing is created and nothing deleted; else a record is created if there is none,
or the records are deleted in order up to the first failure. -/
theorem listing_all_or_nothing (p : Provider) :
    (∀ host (answers : Nat → Except Http.Failure Http.Response), ∃ t r,
      Runs (p.findRecords host).run t r ∧
        t.map (fun e => e.answer) = (List.range t.length).map answers) ∧
    (∀ host t r, Runs (p.findRecords host).run t r → ∃ visits, p.Lists host 1 visits t r) ∧
    (∀ subdomain branch target t r, Runs (p.createCname subdomain branch target).run t r →
      AfterListing p (composeHost subdomain branch)
        (p.Creates (composeHost subdomain branch) target) t r) ∧
    (∀ subdomain branch t r, Runs (p.deleteCname subdomain branch).run t r →
      AfterListing p (composeHost subdomain branch) p.Deletes t r) := by
  refine ⟨fun host answers => exists_runs_of_answers _ answers,
    fun host t r run => lists_of_findRecords run, fun subdomain branch target t r run => ?_,
    fun subdomain branch t r run => ?_⟩
  · rw [createCname_eq] at run
    exact afterListing_of_runs (fun reaches _ _ _ => creates_of_createAmong reaches) run
  · exact afterListing_of_runs (fun reaches _ _ _ => deletes_of_deleteAll reaches) run

end Provider
end CertEnrollment.Dns
