import CertEnrollment.Proofs.Dns.HostedZone
import CertEnrollment.Proofs.Json.Cells

/-!
# What an honest provider can answer

A page and a record are read as they are written, as long as their numbers fit. So there is an
honest answer to every request for a page, to every deletion, and to every creation while there is
an id left.
-/
namespace CertEnrollment.Data

theorem Tree.asNat_ofNat {bits n : Nat} (h : n ≤ Nat.pow 2 bits - 1) :
    Tree.asNat bits (Value.ofNat n).tree = .ok n := by
  have bounds : (0 : Int) ≤ n ∧ (n : Int) ≤ Int.ofNat (Nat.pow 2 bits - 1) :=
    ⟨Int.natCast_nonneg n, Int.ofNat_le.mpr h⟩
  change Except.map Int.toNat (if _ then _ else _) = _
  rw [if_pos bounds]
  rfl

theorem exact_ofNat {n : Nat} (h : n < Nat.pow 2 64) :
    ∀ m ∈ Json.numbers (Value.ofNat n), Json.Exact m := by
  have low : leastInt ≤ (n : Int) := by simp [leastInt]
  simpa [Value.ofNat, Json.numbers] using Json.exact_int low (Int.ofNat_lt.mpr h)

end CertEnrollment.Data

namespace CertEnrollment.Dns
open Data

/-! ## Written answers -/

namespace ListedRecord

/-- The record as it is written. -/
def value (r : ListedRecord) : Value :=
  .object [("id", .ofNat r.id), ("host", .text r.host), ("type", .text r.type),
    ("answer", .text r.answer)]

theorem exact_value {r : ListedRecord} (h : r.id < Nat.pow 2 64) :
    ∀ n ∈ Json.numbers r.value, Json.Exact n := by
  simpa [value, Json.numbers, Json.numbersUnder] using exact_ofNat h

theorem read_value {r : ListedRecord} (h : r.id < Nat.pow 2 64) : read r.value.tree = .ok r := by
  have id : Tree.asNat 64 (Value.ofNat r.id).tree = .ok r.id :=
    Tree.asNat_ofNat (Nat.le_pred_of_lt h)
  have row : Row.read false [field "id" (Tree.asNat 64), field "host" Tree.asText,
      field "type" Tree.asText, field "answer" Tree.asText] r.value.tree =
      .ok ⟨true, [("id", (Value.ofNat r.id).tree), ("host", .text (some r.host)),
        ("type", .text (some r.type)), ("answer", .text (some r.answer))]⟩ := by
    simp [value, Value.tree, Value.treeMembers, Row.read, Row.collect, field, id, Tree.asText,
      Reading.ofOption, Except.map]
  rw [read, row]
  change (Tree.asNat 64 (Value.ofNat r.id).tree >>= fun id =>
    Except.ok (⟨id, r.host, r.type, r.answer⟩ : ListedRecord)) = _
  rw [id]
  rfl

end ListedRecord
namespace ListedPage

/-- The page as it is written. -/
def value (page : ListedPage) : Value :=
  .object [("records", .array (page.records.map (·.value))),
    ("nextPage", .ofOption .ofNat page.nextPage)]

/-- Its numbers fit: those of the records and that of the next page. -/
structure Fits (page : ListedPage) : Prop where
  ids : ∀ r ∈ page.records, r.id < Nat.pow 2 64
  next : ∀ n ∈ page.nextPage, n ≤ Provider.maxPage

theorem exact_records {records : List ListedRecord} (h : ∀ r ∈ records, r.id < Nat.pow 2 64) :
    ∀ n ∈ Json.numbersIn (records.map (·.value)), Json.Exact n := by
  induction records with
  | nil => simp [Json.numbersIn]
  | cons r records ih =>
    obtain ⟨first, others⟩ := List.forall_mem_cons.mp h
    exact List.forall_mem_append.mpr ⟨ListedRecord.exact_value first, ih others⟩

theorem exact_value {page : ListedPage} (h : page.Fits) :
    ∀ n ∈ Json.numbers page.value, Json.Exact n := by
  have next : ∀ n ∈ Json.numbers (.ofOption .ofNat page.nextPage), Json.Exact n := by
    cases named : page.nextPage with
    | none => simp [Value.ofOption, Json.numbers]
    | some n => exact exact_ofNat (lt_of_le_of_lt (h.next n named) (by decide))
  have all := List.forall_mem_append.mpr ⟨exact_records h.ids, next⟩
  simpa [value, Json.numbers, Json.numbersUnder] using all

theorem read_records {records : List ListedRecord} (h : ∀ r ∈ records, r.id < Nat.pow 2 64) :
    Tree.asList ListedRecord.read (Value.array (records.map (·.value))).tree = .ok records :=
  Value.asList_array fun r hr => ListedRecord.read_value (h r hr)

theorem read_next {next : Option Nat} (h : ∀ n ∈ next, n ≤ Provider.maxPage) :
    Tree.asOption (Tree.asNat 32) (Value.ofOption Value.ofNat next).tree = .ok next := by
  cases next with
  | none => rfl
  | some n =>
    change (Tree.asNat 32 (Value.ofNat n).tree).map some = _
    rw [Tree.asNat_ofNat (h n rfl)]
    rfl

theorem read_value {page : ListedPage} (h : page.Fits) : read page.value.tree = .ok page := by
  have records : Tree.asList ListedRecord.read
      (.array (Value.treeItems (page.records.map (·.value)))) = .ok page.records :=
    read_records h.ids
  have next := read_next h.next
  have row : Row.read false [field "records" (Tree.asList ListedRecord.read),
      field "nextPage" (Tree.asOption (Tree.asNat 32))] page.value.tree =
      .ok ⟨true, [("records", .array (Value.treeItems (page.records.map (·.value)))),
        ("nextPage", (Value.ofOption Value.ofNat page.nextPage).tree)]⟩ := by
    simp [value, Value.tree, Value.treeMembers, Row.read, Row.collect, field, records, next,
      Except.map]
  rw [read, row]
  change (Tree.asList ListedRecord.read (.array (Value.treeItems (page.records.map (·.value)))) >>=
    fun records => Tree.asOption (Tree.asNat 32) (Value.ofOption Value.ofNat page.nextPage).tree >>=
      fun next => Except.ok (⟨records, next⟩ : ListedPage)) = _
  rw [records, next]
  rfl

end ListedPage

namespace Provider
variable {p : Provider} {z : HostedZone} {request : Http.Request} {bound : Nat}

/-- A value as the content of a response. -/
def answerWith (v : Value) : Except Http.Failure Http.Response :=
  .ok ⟨200, Utf8.encode (Json.write v)⟩

theorem brings_answerWith {α : Type} {read : Tree → Reading α} {v : Value} {a : α}
    (exact : ∀ n ∈ Json.numbers v, Json.Exact n) (given : read v.tree = .ok a) :
    Brings read (answerWith v) a := by
  have parsed : Json.readBytes read (Utf8.encode (Json.write v)) = .ok a := by
    rw [Json.readBytes, Utf8.decode?_encode]
    exact (Json.readText_write exact read).trans given
  have success : 200 ≤ 200 ∧ 200 < 300 := by decide
  exact ⟨_, rfl, success, parsed⟩

end Provider

/-! ## Zones that can be answered for -/

namespace HostedZone

/-- The records on one page. -/
def onePage (records : List HostedRecord)
    (distinct : ∀ r ∈ records, ∀ s ∈ records, r.id = s.id → r = s) : HostedZone where
  pages := [⟨1, records⟩]
  first := rfl
  ascending := List.pairwise_singleton _ _
  distinct := by simpa using distinct

/-- The ids are below a bound, and every page can be asked for. -/
structure Fits (z : HostedZone) (bound : Nat) : Prop where
  numbers : ∀ page ∈ z.pages, page.number ≤ Provider.maxPage
  ids : ∀ r ∈ z.records, r.id < bound

variable {z : HostedZone} {bound : Nat}

theorem Fits.mono {later : Nat} (h : z.Fits bound) (le : bound ≤ later) : z.Fits later :=
  ⟨h.numbers, fun r there => lt_of_lt_of_le (h.ids r there) le⟩

@[simp] theorem listing_onePage (records : List HostedRecord)
    (distinct : ∀ r ∈ records, ∀ s ∈ records, r.id = s.id → r = s) :
    (onePage records distinct).listing = records :=
  List.append_nil records

theorem fits_onePage {records : List HostedRecord}
    {distinct : ∀ r ∈ records, ∀ s ∈ records, r.id = s.id → r = s}
    (ids : ∀ r ∈ records, r.id < bound) : (onePage records distinct).Fits bound where
  numbers := by simp [onePage, Provider.maxPage]
  ids := by simpa using ids

end HostedZone

/-! ## Answers -/

namespace Provider
variable {p : Provider} {z : HostedZone} {request : Http.Request} {host target : String}
  {bound id : Nat}

theorem exists_answer_page (fits : z.Fits bound) (room : bound ≤ Nat.pow 2 64) {n : Nat}
    (sent : p.pageRequest n = .ok request) : ∃ answer, p.Answers z ⟨request, answer⟩ z := by
  have asked := asksPage_of_request sent
  by_cases there : ∃ page ∈ z.pages, page.number = n
  · obtain ⟨page, inside, rfl⟩ := there
    obtain ⟨before, after, split⟩ := List.append_of_mem inside
    let listed : ListedPage := ⟨page.records.map (·.listed), after.head?.map (·.number)⟩
    have onward : Onward (after.head?.map (·.number)) page.number after := by
      cases after with
      | nil => simp [Onward]
      | cons later after => rfl
    have fitting : listed.Fits := by
      refine ⟨fun r there => ?_, fun next named => ?_⟩
      · obtain ⟨record, mine, rfl⟩ := List.mem_map.mp there
        have kept := HostedZone.mem_records.mpr (List.mem_flatMap.mpr ⟨page, inside, mine⟩)
        exact lt_of_lt_of_le (fits.ids record kept) room
      · cases after with
        | nil => cases named
        | cons later after =>
          cases named
          exact fits.numbers later (by simp [split])
    exact ⟨answerWith listed.value, .page asked split onward
      (pageOf_eq_ok.mpr
        (brings_answerWith (ListedPage.exact_value fitting) (ListedPage.read_value fitting)))⟩
  · exact ⟨answerWith .null, .noPage asked fun page inside same => there ⟨page, inside, same⟩⟩

theorem exists_answer_creation (fits : z.Fits bound) (room : bound < Nat.pow 2 64)
    (sent : p.creationRequest host target = .ok request) :
    ∃ answer z', p.Answers z ⟨request, answer⟩ z' ∧ z'.Fits (bound + 1) := by
  obtain ⟨address, body⟩ := sentTo_of_creation sent
  let record : HostedRecord := ⟨bound, host, "CNAME", target, 300⟩
  have fresh : ∀ r ∈ z.records, r.id ≠ bound := fun r there => (fits.ids r there).ne
  have distinct : ∀ r ∈ record :: z.listing, ∀ s ∈ record :: z.listing, r.id = s.id → r = s := by
    intro r hr s hs same
    obtain rfl | hr := List.mem_cons.mp hr <;> obtain rfl | hs := List.mem_cons.mp hs
    · rfl
    · exact absurd same.symm (fresh s (HostedZone.mem_records.mpr hs))
    · exact absurd same (fresh r (HostedZone.mem_records.mpr hr))
    · exact z.distinct r hr s hs same
  have given : createdId (answerWith record.listed.value) = .ok (toString bound) := by
    rw [createdId_eq_ok]
    exact ⟨record.listed,
      brings_answerWith (ListedRecord.exact_value room) (ListedRecord.read_value room), rfl⟩
  have read : Json.readText (HostedRecord.readSent record.id) request.body = .ok record := by
    rw [body]
    exact HostedRecord.readSent_newRecord bound host target
  refine ⟨_, .onePage _ distinct, .added (method_of_request sent) address read fresh ?_ given,
    HostedZone.fits_onePage (List.forall_mem_cons.mpr ⟨Nat.lt_succ_self _, fun r there => ?_⟩)⟩
  · rw [HostedZone.records, HostedZone.listing_onePage, List.toFinset_cons]
    rfl
  · exact Nat.lt_succ_of_lt (fits.ids r (HostedZone.mem_records.mpr there))

theorem exists_answer_deletion (fits : z.Fits bound) (sent : p.deletionRequest id = .ok request) :
    ∃ answer z', p.Answers z ⟨request, answer⟩ z' ∧ z'.Fits bound := by
  have asked := method_of_request sent
  have address := sentTo_of_deletion sent
  by_cases there : ∃ record ∈ z.records, record.id = id
  · obtain ⟨record, inside, rfl⟩ := there
    have distinct : ∀ r ∈ z.listing.filter (· ≠ record), ∀ s ∈ z.listing.filter (· ≠ record),
        r.id = s.id → r = s :=
      fun r hr s hs => z.distinct r (List.mem_filter.mp hr).1 s (List.mem_filter.mp hs).1
    refine ⟨.ok ⟨200, []⟩, .onePage _ distinct, .removed asked address inside ?_ rfl,
      HostedZone.fits_onePage fun r hr =>
        fits.ids r (HostedZone.mem_records.mpr (List.mem_filter.mp hr).1)⟩
    ext r
    simp [and_comm]
  · exact ⟨.ok ⟨404, []⟩, z,
      .absent asked address (fun r inside same => there ⟨r, inside, same⟩) rfl, fits⟩

end Provider
end CertEnrollment.Dns
