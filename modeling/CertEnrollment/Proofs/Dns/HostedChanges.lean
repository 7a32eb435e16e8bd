import CertEnrollment.Proofs.Dns.HostedAnswers

/-!
# Changes of a zone at an honest provider

A listing reads the pages that the provider has, all of them and in order, and leaves the zone as
it is. So a record is created exactly if there is none like it on any page, and all records of a
host are deleted, wherever they are listed. Made once more, a call finds nothing left to do.
-/
namespace CertEnrollment.Dns.Provider
open Data Interaction

variable {p : Provider} {z z' : HostedZone} {t : Exchanges}
  {host subdomain branch target : String}

/-! ## Listings -/

theorem filter_listed (records : List HostedRecord) :
    (records.map (·.listed)).filter (fun r => Text.sameIgnoringAsciiCase r.host host) =
      (records.filter (·.isOn host)).map (·.listed) :=
  List.filter_map

/-- The visited pages are those that the provider has, from the first visited one on. -/
theorem collected_of_served {visits : List Visit} {before after : List HostedPage}
    {page : HostedPage} (some_there : visits ≠ [])
    (asked : List.Forall₂
      (fun v e => p.pageRequest v.page = .ok e.request ∧ e.answer = v.answer) visits t)
    (first : ∀ v ∈ visits.head?, v.page = page.number) (chain : visits.IsChain Visit.LeadsTo)
    (last : ∀ v ∈ visits.getLast?, ∀ page next, Brings ListedPage.read v.answer page →
      page.nextPage = some next → next ≤ v.page)
    (served : Steps p.Answers z t z') (there : z.pages = before ++ page :: after) :
    z' = z ∧ collected host visits =
      .ok ((((page :: after).flatMap (·.records)).filter (·.isOn host)).map (·.listed)) := by
  induction visits generalizing t before after page with
  | nil => exact absurd rfl some_there
  | cons v visits ih =>
    obtain ⟨n, answer⟩ := v
    obtain rfl : n = page.number := first _ rfl
    cases asked with
    | @cons _ e _ t same asked =>
    cases served with
    | cons answered served =>
    obtain ⟨rfl, next, onward, given⟩ := answers_page answered same.1 there
    rw [same.2] at given
    dsimp only at given
    cases visits with
    | nil =>
      cases asked
      cases served
      cases after with
      | nil =>
        rw [collected_singleton given, filter_listed, List.flatMap_singleton]
        exact ⟨rfl, rfl⟩
      | cons later after =>
        -- a later page is named, so the listing cannot end here
        exact absurd (last _ rfl _ _ (pageOf_eq_ok.mp given) onward)
          (not_le.mpr (HostedZone.number_lt there))
    | cons w visits =>
      obtain ⟨⟨_, given', named, greater⟩, chain⟩ := List.isChain_cons_cons.mp chain
      cases given.symm.trans (pageOf_eq_ok.mpr given')
      cases after with
      | nil => exact absurd greater (not_lt.mpr (onward _ named))
      | cons later after =>
        have number : w.page = later.number := Option.some.inj (named.symm.trans onward)
        obtain ⟨kept, rest⟩ := ih (by simp) asked (by simp [number]) chain (by simpa using last)
          served (there.trans (List.append_cons before page (later :: after)))
        refine ⟨kept, ?_⟩
        rw [collected_cons given, rest, filter_listed]
        simp [Except.map]

/-- A listing comes to all records of the host, in order, and changes nothing. -/
theorem lists_served (reaches : p.Reaches) {visits : List Visit}
    {r : Except Error (List ListedRecord)} (lists : p.Lists host 1 visits t r)
    (served : Steps p.Answers z t z') :
    z' = z ∧ r = .ok ((z.listing.filter (·.isOn host)).map (·.listed)) := by
  have some_there : visits ≠ [] := by
    intro none
    obtain ⟨e, failed, -⟩ := lists.unsent none
    obtain ⟨_, sent⟩ := reaches.page 1
    cases failed.symm.trans sent
  obtain ⟨page, after, pages, number⟩ :
      ∃ page after, z.pages = page :: after ∧ page.number = 1 := by
    have first := z.first
    cases pages : z.pages with
    | nil =>
      rw [pages] at first
      cases first
    | cons page after =>
      rw [pages] at first
      exact ⟨page, after, rfl, Option.some.inj first⟩
  have there : z.pages = [] ++ page :: after := pages
  obtain ⟨kept, whole⟩ := collected_of_served some_there lists.asked
    (by simpa [number] using lists.first) lists.chain lists.last served there
  rw [← pages] at whole
  exact ⟨kept, (lists.result some_there).trans whole⟩

/-- A call that lists first goes on with all records of the host. -/
theorem afterListing_served {α : Type} (reaches : p.Reaches)
    {goesOn : List ListedRecord → Exchanges → Except Error α → Prop} {r : Except Error α}
    (call : AfterListing p host goesOn t r) (served : Steps p.Answers z t z') :
    ∃ t₁ t₂, t = t₁ ++ t₂ ∧ (∀ e ∈ t₁, e.request.method = .get) ∧
      goesOn ((z.listing.filter (·.isOn host)).map (·.listed)) t₂ r ∧
      Steps p.Answers z t₂ z' := by
  cases call with
  | failed listing =>
    obtain ⟨-, absurd⟩ := lists_served reaches listing served
    cases absurd
  | @listed visits t₁ t₂ records r listing rest =>
    obtain ⟨mid, first, second⟩ := steps_append.mp served
    obtain ⟨rfl, same⟩ := lists_served reaches listing first
    cases same
    exact ⟨t₁, t₂, rfl, listing.onlyReads, rest, second⟩

/-! ## Creations -/

/-- How a creation ends: with the first record of its kind that is listed, or with a new one. -/
inductive Created (host target : String) (z : HostedZone) (t : Exchanges) (r : Except Error String)
    (z' : HostedZone) : Prop
  | present {record : HostedRecord} (found : z.listing.find? (·.isCname host target) = some record)
      (kept : z' = z) (named : r = .ok (toString record.id))
      (onlyReads : ∀ e ∈ t, e.request.method = .get)
  | added {id : Nat} (missing : ∀ record ∈ z.records, record.isCname host target = false)
      (fresh : ∀ record ∈ z.records, record.id ≠ id)
      (grown : z'.records = insert ⟨id, host, "CNAME", target, 300⟩ z.records)
      (named : r = .ok (toString id))

/-- To look for a CNAME among the records of the host is to look for it among all. -/
theorem find?_listed (records : List HostedRecord) :
    ((records.filter (·.isOn host)).map (·.listed)).find? (·.isCnameTo target) =
      (records.find? (·.isCname host target)).map (·.listed) := by
  rw [List.find?_map, List.find?_filter]
  refine congrArg _ (congrArg (records.find? ·) (funext fun r => ?_))
  simp [HostedRecord.isCname_eq]

theorem created_of_runs (reaches : p.Reaches) {r : Except Error String}
    (run : Runs (p.createCname subdomain branch target).run t r) (served : Steps p.Answers z t z') :
    Created (composeHost subdomain branch) target z t r z' := by
  rw [createCname_eq] at run
  obtain ⟨t₁, t₂, rfl, reads, creates, served⟩ := afterListing_served reaches
    (afterListing_of_runs (fun reaches _ _ _ => creates_of_createAmong reaches) run) served
  obtain ⟨present, absent⟩ := creates
  rw [find?_listed] at present absent
  cases found : z.listing.find? (·.isCname (composeHost subdomain branch) target) with
  | some record =>
    obtain ⟨rfl, named⟩ := present record.listed (by rw [found]; rfl)
    cases served
    exact .present found rfl named (by simpa using reads)
  | none =>
    obtain ⟨request, answer, sent, rfl, named, -⟩ := absent (by rw [found]; rfl)
    obtain ⟨id, fresh, grown, given⟩ := answers_creation (steps_singleton.mp served) sent
    refine .added (fun record there => ?_) fresh grown (named.trans given)
    simpa using List.find?_eq_none.mp found record (HostedZone.mem_records.mp there)

/-! ## Deletions -/

/-- Records are deleted by their ids, whether they are still there or not. -/
theorem records_of_deleteAll (reaches : p.Reaches) {records : List ListedRecord}
    {r : Except Error Unit} (run : Runs (p.deleteAll records).run t r)
    (served : Steps p.Answers z t z') :
    r = .ok () ∧ z'.records = z.records.filter fun s => s.id ∉ records.map (·.id) := by
  induction records generalizing t z with
  | nil =>
    obtain ⟨rfl, rfl⟩ := runs_pure.mp run
    cases served
    exact ⟨rfl, by simp⟩
  | cons record records ih =>
    obtain ⟨request, sent⟩ := reaches.deletion record.id
    obtain ⟨answer, ⟨e, failure, rfl, rfl⟩ | ⟨t, success, rfl, rest⟩⟩ :=
      (runs_deleteAll_cons sent).mp run
    · obtain ⟨success, -⟩ := answers_deletion reaches (steps_singleton.mp served) sent
      cases failure.symm.trans success
    · cases served with
      | cons first served =>
        obtain ⟨-, left⟩ := answers_deletion reaches first sent
        obtain ⟨done, others⟩ := ih rest served
        refine ⟨done, ?_⟩
        rw [others, left, Finset.filter_filter]
        exact Finset.filter_congr fun s _ => by simp

/-- How a deletion ends: without the records of the host. -/
structure Deleted (host : String) (z : HostedZone) (t : Exchanges) (r : Except Error Unit)
    (z' : HostedZone) : Prop where
  done : r = .ok ()
  left : z'.records = z.records.filter fun record => record.isOn host = false
  /-- Where there are none, nothing is sent but for the listing. -/
  clean : (∀ record ∈ z.records, record.isOn host = false) →
    z' = z ∧ ∀ e ∈ t, e.request.method = .get

theorem deleted_of_runs (reaches : p.Reaches) {r : Except Error Unit}
    (run : Runs (p.deleteCname subdomain branch).run t r) (served : Steps p.Answers z t z') :
    Deleted (composeHost subdomain branch) z t r z' := by
  have call : AfterListing p (composeHost subdomain branch)
      (fun records t r => Runs (p.deleteAll records).run t r) t r :=
    afterListing_of_runs (fun _ _ _ _ => id) run
  obtain ⟨t₁, t₂, rfl, reads, rest, served⟩ := afterListing_served reaches call served
  obtain ⟨done, left⟩ := records_of_deleteAll reaches rest served
  refine ⟨done, left.trans (Finset.filter_congr fun record there => ?_), fun none => ?_⟩
  · -- no two records have the same id, so just those of the host are deleted
    rw [HostedZone.mem_records] at there
    rw [List.map_map, List.mem_map, ← Bool.not_eq_true]
    refine not_congr ⟨?_, fun on => ⟨record, List.mem_filter.mpr ⟨there, on⟩, rfl⟩⟩
    rintro ⟨other, listed, same⟩
    obtain ⟨inside, on⟩ := List.mem_filter.mp listed
    rwa [← z.distinct other inside record there same]
  · have empty : z.listing.filter (·.isOn (composeHost subdomain branch)) = [] := by
      refine List.filter_eq_nil_iff.mpr fun record there => ?_
      simp [none record (HostedZone.mem_records.mpr there)]
    rw [empty] at rest
    obtain ⟨rfl, -⟩ := runs_pure.mp rest
    cases served
    exact ⟨rfl, by simpa using reads⟩

/-! ## Calls -/

/-- A call that was made, with what was exchanged and what it came to. -/
inductive Call
  | create (subdomain branch target : String) (t : Exchanges) (r : Except Error String)
  | delete (subdomain branch : String) (t : Exchanges) (r : Except Error Unit)

/-- The call ran as it says, and the provider answered it. -/
def Made (p : Provider) (z : HostedZone) : Call → HostedZone → Prop
  | .create subdomain branch target t r, z' =>
    Runs (p.createCname subdomain branch target).run t r ∧ Steps p.Answers z t z'
  | .delete subdomain branch t r, z' =>
    Runs (p.deleteCname subdomain branch).run t r ∧ Steps p.Answers z t z'

/-- A CNAME on the host to the target is there in the end, and it was added if there was none. -/
structure Ensured (p : Provider) (subdomain branch target : String) (z : HostedZone)
    (r : Except Error String) (z' : HostedZone) : Prop where
  kept : (∃ record ∈ z.records, record.isCname (composeHost subdomain branch) target = true) →
    z' = z
  added : (∀ record ∈ z.records, record.isCname (composeHost subdomain branch) target = false) →
    ∃ id, (∀ record ∈ z.records, record.id ≠ id) ∧ z'.records =
      insert ⟨id, composeHost subdomain branch, "CNAME", target, 300⟩ z.records
  named : ∃ record ∈ z'.records,
    record.isCname (composeHost subdomain branch) target = true ∧ r = .ok (toString record.id)
  again : ∀ t' r' z'', p.Made z' (.create subdomain branch target t' r') z'' →
    z'' = z' ∧ r' = r ∧ ∀ e ∈ t', e.request.method = .get

/-- No record of the host is there in the end, and all others are. -/
structure Cleared (p : Provider) (subdomain branch : String) (z : HostedZone)
    (r : Except Error Unit) (z' : HostedZone) : Prop where
  done : r = .ok ()
  left : z'.records =
    z.records.filter fun record => record.isOn (composeHost subdomain branch) = false
  again : ∀ t' r' z'', p.Made z' (.delete subdomain branch t' r') z'' →
    z'' = z' ∧ r' = r ∧ ∀ e ∈ t', e.request.method = .get

/-- What a call is for holds after it, and holds on when it is made once more. -/
def Settled (p : Provider) (z : HostedZone) : Call → HostedZone → Prop
  | .create subdomain branch target _ r, z' => p.Ensured subdomain branch target z r z'
  | .delete subdomain branch _ r, z' => p.Cleared subdomain branch z r z'

/-- After a creation, the first record of its kind that is listed is the one that it gave. -/
theorem Created.found {r : Except Error String} (h : Created host target z t r z') :
    ∃ record, z'.listing.find? (·.isCname host target) = some record ∧
      r = .ok (toString record.id) := by
  cases h with
  | present found kept named => exact ⟨_, kept ▸ found, named⟩
  | @added id missing fresh grown named =>
    have new : (⟨id, host, "CNAME", target, 300⟩ : HostedRecord) ∈ z'.listing := by
      rw [← HostedZone.mem_records, grown]
      exact Finset.mem_insert_self _ _
    obtain ⟨record, found⟩ := Option.isSome_iff_exists.mp
      (List.find?_isSome.mpr ⟨_, new, HostedRecord.isCname_self id host target 300⟩)
    have kind := List.find?_some found
    have there := HostedZone.mem_records.mpr (List.mem_of_find?_eq_some found)
    rw [grown, Finset.mem_insert] at there
    obtain rfl | old := there
    · exact ⟨_, found, named⟩
    · cases (missing record old).symm.trans kind

theorem ensured_of_runs (reaches : p.Reaches) {r : Except Error String}
    (made : p.Made z (.create subdomain branch target t r) z') :
    p.Ensured subdomain branch target z r z' := by
  have created := created_of_runs reaches made.1 made.2
  obtain ⟨record, found, named⟩ := created.found
  have there := HostedZone.mem_records.mpr (List.mem_of_find?_eq_some found)
  have kind := List.find?_some found
  refine ⟨?_, ?_, ⟨record, there, kind, named⟩, fun t' r' z'' repeated => ?_⟩
  · rintro ⟨old, inside, same⟩
    cases created with
    | present _ kept => exact kept
    | added missing => cases (missing old inside).symm.trans same
  · intro none
    cases created with
    | present found' =>
      have inside := HostedZone.mem_records.mpr (List.mem_of_find?_eq_some found')
      cases (none _ inside).symm.trans (List.find?_some found')
    | added _ fresh grown => exact ⟨_, fresh, grown⟩
  · cases created_of_runs reaches repeated.1 repeated.2 with
    | present found' kept named' onlyReads =>
      cases found.symm.trans found'
      exact ⟨kept, named'.trans named.symm, onlyReads⟩
    | added missing => cases (missing record there).symm.trans kind

theorem cleared_of_runs (reaches : p.Reaches) {r : Except Error Unit}
    (made : p.Made z (.delete subdomain branch t r) z') : p.Cleared subdomain branch z r z' := by
  obtain ⟨done, left, -⟩ := deleted_of_runs reaches made.1 made.2
  refine ⟨done, left, fun t' r' z'' repeated => ?_⟩
  obtain ⟨done', -, clean⟩ := deleted_of_runs reaches repeated.1 repeated.2
  obtain ⟨kept, onlyReads⟩ := clean (by simp [left])
  exact ⟨kept, done'.trans done.symm, onlyReads⟩

/-! ## Calls that can be made -/

/-- A request for a page. -/
def ForPage (p : Provider) (request : Http.Request) : Prop := ∃ n, p.pageRequest n = .ok request

variable {bound : Nat}

/-- Requests for pages can all be answered. -/
theorem exists_served {α : Type} (fits : z.Fits bound) (room : bound ≤ Nat.pow 2 64)
    {x : Interaction Http.Request ExchangeAnswer α} (asks : x.Asks p.ForPage) :
    ∃ t a, Runs x t a ∧ Steps p.Answers z t z := by
  induction x with
  | done a => exact ⟨[], a, .done a, .nil z⟩
  | ask request next ih =>
    obtain ⟨⟨n, sent⟩, later⟩ := asks
    obtain ⟨answer, answered⟩ := exists_answer_page fits room sent
    obtain ⟨t, a, run, served⟩ := ih answer (later answer)
    exact ⟨⟨request, answer⟩ :: t, a, .ask answer run, .cons answered served⟩

theorem asks_settled {α : Type} {result : Except Error α} {q : Http.Request → Prop} :
    (settled result).run.Asks q :=
  trivial

theorem asks_send {method : Http.Method} {address : String} {query : List (String × String)}
    {json : Option Value} {q : Http.Request → Prop}
    (h : ∀ request, p.request method address query json = .ok request → q request) :
    (p.send method address query json).run.Asks q := by
  rw [run_send]
  cases sent : p.request method address query json with
  | error e => trivial
  | ok request => exact ⟨h request sent, fun _ => trivial⟩

-- To unfold what is asked for would be to read the address of the provider.
attribute [local irreducible] Interaction.Asks

theorem asks_listPage (n : Nat) : (p.listPage n).run.Asks p.ForPage := by
  have sends : (p.send .get (p.recordsAddress none)
      [("page", toString n), ("perPage", "1000")] none).run.Asks p.ForPage :=
    asks_send fun request sent => ⟨n, sent⟩
  exact sends.run_bind fun _ => asks_settled

theorem asks_findFrom (p : Provider) (host : String) (pagesLeft n : Nat) :
    (p.findFrom host pagesLeft n).run.Asks p.ForPage := by
  induction pagesLeft generalizing n with
  | zero => exact asks_pure
  | succ pagesLeft ih =>
    rw [findFrom]
    refine (asks_listPage n).run_bind fun listing => ?_
    dsimp only
    split
    · split
      · exact (ih _).run_bind fun _ => asks_pure
      · exact asks_pure
    · exact asks_pure

/-- What can go on after any listing can be made. -/
theorem exists_afterListing {α : Type} (reaches : p.Reaches) (fits : z.Fits bound)
    (room : bound ≤ Nat.pow 2 64) (host : String) {f : List ListedRecord → ProviderAction α}
    {later : Nat} (goesOn : ∀ records, ∃ t r z', Runs (f records).run t r ∧
      Steps p.Answers z t z' ∧ z'.Fits later) :
    ∃ t r z', Runs (p.findRecords host >>= f).run t r ∧ Steps p.Answers z t z' ∧ z'.Fits later := by
  obtain ⟨t₁, r₁, listed, first⟩ := exists_served fits room (p.asks_findFrom host maxPage 1)
  obtain ⟨visits, lists⟩ := lists_of_findRecords listed
  obtain ⟨-, rfl⟩ := lists_served reaches lists first
  obtain ⟨t₂, r, z', rest, second, fits'⟩ := goesOn _
  exact ⟨t₁ ++ t₂, r, z', runs_run_bind.mpr (.inr ⟨t₁, t₂, _, rfl, listed, rest⟩),
    steps_append.mpr ⟨z, first, second⟩, fits'⟩

theorem exists_createAmong (reaches : p.Reaches) (fits : z.Fits bound)
    (room : bound < Nat.pow 2 64) (host target : String) (records : List ListedRecord) :
    ∃ t r z', Runs (p.createAmong host target records).run t r ∧
      Steps p.Answers z t z' ∧ z'.Fits (bound + 1) := by
  cases there : records.find? (·.isCnameTo target) with
  | some found =>
    rw [createAmong, there]
    exact ⟨[], _, z, runs_pure.mpr ⟨rfl, rfl⟩, .nil z, fits.mono (Nat.le_succ bound)⟩
  | none =>
    obtain ⟨request, sent⟩ := reaches.creation host target
    obtain ⟨answer, z', answered, fits'⟩ := exists_answer_creation fits room sent
    exact ⟨_, _, z', (runs_createAmong there sent).mpr ⟨answer, rfl, rfl⟩,
      steps_singleton.mpr answered, fits'⟩

theorem exists_deleteAll (reaches : p.Reaches) (fits : z.Fits bound) (records : List ListedRecord) :
    ∃ t r z', Runs (p.deleteAll records).run t r ∧ Steps p.Answers z t z' ∧ z'.Fits bound := by
  induction records generalizing z with
  | nil => exact ⟨[], _, z, runs_pure.mpr ⟨rfl, rfl⟩, .nil z, fits⟩
  | cons record records ih =>
    obtain ⟨request, sent⟩ := reaches.deletion record.id
    obtain ⟨answer, mid, answered, fits'⟩ := exists_answer_deletion fits sent
    obtain ⟨success, -⟩ := answers_deletion reaches answered sent
    obtain ⟨t, r, z', run, served, fits''⟩ := ih fits'
    exact ⟨_, r, z', (runs_deleteAll_cons sent).mpr ⟨answer, .inr ⟨t, success, rfl, run⟩⟩,
      .cons answered served, fits''⟩

/-- A change of the records of a host that is asked for. -/
inductive Change
  | create (subdomain branch target : String)
  | delete (subdomain branch : String)
  deriving DecidableEq, Repr

/-- What a call was made for. -/
def Call.change : Call → Change
  | .create subdomain branch target _ _ => .create subdomain branch target
  | .delete subdomain branch _ _ => .delete subdomain branch

theorem exists_made (reaches : p.Reaches) (fits : z.Fits bound) (room : bound < Nat.pow 2 64)
    (change : Change) :
    ∃ call z', call.change = change ∧ p.Made z call z' ∧ z'.Fits (bound + 1) := by
  cases change with
  | create subdomain branch target =>
    let host := composeHost subdomain branch
    obtain ⟨t, r, z', run, served, fits'⟩ := exists_afterListing reaches fits room.le host
      (exists_createAmong reaches fits room host target)
    exact ⟨.create subdomain branch target t r, z', rfl, ⟨run, served⟩, fits'⟩
  | delete subdomain branch =>
    let host := composeHost subdomain branch
    obtain ⟨t, r, z', run, served, fits'⟩ := exists_afterListing reaches fits room.le host
      (exists_deleteAll reaches fits)
    exact ⟨.delete subdomain branch t r, z', rfl, ⟨run, served⟩, fits'.mono (Nat.le_succ bound)⟩

/-- An honest provider can answer any sequence of calls, while it has ids left. -/
theorem exists_session (reaches : p.Reaches) (fits : z.Fits bound) (changes : List Change)
    (room : bound + changes.length ≤ Nat.pow 2 64) :
    ∃ calls z', calls.map Call.change = changes ∧ Steps p.Made z calls z' := by
  induction changes generalizing z bound with
  | nil => exact ⟨[], z, rfl, .nil z⟩
  | cons change changes ih =>
    rw [List.length_cons] at room
    obtain ⟨call, mid, same, made, fits'⟩ := exists_made reaches fits (by omega) change
    obtain ⟨calls, z', others, rest⟩ := ih fits' (by omega)
    exact ⟨call :: calls, z', by rw [List.map_cons, same, others], .cons made rest⟩

/-! ## Sessions -/

/-- Whatever zone an honest provider starts with, and however it lays out the records after each
change, every call of a sequence does what it is for. The calls of any sequence can be made, while
there are ids left for new records. -/
theorem calls_settle (reaches : p.Reaches) :
    (∀ z calls z', Steps p.Made z calls z' →
      Steps (fun z call z' => p.Made z call z' ∧ p.Settled z call z') z calls z') ∧
    ∀ (z : HostedZone) bound (changes : List Change), z.Fits bound →
      bound + changes.length ≤ Nat.pow 2 64 →
        ∃ calls z', calls.map Call.change = changes ∧ Steps p.Made z calls z' := by
  refine ⟨fun z calls z' session => session.imp fun z call z' made => ⟨made, ?_⟩,
    fun z bound changes fits room => exists_session reaches fits changes room⟩
  cases call with
  | create subdomain branch target t r => exact ensured_of_runs reaches made
  | delete subdomain branch t r => exact cleared_of_runs reaches made

/-- A CNAME that is there already, one that is not, and a host with records on two pages. -/
theorem calls_settle_two_pages :
    let p : Provider := ⟨"https://api.name.com", "org", "user", "token"⟩
    let z : HostedZone := ⟨[⟨1, [⟨7, "_X.gw", "cname", "target.example.", 300⟩,
      ⟨8, "other", "A", "1.2.3.4", 60⟩]⟩, ⟨3, [⟨9, "_x.GW", "TXT", "text", 60⟩]⟩],
      rfl, by decide, by decide⟩
    ∃ calls z', calls.map Call.change = [.create "_x" "gw" "Target.example",
        .create "_y" "" "target.example", .delete "_x" "gw"] ∧
      Steps (fun z call z' => p.Made z call z' ∧ p.Settled z call z') z calls z' := by
  have reachable : (Url.parse? (recordsAddress ⟨"https://api.name.com", "org", "user", "token"⟩
      none)).any (fun url => Http.isUsable (plain url)) = true := by decide +kernel
  obtain ⟨url, address, usable⟩ := (Option.any_eq_true _ _).mp reachable
  intro p z
  have reaches : p.Reaches := reaches_of_usable address usable
  have fits : z.Fits 10 := ⟨by decide, by decide⟩
  obtain ⟨calls, z', same, session⟩ := (calls_settle reaches).2 z 10 [.create "_x" "gw"
    "Target.example", .create "_y" "" "target.example", .delete "_x" "gw"] fits (by decide)
  exact ⟨calls, z', same, (calls_settle reaches).1 z calls z' session⟩

end CertEnrollment.Dns.Provider
