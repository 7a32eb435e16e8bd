import CertEnrollment.Proofs.Cache.Keys
import CertEnrollment.Proofs.Enrollment.OneIssuance

/-!
# Where cached certificates come from

A cache in memory gives out what is in its table: entries that were there from the beginning,
and those that were written since, until they expire. Hosts are placed before the cache is
asked for anything, and the names of placed hosts can be told from the key of the entry. So an
enrollment is given what another one has written only if that one was for the same names.
-/
namespace CertEnrollment.Enrollment
open Authority Cache Data Interaction

/-! ## Answers of a table -/

/-- The answers in the log about the cache, each with its time, are those of a table in
memory, which was `initial` at first and is the last argument at the end. -/
inductive CacheLog (initial : Table) : List (Nat × Event Ask Ask.Answer) → Table → Prop
  | start : CacheLog initial [] initial
  | cache {log : List (Nat × Event Ask Ask.Answer)} {table : Table}
      (before : CacheLog initial log table) (now : Nat) (a : Cache.Ask) :
      CacheLog initial (log ++ [(now, ⟨.call (.cache a), (table.respond now a).1⟩)])
        (table.respond now a).2
  | other {log : List (Nat × Event Ask Ask.Answer)} {table : Table}
      (before : CacheLog initial log table) (now : Nat) (e : Event Ask Ask.Answer)
      (notCache : ∀ a, e.request ≠ .call (.cache a)) : CacheLog initial (log ++ [(now, e)]) table

/-- The entry under the key was written in the log. -/
def Written (log : List (Nat × Event Ask Ask.Answer)) (key : String) (entry : Entry) : Prop :=
  ∃ w ∈ log, ∃ text ttl, w.2.request = .call (.cache (.write key text ttl)) ∧
    entry = ⟨text, expiry w.1 ttl⟩

theorem Written.append {log more : List (Nat × Event Ask Ask.Answer)} {key : String}
    {entry : Entry} (h : Written log key entry) : Written (log ++ more) key entry := by
  obtain ⟨w, hw, written⟩ := h
  exact ⟨w, List.mem_append_left _ hw, written⟩

variable {initial table : Table} {log : List (Nat × Event Ask Ask.Answer)} {key : String}

/-- An entry was there from the beginning, or it was written. -/
theorem CacheLog.origin (h : CacheLog initial log table) {entry : Entry}
    (there : table.entries.get? key = some entry) :
    initial.entries.get? key = some entry ∨ Written log key entry := by
  induction h with
  | start => exact .inl there
  | other before now e notCache ih => exact (ih there).imp_right .append
  | @cache log table before now a ih =>
    cases a with
    | read k => exact (ih (System.get?_of_read there)).imp_right .append
    | write k text ttl =>
      have new := (SortedMap.get?_insert table.entries k key ⟨text, expiry now ttl⟩).symm.trans there
      split at new
      · next same =>
        obtain rfl := Option.some.inj new
        subst same
        exact .inr ⟨_, List.mem_append_right _ List.mem_cons_self, text, ttl, rfl, rfl⟩
      · exact (ih new).imp_right .append

theorem exists_entry_of_read {now : Nat} {text : String}
    (h : (table.read now key).1 = some text) :
    ∃ entry, table.entries.get? key = some entry ∧ entry.isLive now = true ∧
      entry.value = text := by
  rw [Table.read_fst, Option.bind_eq_some_iff] at h
  obtain ⟨entry, there, live⟩ := h
  split at live
  · next alive => exact ⟨entry, there, alive, Option.some.inj live⟩
  · cases live

/-- The last element of a list stands at the place in question or somewhere after it. -/
theorem snoc_eq_append_cons {α : Type} {xs before after : List α} {x y : α}
    (h : xs ++ [x] = before ++ y :: after) :
    (xs = before ∧ x = y) ∨ ∃ more, xs = before ++ y :: more := by
  rcases after.eq_nil_or_concat with rfl | ⟨more, last, rfl⟩
  · obtain ⟨front, ends⟩ := List.append_inj' h rfl
    exact .inl ⟨front, List.singleton_inj.mp ends⟩
  · rw [List.concat_eq_append, ← List.cons_append, ← List.append_assoc] at h
    exact .inr ⟨more, (List.append_inj' h rfl).1⟩

/-- What the cache gives out is a live entry that was there from the beginning or was written
before. -/
theorem CacheLog.hit (h : CacheLog initial log table)
    {before after : List (Nat × Event Ask Ask.Answer)} {now : Nat} {text : String}
    (split : log = before ++ (now, ⟨.call (.cache (.read key)), .ok (some text)⟩) :: after) :
    ∃ entry, entry.isLive now = true ∧ entry.value = text ∧
      (initial.entries.get? key = some entry ∨ Written before key entry) := by
  induction h generalizing after with
  | start => simp at split
  | @cache log table earlier now' a ih =>
    rcases snoc_eq_append_cons split with ⟨rfl, same⟩ | ⟨more, split⟩
    · obtain ⟨rfl, events⟩ := Prod.mk.inj same
      injection events with request answer
      obtain rfl : a = .read key := by
        injection request with request
        injection request
      have given : (table.read now' key).1 = some text := Except.ok.inj (eq_of_heq answer)
      obtain ⟨entry, there, live, value⟩ := exists_entry_of_read given
      exact ⟨entry, live, value, earlier.origin there⟩
    · exact ih split
  | other earlier now' e notCache ih =>
    rcases snoc_eq_append_cons split with ⟨rfl, same⟩ | ⟨more, split⟩
    · obtain ⟨-, rfl⟩ := Prod.mk.inj same
      exact absurd rfl (notCache _)
    · exact ih split

/-! ## Answers to enrollments -/

namespace System
variable {s : Setup} {csr : Task → List UInt8} {domains : DomainSet} {st : System} {task : Task}
  {zones : List Dns.Zone}

/-- The log as a list of answers with their times. -/
def timed (log : List Logged) : List (Nat × Event Ask Ask.Answer) :=
  log.map fun o => (o.time, o.event)

theorem Reachable.cacheLog (h : Reachable s csr initial st) :
    CacheLog initial (timed st.log) st.cache := by
  induction h with
  | start now => exact .start
  | step before next ih =>
    cases next with
    | wait later => exact ih
    | act actor acts =>
      cases acts with
      | proceed asks answers =>
        rw [timed, proceed, List.map_append]
        cases answers with
        | cache a => exact ih.cache _ a
        | call service answer => exact ih.other _ _ fun a same => service a (Ask.call.inj same)
        | _ => exact ih.other _ _ (by simp)
      | _ => exact ih

/-- The hosts of enrollments are placed in these zones. -/
def PlacedIn (zones : List Dns.Zone) (st : System) : Prop :=
  ∀ o ∈ st.log, ∀ host answer, o.event = ⟨.call (.place host), answer⟩ →
    answer = (Dns.resolve zones host).map fun _ => ()

/-- A task that has asked the cache for something has names that are placed. -/
theorem Reachable.placeable (h : Reachable s csr initial st) (placing : PlacedIn zones st)
    {r : SigningRequest} (parsed : SigningRequest.parse (csr task) = .ok r) {a : Cache.Ask}
    {e : Event Ask Ask.Answer} (he : e ∈ st.history task) (asked : e.request = .call (.cache a)) :
    Placeable zones r.names := by
  intro n hn
  have later : ¬ e.request.places := by
    rintro ⟨host, place⟩
    cases asked.symm.trans place
  have placed := placed_of_becomes parsed (h.becomes task) he later n hn
  obtain ⟨o, ho, -, event⟩ := mem_history.mp placed
  have answer := placing o ho n _ event
  cases resolved : Dns.resolve zones n with
  | error e =>
    rw [resolved] at answer
    cases answer
  | ok p => exact ⟨p, rfl⟩

/-- A task that has written to the cache has a request, and wrote to the entry of its set. -/
theorem Reachable.wants_of_write (h : Reachable s csr initial st) {o : Logged} (ho : o ∈ st.log)
    {key text : String} {ttl : Nat} (wrote : o.event.request = .call (.cache (.write key text ttl))) :
    ∃ r c, SigningRequest.parse (csr o.task) = .ok r ∧
      o.event.request = writeAsk s (.ofNames r.names) c := by
  have he : o.event ∈ st.history o.task := mem_history.mpr ⟨o, ho, rfl, rfl⟩
  have done := h.becomes o.task
  cases parsed : SigningRequest.parse (csr o.task) with
  | error e =>
    rw [enroll_malformed parsed] at done
    rw [(becomes_done.mp done).1] at he
    cases he
  | ok r =>
    obtain ⟨c, same, -⟩ := (progress_of_becomes parsed done).wrote he wrote
    exact ⟨r, c, rfl, same⟩

/-- What keeps the entries of different sets apart. -/
structure EntriesApart (zones : List Dns.Zone) : Prop where
  /-- The sets of placed names have different keys unless they are the same. -/
  keys : ∀ names names', Placeable zones names → Placeable zones names' →
    entryKey (.ofNames names) = entryKey (.ofNames names') →
    DomainSet.ofNames names = .ofNames names'
  /-- What the cache gives to an enrollment was there from the beginning, or it was written
  before by an enrollment of the same set. -/
  served : ∀ s csr initial st, Reachable s csr initial st → PlacedIn zones st →
    ∀ before o after domains text, st.log = before ++ o :: after → Wants csr domains o.task →
      o.event = ⟨readAsk domains, .ok (some text)⟩ →
      (∃ entry, initial.entries.get? (entryKey domains) = some entry ∧ entry.value = text) ∨
        ∃ w ∈ before, Wants csr domains w.task ∧
          ∃ c, w.event.request = writeAsk s domains c ∧ c.text = text

/-- Where no zone and no branch has a comma, enrollments are given certificates for their own
sets of names only, whatever commas those names have. -/
theorem entries_apart (free : Dns.CommaFree zones) : EntriesApart zones := by
  refine ⟨fun names names' => entryKey_inj free, ?_⟩
  intro s csr initial st h placing before o after domains text split wants read
  have listed : ∀ w ∈ before, w ∈ st.log := fun w hw => split ▸ List.mem_append_left _ hw
  have cut : timed st.log = timed before ++ (o.time, ⟨readAsk domains, .ok (some text)⟩) ::
      timed after := by
    simp [timed, split, read]
  obtain ⟨entry, -, value, there | written⟩ := h.cacheLog.hit cut
  · exact .inl ⟨entry, there, value⟩
  obtain ⟨x, hx, text', ttl, request, same⟩ := written
  obtain ⟨w, hw, rfl⟩ := List.mem_map.mp hx
  obtain ⟨r, c, parsed, wrote⟩ := h.wants_of_write (listed w hw) request
  obtain ⟨r', parsed', rfl⟩ := wants
  have placed : Placeable zones r.names :=
    h.placeable placing parsed (mem_history.mpr ⟨w, listed w hw, rfl, rfl⟩) request
  have placed' : Placeable zones r'.names :=
    h.placeable placing parsed' (mem_history.mpr ⟨o, by simp [split], rfl, rfl⟩) (by rw [read]; rfl)
  have write := request.symm.trans wrote
  injection write with write
  injection write with write
  injection write with key text_eq
  have sets := entryKey_inj free placed placed' key.symm
  refine .inr ⟨w, hw, ⟨r, parsed, sets⟩, c, sets ▸ wrote, ?_⟩
  rw [← value, same, text_eq]

/-- In the zone `org`, a label with a comma in it does not pass for two names. -/
theorem entries_apart_org :
    Dns.CommaFree [orgZone] ∧ Placeable [orgZone] ["a,b.org"] ∧
      Placeable [orgZone] ["b.org", "a.org"] ∧
      entryKey (.ofNames ["a,b.org"]) ≠ entryKey (.ofNames ["b.org", "a.org"]) := by
  have free : Dns.CommaFree [orgZone] := by
    unfold Dns.CommaFree
    decide +kernel
  have placed : Placeable [orgZone] ["a,b.org"] := placeable_of_all (by decide +kernel)
  have placed' : Placeable [orgZone] ["b.org", "a.org"] := placeable_of_all (by decide +kernel)
  refine ⟨free, placed, placed', fun same => ?_⟩
  have sets := (entries_apart free).keys _ _ placed placed' same
  exact absurd sets (by decide +kernel)

end System
end CertEnrollment.Enrollment
