import CertEnrollment.Proofs.Cache.Outcomes

/-!
# The cache in memory as a timed map

Any number of caches with lifetimes of their own write to one store in memory and look things up
in it. A lookup finds what was written last under its key, by whichever cache, as long as that
lives: up to the instant at which its lifetime has passed, or forever if no clock can show that
instant. The invariant is about all later readings at once, so it does not matter that a lookup
drops an entry whose time is over.
-/
namespace CertEnrollment.Cache
open Data

/-! ## Lifetimes -/

/-- The longest span that can be added to an instant, in milliseconds. -/
def longestSpan : Nat := 9223372036854775807

/-- The span for a lifetime; the longest one stands for those that are longer. -/
def spanOf (ttl : Nat) : Nat := if ttl ≤ longestSpan then ttl else longestSpan

/-- The instant after a span, if there is one. -/
def instantAfter (now span : Nat) : Option Nat :=
  if now + span ≤ lastInstant then some (now + span) else none

/-- To cut a lifetime makes no difference: no clock can show the end of so long a span. -/
theorem expiry_eq_instantAfter (now ttl : Nat) :
    expiry now ttl = instantAfter now (spanOf ttl) := by
  have long : lastInstant < longestSpan := by decide
  rw [expiry, instantAfter, spanOf]
  by_cases short : ttl ≤ longestSpan
  · rw [if_pos short]
  · rw [if_neg short, if_neg (by omega), if_neg (by omega)]

/-- What was written, when, and for how long. -/
structure Stored where
  issued : Issued
  written : Nat
  ttl : Nat
  deriving DecidableEq, Repr

/-- What is found at a time. -/
def Stored.at (s : Stored) (now : Nat) : Option Issued :=
  if now < s.written + s.ttl ∨ lastInstant < s.written + s.ttl then some s.issued else none

/-- The entry that holds what was written. -/
def Stored.entry (s : Stored) : Entry := ⟨s.issued.text, expiry s.written s.ttl⟩

theorem Stored.entry_isLive (s : Stored) (now : Nat) :
    s.entry.isLive now = true ↔ now < s.written + s.ttl ∨ lastInstant < s.written + s.ttl := by
  rw [entry, Entry.isLive, expiry]
  split
  · next shown =>
    have within : ¬ lastInstant < s.written + s.ttl := Nat.not_lt.mpr shown
    simp [within]
  · next never =>
    have beyond : lastInstant < s.written + s.ttl := Nat.lt_of_not_le never
    simp [beyond]

/-! ## Calls -/

/-- A lookup or an insertion through one of the caches. -/
inductive Call where
  | get (cache : Prefetch) (domains : DomainSet)
  | insert (cache : Prefetch) (domains : DomainSet) (issued : Issued)

namespace Call

abbrev Result : Call → Type
  | get _ _ => Option Issued
  | insert _ _ _ => Unit

def action : (c : Call) → Action c.Result
  | get cache domains => cache.get domains
  | insert cache domains issued => cache.insert domains issued

/-- What a call ends with at a time, and the store after it. -/
def perform (c : Call) (now : Nat) (table : Table) : Except Enrollment.Error c.Result × Table :=
  let answer (a : Ask) : StateM Table a.Answer := fun t => t.respond now a
  (c.action.run.runWith answer).run table

/-- What a call at a time writes under a key, if it does. -/
def stored? (key : String) : Nat × Call → Option Stored
  | (_, get _ _) => none
  | (now, insert cache domains issued) =>
    if entryKey domains = key then some ⟨issued, now, cache.ttl⟩ else none

end Call

/-- What was written last under a key. -/
def latest (key : String) (calls : List (Nat × Call)) : Option Stored :=
  calls.reverse.findSome? (Call.stored? key)

/-- The store after some calls, from an empty one on. -/
def tableAfter (calls : List (Nat × Call)) : Table :=
  calls.foldl (fun table call => (call.2.perform call.1 table).2) .empty

variable {calls before after older since earlier : List (Nat × Call)} {call : Nat × Call}
  {now later : Nat} {table : Table} {key : String} {s : Stored}

theorem latest_snoc (key : String) (calls : List (Nat × Call)) (call : Nat × Call) :
    latest key (calls ++ [call]) = (Call.stored? key call).or (latest key calls) := by
  cases found : Call.stored? key call <;> simp [latest, found]

theorem latest_of_split (written : Call.stored? key call = some s)
    (others : ∀ c ∈ since, Call.stored? key c = none) :
    latest key (older ++ call :: since) = some s := by
  have none_since : since.reverse.findSome? (Call.stored? key) = none := by simpa using others
  simp [latest, List.findSome?_append, none_since, written]

theorem latest_eq_none (others : ∀ c ∈ calls, Call.stored? key c = none) :
    latest key calls = none := by
  simpa [latest] using others

/-! ## The store and the map -/

namespace Table

/-- From `now` on, every key is read as what was written last under it, as long as that lives. -/
def Follows (table : Table) (now : Nat) (calls : List (Nat × Call)) : Prop :=
  ∀ later, now ≤ later → ∀ key,
    (table.read later key).1 = ((latest key calls).bind (·.at later)).map Issued.text

theorem follows_empty : Table.empty.Follows now [] := fun _ _ _ => rfl

theorem Follows.mono (h : table.Follows now calls) (order : now ≤ later) :
    table.Follows later calls :=
  fun time after => h time (Nat.le_trans order after)

/-- A call keeps the store at what was written last. -/
theorem Follows.perform (h : table.Follows now calls) (order : now ≤ call.1) :
    (call.2.perform call.1 table).2.Follows call.1 (calls ++ [call]) := by
  obtain ⟨time, c⟩ := call
  intro later after key
  have before := h later (Nat.le_trans order after) key
  rw [latest_snoc]
  cases c with
  | get cache domains => exact (read_read table after (entryKey domains) key).trans before
  | insert cache domains issued =>
    change ((table.write time (entryKey domains) issued.text cache.ttl).read later key).1 = _
    rw [read_write, Call.stored?]
    by_cases same : key = entryKey domains
    · have live := Stored.entry_isLive ⟨issued, time, cache.ttl⟩ later
      simp only [Stored.entry] at live
      rw [if_pos same, if_pos same.symm, Option.some_or, Option.bind_some, Stored.at]
      by_cases lives : later < time + cache.ttl ∨ lastInstant < time + cache.ttl
      · rw [if_pos (live.mpr lives), if_pos lives]
        rfl
      · rw [if_neg (mt live.mp lives), if_neg lives]
        rfl
    · rw [if_neg same, if_neg (Ne.symm same), Option.none_or]
      exact before

/-- So do any number of calls, when no clock goes back. -/
theorem Follows.run (h : table.Follows now earlier) (start : ∀ c ∈ calls, now ≤ c.1)
    (order : (calls.map Prod.fst).Pairwise (· ≤ ·)) (le : now ≤ later)
    (past : ∀ c ∈ calls, c.1 ≤ later) :
    (calls.foldl (fun table call => (call.2.perform call.1 table).2) table).Follows later
      (earlier ++ calls) := by
  induction calls generalizing table now earlier with
  | nil => simpa using h.mono le
  | cons call calls ih =>
    obtain ⟨first, order⟩ := List.pairwise_cons.mp order
    have next : ∀ c ∈ calls, call.1 ≤ c.1 := fun c hc => first c.1 (List.mem_map_of_mem hc)
    obtain ⟨here, past⟩ := List.forall_mem_cons.mp past
    have later := ih (h.perform (start call List.mem_cons_self)) next order here past
    rwa [List.append_assoc, List.singleton_append] at later

/-- A lookup finds what was written last. -/
theorem Follows.get (h : table.Follows now calls) (cache : Prefetch) (domains : DomainSet) :
    ((Call.get cache domains).perform now table).1 =
      .ok ((latest (entryKey domains) calls).bind (·.at now)) := by
  have outcome := cache.outcome_eq table now domains
  rw [h now (Nat.le_refl now)] at outcome
  refine Eq.trans outcome ?_
  cases (latest (entryKey domains) calls).bind (·.at now) with
  | none => rfl
  | some issued =>
    simp only [Option.map_some, decodeEntry_text]
    rfl

end Table

theorem follows_tableAfter {after : List (Nat × Call)}
    (order : ((calls ++ call :: after).map Prod.fst).Pairwise (· ≤ ·)) :
    (tableAfter calls).Follows call.1 calls := by
  rw [List.map_append, List.pairwise_append] at order
  obtain ⟨within, -, across⟩ := order
  have past : ∀ c ∈ calls, c.1 ≤ call.1 := fun c hc =>
    across c.1 (List.mem_map_of_mem hc) call.1 (by simp)
  exact Table.follows_empty.run (fun c _ => Nat.zero_le c.1) within (Nat.zero_le _) past

/-- What any number of calls come to, through any caches on one store. -/
structure TimedMap (calls : List (Nat × Call)) : Prop where
  /-- An insertion never fails. -/
  inserts : ∀ before now cache domains issued after,
    calls = before ++ (now, .insert cache domains issued) :: after →
    ((Call.insert cache domains issued).perform now (tableAfter before)).1 = .ok ()
  /-- A lookup does not fail either. It finds nothing under a key that nothing was written under, -/
  misses : ∀ before now cache domains after,
    calls = before ++ (now, .get cache domains) :: after →
    (∀ c ∈ before, Call.stored? (entryKey domains) c = none) →
    ((Call.get cache domains).perform now (tableAfter before)).1 = .ok none
  /-- and otherwise what was written last under it, by whichever cache, until its lifetime has
  passed; and forever if that is after the last instant. -/
  finds : ∀ older written writer names issued since now cache domains after,
    calls = older ++ (written, .insert writer names issued) :: since ++
      (now, .get cache domains) :: after →
    entryKey names = entryKey domains →
    (∀ c ∈ since, Call.stored? (entryKey domains) c = none) →
    ((Call.get cache domains).perform now
        (tableAfter (older ++ (written, .insert writer names issued) :: since))).1 =
      .ok (if now < written + writer.ttl ∨ lastInstant < written + writer.ttl then some issued
        else none)
  /-- Every lifetime is a span that can be added, cut if need be, and the sum is only taken if
  there is one. -/
  lifetimes : ∀ now ttl, spanOf ttl ≤ longestSpan ∧ expiry now ttl = instantAfter now (spanOf ttl)

/-- The cache is a timed map, as long as the clock does not go back. -/
theorem timed_map (order : (calls.map Prod.fst).Pairwise (· ≤ ·)) : TimedMap calls where
  inserts before now cache domains issued after split := rfl
  misses before now cache domains after split unwritten := by
    have follows := follows_tableAfter (split ▸ order)
    rw [follows.get cache domains, latest_eq_none unwritten]
    rfl
  finds older written writer names issued since now cache domains after split same others := by
    have follows := follows_tableAfter (split ▸ order)
    have here : Call.stored? (entryKey domains) (written, .insert writer names issued) =
        some ⟨issued, written, writer.ttl⟩ := if_pos same
    rw [follows.get cache domains, latest_of_split here others]
    rfl
  lifetimes now ttl := by
    refine ⟨?_, expiry_eq_instantAfter now ttl⟩
    rw [spanOf]
    split
    · assumption
    · exact Nat.le_refl _

/-- Two caches on one store, the one with a lifetime of a second and the other one with the longest
that there is in seconds. -/
def twoCaches : List (Nat × Call) :=
  [(0, .insert ⟨1000⟩ (.ofNames ["a.org"]) ⟨"leaf a", "YQ=="⟩),
    (500, .insert ⟨18446744073709551615000⟩ (.ofNames ["b.org"]) ⟨"leaf b", "Yg=="⟩),
    (999, .get ⟨18446744073709551615000⟩ (.ofNames ["A.org"])),
    (1000, .get ⟨18446744073709551615000⟩ (.ofNames ["A.org"])),
    (lastInstant, .get ⟨1000⟩ (.ofNames ["b.org"]))]

/-- What lives for a second is found until then, and the other one to the last instant. -/
theorem timed_map_twoCaches :
    (twoCaches.map Prod.fst).Pairwise (· ≤ ·) ∧
      ((Call.get ⟨18446744073709551615000⟩ (.ofNames ["A.org"])).perform 999
        (tableAfter (twoCaches.take 2))).1 = .ok (some ⟨"leaf a", "YQ=="⟩) ∧
      ((Call.get ⟨18446744073709551615000⟩ (.ofNames ["A.org"])).perform 1000
        (tableAfter (twoCaches.take 3))).1 = .ok none ∧
      ((Call.get ⟨1000⟩ (.ofNames ["b.org"])).perform lastInstant
        (tableAfter (twoCaches.take 4))).1 = .ok (some ⟨"leaf b", "Yg=="⟩) := by
  have order : (twoCaches.map Prod.fst).Pairwise (· ≤ ·) := by decide
  have sameKey : entryKey (.ofNames ["a.org"]) = entryKey (.ofNames ["A.org"]) := by decide +kernel
  have finds := (timed_map order).finds
  refine ⟨order, ?_, ?_, ?_⟩
  · exact finds [] 0 ⟨1000⟩ _ _ [twoCaches[1]] 999 _ _ _ rfl sameKey (by decide +kernel)
  · exact finds [] 0 ⟨1000⟩ _ _ [twoCaches[1], twoCaches[2]] 1000 _ _ _ rfl sameKey
      (by decide +kernel)
  · exact finds [twoCaches[0]] 500 ⟨18446744073709551615000⟩ _ _ [twoCaches[2], twoCaches[3]]
      lastInstant _ _ _ rfl rfl (by decide +kernel)

end CertEnrollment.Cache
