import CertEnrollment.Proofs.Cache.Outcomes
import CertEnrollment.Proofs.Enrollment.Freshness

/-!
# What calls do to the cache

Calls share a cache in memory with others. A call that fails or is served from the cache only
reads, and reading drops nothing but what nobody could have read any more. So every later
lookup comes to what it would have come to without that call. A call that works on a
certificate writes it under the key of its names, a prefetch that succeeds writes what it gives
under the key of the names it is for, and lookups by other keys come to the same as without.
-/
namespace CertEnrollment.Enrollment
open Authority Cache Data Interaction

/-! ## The table after a log -/

/-- The cache answers requests to it, and nothing else touches its table. -/
def tableAfter (table : Table) : Nat × Event Ask Ask.Answer → Table
  | (now, ⟨.call (.cache a), _⟩) => (table.respond now a).2
  | _ => table

/-- The table after all requests in a log. -/
def replay (table : Table) (log : List (Nat × Event Ask Ask.Answer)) : Table :=
  log.foldl tableAfter table

variable {initial table : Table} {keys : String → Prop} {key : String} {now later : Nat}

theorem tableAfter_of_not_caches {x : Nat × Event Ask Ask.Answer} (h : ¬ x.2.request.caches) :
    tableAfter table x = table := by
  unfold tableAfter
  split
  · next a _ => exact absurd ⟨a, rfl⟩ h
  · rfl

theorem replay_snoc {log : List (Nat × Event Ask Ask.Answer)} {x : Nat × Event Ask Ask.Answer} :
    replay initial (log ++ [x]) = tableAfter (replay initial log) x := by
  simp [replay]

/-- The table that a log leaves is that after its requests. -/
theorem CacheLog.replay {log : List (Nat × Event Ask Ask.Answer)} (h : CacheLog initial log table) :
    table = replay initial log := by
  induction h with
  | start => rfl
  | cache before now a ih =>
    rw [replay_snoc, ← ih]
    rfl
  | other before now e notCache ih =>
    rw [replay_snoc, ← ih, tableAfter_of_not_caches]
    rintro ⟨a, cache⟩
    exact notCache a cache

/-- The answers that one task got. -/
def callOf (log : List Logged) (task : Task) : Transcript :=
  (log.filter (·.task = task)).map (·.event)

/-- The log without one task. -/
def without (log : List Logged) (task : Task) : List Logged := log.filter (·.task ≠ task)

/-- What is written to the cache in a transcript is written under these keys. -/
def WritesWithin (keys : String → Prop) (t : Transcript) : Prop :=
  ∀ e ∈ t, ∀ a, e.request = .call (.cache a) → a.WritesWithin keys

variable {log : List Logged} {task : Task} {a b : Table}

theorem alike_tableAfter (h : Table.Alike keys now a b) {x : Nat × Event Ask Ask.Answer}
    (order : now ≤ x.1) : Table.Alike keys x.1 (tableAfter a x) (tableAfter b x) := by
  unfold tableAfter
  split
  · exact h.respond order _
  · exact h.mono order

theorem alike_tableAfter_left (h : Table.Alike keys now a b) {x : Nat × Event Ask Ask.Answer}
    (order : now ≤ x.1) (within : ∀ q, x.2.request = .call (.cache q) → q.WritesWithin keys) :
    Table.Alike keys x.1 (tableAfter a x) b := by
  unfold tableAfter
  split
  · exact h.respond_left order (within _ rfl)
  · exact h.mono order

theorem shows_tableAfter {entry : Entry} (h : a.Shows key entry now)
    {x : Nat × Event Ask Ask.Answer} (order : now ≤ x.1)
    (unwritten : ∀ q, x.2.request = .call (.cache q) → q.WritesWithin (· ≠ key)) :
    (tableAfter a x).Shows key entry x.1 := by
  unfold tableAfter
  split
  · exact h.respond order (unwritten _ rfl)
  · exact h.mono order

/-- With and without the requests of one task, tables are read alike except under the keys that
the task writes under. -/
theorem alike_replay (clock : (log.map (·.time)).Pairwise (· ≤ ·))
    (within : WritesWithin keys (callOf log task)) (h : Table.Alike keys now a b)
    (start : ∀ o ∈ log, now ≤ o.time) (order : now ≤ later) (ends : ∀ o ∈ log, o.time ≤ later) :
    Table.Alike keys later (replay a (System.timed log))
      (replay b (System.timed (without log task))) := by
  induction log generalizing a b now with
  | nil => exact h.mono order
  | cons o log ih =>
    obtain ⟨first, others⟩ := List.pairwise_cons.mp clock
    have rest : ∀ x ∈ log, o.time ≤ x.time := fun x hx => first _ (List.mem_map_of_mem hx)
    have begun : now ≤ o.time := start o List.mem_cons_self
    have ended : o.time ≤ later := ends o List.mem_cons_self
    have within' : WritesWithin keys (callOf log task) := by
      intro e he
      obtain ⟨x, hx, rfl⟩ := List.mem_map.mp he
      obtain ⟨there, mine⟩ := List.mem_filter.mp hx
      exact within _ (List.mem_map_of_mem
        (List.mem_filter.mpr ⟨List.mem_cons_of_mem _ there, mine⟩))
    by_cases own : o.task = task
    · have mine : o.event ∈ callOf (o :: log) task :=
        List.mem_map_of_mem (List.mem_filter.mpr ⟨List.mem_cons_self, by simpa using own⟩)
      have next := alike_tableAfter_left h (x := (o.time, o.event)) begun (within _ mine)
      have skipped : without (o :: log) task = without log task := by simp [without, own]
      rw [skipped]
      exact ih others within' next rest ended fun x hx => ends x (List.mem_cons_of_mem _ hx)
    · have next := alike_tableAfter h (x := (o.time, o.event)) begun
      have kept : without (o :: log) task = o :: without log task := by simp [without, own]
      rw [kept]
      exact ih others within' next rest ended fun x hx => ends x (List.mem_cons_of_mem _ hx)

/-- A key goes on being read as its entry as long as nothing is written under it. -/
theorem shows_replay {entry : Entry} (clock : (log.map (·.time)).Pairwise (· ≤ ·))
    (unwritten : WritesWithin (· ≠ key) (log.map (·.event))) (h : a.Shows key entry now)
    (start : ∀ o ∈ log, now ≤ o.time) (order : now ≤ later) (ends : ∀ o ∈ log, o.time ≤ later) :
    (replay a (System.timed log)).Shows key entry later := by
  induction log generalizing a now with
  | nil => exact h.mono order
  | cons o log ih =>
    obtain ⟨first, others⟩ := List.pairwise_cons.mp clock
    obtain ⟨here, unwritten⟩ := List.forall_mem_cons.mp unwritten
    have rest : ∀ x ∈ log, o.time ≤ x.time := fun x hx => first _ (List.mem_map_of_mem hx)
    have begun : now ≤ o.time := start o List.mem_cons_self
    have next := shows_tableAfter h (x := (o.time, o.event)) begun here
    exact ih others unwritten next rest (ends o List.mem_cons_self)
      fun x hx => ends x (List.mem_cons_of_mem _ hx)

/-! ## What a call writes -/

variable {s : Setup} {csr : List UInt8} {t front back : Transcript} {domains : DomainSet}
  {result : Except String Issued} {c : Issued}

theorem WritesWithin.append (first : WritesWithin keys front) (second : WritesWithin keys back) :
    WritesWithin keys (front ++ back) := by
  intro e he
  rcases List.mem_append.mp he with he | he
  · exact first e he
  · exact second e he

theorem WritesWithin.imp {keys' : String → Prop} (h : WritesWithin keys t)
    (weaker : ∀ key, keys key → keys' key) : WritesWithin keys' t := by
  intro e he a asked
  have within := h e he a asked
  cases a with
  | read key => trivial
  | write key value ttl => exact weaker key within

theorem Unwritten.within (h : Unwritten t) : WritesWithin keys t := by
  intro e he a asked
  cases a with
  | read key => trivial
  | write key value ttl => exact absurd asked (h e he key value ttl)

theorem within_nil : WritesWithin keys [] := by simp [WritesWithin]

theorem within_write {written : Except String Unit} :
    WritesWithin (· = entryKey domains) [⟨writeAsk s domains c, written⟩] := by
  intro e he a asked
  cases List.mem_singleton.mp he
  cases asked
  rfl

/-- The cache gave a certificate. -/
def Given (t : Transcript) : Prop := ∃ x ∈ t, ∃ c, Gave x c

theorem not_given_of_miss {answer : (readAsk domains).Answer}
    (placed : ∀ x ∈ front, x.request.places) (others : ∀ x ∈ back, ∀ c, ¬ Gave x c)
    (miss : found domains answer = none) :
    ¬ Given (front ++ ⟨.lock domains, ()⟩ :: ⟨readAsk domains, answer⟩ :: back) := by
  rintro ⟨x, hx, c, gave⟩
  obtain ⟨before, after, split⟩ := List.append_of_mem hx
  obtain ⟨given, -⟩ := gave_of_looked placed others split gave
  cases miss.symm.trans given

/-- An enrollment that writes nothing has failed or was given its certificate. One that writes
was given none; it writes what it gives, once and under the key of its names. -/
theorem Course.stored (h : Course s csr t result) :
    (Unwritten t ∧ ∀ c, result = .ok c → Given t) ∨
      ∃ r c written front back, SigningRequest.parse csr = .ok r ∧ result = .ok c ∧ ¬ Given t ∧
        t = front ++ ⟨writeAsk s (.ofNames r.names) c, written⟩ :: back ∧ Unwritten front ∧
        Unwritten back := by
  cases h with
  | malformed malformed => exact .inl ⟨by simp [Unwritten], by rintro _ ⟨⟩⟩
  | refused parsed placing =>
    exact .inl ⟨unwritten_of_placed (placing.asks (asks_placeAll _)), by rintro _ ⟨⟩⟩
  | served parsed placing hit =>
    have placed := placing.asks (asks_placeAll _)
    exact .inl ⟨unwritten_of_looked _ _ placed unwritten_unlock,
      fun c same => ⟨_, by simp, _, _, _, rfl, hit⟩⟩
  | failed parsed placing miss running =>
    have placed := placing.asks (asks_placeAll _)
    have work := unwritten_of_works (running.asks (asks_run s _))
    exact .inl ⟨unwritten_of_looked _ _ placed (work.append unwritten_unlock),
      by rintro _ ⟨⟩⟩
  | @issued r t u c answer parsed placing miss running written =>
    have placed := placing.asks (asks_placeAll _)
    have working := running.asks (asks_run s _)
    have others : ∀ x ∈ u ++ ⟨writeAsk s (.ofNames r.names) c, written⟩ :: [⟨.unlock, ()⟩],
        ∀ c, ¬ Gave x c :=
      List.forall_mem_append.mpr ⟨not_gave_of_works working,
        List.forall_mem_cons.mpr ⟨fun _ => not_gave_write, by simpa using not_gave_unlock⟩⟩
    refine .inr ⟨r, c, written, t ++ ⟨.lock (.ofNames r.names), ()⟩ ::
      ⟨readAsk (.ofNames r.names), answer⟩ :: u, [⟨.unlock, ()⟩], parsed, rfl,
      not_given_of_miss placed others miss, by simp,
      unwritten_of_looked _ _ placed (unwritten_of_works working), unwritten_unlock⟩

/-! ## What lookups come to -/

/-- A task that writes in this place in its transcript does so in a place in the log. -/
theorem exists_split_of_callOf {e : Event Ask Ask.Answer}
    (split : callOf log task = front ++ e :: back) : ∃ before o after,
      log = before ++ o :: after ∧ o.task = task ∧ o.event = e ∧ callOf after task = back := by
  obtain ⟨mine, rest, cut, rfl, same⟩ := List.map_eq_append_iff.mp split
  obtain ⟨o, others, rfl, rfl, rfl⟩ := List.map_eq_cons_iff.mp same
  obtain ⟨before, later, rfl, -, tail⟩ := List.filter_eq_append_iff.mp cut
  obtain ⟨between, after, rfl, -, own, rfl⟩ := List.filter_eq_cons_iff.mp tail
  exact ⟨before ++ between, o, after, by simp, by simpa using own, rfl, rfl⟩

/-- Every later lookup, except by the keys of these sets, comes to what it would have come to
without the task. -/
def SameWithout (s : Setup) (log : List Logged) (task : Task) (initial table : Table)
    (changed : List DomainSet) : Prop :=
  ∀ now, (∀ o ∈ log, o.time ≤ now) → ∀ domains, (∀ d ∈ changed, entryKey domains ≠ entryKey d) →
    s.cache.outcome table now domains =
      s.cache.outcome (replay initial (System.timed (without log task))) now domains

/-- The task has written a certificate for a set, and lookups for that set give it until it
expires or another task writes under the same key. -/
def Holds (s : Setup) (log : List Logged) (task : Task) (table : Table) (domains : DomainSet)
    (c : Issued) : Prop :=
  ∃ before o after, log = before ++ o :: after ∧ o.task = task ∧
    o.event.request = writeAsk s domains c ∧
    ((∀ x ∈ after, x.task ≠ task → ∀ text ttl,
        x.event.request ≠ .call (.cache (.write (entryKey domains) text ttl))) →
      ∀ now, (∀ x ∈ log, x.time ≤ now) → s.cache.outcome table now domains =
        .ok (if (⟨c.text, expiry o.time s.cache.ttl⟩ : Entry).isLive now then some c else none))

theorem sameWithout_of_within {changed : List DomainSet}
    (clock : (log.map (·.time)).Pairwise (· ≤ ·))
    (answered : CacheLog initial (System.timed log) table)
    (within : WritesWithin (fun key => ∃ d ∈ changed, key = entryKey d) (callOf log task)) :
    SameWithout s log task initial table changed := by
  intro now ends domains apart
  have alike := alike_replay clock within (.refl initial) (fun _ _ => Nat.zero_le _)
    (Nat.zero_le now) ends
  rw [← answered.replay] at alike
  exact alike.outcome (Nat.le_refl now) (fun ⟨d, hd, same⟩ => apart d hd same) s.cache

theorem holds_of_split {written : Except String Unit} (clock : (log.map (·.time)).Pairwise (· ≤ ·))
    (answered : CacheLog initial (System.timed log) table)
    (split : callOf log task = front ++ ⟨writeAsk s domains c, written⟩ :: back)
    (kept : WritesWithin (· ≠ entryKey domains) back) : Holds s log task table domains c := by
  obtain ⟨before, o, after, rfl, own, event, rest⟩ := exists_split_of_callOf split
  refine ⟨before, o, after, rfl, own, by rw [event], fun others now ends => ?_⟩
  have unwritten : WritesWithin (· ≠ entryKey domains) (after.map (·.event)) := by
    intro e he a asked
    obtain ⟨x, hx, rfl⟩ := List.mem_map.mp he
    by_cases mine : x.task = task
    · refine kept x.event ?_ a asked
      rw [← rest]
      exact List.mem_map_of_mem (List.mem_filter.mpr ⟨hx, by simpa using mine⟩)
    · cases a with
      | read key => trivial
      | write key text ttl =>
        intro same
        exact others x hx mine text ttl (same ▸ asked)
  rw [List.map_append, List.map_cons, List.pairwise_append] at clock
  obtain ⟨first, clock⟩ := List.pairwise_cons.mp clock.2.1
  have start : ∀ x ∈ after, o.time ≤ x.time := fun x hx => first _ (List.mem_map_of_mem hx)
  have ended : o.time ≤ now := ends o (by simp)
  have shown := Table.shows_write (replay initial (System.timed before)) o.time (entryKey domains)
    c.text s.cache.ttl
  have left : table = replay ((replay initial (System.timed before)).write o.time
      (entryKey domains) c.text s.cache.ttl) (System.timed after) := by
    rw [answered.replay, System.timed, List.map_append, List.map_cons, replay, List.foldl_append,
      List.foldl_cons, event]
    rfl
  rw [left]
  exact (shows_replay clock unwritten shown start ended fun x hx => ends x (by simp [hx])).outcome
    (Nat.le_refl now) s.cache

/-! ## The effects of a call -/

/-- What a call of a task does to a cache that it shares with others. -/
structure CacheEffects (s : Setup) (order : Order) (log : List Logged) (task : Task)
    (initial table : Table) (result : Except String Issued) : Prop where
  failed : ∀ e, result = .error e → SameWithout s log task initial table []
  /-- An enrollment that the cache gives its certificate. -/
  served : ∀ csr, order = .enroll csr → Given (callOf log task) →
    SameWithout s log task initial table []
  enrolled : ∀ csr c, order = .enroll csr → result = .ok c → ¬ Given (callOf log task) →
    ∃ r, SigningRequest.parse csr = .ok r ∧
      SameWithout s log task initial table [.ofNames r.names] ∧
      Holds s log task table (.ofNames r.names) c
  /-- A prefetch that the cache gives its certificate. -/
  renewed : ∀ domains csr c, order = .prefetch domains csr → result = .ok c →
    Given (callOf log task) → SameWithout s log task initial table [.ofNames domains] ∧
      Holds s log task table (.ofNames domains) c
  prefetched : ∀ domains csr c, order = .prefetch domains csr → result = .ok c →
    ¬ Given (callOf log task) → ∃ r, SigningRequest.parse csr = .ok r ∧
      SameWithout s log task initial table [.ofNames r.names, .ofNames domains] ∧
      Holds s log task table (.ofNames r.names) c ∧ Holds s log task table (.ofNames domains) c

theorem unwritten_of_failed {order : Order} {e : String}
    (h : Runs (order.flow s) t (.error e)) : Unwritten t := by
  have issuing {csr : List UInt8} (run : Runs (issue s csr).run t (.error e)) : Unwritten t := by
    obtain ⟨unwritten, -⟩ | ⟨r, c, -, -, -, -, absurd, -⟩ := (course_of_runs run).stored
    · exact unwritten
    · cases absurd
  cases order with
  | enroll csr => exact issuing h
  | prefetch domains csr =>
    obtain ⟨e', -, run⟩ | ⟨-, c, -, -, absurd, -⟩ := runs_prefetch h
    · exact issuing run
    · cases absurd

theorem not_given_write {written : Except String Unit} (none_given : ¬ Given t) :
    ¬ Given (t ++ [⟨writeAsk s domains c, written⟩]) := by
  rintro ⟨x, hx, d, gave⟩
  rcases List.mem_append.mp hx with hx | hx
  · exact none_given ⟨x, hx, d, gave⟩
  · cases List.mem_singleton.mp hx
    exact not_gave_write gave

/-- A prefetch that was given no certificate writes what it has worked on twice. -/
theorem holds_of_prefetched {r : SigningRequest} {names : List String}
    {written written' : Except String Unit} (clock : (log.map (·.time)).Pairwise (· ≤ ·))
    (answered : CacheLog initial (System.timed log) table)
    (split : callOf log task = front ++ ⟨writeAsk s (.ofNames r.names) c, written⟩ :: back ++
      [⟨writeAsk s (.ofNames names) c, written'⟩]) (quiet : Unwritten back) :
    Holds s log task table (.ofNames r.names) c := by
  by_cases same : entryKey (.ofNames names) = entryKey (.ofNames r.names)
  · -- the second write is under the same key, and it is the one that counts
    have write : (⟨writeAsk s (.ofNames names) c, written'⟩ : Event Ask Ask.Answer) =
        ⟨writeAsk s (.ofNames r.names) c, written'⟩ :=
      congrArg (fun key => (⟨.call (.cache (.write key c.text s.cache.ttl)), written'⟩ :
        Event Ask Ask.Answer)) same
    rw [write] at split
    exact holds_of_split clock answered split within_nil
  · rw [List.append_assoc, List.cons_append] at split
    exact holds_of_split clock answered split
      (quiet.within.append (within_write.imp fun key here => here ▸ same))

/-- A call that fails or is served leaves every later lookup as it was. One that gives a new
certificate changes lookups by the keys it is for, which give that certificate from then on. -/
theorem cache_effects {order : Order} (clock : (log.map (·.time)).Pairwise (· ≤ ·))
    (answered : CacheLog initial (System.timed log) table)
    (runs : Runs (order.flow s) (callOf log task) result) :
    CacheEffects s order log task initial table result where
  failed := by
    rintro e rfl
    exact sameWithout_of_within clock answered (unwritten_of_failed runs).within
  served := by
    rintro csr rfl given
    obtain ⟨quiet, -⟩ | ⟨r, c, -, -, -, -, -, none_given, -⟩ := (course_of_runs runs).stored
    · exact sameWithout_of_within clock answered quiet.within
    · exact absurd given none_given
  enrolled := by
    rintro csr c rfl rfl none_given
    obtain ⟨-, given⟩ | ⟨r, _, written, front, back, parsed, same, -, split, before, after⟩ :=
      (course_of_runs runs).stored
    · exact absurd (given c rfl) none_given
    cases same
    refine ⟨r, parsed, ?_, holds_of_split clock answered split after.within⟩
    refine sameWithout_of_within clock answered ?_
    rw [split, List.append_cons]
    refine (before.within.append (within_write.imp ?_)).append after.within
    rintro _ rfl
    exact ⟨_, List.mem_singleton_self _, rfl⟩
  renewed := by
    rintro names csr c rfl rfl given
    obtain ⟨_, absurd, -⟩ | ⟨u, _, written, split, same, issuing⟩ := runs_prefetch runs
    · cases absurd
    cases same
    obtain ⟨quiet, -⟩ | ⟨r, _, -, -, -, -, -, none_given, -⟩ := (course_of_runs issuing).stored
    · refine ⟨sameWithout_of_within clock answered ?_,
        holds_of_split clock answered split within_nil⟩
      rw [split]
      refine quiet.within.append (within_write.imp ?_)
      rintro _ rfl
      exact ⟨_, List.mem_singleton_self _, rfl⟩
    · rw [split] at given
      exact absurd given (not_given_write none_given)
  prefetched := by
    rintro names csr c rfl rfl none_given
    obtain ⟨_, absurd, -⟩ | ⟨u, _, written', split, same, issuing⟩ := runs_prefetch runs
    · cases absurd
    cases same
    obtain ⟨-, given⟩ | ⟨r, _, written, front, back, parsed, same, -, rfl, before, after⟩ :=
      (course_of_runs issuing).stored
    · obtain ⟨x, hx, gave⟩ := given c rfl
      exact absurd ⟨x, by simp [split, hx], gave⟩ none_given
    cases same
    refine ⟨r, parsed, sameWithout_of_within clock answered ?_,
      holds_of_prefetched clock answered split after,
      holds_of_split clock answered split within_nil⟩
    rw [split, List.append_cons front]
    refine ((before.within.append (within_write.imp ?_)).append after.within).append
      (within_write.imp ?_)
    · rintro _ rfl
      exact ⟨_, List.mem_cons_self, rfl⟩
    · rintro _ rfl
      exact ⟨_, List.mem_cons_of_mem _ (List.mem_singleton_self _), rfl⟩

/-- A call drops an expired entry and fails. Nobody can tell the tables before and after it
apart, although they are not the same. -/
theorem cache_effects_expired : ∃ initial table : Table, ∃ log e,
    CacheLog initial (System.timed log) table ∧
      Runs (Order.flow { policy := .default, cache := ⟨1000⟩ } (.enroll SigningRequest.oneDomain))
        (callOf log 0) (.error e) ∧
      initial.entries.get? (entryKey (.ofNames ["a.org"])) ≠ none ∧
      table.entries.get? (entryKey (.ofNames ["a.org"])) = none ∧
      ∀ now, 10 ≤ now → ∀ domains, (⟨1000⟩ : Prefetch).outcome table now domains =
        (⟨1000⟩ : Prefetch).outcome initial now domains := by
  obtain ⟨⟨pem, _⟩, parsed, rfl⟩ := SigningRequest.parse_oneDomain
  obtain ⟨stale, there⟩ : ∃ stale : Table,
      stale.entries.get? (entryKey (.ofNames ["a.org"])) = some ⟨"old", some 5⟩ :=
    ⟨⟨SortedMap.empty.insert _ ⟨"old", some 5⟩⟩, by rw [SortedMap.get?_insert, if_pos rfl]⟩
  have dropped : stale.respond 10 (.read (entryKey (.ofNames ["a.org"]))) =
      (.ok none, ⟨stale.entries.erase (entryKey (.ofNames ["a.org"]))⟩) := by
    rw [Table.respond, Table.read, there]
    rfl
  let log : List Logged :=
    [⟨0, 10, ⟨.call (.place "a.org"), .ok ()⟩⟩, ⟨0, 10, ⟨.lock (.ofNames ["a.org"]), ()⟩⟩,
      ⟨0, 10, ⟨readAsk (.ofNames ["a.org"]), .ok none⟩⟩,
      ⟨0, 10, ⟨.call (.create ["a.org"] pem 90), .error .rateLimited⟩⟩,
      ⟨0, 10, ⟨.unlock, ()⟩⟩]
  have answered : CacheLog stale (System.timed log)
      ⟨stale.entries.erase (entryKey (.ofNames ["a.org"]))⟩ := by
    have fresh : CacheLog stale [] stale := .start
    have placed := fresh.other 10 ⟨.call (.place "a.org"), .ok ()⟩ (by rintro _ ⟨⟩)
    have locked := placed.other 10 ⟨.lock (.ofNames ["a.org"]), ()⟩ (by rintro _ ⟨⟩)
    have read := locked.cache 10 (.read (entryKey (.ofNames ["a.org"])))
    rw [dropped] at read
    have refused := read.other 10 ⟨.call (.create ["a.org"] pem 90), .error .rateLimited⟩
      (by rintro _ ⟨⟩)
    exact refused.other 10 ⟨.unlock, ()⟩ (by rintro _ ⟨⟩)
  have running : Runs (run { policy := .default, cache := ⟨1000⟩ } ⟨pem, ["a.org"]⟩).run
      [⟨.call (.create ["a.org"] pem 90), .error .rateLimited⟩] (.error _) :=
    .ask _ (.done _)
  have miss : found (.ofNames ["a.org"]) (.ok none) = none := rfl
  have issuing : Runs (issueAnew { policy := .default, cache := ⟨1000⟩ } ⟨pem, ["a.org"]⟩
      (.ofNames ["a.org"])) _ _ :=
    runs_bind.mpr ⟨_, [], _, rfl, running, .done _⟩
  have runs : Runs (Order.flow _ (.enroll SigningRequest.oneDomain)) (callOf log 0) _ :=
    runs_issue_of_anew parsed (runs_placeAll ["a.org"]) miss issuing
  refine ⟨stale, _, log, _, answered, runs, by simp [there], ?_, fun now late domains => ?_⟩
  · rw [SortedMap.get?_erase, if_pos rfl]
  · have clock : (log.map (·.time)).Pairwise (· ≤ ·) := by simp [log]
    exact (cache_effects clock answered runs).failed _ rfl now (by simpa [log] using late) domains
      (by rintro _ ⟨⟩)

end CertEnrollment.Enrollment
