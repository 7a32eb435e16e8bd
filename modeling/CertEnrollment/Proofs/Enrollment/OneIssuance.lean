import CertEnrollment.Proofs.Enrollment.Requests
import CertEnrollment.Proofs.Enrollment.System

/-!
# One certificate for a set of domains

Enrollments of the same set take turns from their look into the cache to the end: only one
of them has locks at a time, since each has all or, at the end, some of those of the set.
So what the others find in the cache is what the last one has written.
-/
namespace CertEnrollment.Enrollment
open Authority Cache Data Interaction

variable {s : Setup} {csr : Task → List UInt8} {initial : Table} {domains : DomainSet}
  {st st' : System} {task other : Task}

/-- The request of a task is for the domains of this set. -/
def Wants (csr : Task → List UInt8) (domains : DomainSet) (task : Task) : Prop :=
  ∃ r, SigningRequest.parse (csr task) = .ok r ∧ DomainSet.ofNames r.names = domains

theorem Wants.names (h : Wants csr domains task) : domains.names ≠ [] := by
  obtain ⟨r, parsed, rfl⟩ := h
  exact SigningRequest.ofNames_ne_nil parsed

namespace System

theorem Reachable.progress (h : Reachable s csr initial st) (wants : Wants csr domains task) :
    ∃ r, Progress s r domains (st.history task) (st.flows task) := by
  obtain ⟨r, parsed, rfl⟩ := wants
  exact ⟨r, progress_of_becomes parsed (h.becomes task)⟩

/-! ## Turns -/

/-- The task asks to give its locks back. -/
def Unlocks (st : System) (task : Task) : Prop := ∃ next, st.flows task = .ask .unlock next

/-- The task has taken its locks and still has some of them. -/
def Busy (st : System) (task : Task) : Prop :=
  Inside (st.history task) ∧ ∃ m ∈ st.locks.members, m.task = task ∧ m.locks ≠ []

/-- What a task has in the locks: it waits for the locks of its set, has all of them, or
gives them back and has some of them. -/
structure InTurn (domains : DomainSet) (st : System) (task : Task) : Prop where
  subset : ∀ m ∈ st.locks.members, m.task = task → ∀ e ∈ m.locks, e.1 ∈ domains.names
  all : ∀ m ∈ st.locks.members, m.task = task → ¬ st.Unlocks task →
    m.locks.map (·.1) = domains.names
  entered : ∀ m ∈ st.locks.members, m.task = task →
    (∃ domains next, st.flows task = .ask (.lock domains) next) ∨ Inside (st.history task)
  holds : Inside (st.history task) → ∃ m ∈ st.locks.members, m.task = task ∧
    ∀ e ∈ m.locks, st.locks.holder? e.2 = some task

/-- What others do with the locks does not touch a task. -/
theorem InTurn.frame (h : InTurn domains st task) (flows : st'.flows task = st.flows task)
    (history : st'.history task = st.history task)
    (members : ∀ m : Member, m.task = task → (m ∈ st'.locks.members ↔ m ∈ st.locks.members))
    (holders : ∀ id, st.locks.holder? id = some task → st'.locks.holder? id = some task) :
    InTurn domains st' task where
  subset m hm mine := h.subset m ((members m mine).mp hm) mine
  all m hm mine working := by
    refine h.all m ((members m mine).mp hm) mine fun ⟨next, unlocks⟩ => working ⟨next, ?_⟩
    rw [flows, unlocks]
  entered m hm mine := by
    rw [flows, history]
    exact h.entered m ((members m mine).mp hm) mine
  holds inside := by
    rw [history] at inside
    obtain ⟨m, hm, mine, held⟩ := h.holds inside
    exact ⟨m, (members m mine).mpr hm, mine, fun e he => holders _ (held e he)⟩

theorem Busy.frame (h : st'.Busy task) (history : st'.history task = st.history task)
    (members : ∀ m : Member, m.task = task → (m ∈ st'.locks.members ↔ m ∈ st.locks.members)) :
    st.Busy task := by
  obtain ⟨inside, m, hm, mine, some_there⟩ := h
  exact ⟨history ▸ inside, m, (members m mine).mp hm, mine, some_there⟩

/-- The steps of other tasks are of that kind. -/
theorem Acts.frame (h : Acts other st st') (different : task ≠ other) :
    st'.flows task = st.flows task ∧ st'.history task = st.history task ∧
      (∀ m : Member, m.task = task → (m ∈ st'.locks.members ↔ m ∈ st.locks.members)) ∧
      ∀ id, st.locks.holder? id = some task → st'.locks.holder? id = some task := by
  cases h with
  | enter waits new =>
    exact ⟨rfl, rfl, fun m mine => Locks.mem_enter (mine ▸ different) _,
      fun id held => Locks.holder?_enter held _⟩
  | join waits =>
    refine ⟨rfl, rfl, fun m mine => ?_, fun id held => Locks.holder?_join held⟩
    rw [Locks.join_members]
  | release returns name =>
    exact ⟨rfl, rfl, fun m mine => Locks.mem_release (mine ▸ different) name,
      fun id held => Locks.holder?_release different.symm held name⟩
  | proceed asks answers =>
    rw [flows_proceed, history_proceed, if_neg different, if_neg different]
    cases answers with
    | unlock =>
      refine ⟨rfl, rfl, fun m mine => ?_, fun id held => Locks.holder?_leave different.symm held⟩
      exact Locks.mem_leave.trans (and_iff_left (mine ▸ different))
    | _ => exact ⟨rfl, rfl, fun m mine => Iff.rfl, fun id held => held⟩

/-- Taking its locks gives a task all of those of its set. -/
theorem InTurn.lock (h : InTurn domains st task) {r : SigningRequest}
    (p : Progress s r domains (st.history task) (st.flows task)) {other : DomainSet}
    {next : Unit → Flow Response} (asks : st.flows task = .ask (.lock other) next)
    (granted : st.locks.isGranted task = true) :
    InTurn domains (st.proceed task ⟨.lock other, ()⟩ (next ())) task := by
  rw [asks] at p
  obtain ⟨rfl, placed, -⟩ := p.waits
  have inside : Inside (st.history task ++ [⟨.lock other, ()⟩]) := by
    refine ⟨⟨_, List.mem_append_right _ List.mem_cons_self, _, rfl⟩, fun e he unlock => ?_⟩
    rcases List.mem_append.mp he with he | he
    · obtain ⟨host, place⟩ := placed e he
      cases unlock.symm.trans place
    · rw [List.mem_singleton.mp he] at unlock
      cases unlock
  refine ⟨h.subset, fun m hm mine working => ?_, fun m hm mine => .inr ?_, fun inside' => ?_⟩
  · refine h.all m hm mine ?_
    rintro ⟨next', unlocks⟩
    cases asks.symm.trans unlocks
  · simpa using inside
  · obtain ⟨m, found, held⟩ := Locks.granted_iff.mp granted
    obtain ⟨hm, mine⟩ := Locks.member?_eq_some found
    exact ⟨m, hm, mine, held⟩

/-- An answer that has nothing to do with locks changes nothing about them. -/
theorem InTurn.answer (h : InTurn domains st task) {request : Ask}
    {next : request.Answer → Flow Response} (asks : st.flows task = .ask request next)
    (notLock : ∀ domains, request ≠ .lock domains) (notUnlock : request ≠ .unlock)
    (answer : request.Answer) (y : Flow Response) :
    InTurn domains (st.proceed task ⟨request, answer⟩ y) task := by
  refine ⟨h.subset, fun m hm mine working => ?_, fun m hm mine => ?_, fun inside => ?_⟩
  · refine h.all m hm mine ?_
    rintro ⟨next', unlocks⟩
    injection asks.symm.trans unlocks with same
    exact notUnlock same
  · rw [history_proceed, if_pos rfl]
    rcases h.entered m hm mine with ⟨other, next', waits⟩ | inside
    · injection asks.symm.trans waits with same
      exact absurd same (notLock other)
    · exact .inr (inside.snoc notUnlock)
  · rw [history_proceed, if_pos rfl] at inside
    exact h.holds (inside_snoc inside notLock)

theorem InTurn.own (h : InTurn domains st task) (consistent : st.locks.Consistent)
    {r : SigningRequest} (p : Progress s r domains (st.history task) (st.flows task))
    (acts : Acts task st st') : InTurn domains st' task := by
  cases acts with
  | @enter other next waits new =>
    rw [waits] at p
    obtain ⟨rfl, placed, -⟩ := p.waits
    obtain ⟨locks, members, names, -⟩ := st.locks.enter_members task other
    have mine : ∀ m ∈ (st.locks.enter task other).members, m.task = task →
        m.locks.map (·.1) = other.names := by
      intro m hm mine
      rw [members, List.mem_append, List.mem_singleton] at hm
      rcases hm with hm | rfl
      · exact absurd mine (Locks.member?_eq_none new m hm)
      · exact names
    refine ⟨fun m hm own e he => ?_, fun m hm own _ => mine m hm own,
      fun m hm own => .inl ⟨other, next, waits⟩,
      fun inside => absurd inside (not_inside_of_placed placed)⟩
    rw [← mine m hm own]
    exact List.mem_map_of_mem he
  | join waits =>
    refine ⟨fun m hm => ?_, fun m hm => ?_, fun m hm => ?_, fun inside => ?_⟩
    · exact h.subset m (Locks.join_members _ _ ▸ hm)
    · exact h.all m (Locks.join_members _ _ ▸ hm)
    · exact h.entered m (Locks.join_members _ _ ▸ hm)
    · obtain ⟨m, hm, mine, held⟩ := h.holds inside
      exact ⟨m, (Locks.join_members st.locks task).symm ▸ hm, mine,
        fun e he => Locks.holder?_join (held e he)⟩
  | @release next returns name =>
    refine ⟨fun m hm mine e he => ?_, fun m hm mine working => ?_, fun m hm mine => ?_,
      fun inside => ?_⟩
    · obtain ⟨n, hn, rfl⟩ := List.mem_map.mp hm
      exact h.subset n hn (by simpa using mine) e (Member.mem_without.mp he).1
    · exact absurd ⟨next, returns⟩ working
    · obtain ⟨n, hn, rfl⟩ := List.mem_map.mp hm
      exact h.entered n hn (by simpa using mine)
    · obtain ⟨m, hm, rfl, held⟩ := h.holds inside
      refine ⟨m.without m.task name, List.mem_map_of_mem hm, by simp, fun e he => ?_⟩
      obtain ⟨had, kept⟩ := Member.mem_without.mp he
      exact Locks.holder?_release_self consistent hm had (kept rfl) (held e had)
  | proceed asks answers =>
    cases answers with
    | lock other granted => exact h.lock p asks granted
    | unlock =>
      have gone : ∀ m ∈ (st.locks.leave task).members, m.task ≠ task :=
        fun m hm => (Locks.mem_leave.mp hm).2
      refine ⟨fun m hm mine => absurd mine (gone m hm), fun m hm mine => absurd mine (gone m hm),
        fun m hm mine => absurd mine (gone m hm), fun inside => ?_⟩
      rw [history_proceed, if_pos rfl] at inside
      exact absurd rfl (inside.2 _ (List.mem_append_right _ List.mem_cons_self))
    | cache a =>
      exact (h.answer asks (by simp) (by simp) _ _).frame rfl rfl (fun _ _ => Iff.rfl) fun _ => id
    | call service answer => exact h.answer asks (by simp) (by simp) _ _
    | now time => exact h.answer asks (by simp) (by simp) _ _
    | sleep ms => exact h.answer asks (by simp) (by simp) _ _

/-- A task becomes busy only when it is granted its locks. -/
theorem Busy.own {r : SigningRequest}
    (p : Progress s r domains (st.history task) (st.flows task)) (acts : Acts task st st')
    (busy : st'.Busy task) :
    st.Busy task ∨ st.locks.isGranted task = true ∧ ¬ st.Unlocks task := by
  obtain ⟨inside, m, hm, mine, some_there⟩ := busy
  cases acts with
  | enter waits new =>
    rw [waits] at p
    exact absurd inside (not_inside_of_placed p.waits.2.1)
  | join waits => exact .inl ⟨inside, m, Locks.join_members _ _ ▸ hm, mine, some_there⟩
  | release returns name =>
    obtain ⟨n, hn, rfl⟩ := List.mem_map.mp hm
    refine .inl ⟨inside, n, hn, by simpa using mine, fun none_there => some_there ?_⟩
    refine List.eq_nil_iff_forall_not_mem.mpr fun e he => ?_
    have had := (Member.mem_without.mp he).1
    rw [none_there] at had
    cases had
  | proceed asks answers =>
    rw [history_proceed, if_pos rfl] at inside
    cases answers with
    | lock other granted =>
      refine .inr ⟨granted, fun ⟨next', unlocks⟩ => ?_⟩
      cases asks.symm.trans unlocks
    | unlock => exact absurd mine (Locks.mem_leave.mp hm).2
    | _ => exact .inl ⟨inside_snoc inside (by simp), m, hm, mine, some_there⟩

theorem Reachable.inTurn (h : Reachable s csr initial st) (wants : Wants csr domains task) :
    InTurn domains st task := by
  induction h with
  | start now =>
    refine ⟨fun m hm => ?_, fun m hm => ?_, fun m hm => ?_, fun inside => ?_⟩
    · cases hm
    · cases hm
    · cases hm
    · obtain ⟨⟨e, he, -⟩, -⟩ := inside
      cases he
  | step before next ih =>
    cases next with
    | wait later => exact ih.frame rfl rfl (fun _ _ => Iff.rfl) fun _ => id
    | act actor acts =>
      by_cases own : task = actor
      · subst own
        obtain ⟨r, p⟩ := before.progress wants
        exact ih.own before.locks.consistent p acts
      · obtain ⟨flows, history, members, holders⟩ := acts.frame own
        exact ih.frame flows history members holders

/-- While one task has locks of the set, no other task can be granted all of them. -/
theorem Reachable.granted_unique (h : Reachable s csr initial st) {a b : Task}
    (wantsA : Wants csr domains a) (wantsB : Wants csr domains b)
    (granted : st.locks.isGranted a = true) (waits : ¬ st.Unlocks a) (busy : st.Busy b) :
    a = b := by
  have consistent := h.locks.consistent
  obtain ⟨inside, m, hm, rfl, some_there⟩ := busy
  obtain ⟨e, he⟩ := List.exists_mem_of_ne_nil _ some_there
  obtain ⟨m', hm', same, held⟩ := (h.inTurn wantsB).holds inside
  obtain rfl := consistent.distinct.unique hm' hm same
  obtain ⟨n, found, all⟩ := Locks.granted_iff.mp granted
  obtain ⟨hn, mine⟩ := Locks.member?_eq_some found
  have name : e.1 ∈ n.locks.map (·.1) := by
    rw [(h.inTurn wantsA).all n hn mine waits]
    exact (h.inTurn wantsB).subset m' hm rfl e he
  obtain ⟨e', he', sameName⟩ := List.mem_map.mp name
  have sameLock : e'.2 = e.2 :=
    consistent.known.same_lock hn hm (show (e.1, e'.2) ∈ n.locks by rwa [← sameName]) he
  have held' := all e' he'
  rw [sameLock, held e he] at held'
  exact (Option.some.inj held').symm

/-- Only one task of the set has locks after it has taken them. -/
theorem Reachable.busy_unique (h : Reachable s csr initial st) {a b : Task}
    (wantsA : Wants csr domains a) (wantsB : Wants csr domains b) (busyA : st.Busy a)
    (busyB : st.Busy b) : a = b := by
  induction h with
  | start now =>
    obtain ⟨⟨⟨e, he, -⟩, -⟩, -⟩ := busyA
    cases he
  | @step st st' before next ih =>
    cases next with
    | wait later => exact ih busyA busyB
    | act actor acts =>
      have busy_before : ∀ {task}, Wants csr domains task → st'.Busy task →
          st.Busy task ∨ task = actor ∧ st.locks.isGranted task = true ∧ ¬ st.Unlocks task := by
        intro task wants busy
        by_cases own : task = actor
        · subst own
          obtain ⟨r, p⟩ := before.progress wants
          exact (Busy.own p acts busy).imp_right fun granted => ⟨rfl, granted⟩
        · obtain ⟨-, history, members, -⟩ := acts.frame own
          exact .inl (busy.frame history members)
      rcases busy_before wantsA busyA with busyA | ⟨rfl, granted, waits⟩
      · rcases busy_before wantsB busyB with busyB | ⟨rfl, granted, waits⟩
        · exact ih busyA busyB
        · exact (before.granted_unique wantsB wantsA granted waits busyA).symm
      · rcases busy_before wantsB busyB with busyB | ⟨rfl, -⟩
        · exact before.granted_unique wantsA wantsB granted waits busyB
        · rfl

/-- A task that has its locks and does not give them back is busy. -/
theorem Reachable.busy (h : Reachable s csr initial st) (wants : Wants csr domains task)
    (inside : Inside (st.history task)) (works : ¬ st.Unlocks task) : st.Busy task := by
  obtain ⟨m, hm, mine, -⟩ := (h.inTurn wants).holds inside
  refine ⟨inside, m, hm, mine, fun none_there => wants.names ?_⟩
  rw [← (h.inTurn wants).all m hm mine works, none_there]
  rfl

/-! ## The cache entry of a set -/

theorem writeAsk_injective {c d : Issued} (h : writeAsk s domains c = writeAsk s domains d) :
    c = d := by
  injection h with h
  injection h with h
  injection h with _ text
  exact text_injective text

/-- The entry that writing a certificate at a time makes. -/
def entryOf (s : Setup) (c : Issued) (time : Nat) : Entry := ⟨c.text, expiry time s.cache.ttl⟩

theorem isLive_entryOf {c : Issued} {time now : Nat} (h : now < time + s.cache.ttl) :
    (entryOf s c time).isLive now = true := by
  simp only [entryOf, Entry.isLive, expiry]
  split
  · simpa using h
  · rfl

/-- What the entry of a set, the enrollments of the set, and the log have to do with each
other. -/
structure EntryInOrder (s : Setup) (csr : Task → List UInt8) (initial : Table)
    (domains : DomainSet) (st : System) : Prop where
  current : ∀ o ∈ st.log, ∀ c, o.event.request = writeAsk s domains c →
    st.now < o.time + s.cache.ttl →
    st.cache.entries.get? (entryKey domains) = some (entryOf s c o.time)
  missed : ∀ task, Wants csr domains task → Inside (st.history task) → ¬ st.Unlocks task →
    Missed domains (st.history task) →
    ∀ o ∈ st.log, ∀ c, o.event.request = writeAsk s domains c → o.time + s.cache.ttl ≤ st.now
  answered : st.log.Pairwise fun o p => ∀ c answer, o.event.request = writeAsk s domains c →
    p.event = ⟨readAsk domains, answer⟩ → p.time < o.time + s.cache.ttl →
    answer = .ok (some c.text)
  origin : ∀ entry, st.cache.entries.get? (entryKey domains) = some entry →
    initial.entries.get? (entryKey domains) = some entry ∨
      ∃ o ∈ st.log, ∃ c, o.event.request = writeAsk s domains c ∧ entry = entryOf s c o.time

/-- While an entry is up to date, it is what the cache answers. -/
theorem EntryInOrder.answer (h : EntryInOrder s csr initial domains st) {o : Logged}
    (ho : o ∈ st.log) {c : Issued} (wrote : o.event.request = writeAsk s domains c)
    (early : st.now < o.time + s.cache.ttl) :
    st.cache.respond st.now (.read (entryKey domains)) = (.ok (some c.text), st.cache) := by
  have live := isLive_entryOf (c := c) early
  simp only [Table.respond, Table.read, h.current o ho c wrote early, if_pos live]
  rfl

/-- Steps that have nothing to do with the entry. -/
theorem EntryInOrder.quiet (h : EntryInOrder s csr initial domains st) (actor : Task)
    {cache : Table} {locks : Locks} {request : Ask} {answer : request.Answer}
    {next : request.Answer → Flow Response} (asks : st.flows actor = .ask request next)
    (same : cache.entries.get? (entryKey domains) = st.cache.entries.get? (entryKey domains))
    (notRead : request ≠ readAsk domains) (notWrite : ∀ c, request ≠ writeAsk s domains c)
    (outside : (∃ other, request = .lock other) → Wants csr domains actor →
      ¬ Missed domains (st.history actor)) :
    EntryInOrder s csr initial domains
      (proceed { st with locks, cache } actor ⟨request, answer⟩ (next answer)) := by
  have old : ∀ o ∈ st.log ++ [⟨actor, st.now, ⟨request, answer⟩⟩], ∀ c,
      o.event.request = writeAsk s domains c → o ∈ st.log := by
    intro o ho c wrote
    rcases List.mem_append.mp ho with ho | ho
    · exact ho
    · rw [List.mem_singleton.mp ho] at wrote
      exact absurd wrote (notWrite c)
  refine ⟨fun o ho c wrote early => ?_, fun task wants inside works missed o ho c wrote => ?_,
    ?_, fun entry there => ?_⟩
  · exact same.trans (h.current o (old o ho c wrote) c wrote early)
  · rw [history_proceed] at inside missed
    by_cases own : task = actor
    · subst own
      rw [if_pos rfl] at inside missed
      have missed_before : Missed domains (st.history task) := by
        obtain ⟨a, read, miss⟩ := missed
        rcases List.mem_append.mp read with read | read
        · exact ⟨a, read, miss⟩
        · injection List.mem_singleton.mp read with look
          exact absurd look.symm notRead
      have inside_before : Inside (st.history task) := by
        refine inside_snoc inside fun other lock => ?_
        exact outside ⟨other, lock⟩ wants missed_before
      refine h.missed task wants inside_before ?_ missed_before o (old o ho c wrote) c wrote
      rintro ⟨next', unlocks⟩
      injection asks.symm.trans unlocks with unlock
      exact inside.2 _ (List.mem_append_right _ List.mem_cons_self) unlock
    · rw [if_neg own] at inside missed
      refine h.missed task wants inside ?_ missed o (old o ho c wrote) c wrote
      rintro ⟨next', unlocks⟩
      exact works ⟨next', (if_neg own).trans unlocks⟩
  · refine List.pairwise_append.mpr ⟨h.answered, List.pairwise_singleton _ _, ?_⟩
    intro o _ p hp c answer' _ read
    rw [List.mem_singleton.mp hp] at read
    injection read with look
    exact absurd look notRead
  · rcases h.origin entry (same ▸ there) with first | ⟨o, ho, wrote⟩
    · exact .inl first
    · exact .inr ⟨o, List.mem_append_left _ ho, wrote⟩

theorem not_missed_of_placed {t : Transcript} (placed : ∀ e ∈ t, e.request.places) :
    ¬ Missed domains t := by
  rintro ⟨answer, read, -⟩
  obtain ⟨host, place⟩ := placed _ read
  cases place

/-- Reading makes no entries. -/
theorem get?_of_read {cache : Table} {now : Nat} {key other : String} {entry : Entry}
    (h : (cache.read now other).2.entries.get? key = some entry) :
    cache.entries.get? key = some entry := by
  unfold Table.read at h
  split at h
  · exact h
  · split at h
    · exact h
    · rw [SortedMap.get?_erase] at h
      split at h
      · cases h
      · exact h

/-- A look into the cache for the set. -/
theorem EntryInOrder.read (h : EntryInOrder s csr initial domains st) {actor : Task}
    (wants : Wants csr domains actor) {next : (readAsk domains).Answer → Flow Response}
    (asks : st.flows actor = .ask (readAsk domains) next) (inside : Inside (st.history actor)) :
    EntryInOrder s csr initial domains
      (proceed { st with cache := (st.cache.respond st.now (.read (entryKey domains))).2 } actor
        ⟨readAsk domains, (st.cache.respond st.now (.read (entryKey domains))).1⟩
        (next (st.cache.respond st.now (.read (entryKey domains))).1)) := by
  have old : ∀ o ∈ st.log ++ [⟨actor, st.now, ⟨readAsk domains,
      (st.cache.respond st.now (.read (entryKey domains))).1⟩⟩], ∀ c,
      o.event.request = writeAsk s domains c → o ∈ st.log := by
    intro o ho c wrote
    rcases List.mem_append.mp ho with ho | ho
    · exact ho
    · rw [List.mem_singleton.mp ho] at wrote
      cases wrote
  refine ⟨fun o ho c wrote early => ?_, fun task wants' inside' works missed o ho c wrote => ?_,
    ?_, fun entry there => ?_⟩
  · have same := h.answer (old o ho c wrote) wrote early
    change (st.cache.respond st.now (.read (entryKey domains))).2.entries.get? _ = _
    rw [same]
    exact h.current o (old o ho c wrote) c wrote early
  · rw [history_proceed] at inside' missed
    by_cases own : task = actor
    · subst own
      rw [if_pos rfl] at missed
      refine Nat.le_of_not_lt fun early => ?_
      obtain ⟨answer, read, miss⟩ := missed
      rcases List.mem_append.mp read with read | read
      · have waits : ¬ st.Unlocks task := by
          rintro ⟨next', unlocks⟩
          cases asks.symm.trans unlocks
        exact absurd (h.missed task wants inside waits ⟨answer, read, miss⟩ o
          (old o ho c wrote) c wrote) (Nat.not_le_of_lt early)
      · have answered := (h.answer (old o ho c wrote) wrote early)
        injection List.mem_singleton.mp read with _ same
        rw [same, answered] at miss
        simp only [found, decodeEntry_text] at miss
        cases miss
    · rw [if_neg own] at inside' missed
      refine h.missed task wants' inside' ?_ missed o (old o ho c wrote) c wrote
      rintro ⟨next', unlocks⟩
      exact works ⟨next', (if_neg own).trans unlocks⟩
  · refine List.pairwise_append.mpr ⟨h.answered, List.pairwise_singleton _ _, ?_⟩
    intro o ho p hp c answer wrote read early
    rw [List.mem_singleton.mp hp] at read early
    injection read with _ same
    rw [← same, h.answer ho wrote early]
  · rcases h.origin entry (get?_of_read there) with first | ⟨o, ho, wrote⟩
    · exact .inl first
    · exact .inr ⟨o, List.mem_append_left _ ho, wrote⟩

/-- A certificate is written to the cache for the set. -/
theorem EntryInOrder.write (h : EntryInOrder s csr initial domains st)
    (reachable : Reachable s csr initial st) {actor : Task} (wants : Wants csr domains actor)
    {c : Issued} {next : (writeAsk s domains c).Answer → Flow Response}
    (asks : st.flows actor = .ask (writeAsk s domains c) next) (inside : Inside (st.history actor))
    (missed : Missed domains (st.history actor))
    (unlocks : ∃ next', next (.ok ()) = .ask .unlock next') :
    EntryInOrder s csr initial domains
      (proceed { st with cache := st.cache.write st.now (entryKey domains) c.text s.cache.ttl }
        actor ⟨writeAsk s domains c, .ok ()⟩ (next (.ok ()))) := by
  have waits : ¬ st.Unlocks actor := by
    rintro ⟨next', unlocks'⟩
    cases asks.symm.trans unlocks'
  have finished := h.missed actor wants inside waits missed
  refine ⟨fun o ho c' wrote early => ?_, fun task wants' inside' works missed' o ho c' wrote => ?_,
    ?_, fun entry there => ?_⟩
  · rcases List.mem_append.mp ho with ho | ho
    · exact absurd (finished o ho c' wrote) (Nat.not_le_of_lt early)
    · rw [List.mem_singleton.mp ho] at wrote ⊢
      rw [← writeAsk_injective wrote]
      exact (SortedMap.get?_insert _ _ _ _).trans (if_pos rfl)
  · rw [history_proceed] at inside' missed'
    by_cases own : task = actor
    · subst own
      obtain ⟨next', unlocks'⟩ := unlocks
      exact absurd ⟨next', (if_pos rfl).trans unlocks'⟩ works
    · rw [if_neg own] at inside' missed'
      have busy : st.Busy task := by
        refine reachable.busy wants' inside' ?_
        rintro ⟨next', unlocks'⟩
        exact works ⟨next', (if_neg own).trans unlocks'⟩
      exact absurd (reachable.busy_unique wants' wants busy (reachable.busy wants inside waits)) own
  · refine List.pairwise_append.mpr ⟨h.answered, List.pairwise_singleton _ _, ?_⟩
    intro o _ p hp c' answer _ read
    rw [List.mem_singleton.mp hp] at read
    cases read
  · have new := there.symm.trans ((SortedMap.get?_insert _ _ _ _).trans (if_pos rfl))
    cases new
    exact .inr ⟨_, List.mem_append_right _ List.mem_cons_self, c, rfl, rfl⟩

/-- Requests to the cache for a set under another key. -/
theorem EntryInOrder.elsewhere (h : EntryInOrder s csr initial domains st) {actor : Task}
    {a : Cache.Ask} {next : a.Answer → Flow Response} {key : String}
    (asks : st.flows actor = .ask (.call (.cache a)) next) (different : key ≠ entryKey domains)
    (about : a = .read key ∨ ∃ text ttl, a = .write key text ttl) :
    EntryInOrder s csr initial domains
      (proceed { st with cache := (st.cache.respond st.now a).2 } actor
        ⟨.call (.cache a), (st.cache.respond st.now a).1⟩ (next (st.cache.respond st.now a).1)) := by
  refine h.quiet actor asks ?_ ?_ ?_ ?_
  · rcases about with rfl | ⟨text, ttl, rfl⟩
    · change (st.cache.read st.now key).2.entries.get? _ = _
      unfold Table.read
      split
      · rfl
      · split
        · rfl
        · exact (SortedMap.get?_erase _ _ _).trans (if_neg different.symm)
    · exact (SortedMap.get?_insert _ _ _ _).trans (if_neg different.symm)
  · intro look
    injection look with look
    injection look with look
    rcases about with rfl | ⟨text, ttl, rfl⟩
    · injection look with same
      exact different same
    · cases look
  · intro c look
    injection look with look
    injection look with look
    rcases about with rfl | ⟨text, ttl, rfl⟩
    · cases look
    · injection look with same
      exact different same
  · rintro ⟨other, lock⟩
    cases lock

theorem EntryInOrder.unlocked (h : EntryInOrder s csr initial domains st) (locks : Locks) :
    EntryInOrder s csr initial domains { st with locks } :=
  ⟨h.current, h.missed, h.answered, h.origin⟩

theorem Reachable.entryInOrder (h : Reachable s csr initial st)
    (others : ∀ task r, SigningRequest.parse (csr task) = .ok r →
      DomainSet.ofNames r.names = domains ∨
        entryKey (DomainSet.ofNames r.names) ≠ entryKey domains) :
    EntryInOrder s csr initial domains st := by
  induction h with
  | start now =>
    refine ⟨fun o ho => ?_, fun task _ _ _ _ o ho => ?_, .nil, fun entry there => .inl there⟩
    · cases ho
    · cases ho
  | @step st st' before next ih =>
    have after := before.step next
    cases next with
    | wait later =>
      refine ⟨fun o ho c wrote early => ?_, fun task wants inside works missed o ho c wrote => ?_,
        ih.answered, ih.origin⟩
      · exact ih.current o ho c wrote (Nat.lt_of_le_of_lt later early)
      · exact Nat.le_trans (ih.missed task wants inside works missed o ho c wrote) later
    | act actor acts =>
      cases acts with
      | enter waits new => exact ih.unlocked _
      | join waits => exact ih.unlocked _
      | release returns name => exact ih.unlocked _
      | proceed asks answers =>
        cases answers with
        | lock other granted =>
          refine ih.quiet actor asks rfl (by simp [readAsk]) (by simp [writeAsk]) ?_
          rintro - wants
          obtain ⟨r, p⟩ := before.progress wants
          rw [asks] at p
          exact not_missed_of_placed p.waits.2.1
        | unlock => exact ih.quiet actor asks rfl (by simp [readAsk]) (by simp [writeAsk]) (by simp)
        | call service answer =>
          refine ih.quiet actor asks rfl ?_ ?_ (by simp)
          · intro look
            injection look with look
            exact service _ look
          · intro c look
            injection look with look
            exact service _ look
        | now time => exact ih.quiet actor asks rfl (by simp [readAsk]) (by simp [writeAsk]) (by simp)
        | sleep ms => exact ih.quiet actor asks rfl (by simp [readAsk]) (by simp [writeAsk]) (by simp)
        | cache a =>
          cases parsed : SigningRequest.parse (csr actor) with
          | error e =>
            have finished := before.becomes actor
            rw [enroll_malformed parsed, asks] at finished
            cases (becomes_done.mp finished).2
          | ok r =>
            have p := progress_of_becomes parsed (before.becomes actor)
            rw [asks] at p
            have inside : Inside (st.history actor) := by
              rcases p.asks with ⟨-, ⟨host, place⟩ | lock⟩ | inside
              · cases place
              · cases lock
              · exact inside
            rcases others actor r parsed with same | different
            · have wants : Wants csr domains actor := ⟨r, parsed, same⟩
              rw [same] at p
              rcases p.cache with rfl | ⟨⟨c, rfl⟩, missed, -⟩
              · exact ih.read wants asks inside
              · refine ih.write before wants asks inside missed ?_
                obtain ⟨r', p'⟩ := after.progress wants
                rw [history_proceed, flows_proceed, if_pos rfl, if_pos rfl] at p'
                obtain ⟨c', -, unlock | finished⟩ :=
                  p'.wrote (List.mem_append_right _ List.mem_cons_self) rfl
                · exact ⟨_, unlock⟩
                · rw [finished] at p'
                  exact absurd (inside.snoc (by simp)) p'.done
            · rcases p.cache with rfl | ⟨⟨c, rfl⟩, -, -⟩
              · exact ih.elsewhere asks different (.inl rfl)
              · exact ih.elsewhere asks different (.inr ⟨_, _, rfl⟩)

/-- The request is one to create a certificate. -/
def IsCreation (q : Ask) : Prop := ∃ names pem days, q = .call (.create names pem days)

/-! ## Going on alone -/

theorem Alone.trans {st'' : System} (first : Alone task st st') (second : Alone task st' st'') :
    Alone task st st'' := by
  induction second with
  | refl => exact first
  | step _ acts ih => exact ih.step acts

/-- A task that waits asks for its locks by itself. -/
theorem alone_request {next : Unit → Flow Response}
    (waits : st.flows task = .ask (.lock domains) next) :
    Alone task st { st with locks := Schedule.request st.locks task domains } := by
  unfold Schedule.request
  have joins : ∀ locks, Alone task st { st with locks } →
      Alone task st { st with locks := locks.advance task } := by
    intro locks before
    exact Locks.advance_induction (motive := fun locks => Alone task st { st with locks }) before
      fun locks before => before.step (.join waits)
  split
  · exact joins _ (.refl st)
  · next new => exact joins _ (.step (.refl st) (.enter waits (by simpa using new)))

/-- A task that waits for locks that no other one is interested in takes them by itself. -/
theorem Reachable.takes_locks (h : Reachable s csr initial st) (wants : Wants csr domains task)
    {next : Unit → Flow Response} (waits : st.flows task = .ask (.lock domains) next)
    (free : ∀ m ∈ st.locks.members, m.task ≠ task → ∀ e ∈ m.locks, e.1 ∉ domains.names) :
    ∃ st', Alone task st st' ∧ st'.flows task = next () ∧
      st'.history task = st.history task ++ [⟨.lock domains, ()⟩] ∧
      st'.cache = st.cache ∧ st'.now = st.now := by
  have granted := Locks.granted_request h.locks.consistent free (h.inTurn wants).subset
  have asked := alone_request waits
  refine ⟨_, asked.step (.proceed waits (.lock domains granted)), if_pos rfl, ?_, rfl, rfl⟩
  rw [history_proceed, if_pos rfl]
  rfl

/-- A task that waits for locks that no other one is interested in goes on by itself until
it has a certificate created, unless the cache has an entry. -/
theorem Reachable.goes_on (h : Reachable s csr initial st) (wants : Wants csr domains task)
    {next : Unit → Flow Response} (waits : st.flows task = .ask (.lock domains) next)
    (free : ∀ m ∈ st.locks.members, m.task ≠ task → ∀ e ∈ m.locks, e.1 ∉ domains.names)
    (empty : (st.cache.read st.now (entryKey domains)).1 = none) :
    ∃ st' q next, Alone task st st' ∧ IsCreation q ∧ st'.flows task = .ask q next := by
  obtain ⟨r, p⟩ := h.progress wants
  rw [waits] at p
  obtain ⟨-, -, whole⟩ := p.waits
  obtain ⟨st', locked, left, -, cache, now⟩ := h.takes_locks wants waits free
  have looks : ∃ k, next () = .ask (readAsk domains) k ∧
      ∃ next', k (.ok none) = .ask (.call (r.creation s)) next' := by
    injection whole with _ same
    rw [same, issueLocked_eq]
    exact ⟨_, rfl, _, rfl⟩
  obtain ⟨k, reads, next', creates⟩ := looks
  have looked := locked.step (.proceed (left.trans reads) (.cache (.read (entryKey domains))))
  refine ⟨_, _, next', looked, ⟨_, _, _, rfl⟩, (if_pos rfl).trans ?_⟩
  rw [← creates, cache, now]
  exact congrArg (fun found => k (.ok found)) empty

/-! ## One certificate at a time -/

/-- The task is between its request to create a certificate and the end, which is when it
has given its last lock back. -/
def Issuing (st : System) (task : Task) : Prop :=
  ((∃ q next, IsCreation q ∧ st.flows task = .ask q next) ∨
      ∃ e ∈ st.history task, IsCreation e.request) ∧
    ((¬ st.Unlocks task ∧ ∀ a, st.flows task ≠ .done a) ∨
      ∃ m ∈ st.locks.members, m.task = task ∧ m.locks ≠ [])

theorem IsCreation.works {q : Ask} (h : IsCreation q) : q.works := by
  obtain ⟨names, pem, days, rfl⟩ := h
  trivial

theorem Reachable.busy_of_issuing (h : Reachable s csr initial st)
    (wants : Wants csr domains task) (issuing : st.Issuing task) : st.Busy task := by
  obtain ⟨r, p⟩ := h.progress wants
  have inside : (∀ a, st.flows task ≠ .done a) → Inside (st.history task) := by
    intro goes_on
    cases left : st.flows task with
    | done a => exact absurd left (goes_on a)
    | ask q next =>
      rw [left] at p
      rcases p.asks with ⟨placed, first⟩ | inside
      · exfalso
        rcases issuing.1 with ⟨q', next', creation, asks⟩ | ⟨e, he, creation⟩
        · injection left.symm.trans asks with same
          obtain ⟨names, pem, days, rfl⟩ := creation
          rcases first with ⟨host, place⟩ | lock
          · cases place.symm.trans same
          · cases lock.symm.trans same
        · obtain ⟨host, place⟩ := placed e he
          have work := creation.works
          rw [place] at work
          exact work
      · exact inside
  rcases issuing.2 with ⟨works, goes_on⟩ | ⟨m, hm, mine, some_there⟩
  · exact h.busy wants (inside goes_on) works
  · refine ⟨?_, m, hm, mine, some_there⟩
    rcases (h.inTurn wants).entered m hm mine with ⟨other, next, waits⟩ | inside'
    · refine inside fun a finished => ?_
      cases finished.symm.trans waits
    · exact inside'

/-- What enrollments of one set come to together, whatever happened in between. -/
structure OneIssuance (s : Setup) (csr : Task → List UInt8) (initial : Table)
    (domains : DomainSet) (st : System) : Prop where
  /-- No two of them are between their request to create a certificate and their end. -/
  alone : ∀ a b, Wants csr domains a → Wants csr domains b →
    st.Issuing a → st.Issuing b → a = b
  /-- One that gives a certificate that it had created has written it to the cache. -/
  written : ∀ task c, Wants csr domains task → Gives (.ok c) (st.flows task) →
    (∃ e ∈ st.history task, IsCreation e.request) →
    ∃ o ∈ st.log, o.task = task ∧ o.event.request = writeAsk s domains c
  /-- Whoever has written a certificate gives it, and so does everyone whose look into the
  cache comes later and before the certificate expires, without any work on it. -/
  reused : st.log.Pairwise fun o p => ∀ c, Wants csr domains o.task → Wants csr domains p.task →
    o.event.request = writeAsk s domains c → p.event.request = readAsk domains →
    p.time < o.time + s.cache.ttl →
    Gives (.ok c) (st.flows o.task) ∧ Gives (.ok c) (st.flows p.task) ∧
      ∀ e ∈ st.history p.task, ¬ e.request.works
  /-- One that fails writes nothing to the cache. -/
  unwritten : ∀ task e, Wants csr domains task → Gives (.error e) (st.flows task) →
    Unwritten (st.history task)
  /-- The entry of the set is the first one still, or one that was written. -/
  origin : ∀ entry, st.cache.entries.get? (entryKey domains) = some entry →
    initial.entries.get? (entryKey domains) = some entry ∨
      ∃ o ∈ st.log, ∃ c, o.event.request = writeAsk s domains c ∧ entry = entryOf s c o.time
  /-- One that is over has no part in the locks. -/
  finished : ∀ task a, Wants csr domains task → st.flows task = .done a →
    st.locks.member? task = none ∧ ∀ id, task ∉ st.locks.queue id
  /-- One that waits for locks that no other member is interested in goes on until it has
  a certificate created, unless the cache has an entry. -/
  goesOn : ∀ task next, Wants csr domains task → st.flows task = .ask (.lock domains) next →
    (∀ m ∈ st.locks.members, m.task ≠ task → ∀ e ∈ m.locks, e.1 ∉ domains.names) →
    (st.cache.read st.now (entryKey domains)).1 = none →
    ∃ st' q next, Alone task st st' ∧ IsCreation q ∧ st'.flows task = .ask q next

theorem Reachable.not_member_of_done (h : Reachable s csr initial st)
    (wants : Wants csr domains task) {a : Response} (finished : st.flows task = .done a) :
    st.locks.member? task = none ∧ ∀ id, task ∉ st.locks.queue id := by
  have gone : ∀ m ∈ st.locks.members, m.task ≠ task := by
    intro m hm mine
    rcases (h.inTurn wants).entered m hm mine with ⟨other, next, waits⟩ | inside
    · cases finished.symm.trans waits
    · obtain ⟨r, p⟩ := h.progress wants
      rw [finished] at p
      exact p.done inside
  refine ⟨List.find?_eq_none.mpr fun m hm => by simpa using gone m hm, fun id queued => ?_⟩
  obtain ⟨m, hm, mine, -⟩ := h.locks.consistent.queued _ (Locks.mem_queue.mp queued)
  exact gone m hm mine

/-- For any number of enrollments, in whatever order they take their steps, as long as
different sets have different keys in the cache. -/
theorem issues_once (h : Reachable s csr initial st)
    (others : ∀ task r, SigningRequest.parse (csr task) = .ok r →
      DomainSet.ofNames r.names = domains ∨
        entryKey (DomainSet.ofNames r.names) ≠ entryKey domains) :
    OneIssuance s csr initial domains st := by
  have entry := h.entryInOrder others
  refine ⟨fun a b wantsA wantsB issuingA issuingB => ?_, fun task c wants gives created => ?_, ?_,
    fun task e wants gives => ?_, entry.origin, fun task a wants => h.not_member_of_done wants,
    fun task next wants => h.goes_on wants⟩
  · exact h.busy_unique wantsA wantsB (h.busy_of_issuing wantsA issuingA)
      (h.busy_of_issuing wantsB issuingB)
  · obtain ⟨r, p⟩ := h.progress wants
    obtain ⟨e, he, creation⟩ := created
    obtain ⟨e', he', wrote⟩ := p.issued gives he creation.works
    obtain ⟨o, ho, rfl, rfl⟩ := mem_history.mp he'
    exact ⟨o, ho, rfl, wrote⟩
  · refine entry.answered.imp_of_mem fun {o p} ho hp answered c wantsO wantsP wrote look early => ?_
    obtain ⟨r, q⟩ := h.progress wantsO
    obtain ⟨c', wrote', gives⟩ := q.wrote (mem_history.mpr ⟨o, ho, rfl, rfl⟩) wrote
    obtain rfl := writeAsk_injective (wrote'.symm.trans wrote)
    obtain ⟨task, time, request, answer⟩ := p
    obtain rfl : request = readAsk domains := look
    obtain rfl := answered c' answer wrote rfl early
    have hit : found domains (.ok (some c'.text)) = some c' := by
      rw [found, decodeEntry_text]
      rfl
    obtain ⟨r', q'⟩ := h.progress wantsP
    rcases q'.read (mem_history.mpr ⟨_, hp, rfl, rfl⟩) with ⟨d, given, gives', idle⟩ | miss
    · cases given.symm.trans hit
      exact ⟨gives, gives', idle⟩
    · cases miss.symm.trans hit
  · obtain ⟨r, p⟩ := h.progress wants
    intro e' he' key text ttl wrote
    obtain ⟨c, -, gives'⟩ := p.wrote he' wrote
    cases gives.unique gives'

theorem Reachable.alone (h : Reachable s csr initial st) (alone : Alone task st st') :
    Reachable s csr initial st' := by
  induction alone with
  | refl => exact h
  | step _ acts ih => exact ih.step (.act task acts)

/-- The first of any number of enrollments for one domain has a certificate created, and
then none of the others does. -/
theorem issues_once_first :
    ∃ st, Reachable { policy := .default, cache := ⟨1000⟩ } (fun _ => SigningRequest.oneDomain)
        .empty st ∧
      st.Issuing 0 ∧ ∀ task, st.Issuing task → task = 0 := by
  obtain ⟨r, parsed, names⟩ := SigningRequest.parse_oneDomain
  let s : Setup := { policy := .default, cache := ⟨1000⟩ }
  have wants : ∀ task, Wants (fun _ => SigningRequest.oneDomain) (.ofNames r.names) task :=
    fun task => ⟨r, parsed, rfl⟩
  have begins : Reachable s (fun _ => SigningRequest.oneDomain) .empty
      (start s (fun _ => SigningRequest.oneDomain) .empty 0) :=
    .start 0
  have places : ∃ next, enroll s SigningRequest.oneDomain = .ask (.call (.place "a.org")) next ∧
      ∃ next', next (.ok ()) = .ask (.lock (.ofNames r.names)) next' := by
    rw [enroll_eq parsed, names]
    exact ⟨_, rfl, _, rfl⟩
  obtain ⟨next, asks, next', waits⟩ := places
  have placed := begins.step
    (.act 0 (.proceed asks (.call (c := .place "a.org") (by simp) (.ok ()))))
  obtain ⟨st, q, next', alone, creation, creates⟩ := placed.goes_on (wants 0)
    (show _ = Interaction.ask (Ask.lock (.ofNames r.names)) next' from waits)
    (by simp [proceed, start, Locks.empty]) rfl
  have reachable := placed.alone alone
  have issuing : st.Issuing 0 := by
    refine ⟨.inl ⟨q, next', creation, creates⟩, .inl ⟨?_, fun a finished => ?_⟩⟩
    · rintro ⟨next'', unlocks⟩
      injection creates.symm.trans unlocks with same
      obtain ⟨names, pem, days, rfl⟩ := creation
      cases same
    · cases creates.symm.trans finished
  have once : OneIssuance s (fun _ => SigningRequest.oneDomain) .empty (.ofNames r.names) st :=
    issues_once reachable fun task r' parsed' => .inl <| by
      cases parsed.symm.trans parsed'
      rfl
  exact ⟨st, reachable, issuing, fun task issuing' =>
    once.alone task 0 (wants task) (wants 0) issuing' issuing⟩

end System
end CertEnrollment.Enrollment
