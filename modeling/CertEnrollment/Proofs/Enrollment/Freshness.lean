import CertEnrollment.Proofs.Enrollment.Course
import CertEnrollment.Proofs.Enrollment.Protocol
import CertEnrollment.Proofs.Enrollment.Provenance

/-!
# The age of cached certificates

A handler with a cache in memory is called again and again. A call that downloads a
certificate writes it to the cache, and there it is found for one lifetime. But a prefetch
writes whatever it gives, so one that was served from the cache writes an old certificate
again, for another lifetime. A certificate from the cache is therefore younger than one
lifetime for each prefetch of this kind and one more, up to the time that calls take.
-/
namespace CertEnrollment.Enrollment
open Authority Cache Data Interaction

/-! ## Calls -/

/-- What a handler is called for. -/
inductive Order where
  | enroll (csr : List UInt8)
  | prefetch (domains : List String) (csr : List UInt8)

def Order.flow (s : Setup) : Order → Flow (Except String Issued)
  | enroll csr => (issue s csr).run
  | prefetch domains csr => (Enrollment.prefetch s domains csr).run

def Order.isPrefetch : Order → Bool
  | enroll _ => false
  | prefetch _ _ => true

variable {s : Setup} {csr : List UInt8} {t front back : Transcript}
  {result : Except String Issued} {e : Event Ask Ask.Answer} {c : Issued}

/-- The cache gave this certificate. -/
def Gave (e : Event Ask Ask.Answer) (c : Issued) : Prop :=
  ∃ domains answer, e = ⟨readAsk domains, answer⟩ ∧ found domains answer = some c

/-- This certificate was downloaded. -/
def Loaded (e : Event Ask Ask.Answer) (c : Issued) : Prop :=
  ∃ id d, e = ⟨.call (.download id), .ok d⟩ ∧ bundle d = .ok c

/-- Has to do with the cache. -/
def Ask.caches (q : Ask) : Prop := ∃ a, q = .call (.cache a)

theorem Gave.caches (h : Gave e c) : e.request.caches := by
  obtain ⟨domains, answer, rfl, -⟩ := h
  exact ⟨_, rfl⟩

/-- The set matters for the message of a failure only. -/
theorem found_eq (a b : DomainSet) : found a = found b := by
  refine funext fun answer => ?_
  unfold found
  split
  · next text =>
    rw [decodeEntry, decodeEntry]
    cases Json.readText Issued.read text <;> rfl
  · rfl

theorem Gave.found {domains : DomainSet} {answer : (readAsk domains).Answer}
    (h : Gave ⟨readAsk domains, answer⟩ c) : found domains answer = some c := by
  obtain ⟨domains', answer', same, hit⟩ := h
  injection same with _ answers
  rw [found_eq domains domains', answers]
  exact hit

theorem Ask.places.not_caches {q : Ask} (h : q.places) : ¬ q.caches := by
  rintro ⟨a, cache⟩
  obtain ⟨host, place⟩ := h
  cases cache.symm.trans place

theorem Ask.works.not_caches {q : Ask} (h : q.works) : ¬ q.caches :=
  fun ⟨a, cache⟩ => h.ne_cache a cache

theorem not_caches_lock (domains : DomainSet) : ¬ (Ask.lock domains).caches := by
  rintro ⟨a, cache⟩
  cases cache

theorem not_caches_unlock : ¬ Ask.unlock.caches := by
  rintro ⟨a, cache⟩
  cases cache

/-- A list falls in one way only into what is before and after the one element of a kind. -/
theorem append_cons_unique {α : Type} {p : α → Prop} {as bs front back : List α} {x y : α}
    (ha : ∀ a ∈ as, ¬ p a) (hb : ∀ b ∈ bs, ¬ p b) (hy : p y)
    (h : as ++ x :: bs = front ++ y :: back) : as = front ∧ x = y ∧ bs = back := by
  rcases List.append_eq_append_iff.mp h with ⟨more, rfl, split⟩ | ⟨more, rfl, split⟩
  · cases more with
    | nil =>
      obtain ⟨rfl, rfl⟩ := List.cons.inj split
      exact ⟨(List.append_nil _).symm, rfl, rfl⟩
    | cons z more =>
      obtain ⟨-, rfl⟩ := List.cons.inj split
      exact absurd hy (hb y (by simp))
  · cases more with
    | nil =>
      obtain ⟨rfl, rfl⟩ := List.cons.inj split
      exact ⟨List.append_nil _, rfl, rfl⟩
    | cons z more =>
      obtain ⟨rfl, -⟩ := List.cons.inj split
      exact absurd hy (ha y (by simp))

/-! ## What calls take from the cache and write to it -/

/-- A certificate that was worked on was downloaded. -/
theorem loaded_of_run {r : SigningRequest} (h : Runs (run s r).run t (.ok c)) :
    ∃ x ∈ t, Loaded x c := by
  cases stages_of_runs h with
  | @polled certificate _ _ _ _ _ _ _ _ prepared polling cleaning ending =>
    obtain ⟨e, -, -, absurd⟩ | ⟨e, -, -, -, absurd⟩ | ⟨-, -, delivering⟩ := ending
    · cases absurd
    · cases absurd
    obtain ⟨e, -, absurd⟩ | ⟨t₁, t₂, d, rfl, asked, rest⟩ := runs_run_bind.mp delivering
    · cases absurd
    obtain ⟨answer, asked, same⟩ := runs_orFail.mp asked
    obtain rfl := mapError_eq_ok.mp same.symm
    obtain rfl := runs_make.mp asked
    have encoded := mapError_eq_ok.mp (runs_result.mp rest).2.symm
    exact ⟨⟨.call (.download certificate.id), .ok d⟩, by simp, _, d, rfl, encoded⟩

/-- The cache is asked for a certificate once, and before that for nothing. -/
theorem gave_of_looked {domains : DomainSet} {answer : (readAsk domains).Answer}
    {placing rest : Transcript} (placed : ∀ x ∈ placing, x.request.places)
    (others : ∀ x ∈ rest, ∀ c, ¬ Gave x c)
    (split : placing ++ ⟨.lock domains, ()⟩ :: ⟨readAsk domains, answer⟩ :: rest =
      front ++ e :: back) (gave : Gave e c) :
    found domains answer = some c ∧ ∀ x ∈ front, ¬ x.request.caches := by
  have before : ∀ x ∈ placing ++ [⟨.lock domains, ()⟩], ¬ x.request.caches := by
    refine List.forall_mem_append.mpr ⟨fun x hx => (placed x hx).not_caches, ?_⟩
    simpa using not_caches_lock domains
  rw [List.append_cons] at split
  obtain ⟨rfl, rfl, -⟩ := append_cons_unique (p := fun x => ∃ c, Gave x c)
    (fun x hx ⟨c, gave⟩ => before x hx gave.caches) (fun x hx ⟨c, gave⟩ => others x hx c gave)
    ⟨c, gave⟩ split
  exact ⟨gave.found, before⟩

theorem not_gave_of_works (work : ∀ x ∈ t, x.request.works) : ∀ x ∈ t, ∀ c, ¬ Gave x c :=
  fun x hx _ gave => (work x hx).not_caches gave.caches

theorem not_gave_unlock : ∀ c, ¬ Gave ⟨.unlock, ()⟩ c :=
  fun _ gave => not_caches_unlock gave.caches

theorem not_gave_write {domains : DomainSet} {written : Except String Unit} {c' : Issued} :
    ¬ Gave ⟨writeAsk s domains c', written⟩ c := by
  rintro ⟨domains', answer, same, -⟩
  injection same with request
  cases request

/-- An enrollment that the cache gives a certificate gives just that. -/
theorem Course.gave (h : Course s csr t result) (split : t = front ++ e :: back)
    (gave : Gave e c) : result = .ok c ∧ ∀ x ∈ front, ¬ x.request.caches := by
  cases h with
  | malformed malformed => simp at split
  | refused parsed placing =>
    have he : e ∈ t := by simp [split]
    exact absurd gave.caches (placing.asks (asks_placeAll _) e he).not_caches
  | served parsed placing hit =>
    obtain ⟨given, before⟩ := gave_of_looked (placing.asks (asks_placeAll _))
      (by simpa using not_gave_unlock) split gave
    exact ⟨congrArg Except.ok (Option.some.inj (hit.symm.trans given)), before⟩
  | failed parsed placing miss running =>
    have others := not_gave_of_works (running.asks (asks_run s _))
    obtain ⟨given, -⟩ := gave_of_looked (placing.asks (asks_placeAll _))
      (List.forall_mem_append.mpr ⟨others, by simpa using not_gave_unlock⟩) split gave
    cases miss.symm.trans given
  | issued parsed placing miss running written =>
    have others := not_gave_of_works (running.asks (asks_run s _))
    obtain ⟨given, -⟩ := gave_of_looked (placing.asks (asks_placeAll _))
      (List.forall_mem_append.mpr ⟨others, List.forall_mem_cons.mpr
        ⟨fun _ => not_gave_write, by simpa using not_gave_unlock⟩⟩) split gave
    cases miss.symm.trans given

/-- What an enrollment gives the cache gave it, or it was downloaded. -/
theorem Course.source (h : Course s csr t (.ok c)) :
    (∃ x ∈ t, Gave x c) ∨ ∃ x ∈ t, Loaded x c := by
  cases h with
  | served parsed placing hit => exact .inl ⟨_, by simp, _, _, rfl, hit⟩
  | issued parsed placing miss running written =>
    obtain ⟨x, hx, loaded⟩ := loaded_of_run running
    exact .inr ⟨x, by simp [hx], loaded⟩

/-- The request is one to write a certificate to the cache. -/
def Ask.stores (s : Setup) (q : Ask) (c : Issued) : Prop := ∃ domains, q = writeAsk s domains c

/-- Nothing is written to the cache before it was asked for a certificate. -/
theorem unwritten_of_looked (domains : DomainSet) (answer : (readAsk domains).Answer)
    {placing rest : Transcript} (placed : ∀ x ∈ placing, x.request.places)
    (unwritten : Unwritten rest) :
    Unwritten (placing ++ ⟨.lock domains, ()⟩ :: ⟨readAsk domains, answer⟩ :: rest) := by
  have looked : Looked domains answer
      (placing ++ [⟨.lock domains, ()⟩, ⟨readAsk domains, answer⟩]) := ⟨placing, placed, rfl⟩
  simpa using looked.unwritten unwritten

theorem unwritten_unlock : Unwritten [⟨.unlock, ()⟩] := by simp [Unwritten]

/-- What an enrollment writes to the cache it gives, and it has downloaded that. -/
theorem Course.wrote (h : Course s csr t result) (he : e ∈ t) {key text : String} {ttl : Nat}
    (write : e.request = .call (.cache (.write key text ttl))) :
    ∃ c, result = .ok c ∧ e.request.stores s c ∧ ∃ x ∈ t, Loaded x c := by
  have unlike : ∀ {u : Transcript}, Unwritten u → e ∉ u :=
    fun unwritten he => unwritten e he key text ttl write
  cases h with
  | malformed malformed => cases he
  | refused parsed placing =>
    exact absurd he (unlike (unwritten_of_placed (placing.asks (asks_placeAll _))))
  | served parsed placing hit =>
    have placed := placing.asks (asks_placeAll _)
    exact absurd he (unlike (unwritten_of_looked _ _ placed unwritten_unlock))
  | failed parsed placing miss running =>
    have placed := placing.asks (asks_placeAll _)
    have work := unwritten_of_works (running.asks (asks_run s _))
    exact absurd he (unlike (unwritten_of_looked _ _ placed (work.append unwritten_unlock)))
  | @issued r t₁ u c answer parsed placing miss running written =>
    obtain ⟨x, hx, loaded⟩ := loaded_of_run running
    refine ⟨c, rfl, ⟨.ofNames r.names, ?_⟩, x, by simp [hx], loaded⟩
    have placed := placing.asks (asks_placeAll _)
    have work := unwritten_of_works (running.asks (asks_run s _))
    have quiet := unwritten_of_looked (.ofNames r.names) answer placed work
    rw [← List.cons_append, ← List.cons_append, ← List.append_assoc] at he
    rcases List.mem_append.mp he with he | he
    · exact absurd he (unlike quiet)
    rcases List.mem_cons.mp he with rfl | he
    · rfl
    · exact absurd he (unlike unwritten_unlock)

/-- A prefetch that succeeds writes what it gives to the cache in the end. -/
theorem runs_prefetch {domains : List String} (h : Runs (prefetch s domains csr).run t result) :
    (∃ e, result = .error e ∧ Runs (issue s csr).run t result) ∨
      ∃ u c written, t = u ++ [⟨writeAsk s (.ofNames domains) c, written⟩] ∧ result = .ok c ∧
        Runs (issue s csr).run u result := by
  rw [prefetch, runs_run_bind] at h
  obtain ⟨e, failed, rfl⟩ | ⟨t₁, t₂, c, rfl, issuing, rest⟩ := h
  · exact .inl ⟨e, rfl, failed⟩
  obtain ⟨t₃, t₄, ⟨⟩, rfl, storing, ending⟩ := runs_lift_bind.mp rest
  obtain ⟨rfl, rfl⟩ := runs_pure.mp ending
  rw [remember_eq] at storing
  obtain ⟨written, t₅, rfl, done⟩ := runs_ask.mp storing
  obtain ⟨rfl, -⟩ := runs_done.mp done
  exact .inr ⟨t₁, c, written, by simp, rfl, issuing⟩

/-- A call that the cache gives a certificate gives just that. -/
theorem Order.gave {order : Order} (h : Runs (order.flow s) t result)
    (split : t = front ++ e :: back) (gave : Gave e c) :
    result = .ok c ∧ ∀ x ∈ front, ¬ x.request.caches := by
  cases order with
  | enroll csr => exact (course_of_runs h).gave split gave
  | prefetch domains csr =>
    obtain ⟨e, -, issuing⟩ | ⟨u, d, written, rfl, -, issuing⟩ := runs_prefetch h
    · exact (course_of_runs issuing).gave split gave
    · rcases snoc_eq_append_cons split with ⟨-, rfl⟩ | ⟨more, split⟩
      · exact absurd gave not_gave_write
      · exact (course_of_runs issuing).gave split gave

/-- What a call writes to the cache it gives. It has downloaded that, or the cache gave it to
a prefetch. -/
theorem Order.wrote {order : Order} (h : Runs (order.flow s) t result) (he : e ∈ t)
    {key text : String} {ttl : Nat} (write : e.request = .call (.cache (.write key text ttl))) :
    ∃ c, result = .ok c ∧ e.request.stores s c ∧
      ((∃ x ∈ t, Loaded x c) ∨ order.isPrefetch = true ∧ ∃ x ∈ t, Gave x c) := by
  cases order with
  | enroll csr =>
    obtain ⟨c, given, stores, loaded⟩ := (course_of_runs h).wrote he write
    exact ⟨c, given, stores, .inl loaded⟩
  | prefetch domains csr =>
    obtain ⟨e, -, issuing⟩ | ⟨u, c, written, rfl, rfl, issuing⟩ := runs_prefetch h
    · obtain ⟨c, given, stores, loaded⟩ := (course_of_runs issuing).wrote he write
      exact ⟨c, given, stores, .inl loaded⟩
    · have course := course_of_runs issuing
      have source : (∃ x ∈ u ++ [⟨writeAsk s (.ofNames domains) c, written⟩], Loaded x c) ∨
          ∃ x ∈ u ++ [⟨writeAsk s (.ofNames domains) c, written⟩], Gave x c := by
        rcases course.source with ⟨x, hx, gave⟩ | ⟨x, hx, loaded⟩
        · exact .inr ⟨x, List.mem_append_left _ hx, gave⟩
        · exact .inl ⟨x, List.mem_append_left _ hx, loaded⟩
      refine ⟨c, rfl, ?_, source.imp_right fun gave => ⟨rfl, gave⟩⟩
      rcases List.mem_append.mp he with he | he
      · obtain ⟨d, given, stores, -⟩ := course.wrote he write
        cases given
        exact stores
      · rw [List.mem_singleton.mp he]
        exact ⟨_, rfl⟩

/-! ## Calls one after the other -/

/-- A call from its beginning to its end: the answers that it got, each with its time, and what
it gave. -/
structure Visit where
  order : Order
  events : List (Nat × Event Ask Ask.Answer)
  result : Except String Issued

namespace Visit

/-- The cache gave the call this certificate at this time. -/
def Served (v : Visit) (time : Nat) (c : Issued) : Prop :=
  ∃ e, (time, e) ∈ v.events ∧ Gave e c

/-- The call downloaded this certificate at this time. -/
def Downloaded (v : Visit) (time : Nat) (c : Issued) : Prop :=
  ∃ e, (time, e) ∈ v.events ∧ Loaded e c

/-- Whether the cache found an entry. -/
def isHit : Event Ask Ask.Answer → Bool
  | ⟨.call (.cache (.read _)), .ok (some _)⟩ => true
  | _ => false

/-- Whether this is a prefetch for which the cache found an entry. -/
def renews (v : Visit) : Bool := v.order.isPrefetch && v.events.any fun e => isHit e.2

/-- No time in the call is more than `d` after any other. -/
def Within (d : Nat) (v : Visit) : Prop := ∀ e ∈ v.events, ∀ f ∈ v.events, f.1 ≤ e.1 + d

end Visit

/-- These calls were made one after the other of a handler that was new before the first one,
and this is its cache after the last one. The clock has shown what it liked, up to its last
instant. -/
inductive Visits (s : Setup) : List Visit → Table → Prop
  | none : Visits s [] .empty
  | visit {visits : List Visit} {table table' : Table} (before : Visits s visits table) (v : Visit)
      (runs : Runs (v.order.flow s) (v.events.map (·.2)) v.result)
      (clock : ∀ e ∈ v.events, e.1 ≤ lastInstant) (answered : CacheLog table v.events table') :
      Visits s (visits ++ [v]) table'

variable {visits : List Visit} {table table' : Table} {v : Visit} {d time : Nat}

theorem Gave.exists_text (h : Gave e c) : ∃ domains text,
    e = ⟨readAsk domains, .ok (some text)⟩ ∧ decodeEntry domains text = .ok c := by
  obtain ⟨domains, answer, rfl, hit⟩ := h
  cases answer with
  | error reason => cases hit
  | ok entry =>
    cases entry with
    | none => cases hit
    | some text => exact ⟨domains, text, rfl, eq_ok_of_toOption hit⟩

theorem Gave.isHit (h : Gave e c) : Visit.isHit e = true := by
  obtain ⟨domains, text, rfl, -⟩ := h.exists_text
  rfl

/-- An entry counts for the lifetime that it was written with. -/
theorem lt_of_isLive {text : String} {written ttl : Nat} (clock : time ≤ lastInstant)
    (live : (⟨text, expiry written ttl⟩ : Entry).isLive time = true) : time < written + ttl := by
  unfold Entry.isLive expiry at live
  split at live
  · simpa using live
  · omega

/-- Every entry is one of a certificate that was downloaded in one of the calls, not longer ago
than the prefetches that found an entry account for. -/
def InTime (s : Setup) (d : Nat) (visits : List Visit) (table : Table) : Prop :=
  ∀ key entry, table.entries.get? key = some entry →
    ∃ c written, entry = ⟨c.text, expiry written s.cache.ttl⟩ ∧
      ∃ u ∈ visits, ∃ start, u.Downloaded start c ∧
        written ≤ start + visits.countP Visit.renews * (s.cache.ttl + d) + d

/-- What a call is given from a table of which all entries are in time. -/
theorem InTime.served (h : InTime s d visits table)
    (runs : Runs (v.order.flow s) (v.events.map (·.2)) v.result)
    (clock : ∀ e ∈ v.events, e.1 ≤ lastInstant) (answered : CacheLog table v.events table')
    (served : v.Served time c) :
    v.result = .ok c ∧ ∃ u ∈ visits, ∃ start, u.Downloaded start c ∧
      time < start + (visits.countP Visit.renews + 1) * (s.cache.ttl + d) := by
  obtain ⟨e, he, gave⟩ := served
  obtain ⟨before, after, split⟩ := List.append_of_mem he
  have cut : v.events.map (·.2) = before.map (·.2) ++ e :: after.map (·.2) := by simp [split]
  obtain ⟨given, quiet⟩ := Order.gave runs cut gave
  refine ⟨given, ?_⟩
  obtain ⟨domains, text, rfl, decoded⟩ := gave.exists_text
  obtain ⟨entry, live, value, there | ⟨w, hw, text', ttl, write, -⟩⟩ := answered.hit split
  · obtain ⟨c', written, rfl, u, hu, start, downloaded, early⟩ := h _ _ there
    obtain rfl : c' = c := by
      rw [← value, decodeEntry_text] at decoded
      exact Except.ok.inj decoded
    have lifetime := lt_of_isLive (clock _ he) live
    refine ⟨u, hu, start, downloaded, ?_⟩
    rw [Nat.add_one_mul]
    omega
  · exact absurd ⟨_, write⟩ (quiet w.2 (List.mem_map_of_mem hw))

/-- A call leaves all entries in time. -/
theorem InTime.visit (h : InTime s d visits table)
    (runs : Runs (v.order.flow s) (v.events.map (·.2)) v.result)
    (clock : ∀ e ∈ v.events, e.1 ≤ lastInstant) (answered : CacheLog table v.events table')
    (brief : v.Within d) : InTime s d (visits ++ [v]) table' := by
  have count : (visits ++ [v]).countP Visit.renews =
      visits.countP Visit.renews + if v.renews then 1 else 0 := by
    rw [List.countP_append, List.countP_singleton]
  intro key entry there
  rcases answered.origin there with there | ⟨w, hw, text, ttl, write, rfl⟩
  · obtain ⟨c, written, rfl, u, hu, start, downloaded, early⟩ := h key entry there
    refine ⟨c, written, rfl, u, List.mem_append_left _ hu, start, downloaded, ?_⟩
    have more := Nat.mul_le_mul_right (s.cache.ttl + d) (Nat.le_add_right
      (visits.countP Visit.renews) (if v.renews then 1 else 0))
    rw [count]
    omega
  · obtain ⟨c, given, ⟨domains, same⟩, source⟩ := Order.wrote runs (List.mem_map_of_mem hw) write
    injection write.symm.trans same with request
    injection request with request
    injection request with _ text_eq ttl_eq
    subst text_eq ttl_eq
    rcases source with ⟨x, hx, loaded⟩ | ⟨isPrefetch, x, hx, gave⟩
    · obtain ⟨⟨start, x⟩, listed, rfl⟩ := List.mem_map.mp hx
      have soon := brief _ listed _ hw
      refine ⟨c, w.1, rfl, v, by simp, start, ⟨x, listed, loaded⟩, ?_⟩
      omega
    · obtain ⟨⟨time, x⟩, listed, rfl⟩ := List.mem_map.mp hx
      have soon := brief _ listed _ hw
      have renews : v.renews = true := by
        have hit : (v.events.any fun e => Visit.isHit e.2) = true :=
          List.any_eq_true.mpr ⟨(time, x), listed, gave.isHit⟩
        simp [Visit.renews, isPrefetch, hit]
      obtain ⟨-, u, hu, start, downloaded, early⟩ :=
        h.served runs clock answered ⟨x, listed, gave⟩
      refine ⟨c, w.1, rfl, u, List.mem_append_left _ hu, start, downloaded, ?_⟩
      rw [count, if_pos renews]
      omega

theorem Visits.inTime (h : Visits s visits table) (brief : ∀ v ∈ visits, v.Within d) :
    InTime s d visits table := by
  induction h with
  | none =>
    intro key entry there
    rw [Table.empty, SortedMap.get?_empty] at there
    cases there
  | visit before v runs clock answered ih =>
    obtain ⟨earlier, last⟩ := List.forall_mem_append.mp brief
    exact (ih earlier).visit runs clock answered (last v List.mem_cons_self)

/-- Every call was made of the handler as the calls before it had left it. -/
theorem Visits.split (h : Visits s visits table) {before after : List Visit}
    (split : visits = before ++ v :: after) :
    ∃ table₁ table₂, Visits s before table₁ ∧ Runs (v.order.flow s) (v.events.map (·.2)) v.result ∧
      (∀ e ∈ v.events, e.1 ≤ lastInstant) ∧ CacheLog table₁ v.events table₂ := by
  induction h generalizing after with
  | none => simp at split
  | visit earlier u runs clock answered ih =>
    rcases snoc_eq_append_cons split with ⟨rfl, rfl⟩ | ⟨more, split⟩
    · exact ⟨_, _, earlier, runs, clock, answered⟩
    · exact ih split

/-- A call that is served from the cache gives a certificate that an earlier call has
downloaded. When no call takes longer than `d`, that was less than one lifetime and `d` ago for
each earlier prefetch that found an entry, and once more. -/
theorem age_of_served (h : Visits s visits table) (brief : ∀ v ∈ visits, v.Within d)
    {before after : List Visit} (split : visits = before ++ v :: after)
    (served : v.Served time c) :
    v.result = .ok c ∧ ∃ u ∈ before, ∃ start, u.Downloaded start c ∧
      time < start + (before.countP Visit.renews + 1) * (s.cache.ttl + d) := by
  obtain ⟨table₁, table₂, earlier, runs, clock, answered⟩ := h.split split
  have inTime : InTime s d before table₁ := earlier.inTime fun u hu => brief u (by simp [split, hu])
  exact inTime.served runs clock answered served

/-! ## A prefetch that is repeated -/

theorem CacheLog.cache_of_eq {initial : Table} {log : List (Nat × Event Ask Ask.Answer)}
    (h : CacheLog initial log table) {now : Nat} {a : Cache.Ask} {answer : a.Answer}
    (same : table.respond now a = (answer, table')) :
    CacheLog initial (log ++ [(now, ⟨.call (.cache a), answer⟩)]) table' := by
  have next := h.cache now a
  rwa [same] at next

theorem CacheLog.others {initial : Table} {log : List (Nat × Event Ask Ask.Answer)}
    (h : CacheLog initial log table) (more : List (Nat × Event Ask Ask.Answer))
    (quiet : ∀ e ∈ more, ¬ e.2.request.caches) : CacheLog initial (log ++ more) table := by
  induction more generalizing log with
  | nil => simpa using h
  | cons e more ih =>
    obtain ⟨here, later⟩ := List.forall_mem_cons.mp quiet
    rw [List.append_cons]
    exact ih (h.other e.1 e.2 fun a same => here ⟨a, same⟩) later

theorem respond_of_live {key : String} {entry : Entry} {now : Nat}
    (there : table.entries.get? key = some entry) (live : entry.isLive now = true) :
    table.respond now (.read key) = (.ok (some entry.value), table) := by
  simp only [Table.respond, Table.read, there, if_pos live]

theorem runs_prefetch_of_issue {domains : List String} (h : Runs (issue s csr).run t (.ok c))
    (written : Except String Unit) :
    Runs (prefetch s domains csr).run (t ++ [⟨writeAsk s (.ofNames domains) c, written⟩])
      (.ok c) := by
  have storing : Runs (remember s (.ofNames domains) c)
      [⟨writeAsk s (.ofNames domains) c, written⟩] () := by
    rw [remember_eq]
    exact runs_ask.mpr ⟨written, [], rfl, .done _⟩
  refine runs_run_bind.mpr (.inr ⟨t, _, c, rfl, h, ?_⟩)
  exact runs_lift_bind.mpr ⟨_, [], (), (List.append_nil _).symm, storing, .done _⟩

/-- A cache that keeps its entries for a second. -/
def shortLived : Setup := { policy := ⟨6, 1, 3, 90⟩, cache := ⟨1000⟩ }

/-- A certificate that needs no validation. -/
def readyCertificate : Certificate := { threeChallenges with status := .issued }

namespace Visit

/-- The domain `a.org` is placed, and its lock is taken. -/
def opening (r : SigningRequest) (time : Nat) : List (Nat × Event Ask Ask.Answer) :=
  [(time, ⟨.call (.place "a.org"), .ok ()⟩), (time, ⟨.lock (.ofNames r.names), ()⟩)]

/-- A certificate is created and downloaded. -/
def working (r : SigningRequest) : List (Nat × Event Ask Ask.Answer) :=
  [(0, ⟨.call (r.creation shortLived), .ok readyCertificate⟩), (0, ⟨.now, (0 : Nat)⟩),
    (0, ⟨.now, (0 : Nat)⟩), (0, ⟨.call (.get "7"), .ok readyCertificate⟩),
    (0, ⟨.call (.download "7"), .ok ⟨leafText, ""⟩⟩)]

/-- A certificate is written to the cache. -/
def storing (r : SigningRequest) (c : Issued) (time : Nat) : Nat × Event Ask Ask.Answer :=
  (time, ⟨writeAsk shortLived (.ofNames r.names) c, .ok ()⟩)

/-- The cache has a certificate. -/
def serving (r : SigningRequest) (c : Issued) (time : Nat) : List (Nat × Event Ask Ask.Answer) :=
  opening r time ++ [(time, ⟨readAsk (.ofNames r.names), .ok (some c.text)⟩)] ++
    [(time, ⟨.unlock, ()⟩)]

/-- The first prefetch downloads the certificate. -/
def first (r : SigningRequest) (c : Issued) : Visit where
  order := .prefetch r.names SigningRequest.oneDomain
  events := opening r 0 ++ [(0, ⟨readAsk (.ofNames r.names), .ok none⟩)] ++ working r ++
    [storing r c 0] ++ [(0, ⟨.unlock, ()⟩)] ++ [storing r c 0]
  result := .ok c

/-- The second one finds it in the cache and writes it again. -/
def second (r : SigningRequest) (c : Issued) : Visit where
  order := .prefetch r.names SigningRequest.oneDomain
  events := serving r c 999 ++ [storing r c 999]
  result := .ok c

/-- Half a second later it is there still. -/
def third (r : SigningRequest) (c : Issued) : Visit where
  order := .enroll SigningRequest.oneDomain
  events := serving r c 1500
  result := .ok c

end Visit

section Repeated
open Visit
variable {r : SigningRequest}

theorem placing_of_names (names : r.names = ["a.org"]) :
    Runs (placeAll r.names).run [⟨.call (.place "a.org"), .ok ()⟩] (.ok ()) := by
  rw [names]
  exact runs_placeAll ["a.org"]

theorem runs_first (parsed : SigningRequest.parse SigningRequest.oneDomain = .ok r)
    (names : r.names = ["a.org"]) (encoded : bundle ⟨leafText, ""⟩ = .ok c) :
    Runs ((first r c).order.flow shortLived) ((first r c).events.map (·.2)) (first r c).result := by
  have polling : Runs (poll shortLived "7").run [⟨.now, (0 : Nat)⟩, ⟨.now, (0 : Nat)⟩,
      ⟨.call (.get "7"), .ok readyCertificate⟩] (.ok ()) := by
    rw [poll]
    refine .ask _ ?_
    change Runs (pollFrom shortLived.policy "7" 0 5).run _ _
    rw [pollFrom]
    exact .ask _ (.ask _ (.done _))
  have cleaning : Runs (cleanup []).run [] (.ok ()) := .done _
  have delivering : Runs (deliver "7").run [⟨.call (.download "7"), .ok ⟨leafText, ""⟩⟩]
      ((bundle ⟨leafText, ""⟩).mapError Error.message) :=
    .ask _ (.done _)
  rw [encoded] at delivering
  have running := runs_of_prepared (s := shortLived) (r := r) (c := readyCertificate) (.done _)
    polling cleaning delivering
  have issuing : Runs (issueAnew shortLived r (.ofNames r.names)) _ (.ok c) :=
    runs_bind.mpr ⟨_, [⟨writeAsk shortLived (.ofNames r.names) c, .ok ()⟩], .ok c, rfl, running,
      .ask _ (.done _)⟩
  have miss : found (.ofNames r.names) (.ok none) = none := rfl
  have issued := runs_issue_of_anew parsed (placing_of_names names) miss issuing
  exact runs_prefetch_of_issue issued (.ok ())

theorem runs_serving (parsed : SigningRequest.parse SigningRequest.oneDomain = .ok r)
    (names : r.names = ["a.org"]) (time : Nat) :
    Runs (issue shortLived SigningRequest.oneDomain).run ((serving r c time).map (·.2))
      (.ok c) := by
  have hit : found (.ofNames r.names) (.ok (some c.text)) = some c := by
    rw [found, decodeEntry_text]
    rfl
  exact runs_issue_of_hit parsed (placing_of_names names) hit

theorem cacheLog_opening (table : Table) (r : SigningRequest) (time : Nat) :
    CacheLog table (opening r time) table :=
  CacheLog.others .start _ (by simp [Ask.caches])

theorem cacheLog_first : CacheLog .empty (first r c).events
    ((Table.empty.write 0 (entryKey (.ofNames r.names)) c.text 1000).write 0
      (entryKey (.ofNames r.names)) c.text 1000) := by
  have looked := (cacheLog_opening .empty r 0).cache 0 (.read (entryKey (.ofNames r.names)))
  have worked := looked.others (working r) (by simp [working, Ask.caches, SigningRequest.creation])
  have stored := worked.cache 0 (.write (entryKey (.ofNames r.names)) c.text 1000)
  have closed := stored.others [(0, ⟨.unlock, ()⟩)] (by simp [Ask.caches])
  exact closed.cache 0 (.write (entryKey (.ofNames r.names)) c.text 1000)

theorem cacheLog_serving {expires : Nat} (early : time < expires)
    (there : table.entries.get? (entryKey (.ofNames r.names)) = some ⟨c.text, some expires⟩) :
    CacheLog table (serving r c time) table := by
  have live : (⟨c.text, some expires⟩ : Entry).isLive time = true := by
    simpa [Entry.isLive] using early
  have looked := (cacheLog_opening table r time).cache_of_eq (respond_of_live there live)
  exact looked.others [(time, ⟨.unlock, ()⟩)] (by simp [Ask.caches])

theorem time_eq_of_replicate {n : Nat} (h : v.events.map (·.1) = List.replicate n time) :
    ∀ e ∈ v.events, e.1 = time :=
  fun _ he => List.eq_of_mem_replicate (h ▸ List.mem_map_of_mem he)

theorem time_first : ∀ e ∈ (first r c).events, e.1 = 0 :=
  time_eq_of_replicate (show _ = List.replicate 11 0 from rfl)

theorem time_second : ∀ e ∈ (second r c).events, e.1 = 999 :=
  time_eq_of_replicate (show _ = List.replicate 5 999 from rfl)

theorem time_third : ∀ e ∈ (third r c).events, e.1 = 1500 :=
  time_eq_of_replicate (show _ = List.replicate 4 1500 from rfl)

theorem within_of_time (h : ∀ e ∈ v.events, e.1 = time) : v.Within 0 := by
  intro e he f hf
  rw [h e he, h f hf]
  exact Nat.le_refl time

/-- The three calls, one after the other. -/
theorem visits_repeated (parsed : SigningRequest.parse SigningRequest.oneDomain = .ok r)
    (names : r.names = ["a.org"]) (encoded : bundle ⟨leafText, ""⟩ = .ok c) :
    ∃ table, Visits shortLived [first r c, second r c, third r c] table := by
  have stored : ∀ (table : Table) (now : Nat), now + 1000 ≤ lastInstant →
      (table.write now (entryKey (.ofNames r.names)) c.text 1000).entries.get?
        (entryKey (.ofNames r.names)) = some ⟨c.text, some (now + 1000)⟩ := by
    intro table now early
    refine (SortedMap.get?_insert _ _ _ _).trans ?_
    rw [if_pos rfl, expiry, if_pos early]
  have one := Visits.none.visit (first r c) (runs_first parsed names encoded)
    (fun e he => by simp [time_first e he]) cacheLog_first
  have two := one.visit (second r c)
    (runs_prefetch_of_issue (runs_serving parsed names 999) (.ok ()))
    (fun e he => by simp [time_second e he, lastInstant])
    ((cacheLog_serving (by decide) (stored _ 0 (by decide))).cache 999 (.write _ c.text 1000))
  have three := two.visit (third r c) (runs_serving parsed names 1500)
    (fun e he => by simp [time_third e he, lastInstant])
    (cacheLog_serving (by decide) (stored _ 999 (by decide)))
  exact ⟨_, three⟩

/-- The third call is given a certificate that only the first one has downloaded. -/
theorem served_third : (third r c).Served 1500 c := by
  refine ⟨⟨readAsk (.ofNames r.names), .ok (some c.text)⟩, by simp [third, serving], _, _, rfl, ?_⟩
  rw [found, decodeEntry_text]
  rfl

/-- One prefetch had found an entry, so the certificate may be two seconds old, and it is more
than one second old. -/
theorem age_of_served_repeated : ∃ r c table,
    Visits shortLived [first r c, second r c, third r c] table ∧ (third r c).Served 1500 c ∧
      (third r c).result = .ok c ∧ ∃ u ∈ [first r c, second r c], ∃ start, u.Downloaded start c ∧
        1500 < start + ([first r c, second r c].countP renews + 1) * (1000 + 0) := by
  obtain ⟨r, parsed, names⟩ := SigningRequest.parse_oneDomain
  obtain ⟨c, encoded⟩ := bundle_leafText
  obtain ⟨table, visits⟩ := visits_repeated parsed names encoded
  have brief : ∀ v ∈ [first r c, second r c, third r c], v.Within 0 := by
    simp [within_of_time time_first, within_of_time time_second, within_of_time time_third]
  have split : [first r c, second r c, third r c] =
      [first r c, second r c] ++ third r c :: [] := rfl
  obtain ⟨given, age⟩ := age_of_served visits brief split served_third
  exact ⟨r, c, table, visits, served_third, given, age⟩

/-- The clock never goes back and no call takes any time, and still the third call is given a
certificate that was downloaded more than one lifetime ago. -/
theorem served_old : ∃ visits v table c, Visits shortLived (visits ++ [v]) table ∧
    ((visits ++ [v]).flatMap (·.events)).Pairwise (fun e f => e.1 ≤ f.1) ∧
    v.Served 1500 c ∧ v.result = .ok c ∧
    ∀ u ∈ visits, ∀ start, u.Downloaded start c → ¬ 1500 < start + shortLived.cache.ttl := by
  obtain ⟨r, parsed, names⟩ := SigningRequest.parse_oneDomain
  obtain ⟨c, encoded⟩ := bundle_leafText
  obtain ⟨table, visits⟩ := visits_repeated parsed names encoded
  refine ⟨[first r c, second r c], third r c, table, c, visits, ?_, served_third, rfl, ?_⟩
  · have times : (([first r c, second r c] ++ [third r c]).flatMap (·.events)).map (·.1) =
        List.replicate 11 0 ++ (List.replicate 5 999 ++ List.replicate 4 1500) := rfl
    refine (List.pairwise_map (f := Prod.fst) (R := fun a b : Nat => a ≤ b)).mp ?_
    rw [times]
    decide
  · have notLoaded : ∀ e ∈ (second r c).events, ¬ Loaded e.2 c := by
      rintro e he ⟨id, d, same, -⟩
      have other : ∀ e ∈ (second r c).events, ∀ id, e.2.request ≠ .call (.download id) := by
        simp [second, serving, opening, storing, readAsk, writeAsk]
      exact other e he id (congrArg Event.request same)
    rintro u hu start ⟨e, he, loaded⟩
    simp only [List.mem_cons, List.not_mem_nil, or_false] at hu
    rcases hu with rfl | rfl
    · obtain rfl : start = 0 := time_first _ he
      decide
    · exact absurd loaded (notLoaded _ he)

end Repeated

end CertEnrollment.Enrollment
