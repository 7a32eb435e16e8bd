import CertEnrollment.Proofs.Enrollment.CacheEffects

/-!
# Trouble with the cache

The cache is looked into once, and what is written to it is never waited for. So a store that
fails, has nothing, or has what nobody can read leaves an enrollment just as it would be with a
store that works and is empty: the same is asked of everybody else, whatever they answer, and
the result is the same. A store may fail in any way and change with anything that happens. Only
a certificate that the cache gives makes a difference, and that one is then the result.
-/
namespace CertEnrollment.Enrollment
open Authority Cache Data Interaction

/-! ## Stores -/

/-- A cache store of any kind: the answer to a request in a state and the state after it, and
the state after anything else that happens. -/
structure CacheStore (σ : Type) where
  respond : (a : Cache.Ask) → σ → a.Answer × σ
  observe : Event Ask Ask.Answer → σ → σ

namespace CacheStore
variable {σ α β : Type} (store : CacheStore σ)

/-- What is asked of others is passed on. -/
def passOn (q : Ask) : StateT σ Flow q.Answer :=
  fun state => .ask q fun answer => .done (answer, store.observe ⟨q, answer⟩ state)

def answer : (q : Ask) → StateT σ Flow q.Answer
  | .call (.cache a) => fun state => .done (store.respond a state)
  | q => store.passOn q

/-- What is asked of others when the store answers what is asked of the cache. -/
def serve (x : Flow α) (state : σ) : Flow α := Prod.fst <$> (x.runWith store.answer).run state

/-- The state after something happened that the cache was not asked for. -/
def after (t : Transcript) (state : σ) : σ := t.foldl (fun state e => store.observe e state) state

/-- A store in memory, with any clock. -/
def memory (tick : Event Ask Ask.Answer → Nat → Nat) : CacheStore (Table × Nat) where
  respond a state :=
    ((state.1.respond state.2 a).1, (state.1.respond state.2 a).2, state.2)
  observe e state := (state.1, tick e state.2)

/-- A lookup that comes to no certificate: it fails, or there is no entry, or there is one that
cannot be read. -/
inductive Trouble : Except String (Option String) → Prop
  | failed (reason : String) : Trouble (.error reason)
  | absent : Trouble (.ok none)
  | malformed {text : String} (unreadable : ∀ c, Json.readText Issued.read text ≠ .ok c) :
      Trouble (.ok (some text))

/-- Whatever happens until a set is looked up for the first time, that lookup is in trouble. -/
def Troubled (state : σ) (domains : DomainSet) : Prop :=
  ∀ t, Trouble (store.respond (.read (entryKey domains)) (store.after t state)).1

variable {store}

theorem after_snoc (t : Transcript) (e : Event Ask Ask.Answer) (state : σ) :
    store.after (t ++ [e]) state = store.observe e (store.after t state) := by
  simp [after]

@[simp] theorem serve_done (a : α) (state : σ) : store.serve (.done a) state = .done a := rfl

theorem serve_cache (a : Cache.Ask) (next : a.Answer → Flow α) (state : σ) :
    store.serve (.ask (.call (.cache a)) next) state =
      store.serve (next (store.respond a state).1) (store.respond a state).2 := rfl

theorem serve_other {q : Ask} (other : ¬ q.caches) (next : q.Answer → Flow α) (state : σ) :
    store.serve (.ask q next) state = .ask q fun answer =>
      store.serve (next answer) (store.observe ⟨q, answer⟩ state) := by
  have passed : store.answer q = store.passOn q := by
    unfold answer
    split
    · next a => exact absurd ⟨a, rfl⟩ other
    · rfl
  rw [serve, runWith, passed]
  rfl

/-- A store does not come into what asks nothing of the cache. -/
theorem serve_bind {x : Flow α} (other : x.Asks fun q => ¬ q.caches) {f g : α → Flow β}
    {state : σ} (later : ∀ a t, store.serve (f a) (store.after t state) = g a) :
    store.serve (x >>= f) state = x >>= g := by
  induction x generalizing state with
  | done a => exact later a []
  | ask q next ih =>
    rw [ask_bind, ask_bind, serve_other other.1]
    refine congrArg (Interaction.ask q) (funext fun answer => ?_)
    exact ih answer (other.2 answer) fun a t => later a (⟨q, answer⟩ :: t)

/-- An end that asks only for the cache changes the result alone. -/
theorem serve_bind_done {x : Flow α} {f : α → Flow β} {g : α → β}
    (ends : ∀ a state, store.serve (f a) state = .done (g a)) (state : σ) :
    store.serve (x >>= f) state = g <$> store.serve x state := by
  induction x generalizing state with
  | done a => exact ends a state
  | ask q next ih =>
    by_cases cache : q.caches
    · obtain ⟨a, rfl⟩ := cache
      exact ih _ _
    · rw [ask_bind, serve_other cache, serve_other cache]
      exact congrArg (Interaction.ask q) (funext fun answer => ih answer _)

theorem serve_map (f : α → β) (x : Flow α) (state : σ) :
    store.serve (f <$> x) state = f <$> store.serve x state := by
  rw [← bind_pure_comp]
  exact serve_bind_done (fun _ _ => rfl) state

theorem Trouble.found {answer : Except String (Option String)} (h : Trouble answer)
    (domains : DomainSet) : found domains answer = none := by
  cases h with
  | failed reason => rfl
  | absent => rfl
  | @malformed text unreadable =>
    cases read : Json.readText Issued.read text with
    | ok c => exact absurd read (unreadable c)
    | error e =>
      rw [Enrollment.found, decodeEntry, read]
      rfl

/-- A store in memory that starts without entries has none at the first lookup. -/
theorem troubled_memory (tick : Event Ask Ask.Answer → Nat → Nat) (start : Nat)
    (domains : DomainSet) : (memory tick).Troubled (.empty, start) domains := by
  intro t
  have empty : ((memory tick).after t (.empty, start)).1 = .empty := by
    induction t generalizing start with
    | nil => rfl
    | cons e t ih => exact ih (tick e start)
  have absent : (Table.empty.read ((memory tick).after t (.empty, start)).2
      (entryKey domains)).1 = none := rfl
  have lookup : ((memory tick).respond (.read (entryKey domains))
      ((memory tick).after t (.empty, start))).1 = .ok none := by
    change Except.ok (((memory tick).after t (.empty, start)).1.read _ _).1 = _
    rw [empty, absent]
  rw [lookup]
  exact .absent

end CacheStore

/-! ## Enrollments without a cache -/

variable {s : Setup} {csr : List UInt8} {t : Transcript}

/-- What an enrollment asks for when there is no cache. -/
def issueUncached (s : Setup) (csr : List UInt8) : Flow (Except String Issued) :=
  match SigningRequest.parse csr with
  | .error e => .done (.error (configurationError e.message))
  | .ok r => (placeAll r.names).run >>= fun
    | .error e => .done (.error e)
    | .ok () => .ask (.lock (.ofNames r.names)) fun _ => (run s r).run >>= fun result =>
      .ask .unlock fun _ => .done result

/-- A prefetch stores what it is given and gives it on. -/
theorem prefetch_eq (domains : List String) : (prefetch s domains csr).run =
    (issue s csr).run >>= fun
      | .error e => .done (.error e)
      | .ok c => .ask (writeAsk s (.ofNames domains) c) fun _ => .done (.ok c) := by
  refine (ExceptT.run_bind (issue s csr) _).trans (congrArg _ (funext fun result => ?_))
  cases result <;> rfl

section Serving
open CacheStore
variable {σ : Type} {store : CacheStore σ} {state : σ}

/-- Against a store in trouble, an enrollment goes as without a cache. -/
theorem serve_issue (troubled : ∀ r, SigningRequest.parse csr = .ok r →
    store.Troubled state (.ofNames r.names)) :
    store.serve (issue s csr).run state = issueUncached s csr := by
  rw [issueUncached]
  cases parsed : SigningRequest.parse csr with
  | error e =>
    rw [issue_malformed parsed]
    rfl
  | ok r =>
    rw [issue_eq parsed]
    refine serve_bind ((asks_placeAll _).imp fun _ => Ask.places.not_caches) fun placed t => ?_
    cases placed with
    | error e => rfl
    | ok _ =>
      rw [serve_other (not_caches_lock _)]
      refine congrArg (Interaction.ask _) (funext fun _ => ?_)
      -- the one lookup, after the hosts were placed and the locks were taken
      have lookup := troubled r parsed (t ++ [⟨.lock (.ofNames r.names), ()⟩])
      rw [after_snoc] at lookup
      rw [issueLocked_eq, ask_bind]
      refine (serve_cache (.read (entryKey (.ofNames r.names))) _ _).trans ?_
      rw [lookup.found]
      refine (congrArg (store.serve · _) (bind_assoc _ _ _)).trans (serve_bind ?_ fun result t => ?_)
      · exact (asks_run s r).imp fun _ => Ask.works.not_caches
      cases result with
      | error e => exact serve_other not_caches_unlock _ _
      | ok c => exact serve_other not_caches_unlock _ _

theorem serve_enroll (troubled : ∀ r, SigningRequest.parse csr = .ok r →
    store.Troubled state (.ofNames r.names)) :
    store.serve (enroll s csr) state = Response.ofResult <$> issueUncached s csr := by
  rw [enroll, serve_map, serve_issue troubled]

/-- The write at the end of a prefetch changes nothing either. -/
theorem serve_prefetch (troubled : ∀ r, SigningRequest.parse csr = .ok r →
    store.Troubled state (.ofNames r.names)) (domains : List String) :
    store.serve (prefetch s domains csr).run state = issueUncached s csr := by
  rw [prefetch_eq, serve_bind_done (g := id), serve_issue troubled, id_map]
  intro result state
  cases result <;> rfl

end Serving

/-! ## Runs -/

def Ask.isCache : Ask → Bool
  | .call (.cache _) => true
  | _ => false

theorem Ask.isCache_eq_false {q : Ask} (h : ¬ q.caches) : q.isCache = false := by
  unfold isCache
  split
  · next a => exact absurd ⟨a, rfl⟩ h
  · rfl

/-- What is asked of others than the cache, and their answers. -/
def outside (t : Transcript) : Transcript := t.filter fun e => !e.request.isCache

theorem outside_append (t u : Transcript) : outside (t ++ u) = outside t ++ outside u :=
  List.filter_append _ _

theorem outside_eq_self (h : ∀ e ∈ t, ¬ e.request.caches) : outside t = t :=
  List.filter_eq_self.mpr fun e he => by rw [Ask.isCache_eq_false (h e he), Bool.not_false]

variable {result : Except String Issued}

theorem runs_issueUncached_of_run {r : SigningRequest} {u : Transcript}
    (parsed : SigningRequest.parse csr = .ok r) (placing : Runs (placeAll r.names).run t (.ok ()))
    (running : Runs (run s r).run u result) : Runs (issueUncached s csr)
      (t ++ ⟨.lock (.ofNames r.names), ()⟩ :: (u ++ [⟨.unlock, ()⟩])) result := by
  rw [issueUncached, parsed]
  refine runs_bind.mpr ⟨t, _, .ok (), rfl, placing, runs_ask.mpr ⟨(), _, rfl, ?_⟩⟩
  exact runs_bind.mpr ⟨u, _, result, rfl, running, runs_ask.mpr ⟨(), [], rfl, .done _⟩⟩

theorem outside_placed {hosts : List String} {r : Except String Unit}
    (placing : Runs (placeAll hosts).run t r) : outside t = t :=
  outside_eq_self fun e he => (placing.asks (asks_placeAll hosts) e he).not_caches

/-- To everybody else, an enrollment that the cache gave nothing is one without a cache. -/
theorem runs_issueUncached (h : Runs (issue s csr).run t result) (nothing : ¬ Given t) :
    Runs (issueUncached s csr) (outside t) result := by
  cases course_of_runs h with
  | malformed malformed =>
    rw [issueUncached, malformed]
    exact .done _
  | refused parsed placing =>
    rw [issueUncached, parsed, outside_placed placing]
    exact runs_bind.mpr ⟨_, [], _, (List.append_nil _).symm, placing, .done _⟩
  | served parsed placing hit =>
    exact absurd ⟨_, by simp, _, _, _, rfl, hit⟩ nothing
  | @failed r t u e answer parsed placing miss running =>
    have worked := outside_eq_self fun e he => (running.asks (asks_run s r) e he).not_caches
    have behind : outside (u ++ [⟨.unlock, ()⟩]) = u ++ [⟨.unlock, ()⟩] := by
      rw [outside_append, worked]
      rfl
    rw [outside_append, outside_placed placing]
    refine (congrArg (Runs _ · _) ?_).mpr (runs_issueUncached_of_run parsed placing running)
    exact congrArg (t ++ ⟨.lock (.ofNames r.names), ()⟩ :: ·) behind
  | @issued r t u c answer parsed placing miss running written =>
    have worked := outside_eq_self fun e he => (running.asks (asks_run s r) e he).not_caches
    have behind : outside (u ++ ⟨writeAsk s (.ofNames r.names) c, written⟩ :: [⟨.unlock, ()⟩]) =
        u ++ [⟨.unlock, ()⟩] := by
      rw [outside_append, worked]
      rfl
    rw [outside_append, outside_placed placing]
    refine (congrArg (Runs _ · _) ?_).mpr (runs_issueUncached_of_run parsed placing running)
    exact congrArg (t ++ ⟨.lock (.ofNames r.names), ()⟩ :: ·) behind

/-- Nothing is done about a certificate. -/
def Idle (t : Transcript) : Prop := ∀ e ∈ t, ¬ e.request.works

/-- An enrollment that the cache gives a certificate does nothing about another one. -/
theorem Course.idle (h : Course s csr t result) (given : Given t) : Idle t := by
  cases h with
  | malformed malformed => simp [Idle]
  | refused parsed placing =>
    obtain ⟨x, hx, c, gave⟩ := given
    exact absurd gave.caches (placing.asks (asks_placeAll _) x hx).not_caches
  | served parsed placing hit =>
    refine List.forall_mem_append.mpr ⟨fun e he => ?_, ?_⟩
    · obtain ⟨host, place⟩ := placing.asks (asks_placeAll _) e he
      rw [place]
      exact id
    · simp [readAsk, Ask.works]
  | failed parsed placing miss running =>
    have others := not_gave_of_works (running.asks (asks_run s _))
    refine absurd given (not_given_of_miss (placing.asks (asks_placeAll _)) ?_ miss)
    exact List.forall_mem_append.mpr ⟨others, by simpa using not_gave_unlock⟩
  | issued parsed placing miss running written =>
    have others := not_gave_of_works (running.asks (asks_run s _))
    refine absurd given (not_given_of_miss (placing.asks (asks_placeAll _)) ?_ miss)
    exact List.forall_mem_append.mpr ⟨others, List.forall_mem_cons.mpr
      ⟨fun _ => not_gave_write, by simpa using not_gave_unlock⟩⟩

/-- What the cache gives is the result. -/
theorem Course.eq_given {e : Event Ask Ask.Answer} {c : Issued} (h : Course s csr t result)
    (he : e ∈ t) (gave : Gave e c) : result = .ok c := by
  obtain ⟨front, back, split⟩ := List.append_of_mem he
  exact (h.gave split gave).1

/-! ## All that the cache can do -/

/-- What the cache can do to a call: a store in trouble does as little as one in memory that
starts empty, and only a certificate that the cache gives makes a difference. -/
structure CacheOnlyGives {β : Type} (csr : List UInt8) (x : Flow β) (given : Issued → β) :
    Prop where
  /-- Against a store in trouble exactly the same is asked of everybody else, and the result is
  the same. -/
  trouble : ∀ {σ : Type} (store : CacheStore σ) (state : σ) (tick start),
    (∀ r, SigningRequest.parse csr = .ok r → store.Troubled state (.ofNames r.names)) →
      store.serve x state = (CacheStore.memory tick).serve x (.empty, start)
  /-- Whatever the cache answered, without a certificate it made no difference. -/
  unaltered : ∀ t b, Runs x t b → ¬ Given t → ∀ tick start,
    Runs ((CacheStore.memory tick).serve x (.empty, start)) (outside t) b
  /-- With a certificate from the cache, nothing is done about another one. -/
  served : ∀ t b e c, Runs x t b → e ∈ t → Gave e c → b = given c ∧ Idle t

theorem cacheOnlyGives_enroll : CacheOnlyGives csr (enroll s csr) fun c => .ofResult (.ok c) where
  trouble store state tick start troubled := by
    rw [serve_enroll troubled, serve_enroll fun _ _ => CacheStore.troubled_memory tick start _]
  unaltered t b run nothing tick start := by
    obtain ⟨result, issuing, rfl⟩ := runs_map.mp run
    rw [serve_enroll fun _ _ => CacheStore.troubled_memory tick start _]
    exact runs_map.mpr ⟨result, runs_issueUncached issuing nothing, rfl⟩
  served t b e c run he gave := by
    obtain ⟨result, issuing, rfl⟩ := runs_map.mp run
    have course := course_of_runs issuing
    exact ⟨congrArg _ (course.eq_given he gave), course.idle ⟨e, he, c, gave⟩⟩

theorem cacheOnlyGives_prefetch (domains : List String) :
    CacheOnlyGives csr (prefetch s domains csr).run .ok where
  trouble store state tick start troubled := by
    rw [serve_prefetch troubled, serve_prefetch fun _ _ => CacheStore.troubled_memory tick start _]
  unaltered t b run nothing tick start := by
    rw [serve_prefetch fun _ _ => CacheStore.troubled_memory tick start _]
    obtain ⟨e, -, issuing⟩ | ⟨u, c, written, rfl, -, issuing⟩ := runs_prefetch run
    · exact runs_issueUncached issuing nothing
    · rw [outside_append]
      refine (List.append_nil (outside u)).symm ▸ runs_issueUncached issuing ?_
      exact fun ⟨x, hx, given⟩ => nothing ⟨x, List.mem_append_left _ hx, given⟩
  served t b e c run he gave := by
    obtain ⟨e', -, issuing⟩ | ⟨u, c', written, rfl, -, issuing⟩ := runs_prefetch run
    · have course := course_of_runs issuing
      exact ⟨course.eq_given he gave, course.idle ⟨e, he, c, gave⟩⟩
    · have course := course_of_runs issuing
      rcases List.mem_append.mp he with he | he
      · refine ⟨course.eq_given he gave, List.forall_mem_append.mpr
          ⟨course.idle ⟨e, he, c, gave⟩, ?_⟩⟩
        simp [writeAsk, Ask.works]
      · cases List.mem_singleton.mp he
        exact absurd gave not_gave_write

/-- The cache changes nothing about an enrollment or a prefetch, unless it has a certificate. -/
theorem cache_only_gives (s : Setup) (csr : List UInt8) :
    CacheOnlyGives csr (enroll s csr) (fun c => .ofResult (.ok c)) ∧
      ∀ domains, CacheOnlyGives csr (prefetch s domains csr).run .ok :=
  ⟨cacheOnlyGives_enroll, cacheOnlyGives_prefetch⟩

/-- A store that is down. -/
def CacheStore.down : CacheStore Unit where
  respond
    | .read _, _ => (.error "connection refused", ())
    | .write _ _ _, _ => (.error "connection refused", ())
  observe _ _ := ()

/-- An enrollment for `a.org` against a store that is down goes as with an empty one in memory,
and with an entry there it gives what that says. -/
theorem cache_only_gives_down :
    CacheStore.down.serve (enroll shortLived SigningRequest.oneDomain) () =
        (CacheStore.memory fun _ now => now + 1).serve (enroll shortLived SigningRequest.oneDomain)
          (.empty, 0) ∧
      ∃ r c, Runs (enroll shortLived SigningRequest.oneDomain)
          ((Visit.serving r c 0).map (·.2)) (.ofResult (.ok c)) ∧
        Idle ((Visit.serving r c 0).map (·.2)) := by
  have calls := cache_only_gives shortLived SigningRequest.oneDomain
  obtain ⟨r, parsed, names⟩ := SigningRequest.parse_oneDomain
  obtain ⟨c, -⟩ := bundle_leafText
  have run : Runs (enroll shortLived SigningRequest.oneDomain)
      ((Visit.serving r c 0).map (·.2)) (.ofResult (.ok c)) :=
    runs_map.mpr ⟨_, runs_serving parsed names 0, rfl⟩
  have gave : Gave ⟨readAsk (.ofNames r.names), .ok (some c.text)⟩ c := by
    refine ⟨_, _, rfl, ?_⟩
    rw [found, decodeEntry_text]
    rfl
  refine ⟨calls.1.trouble _ _ _ _ fun _ _ _ => .failed _, r, c, run, ?_⟩
  exact (calls.1.served _ _ _ _ run (by simp [Visit.serving]) gave).2

end CertEnrollment.Enrollment
