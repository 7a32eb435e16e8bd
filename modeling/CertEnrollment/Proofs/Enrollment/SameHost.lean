import CertEnrollment.Proofs.Dns.Placement
import CertEnrollment.Proofs.Enrollment.OneIssuance

/-!
# Enrollments of one host

Locks go by the names of a request, records by the parts of a host. A name of a request is
trimmed and in lowercase, and so is the normal form of a host, but that form has no dots at
its end and a name may have some. So names of one host are the same up to dots at their ends.
Where they have none, enrollments of the host take turns; where one of them has, it is another
name, with a lock of its own.
-/
namespace CertEnrollment.Text

theorem dropEndWhile_map {α β : Type} (p : β → Bool) (f : α → β) (xs : List α) :
    dropEndWhile p (xs.map f) = (dropEndWhile (p ∘ f) xs).map f := by
  simp [dropEndWhile, ← List.map_reverse, List.dropWhile_map]

/-- Lowercasing neither makes nor removes dots. -/
theorem toLower_beq_dot (c : Char) : (c.toLower == '.') = (c == '.') := by
  rw [Bool.eq_iff_iff, beq_iff_eq, beq_iff_eq, toLower_eq_iff (by decide)]

end CertEnrollment.Text

namespace CertEnrollment.Dns
open Cache Text

/-- A name up to its last character that is not a dot. -/
def withoutDots (name : String) : String := String.ofList (dropEndWhile (· == '.') name.toList)

theorem normalize_eq_withoutDots (name : String) :
    normalize name = withoutDots (DomainSet.canonical name) := by
  have dots : (fun c => c == '.') ∘ Char.toLower = (fun c => c == '.') := funext toLower_beq_dot
  simp only [normalize, normalizeChars, withoutDots, DomainSet.canonical, asciiLower, trim,
    String.toList_ofList, dropEndWhile_map, dots]

variable {zones : List Zone} {a b : String} {p : HostParts}

/-- The parts of a host determine its normal form. -/
theorem normalize_eq_of_resolve (ha : resolve zones a = .ok p) (hb : resolve zones b = .ok p) :
    normalize a = normalize b :=
  (spells_of_resolve ha).trans (spells_of_resolve hb).symm

/-- Names with one normal form are placed alike. -/
theorem resolve_of_normalize_eq (same : normalize a = normalize b) (ha : resolve zones a = .ok p) :
    resolve zones b = .ok p := by
  rw [resolve] at ha ⊢
  rw [← same]
  cases placed : placement? zones (normalize a) with
  | none => simp [placed] at ha
  | some q => simpa [placed] using ha

/-- Names in canonical form are placed alike just when they are the same up to dots at their
ends. -/
theorem resolve_iff_withoutDots (ha : resolve zones a = .ok p)
    (canonical : DomainSet.canonical a = a) (canonical' : DomainSet.canonical b = b) :
    resolve zones b = .ok p ↔ withoutDots a = withoutDots b := by
  have normal : normalize a = withoutDots a := by rw [normalize_eq_withoutDots, canonical]
  have normal' : normalize b = withoutDots b := by rw [normalize_eq_withoutDots, canonical']
  rw [← normal, ← normal']
  exact ⟨normalize_eq_of_resolve ha, fun same => resolve_of_normalize_eq same ha⟩

end CertEnrollment.Dns

namespace CertEnrollment.Enrollment
open Authority Cache Dns Interaction

theorem SigningRequest.mem_ofNames {input : List UInt8} {r : SigningRequest}
    (parsed : parse input = .ok r) {n : String} (hn : n ∈ r.names) :
    n ∈ (DomainSet.ofNames r.names).names := by
  obtain ⟨canonical, notEmpty⟩ := (names_of_parse parsed).2 n hn
  have listed : n ∈ r.names.map DomainSet.canonical := List.mem_map.mpr ⟨n, hn, canonical⟩
  exact DomainSet.mem_sort.mpr (List.mem_filter.mpr ⟨listed, by simpa using notEmpty⟩)

namespace System
variable {s : Setup} {csr : Task → List UInt8} {initial : Table} {domains : DomainSet}
  {st st' : System} {task other : Task} {name : String}

/-- The task has taken its locks and not begun to give them back. -/
def Working (st : System) (task : Task) : Prop :=
  Inside (st.history task) ∧ ¬ st.Unlocks task

/-- The task has taken its locks and not given back the one for this name. -/
def Serves (st : System) (task : Task) (name : String) : Prop :=
  st.Working task ∨ Inside (st.history task) ∧
    ∃ m ∈ st.locks.members, m.task = task ∧ ∃ e ∈ m.locks, e.1 = name

theorem Serves.inside (h : st.Serves task name) : Inside (st.history task) :=
  h.elim (·.1) (·.1)

theorem Reachable.holds_of_serves (h : Reachable s csr initial st)
    (wants : Wants csr domains task) (hn : name ∈ domains.names) (serves : st.Serves task name) :
    st.locks.Holds task name := by
  have turn := h.inTurn wants
  obtain ⟨m, hm, mine, held⟩ := turn.holds serves.inside
  have interested : ∃ e ∈ m.locks, e.1 = name := by
    rcases serves with ⟨-, works⟩ | ⟨-, n, hn, own, interested⟩
    · rw [← turn.all m hm mine works] at hn
      exact List.mem_map.mp hn
    · rwa [h.locks.consistent.distinct.unique hm hn (mine.trans own.symm)]
  obtain ⟨e, he, same⟩ := interested
  exact ⟨m, hm, mine, e, he, same, held e he⟩

/-- Enrollments with a name in common never serve it at the same time. -/
theorem Reachable.serves_unique {domains' : DomainSet} (h : Reachable s csr initial st)
    (wants : Wants csr domains task) (wants' : Wants csr domains' other)
    (hn : name ∈ domains.names) (hn' : name ∈ domains'.names) (serves : st.Serves task name)
    (serves' : st.Serves other name) : task = other :=
  h.locks.consistent.known.holds_unique (h.holds_of_serves wants hn serves)
    (h.holds_of_serves wants' hn' serves')

/-- Names of one host are the same up to dots at their ends. Where they have none, both sets
have the name, and the enrollments take turns with it. -/
theorem one_host_in_turn {zones : List Zone} {r r' : SigningRequest} {a b : String}
    {p : HostParts} (parsed : SigningRequest.parse (csr task) = .ok r)
    (parsed' : SigningRequest.parse (csr other) = .ok r') (ha : a ∈ r.names) (hb : b ∈ r'.names)
    (placed : resolve zones a = .ok p) (placed' : resolve zones b = .ok p) :
    withoutDots a = withoutDots b ∧
      (withoutDots a = a → withoutDots b = b →
        a ∈ (DomainSet.ofNames r.names).names ∧ a ∈ (DomainSet.ofNames r'.names).names ∧
        ∀ s initial st, Reachable s csr initial st → st.Serves task a → st.Serves other a →
          task = other) := by
  have canonical := ((SigningRequest.names_of_parse parsed).2 a ha).1
  have canonical' := ((SigningRequest.names_of_parse parsed').2 b hb).1
  have upToDots := (resolve_iff_withoutDots placed canonical canonical').mp placed'
  refine ⟨upToDots, fun undotted undotted' => ?_⟩
  obtain rfl : a = b := undotted.symm.trans (upToDots.trans undotted')
  have here := SigningRequest.mem_ofNames parsed ha
  have there := SigningRequest.mem_ofNames parsed' hb
  exact ⟨here, there, fun s initial st h =>
    h.serves_unique ⟨r, parsed, rfl⟩ ⟨r', parsed', rfl⟩ here there⟩

/-- The zone `org`. -/
def orgZone : Zone := .make "org" [] none

theorem resolve_org : resolve [orgZone] "a.org" = .ok ⟨"a", "", orgZone⟩ :=
  Data.eq_ok_of_toOption (by decide +kernel)

/-- A request for the domain `a.org` with a dot at its end. -/
def dottedDomain : List UInt8 :=
  [0x30, 0x2C, 0x30, 0x22, 0x02, 0x01, 0x00, 0x30, 0x11, 0x31, 0x0F, 0x30, 0x0D, 0x06, 0x03,
    0x55, 0x04, 0x03, 0x0C, 0x06, 0x61, 0x2E, 0x6F, 0x72, 0x67, 0x2E, 0x30, 0x08, 0x30, 0x03,
    0x06, 0x01, 0x2A, 0x03, 0x01, 0x00, 0xA0, 0x00, 0x30, 0x03, 0x06, 0x01, 0x2A, 0x03, 0x01,
    0x00]

/-- The second task asks for the host with a dot at its end, all others without. -/
def spellings (task : Task) : List UInt8 :=
  if task = 1 then dottedDomain else SigningRequest.oneDomain

theorem parse_spellings :
    (∃ r, (∀ task, task ≠ 1 → SigningRequest.parse (spellings task) = .ok r) ∧
      r.names = ["a.org"]) ∧
    ∃ r, SigningRequest.parse (spellings 1) = .ok r ∧ r.names = ["a.org."] := by
  refine ⟨?_, SigningRequest.exists_of_names (by decide +kernel)⟩
  obtain ⟨r, parsed, names⟩ := SigningRequest.parse_oneDomain
  exact ⟨r, fun task other => (congrArg SigningRequest.parse (if_neg other)).trans parsed, names⟩

/-- Two requests for `a.org` are served one after the other. -/
theorem one_host_in_turn_org :
    ∃ r, SigningRequest.parse (spellings 0) = .ok r ∧ SigningRequest.parse (spellings 2) = .ok r ∧
      "a.org" ∈ r.names ∧ withoutDots "a.org" = "a.org" ∧
      ∀ s initial st, Reachable s spellings initial st →
        st.Serves 0 "a.org" → st.Serves 2 "a.org" → 0 = 2 := by
  obtain ⟨⟨r, parsed, names⟩, -⟩ := parse_spellings
  have parsed₀ := parsed 0 (by decide)
  have parsed₂ := parsed 2 (by decide)
  have listed : "a.org" ∈ r.names := by simp [names]
  have undotted : withoutDots "a.org" = "a.org" := by decide +kernel
  have turns := one_host_in_turn parsed₀ parsed₂ listed listed resolve_org resolve_org
  exact ⟨r, parsed₀, parsed₂, listed, undotted, (turns.2 undotted undotted).2.2⟩

/-! ## Names with a dot at the end -/

theorem Alone.frame (h : Alone other st st') (different : task ≠ other) :
    st'.flows task = st.flows task ∧ st'.history task = st.history task := by
  induction h with
  | refl => exact ⟨rfl, rfl⟩
  | step before acts ih =>
    obtain ⟨flows, history, -⟩ := acts.frame different
    exact ⟨flows.trans ih.1, history.trans ih.2⟩

theorem Working.frame (h : st.Working task) (alone : Alone other st st')
    (different : task ≠ other) : st'.Working task := by
  obtain ⟨flows, history⟩ := alone.frame different
  refine ⟨history ▸ h.1, fun ⟨next, unlocks⟩ => h.2 ⟨next, ?_⟩⟩
  exact flows.symm.trans unlocks

/-- A task with one name that no other member is interested in gets to work by itself. -/
theorem Reachable.gets_to_work (h : Reachable s csr initial st) {r : SigningRequest}
    (parsed : SigningRequest.parse (csr task) = .ok r) (one : r.names = [name])
    (starts : st.flows task = enroll s (csr task))
    (free : ∀ m ∈ st.locks.members, m.task ≠ task →
      ∀ e ∈ m.locks, e.1 ∉ (DomainSet.ofNames r.names).names) :
    ∃ st', Reachable s csr initial st' ∧ Alone task st st' ∧ st'.Working task := by
  have wants : Wants csr (.ofNames r.names) task := ⟨r, parsed, rfl⟩
  have places : ∃ next, st.flows task = .ask (.call (.place name)) next ∧
      ∃ k, next (.ok ()) = .ask (.lock (.ofNames r.names)) k ∧
        ∃ next', k () = .ask (readAsk (.ofNames r.names)) next' := by
    rw [starts, enroll_eq parsed, one]
    refine ⟨_, rfl, _, rfl, ?_⟩
    rw [issueLocked_eq]
    exact ⟨_, rfl⟩
  obtain ⟨next, asks, k, waits, next', reads⟩ := places
  have placing := Alone.step (.refl st)
    (.proceed asks (.call (c := .place name) (by simp) (.ok ())))
  obtain ⟨st', locking, left, -⟩ :=
    (h.alone placing).takes_locks wants ((if_pos rfl).trans waits) free
  have alone := placing.trans locking
  refine ⟨st', h.alone alone, alone, ?_, ?_⟩
  · obtain ⟨r', p⟩ := (h.alone alone).progress wants
    rw [left, reads] at p
    rcases p.asks with ⟨-, ⟨host, place⟩ | lock⟩ | inside
    · cases place
    · cases lock
    · exact inside
  · rintro ⟨next'', unlocks⟩
    cases (left.trans reads).symm.trans unlocks

/-- Two enrollments of one host have no name in common and work on it at the same time. -/
theorem dotted_name_at_once :
    ∃ r r' a b p st, SigningRequest.parse (spellings 0) = .ok r ∧
      SigningRequest.parse (spellings 1) = .ok r' ∧ a ∈ r.names ∧ b ∈ r'.names ∧
      resolve [orgZone] a = .ok p ∧ resolve [orgZone] b = .ok p ∧
      (∀ n ∈ (DomainSet.ofNames r.names).names, n ∉ (DomainSet.ofNames r'.names).names) ∧
      Reachable { policy := .default, cache := ⟨1000⟩ } spellings .empty st ∧
      st.Working 0 ∧ st.Working 1 := by
  obtain ⟨⟨r, parsed, names⟩, r', parsed', names'⟩ := parse_spellings
  have parsed₀ := parsed 0 (by decide)
  have set : (DomainSet.ofNames r.names).names = ["a.org"] := by
    rw [names]
    decide +kernel
  have set' : (DomainSet.ofNames r'.names).names = ["a.org."] := by
    rw [names']
    decide +kernel
  have placed' : resolve [orgZone] "a.org." = .ok ⟨"a", "", orgZone⟩ :=
    resolve_of_normalize_eq (by decide +kernel) resolve_org
  have apart : ∀ n ∈ (DomainSet.ofNames r.names).names,
      n ∉ (DomainSet.ofNames r'.names).names := by simp [set, set']
  have wants : ∀ task, task ≠ 1 → Wants spellings (.ofNames r.names) task :=
    fun task other => ⟨r, parsed task other, rfl⟩
  have begins : Reachable { policy := .default, cache := ⟨1000⟩ } spellings .empty _ := .start 0
  obtain ⟨st, first, alone, works⟩ :=
    begins.gets_to_work parsed₀ names rfl (by simp [start, Locks.empty])
  -- the second task has not moved yet, and the members of the first one want other locks
  have starts := (alone.frame (show 1 ≠ 0 by decide)).1
  obtain ⟨st', second, alone', works'⟩ :=
    first.gets_to_work parsed' names' starts fun m hm other e he =>
      apart e.1 ((first.inTurn (wants m.task other)).subset m hm rfl e he)
  exact ⟨r, r', "a.org", "a.org.", _, st', parsed₀, parsed', by simp [names], by simp [names'],
    resolve_org, placed', apart, second, works.frame alone' (by decide), works'⟩

end System
end CertEnrollment.Enrollment
