import CertEnrollment.Proofs.Locks.Exclusion

/-!
# Who holds a lock and who gets one

A holder stays the holder whatever the others do, and when it gives one lock back it keeps
the others. A task whose locks nobody else asks for gets all of them by joining their
queues one by one.
-/
namespace CertEnrollment.Enrollment.Locks
open Data Cache
variable {t : Locks} {task other : Task} {id : LockId}

/-! ## Holders -/

theorem holder?_eq (t : Locks) (id : LockId) :
    t.holder? id = (t.joins.find? (·.1 == id)).map (·.2) := by
  rw [holder?, queue, List.head?_map, List.head?_filter]

/-- Whoever is the first in a queue stays so as long as only others leave it. -/
theorem holder?_of_filter {t' : Locks} {p : LockId × Task → Bool}
    (joins : t'.joins = t.joins.filter p) (h : t.holder? id = some task)
    (kept : p (id, task) = true) : t'.holder? id = some task := by
  rw [holder?_eq] at h ⊢
  obtain ⟨j, found, rfl⟩ := Option.map_eq_some_iff.mp h
  obtain ⟨same, before, after, split, others⟩ := List.find?_eq_some_iff_append.mp found
  obtain ⟨id', task⟩ := j
  obtain rfl : id' = id := beq_iff_eq.mp same
  have first : (t.joins.filter p).find? (·.1 == id') = some (id', task) := by
    refine List.find?_eq_some_iff_append.mpr ⟨same, before.filter p, after.filter p, ?_, ?_⟩
    · rw [split, List.filter_append, List.filter_cons_of_pos kept]
    · exact fun k hk => others k (List.mem_filter.mp hk).1
  rw [joins, first]
  rfl

theorem holder?_enter (h : t.holder? id = some task) (domains : DomainSet) :
    (t.enter other domains).holder? id = some task := by
  rw [holder?_eq] at h ⊢
  rwa [enter_joins]

theorem holder?_join (h : t.holder? id = some task) :
    (t.join other).holder? id = some task := by
  rcases t.join_cases other with same | ⟨m, -, -, name, id', -, same⟩
  · rwa [same]
  · rw [holder?_eq] at h ⊢
    obtain ⟨j, found, rfl⟩ := Option.map_eq_some_iff.mp h
    rw [same, List.find?_append, found]
    rfl

theorem holder?_release (different : other ≠ task) (h : t.holder? id = some task)
    (name : String) : (t.release other name).holder? id = some task :=
  holder?_of_filter rfl h (by simp [different.symm])

theorem holder?_leave (different : other ≠ task) (h : t.holder? id = some task) :
    (t.leave other).holder? id = some task :=
  holder?_of_filter rfl h (by simpa using different.symm)

/-- A task that gives the lock for one name back keeps those for other names. -/
theorem holder?_release_self (consistent : t.Consistent) {m : Member} (hm : m ∈ t.members)
    {e : String × LockId} (he : e ∈ m.locks) {name : String} (different : e.1 ≠ name)
    (h : t.holder? e.2 = some m.task) : (t.release m.task name).holder? e.2 = some m.task := by
  refine holder?_of_filter rfl h ?_
  have notGiven : (name, e.2) ∉ m.locks := fun given =>
    different (consistent.apart.apart (consistent.known m hm e he)
      (consistent.known m hm _ given))
  simp [consistent.distinct.member?_eq hm, notGiven]

/-! ## Members -/

@[simp] theorem join_members (t : Locks) (task : Task) : (t.join task).members = t.members := by
  rcases t.join_cases task with same | ⟨m, -, -, name, id, -, same⟩ <;> rw [same]

theorem mem_enter {m : Member} (different : m.task ≠ other) (domains : DomainSet) :
    m ∈ (t.enter other domains).members ↔ m ∈ t.members := by
  obtain ⟨locks, members, -⟩ := t.enter_members other domains
  rw [members, List.mem_append, List.mem_singleton]
  constructor
  · rintro (h | rfl)
    · exact h
    · exact absurd rfl different
  · exact .inl

theorem mem_release {m : Member} (different : m.task ≠ other) (name : String) :
    m ∈ (t.release other name).members ↔ m ∈ t.members := by
  have same : ∀ n : Member, n.task ≠ other → n.without other name = n := fun n h => if_neg h
  constructor
  · intro h
    obtain ⟨n, hn, rfl⟩ := List.mem_map.mp h
    rwa [same n (by simpa using different)]
  · exact fun h => List.mem_map.mpr ⟨m, h, same m different⟩

theorem mem_leave {m : Member} :
    m ∈ (t.leave other).members ↔ m ∈ t.members ∧ m.task ≠ other := by
  simp [leave]

theorem granted_iff : t.isGranted task = true ↔
    ∃ m, t.member? task = some m ∧ ∀ e ∈ m.locks, t.holder? e.2 = some task := by
  rw [isGranted]
  cases t.member? task with
  | none => simp
  | some m => simp [List.all_eq_true]

/-! ## Getting locks -/

/-- Nobody else is in the queues of a member's locks. -/
def Clear (t : Locks) (m : Member) : Prop :=
  ∀ e ∈ m.locks, ∀ other ∈ t.queue e.2, other = m.task

/-- The locks whose queues a member is not in. -/
def missing (t : Locks) (m : Member) : List (String × LockId) :=
  m.locks.filter fun e => !(t.queue e.2).contains m.task

theorem Clear.holder? {m : Member} (clear : t.Clear m) {e : String × LockId} (he : e ∈ m.locks)
    (queued : m.task ∈ t.queue e.2) : t.holder? e.2 = some m.task := by
  rw [Locks.holder?]
  cases first : (t.queue e.2).head? with
  | none => simp [List.head?_eq_none_iff.mp first] at queued
  | some other => rw [clear e he other (List.mem_of_head? first)]

/-- A member with clear queues holds all its locks, or it joins one more queue. -/
theorem join_of_clear {m : Member} (found : t.member? task = some m) (clear : t.Clear m) :
    t.isGranted task = true ∨
      (t.join task).member? task = some m ∧ (t.join task).Clear m ∧
        ((t.join task).missing m).length < (t.missing m).length := by
  obtain ⟨-, rfl⟩ := member?_eq_some found
  have free : t.isBlocked m = false := by
    refine List.any_eq_false.mpr fun e he => ?_
    by_cases queued : m.task ∈ t.queue e.2
    · simp [clear.holder? he queued]
    · simp [queued]
  cases another : t.next? m with
  | none =>
    refine .inl (granted_iff.mpr ⟨m, found, fun e he => clear.holder? he ?_⟩)
    have asked := List.find?_eq_none.mp another e.2 (List.mem_map_of_mem he)
    simpa using asked
  | some id =>
    have joined : t.join m.task = { t with joins := t.joins ++ [(id, m.task)] } := by
      simp [join, found, free, another]
    have absent := List.find?_some another
    obtain ⟨e, he, rfl⟩ := List.mem_map.mp (List.mem_of_find?_eq_some another)
    have queue : ∀ id, (t.join m.task).queue id =
        t.queue id ++ if e.2 == id then [m.task] else [] := by
      intro id
      rw [joined]
      by_cases same : e.2 = id <;> simp [Locks.queue, same]
    refine .inr ⟨by rw [joined]; exact found, ?_, ?_⟩
    · intro d hd other queued
      rw [queue] at queued
      rcases List.mem_append.mp queued with queued | queued
      · exact clear d hd other queued
      · split at queued
        · exact List.mem_singleton.mp queued
        · cases queued
    · have fewer : (t.join m.task).missing m = (t.missing m).filter fun d => !e.2 == d.2 := by
        rw [missing, missing, List.filter_filter]
        refine List.filter_congr fun d _ => ?_
        rw [queue]
        by_cases same : e.2 = d.2 <;> simp [same]
      rw [fewer]
      refine List.length_filter_lt_length_iff_exists.mpr ⟨e, ?_, by simp⟩
      exact List.mem_filter.mpr ⟨he, absent⟩

theorem granted_join (h : t.isGranted task = true) : (t.join task).isGranted task = true := by
  obtain ⟨m, found, held⟩ := granted_iff.mp h
  refine granted_iff.mpr ⟨m, ?_, fun e he => holder?_join (held e he)⟩
  rcases t.join_cases task with same | ⟨n, -, -, name, id, -, same⟩
  · rw [same, found]
  · rw [same]
    exact found

/-- A member with clear queues gets all its locks when it joins as many queues as it can. -/
theorem granted_advance {m : Member} (found : t.member? task = some m) (clear : t.Clear m) :
    (t.advance task).isGranted task = true := by
  have all : ∀ (locks : List (String × LockId)) (t : Locks), t.isGranted task = true ∨
      t.member? task = some m ∧ t.Clear m ∧ (t.missing m).length ≤ locks.length →
      (locks.foldl (fun t _ => t.join task) t).isGranted task = true := by
    intro locks
    induction locks with
    | nil =>
      rintro t (granted | ⟨found, clear, none_left⟩)
      · exact granted
      · rcases join_of_clear found clear with granted | ⟨-, -, fewer⟩
        · exact granted
        · exact absurd (Nat.lt_of_lt_of_le fewer none_left) (Nat.not_lt_zero _)
    | cons e locks ih =>
      rintro t (granted | ⟨found, clear, few⟩)
      · exact ih _ (.inl (granted_join granted))
      · rcases join_of_clear found clear with granted | ⟨found', clear', fewer⟩
        · exact ih _ (.inl (granted_join granted))
        · refine ih _ (.inr ⟨found', clear', ?_⟩)
          exact Nat.le_of_lt_succ (Nat.lt_of_lt_of_le fewer few)
  rw [advance, found]
  exact all m.locks t (.inr ⟨found, clear, List.length_filter_le _ _⟩)

/-- The queues of a task are clear when no other member is interested in its names. -/
theorem clear_of_free (consistent : t.Consistent) (names : List String)
    (free : ∀ m ∈ t.members, m.task ≠ task → ∀ e ∈ m.locks, e.1 ∉ names)
    (mine : ∀ m ∈ t.members, m.task = task → ∀ e ∈ m.locks, e.1 ∈ names) {m : Member}
    (hm : m ∈ t.members) (own : m.task = task) : t.Clear m := by
  intro e he other queued
  obtain ⟨n, hn, rfl, name, interested⟩ := consistent.queued _ (mem_queue.mp queued)
  have same : name = e.1 :=
    consistent.apart.apart (consistent.known n hn _ interested) (consistent.known m hm e he)
  refine Classical.byContradiction fun different => ?_
  exact free n hn (own ▸ different) _ interested (same ▸ mine m hm own e he)

/-- A task that asks for locks that no other member is interested in is granted them. -/
theorem granted_request (consistent : t.Consistent) {domains : DomainSet}
    (free : ∀ m ∈ t.members, m.task ≠ task → ∀ e ∈ m.locks, e.1 ∉ domains.names)
    (mine : ∀ m ∈ t.members, m.task = task → ∀ e ∈ m.locks, e.1 ∈ domains.names) :
    (Schedule.request t task domains).isGranted task = true := by
  unfold Schedule.request
  cases member : t.member? task with
  | some m =>
    obtain ⟨hm, own⟩ := member?_eq_some member
    exact granted_advance member (clear_of_free consistent _ free mine hm own)
  | none =>
    obtain ⟨locks, members, names, -⟩ := t.enter_members task domains
    have entered := consistent.enter member domains
    have last : (⟨task, locks⟩ : Member) ∈ (t.enter task domains).members := by simp [members]
    refine granted_advance (entered.distinct.member?_eq last) ?_
    refine clear_of_free entered domains.names (fun m hm different => ?_) (fun m hm own e he => ?_)
      last rfl
    · exact free m ((mem_enter different domains).mp hm) different
    · rw [members, List.mem_append, List.mem_singleton] at hm
      rcases hm with hm | rfl
      · exact absurd own (member?_eq_none member m hm)
      · rw [← names]
        exact List.mem_map_of_mem he

end CertEnrollment.Enrollment.Locks
