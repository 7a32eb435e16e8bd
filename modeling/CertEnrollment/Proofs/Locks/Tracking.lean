import CertEnrollment.Proofs.Locks.Queues

/-!
# The names that have a lock

The table changes only when a task enters: it drops the locks that no member has, and then the new
task makes those that are missing for its set. So the names with a lock are those of the last set
and those that other tasks had entered for by then and not given back. Which these are is said by a
history of what the tasks did, without a look at any lock. The invariant is that every member has
locks for just the names that it still uses, and that the table knows each lock by one name.
-/
namespace CertEnrollment.Enrollment
open Data Cache

/-- A task and the names of its set that it has not given back. -/
structure Use where
  task : Task
  names : List String
  deriving DecidableEq, Repr

namespace Use

/-- What is left of a use when a task gives a name back. -/
def without (u : Use) (task : Task) (name : String) : Use :=
  if u.task = task then { u with names := u.names.filter (· ≠ name) } else u

@[simp] theorem without_task (u : Use) (task : Task) (name : String) :
    (u.without task name).task = u.task := by
  unfold without
  split <;> rfl

@[simp] theorem mem_without {u : Use} {task : Task} {name n : String} :
    n ∈ (u.without task name).names ↔ n ∈ u.names ∧ (u.task = task → n ≠ name) := by
  unfold without
  split <;> simp [*]

end Use

/-- What a member uses. -/
def Member.use (m : Member) : Use := ⟨m.task, m.locks.map (·.1)⟩

namespace Locks

/-! ## Histories -/

/-- What a task does. -/
inductive Event where
  | enter (task : Task) (domains : DomainSet)
  | join (task : Task)
  | release (task : Task) (name : String)
  | leave (task : Task)

/-- Whether a task enters. -/
def Event.enters : Event → Bool
  | enter _ _ => true
  | _ => false

/-- The step that an event is. -/
def perform (t : Locks) : Event → Locks
  | .enter task domains => t.enter task domains
  | .join task => t.join task
  | .release task name => t.release task name
  | .leave task => t.leave task

/-- The locks after a history. -/
def after (history : List Event) : Locks := history.foldl perform empty

/-- The task has entered with a set that has the name, and since then it has neither left nor given
the name back, be it that it waits or that it holds its locks. -/
def Using (history : List Event) (task : Task) (name : String) : Prop :=
  ∃ earlier domains since, history = earlier ++ .enter task domains :: since ∧
    name ∈ domains.names ∧ .leave task ∉ since ∧ .release task name ∉ since

/-- The uses after one more event. -/
def note (uses : List Use) : Event → List Use
  | .enter task domains => uses ++ [⟨task, domains.names⟩]
  | .join _ => uses
  | .release task name => uses.map (·.without task name)
  | .leave task => uses.filter (·.task != task)

/-- Who uses which names after a history. -/
def usesAfter (history : List Event) : List Use := history.foldl note []

/-- The names that are used after a history, by whichever task. -/
def namesInUse (history : List Event) : List String := (usesAfter history).flatMap (·.names)

/-- No task enters that has not left. -/
inductive Valid : List Event → Prop
  | nil : Valid []
  | snoc {history : List Event} (h : Valid history) (e : Event)
      (new : ∀ task domains, e = .enter task domains → ∀ u ∈ usesAfter history, u.task ≠ task) :
      Valid (history ++ [e])

variable {t : Locks} {history before since : List Event} {e : Event} {task : Task}
  {domains : DomainSet} {name : String} {names : List String} {id : LockId} {m : Member}

@[simp] theorem after_snoc (history : List Event) (e : Event) :
    after (history ++ [e]) = (after history).perform e := by
  simp [after]

@[simp] theorem usesAfter_snoc (history : List Event) (e : Event) :
    usesAfter (history ++ [e]) = note (usesAfter history) e := by
  simp [usesAfter]

theorem using_snoc : Using (history ++ [e]) task name ↔
    (∃ domains, e = .enter task domains ∧ name ∈ domains.names) ∨
      Using history task name ∧ e ≠ .leave task ∧ e ≠ .release task name := by
  constructor
  · rintro ⟨earlier, domains, since, split, listed, stays, kept⟩
    rcases List.eq_nil_or_concat since with rfl | ⟨since, last, rfl⟩
    · obtain rfl := List.singleton_inj.mp (List.append_inj_right' split rfl)
      exact .inl ⟨domains, rfl, listed⟩
    · rw [List.concat_eq_append, ← List.cons_append, ← List.append_assoc] at split
      obtain ⟨rfl, same⟩ := List.append_inj' split rfl
      obtain rfl := List.singleton_inj.mp same
      simp only [List.concat_eq_append, List.mem_append, List.mem_singleton, not_or] at stays kept
      exact .inr ⟨⟨earlier, domains, since, rfl, listed, stays.1, kept.1⟩, Ne.symm stays.2,
        Ne.symm kept.2⟩
  · rintro (⟨domains, rfl, listed⟩ | ⟨⟨earlier, domains, since, rfl, listed, stays, kept⟩, other⟩)
    · exact ⟨history, domains, [], rfl, listed, by simp, by simp⟩
    · refine ⟨earlier, domains, since ++ [e], by simp, listed, ?_, ?_⟩
      · simpa [stays] using Ne.symm other.1
      · simpa [kept] using Ne.symm other.2

/-- An event ends the uses that it is about, and begins those of a set. -/
theorem mem_note {uses : List Use} : (∃ u ∈ note uses e, u.task = task ∧ name ∈ u.names) ↔
    (∃ domains, e = .enter task domains ∧ name ∈ domains.names) ∨
      (∃ u ∈ uses, u.task = task ∧ name ∈ u.names) ∧ e ≠ .leave task ∧ e ≠ .release task name := by
  cases e with
  | enter other domains =>
    simp only [note, List.mem_append, List.mem_singleton]
    constructor
    · rintro ⟨u, hu | rfl, rfl, used⟩
      · exact .inr ⟨⟨u, hu, rfl, used⟩, by simp⟩
      · exact .inl ⟨domains, rfl, used⟩
    · rintro (⟨domains, ⟨⟩, listed⟩ | ⟨⟨u, hu, own, used⟩, -⟩)
      · exact ⟨_, .inr rfl, rfl, listed⟩
      · exact ⟨u, .inl hu, own, used⟩
  | join other => simp [note]
  | release other given =>
    simp only [note, List.mem_map]
    constructor
    · rintro ⟨_, ⟨u, hu, rfl⟩, own, used⟩
      obtain ⟨used, kept⟩ := Use.mem_without.mp used
      rw [Use.without_task] at own
      refine .inr ⟨⟨u, hu, own, used⟩, by simp, ?_⟩
      rintro ⟨⟩
      exact kept own rfl
    · rintro (⟨domains, ⟨⟩, -⟩ | ⟨⟨u, hu, rfl, used⟩, -, kept⟩)
      refine ⟨_, ⟨u, hu, rfl⟩, Use.without_task .., Use.mem_without.mpr ⟨used, ?_⟩⟩
      rintro rfl rfl
      exact kept rfl
  | leave other =>
    simp only [note, List.mem_filter, bne_iff_ne]
    constructor
    · rintro ⟨u, ⟨hu, stays⟩, rfl, used⟩
      exact .inr ⟨⟨u, hu, rfl, used⟩, by simpa using Ne.symm stays, by simp⟩
    · rintro (⟨domains, ⟨⟩, -⟩ | ⟨⟨u, hu, rfl, used⟩, stays, -⟩)
      exact ⟨u, ⟨hu, fun same => stays (same ▸ rfl)⟩, rfl, used⟩

/-- The account of the uses is right. -/
theorem mem_usesAfter (valid : Valid history) :
    (∃ u ∈ usesAfter history, u.task = task ∧ name ∈ u.names) ↔ Using history task name := by
  induction valid with
  | nil => simp [usesAfter, Using]
  | snoc _ e _ ih => rw [usesAfter_snoc, mem_note, using_snoc, ih]

theorem mem_namesInUse (valid : Valid history) :
    name ∈ namesInUse history ↔ ∃ task, Using history task name := by
  simp only [← mem_usesAfter valid, namesInUse, List.mem_flatMap]
  constructor
  · rintro ⟨u, hu, used⟩
    exact ⟨u.task, u, hu, rfl, used⟩
  · rintro ⟨_, u, hu, -, used⟩
    exact ⟨u, hu, used⟩

/-- One event does to the members what it does to the uses. -/
theorem uses_perform (t : Locks) (e : Event) :
    (t.perform e).members.map Member.use = note (t.members.map Member.use) e := by
  cases e with
  | enter task domains =>
    obtain ⟨locks, members, names, -⟩ := t.enter_members task domains
    simp [perform, note, members, Member.use, names]
  | join task => simp [perform, note]
  | release task name =>
    simp only [perform, note, release, List.map_map]
    refine List.map_congr_left fun m _ => ?_
    by_cases own : m.task = task
    · simp [Member.use, Member.without, Use.without, own, List.filter_map, Function.comp_def]
    · simp [Member.use, Member.without, Use.without, own]
  | leave task =>
    rw [perform, note, leave, List.filter_map]
    rfl

/-- The uses are those of the members. -/
theorem uses_after (history : List Event) :
    (after history).members.map Member.use = usesAfter history := by
  have all : ∀ t : Locks, (history.foldl perform t).members.map Member.use =
      history.foldl note (t.members.map Member.use) := by
    induction history with
    | nil => exact fun _ => rfl
    | cons e history ih => exact fun t => (ih (t.perform e)).trans (by rw [uses_perform]; rfl)
  exact all empty

theorem member?_eq_none_iff :
    (after history).member? task = none ↔ ∀ u ∈ usesAfter history, u.task ≠ task := by
  rw [← uses_after, List.forall_mem_map]
  refine ⟨member?_eq_none, fun others => List.find?_eq_none.mpr fun m hm => ?_⟩
  have other : m.task ≠ task := others m hm
  simpa using other

/-! ## Reachable states -/

theorem Valid.enter (h : Valid history) (domains : DomainSet)
    (new : ∀ u ∈ usesAfter history, u.task ≠ task) : Valid (history ++ [.enter task domains]) := by
  refine h.snoc _ ?_
  rintro _ _ ⟨⟩
  exact new

theorem Valid.quiet (h : Valid history) (e : Event) (quiet : e.enters = false) :
    Valid (history ++ [e]) := by
  refine h.snoc e ?_
  rintro task domains rfl
  cases quiet

theorem Valid.reachable (h : Valid history) : Reachable (after history) := by
  induction h with
  | nil => exact .empty
  | snoc _ e new ih =>
    rw [after_snoc]
    refine ih.step ?_
    cases e with
    | enter task domains => exact .enter _ task domains (member?_eq_none_iff.mpr (new _ _ rfl))
    | join task => exact .join _ task
    | release task name => exact .release _ task name
    | leave task => exact .leave _ task

/-- Whatever tasks can come to has a history. -/
theorem Reachable.exists_history (h : Reachable t) : ∃ history, Valid history ∧ after history = t := by
  induction h with
  | empty => exact ⟨[], .nil, rfl⟩
  | step _ next ih =>
    obtain ⟨history, valid, rfl⟩ := ih
    cases next with
    | enter task domains new =>
      exact ⟨_, valid.enter domains (member?_eq_none_iff.mp new), after_snoc _ _⟩
    | join task => exact ⟨_, valid.quiet (.join task) rfl, after_snoc _ _⟩
    | release task name => exact ⟨_, valid.quiet (.release task name) rfl, after_snoc _ _⟩
    | leave task => exact ⟨_, valid.quiet (.leave task) rfl, after_snoc _ _⟩

/-! ## The table -/

/-- How many members have a lock. The table has it as well, and so it is dropped when there are
none. -/
def owners (t : Locks) (id : LockId) : Nat := t.members.countP fun m => m.locks.any (·.2 == id)

theorem prune_table (t : Locks) : t.prune.table = t.table.filter fun _ id => 0 < t.owners id := by
  have counted : (fun (_ : String) id => t.members.any fun m => m.locks.any (·.2 == id)) =
      fun _ id => decide (0 < t.owners id) := by
    funext name id
    rw [Bool.eq_iff_iff, List.any_eq_true, decide_eq_true_eq, owners, List.countP_pos_iff]
  rw [prune, counted]

/-- A member has the lock of a name just when it uses the name. -/
theorem Consistent.has_iff (h : t.Consistent) (hm : m ∈ t.members)
    (known : t.table.get? name = some id) :
    m.locks.any (·.2 == id) = true ↔ name ∈ m.use.names := by
  rw [List.any_eq_true, Member.use, List.mem_map]
  constructor
  · rintro ⟨e, he, same⟩
    exact ⟨e, he, h.apart.apart (beq_iff_eq.mp same ▸ h.known m hm e he) known⟩
  · rintro ⟨e, he, rfl⟩
    refine ⟨e, he, beq_iff_eq.mpr (Option.some.inj ?_)⟩
    rw [← h.known m hm e he, known]

/-- What is left after pruning are the locks for the names in use. -/
theorem Consistent.mem_keys_prune (h : t.Consistent) :
    name ∈ t.prune.table.keys ↔ ∃ m ∈ t.members, name ∈ m.use.names := by
  rw [SortedMap.mem_keys]
  constructor
  · rintro ⟨id, kept⟩
    rw [prune_table, SortedMap.get?_filter, Option.filter_eq_some_iff, decide_eq_true_eq] at kept
    obtain ⟨known, owned⟩ := kept
    obtain ⟨m, hm, has⟩ := List.countP_pos_iff.mp owned
    exact ⟨m, hm, (h.has_iff hm known).mp has⟩
  · rintro ⟨m, hm, used⟩
    obtain ⟨e, he, rfl⟩ := List.mem_map.mp used
    exact ⟨e.2, prune_keeps h.known hm he⟩

theorem mem_keys_provide {other : String} :
    name ∈ (t.provide other).2.table.keys ↔ name = other ∨ name ∈ t.table.keys := by
  rw [SortedMap.mem_keys, SortedMap.mem_keys, provide]
  split
  · next id found =>
    refine ⟨.inr, ?_⟩
    rintro (rfl | there)
    · exact ⟨id, found⟩
    · exact there
  · by_cases same : name = other <;> simp [same]

theorem mem_keys_provideAll :
    name ∈ (t.provideAll names).2.table.keys ↔ name ∈ names ∨ name ∈ t.table.keys := by
  induction names generalizing t with
  | nil => simp [provideAll]
  | cons other names ih =>
    rw [provideAll, ih, mem_keys_provide, List.mem_cons, or_left_comm, or_assoc]

/-- When a task has entered, the names with a lock are those of its set and those in use. -/
theorem mem_keys_enter (valid : Valid history) (task : Task) (domains : DomainSet) :
    name ∈ ((after history).enter task domains).table.keys ↔
      name ∈ domains.names ∨ name ∈ namesInUse history := by
  rw [namesInUse, ← uses_after, List.flatMap_map, List.mem_flatMap,
    ← valid.reachable.consistent.mem_keys_prune]
  exact mem_keys_provideAll

theorem perform_table (t : Locks) (quiet : e.enters = false) : (t.perform e).table = t.table := by
  cases e with
  | enter task domains => cases quiet
  | join task =>
    rcases t.join_cases task with same | ⟨m, -, -, name, id, -, same⟩ <;> rw [perform, same]
  | release task name => rfl
  | leave task => rfl

/-- As long as no task enters, the table stays as it is. -/
theorem after_append_table (quiet : ∀ e ∈ since, e.enters = false) (before : List Event) :
    (after (before ++ since)).table = (after before).table := by
  induction since generalizing before with
  | nil => rw [List.append_nil]
  | cons e since ih =>
    obtain ⟨first, others⟩ := List.forall_mem_cons.mp quiet
    rw [List.append_cons, ih others, after_snoc, perform_table _ first]

/-- A table has as many locks as it has names. -/
theorem size_eq_of_mem_keys (same : ∀ name, name ∈ t.table.keys ↔ name ∈ names) :
    t.size = (distinct names).length := by
  have keys : t.table.keys.Perm (distinct names) :=
    (List.perm_ext_iff_of_nodup t.table.increasing.nodup_keys (nodup_distinct names)).mpr
      fun name => (same name).trans mem_distinct.symm
  have length : t.table.keys.length = t.size := List.length_map _
  rw [← length, keys.length_eq]

/-! ## Tracking -/

/-- How the table follows what the tasks use. -/
structure Tracks (history : List Event) : Prop where
  /-- Right after a task has entered, the names with a lock are those of its set and those that
  other tasks are using. -/
  entered : ∀ before task domains, history = before ++ [.enter task domains] → ∀ name,
    name ∈ (after history).table.keys ↔
      name ∈ domains.names ∨ ∃ other, Using before other name
  /-- Nothing else that a task does changes the table. -/
  still : ∀ before e, history = before ++ [e] → e.enters = false →
    (after history).table = (after before).table
  /-- The account of the names in use is right: these are the names that some task is using. -/
  used : ∀ name, name ∈ namesInUse history ↔ ∃ task, Using history task name
  /-- The table apart, a lock is owned as often as there are tasks that use its name. -/
  counted : ∀ name id, (after history).table.get? name = some id →
    (after history).owners id = (usesAfter history).countP fun u => name ∈ u.names
  /-- Before any task enters there is no lock. -/
  none_first : (∀ e ∈ history, e.enters = false) → (after history).size = 0
  /-- There are as many locks as names were in use when the last task entered, its own among them,
  however long ago that is and whatever came before. -/
  bounded : ∀ before task domains since, history = before ++ .enter task domains :: since →
    (∀ e ∈ since, e.enters = false) →
      (after history).size = (distinct (domains.names ++ namesInUse before)).length

theorem Consistent.owners_eq (h : t.Consistent) (known : t.table.get? name = some id) :
    t.owners id = (t.members.map Member.use).countP fun u => name ∈ u.names := by
  rw [owners, List.countP_map]
  refine List.countP_congr fun m hm => ?_
  rw [h.has_iff hm known, Function.comp_apply, decide_eq_true_eq]

/-- What a valid history begins with is one. -/
theorem Valid.of_append (h : Valid history) (split : history = before ++ since) : Valid before := by
  induction h generalizing since with
  | nil =>
    obtain ⟨rfl, -⟩ := List.nil_eq_append_iff.mp split
    exact .nil
  | snoc h e new ih =>
    rcases List.eq_nil_or_concat since with rfl | ⟨since, last, rfl⟩
    · rw [List.append_nil] at split
      exact split ▸ h.snoc e new
    · rw [List.concat_eq_append, ← List.append_assoc] at split
      exact ih (List.append_inj_left' split rfl)

/-- In whatever order tasks enter, join queues, and give locks back: the names with a lock are those
in use when the last task entered. No lock outlives that, and none is missing. -/
theorem table_tracks_use (h : Reachable t) :
    (∃ history, Valid history ∧ after history = t) ∧
      ∀ history, Valid history → after history = t → Tracks history := by
  refine ⟨h.exists_history, ?_⟩
  rintro history valid rfl
  refine ⟨?_, ?_, fun _ => mem_namesInUse valid, ?_, ?_, ?_⟩
  · rintro before task domains rfl name
    have begun := valid.of_append rfl
    rw [after_snoc, perform, mem_keys_enter begun, mem_namesInUse begun]
  · rintro before e rfl quiet
    rw [after_snoc, perform_table _ quiet]
  · intro name id known
    rw [h.consistent.owners_eq known, uses_after]
  · intro quiet
    have table := after_append_table quiet []
    rw [List.nil_append] at table
    rw [size, table]
    rfl
  · rintro before task domains since rfl quiet
    have table : (after (before ++ .enter task domains :: since)).table =
        ((after before).enter task domains).table := by
      rw [List.append_cons, after_append_table quiet, after_snoc, perform]
    refine size_eq_of_mem_keys fun name => ?_
    rw [table, mem_keys_enter (valid.of_append rfl), List.mem_append]

/-- A task waits for its second name behind another task. It is given up, and has given its first
name back but not yet the second one when a third task enters. -/
def givenUp : List Event :=
  [.enter 0 (.ofNames ["a", "b"]), .enter 1 (.ofNames ["b", "c"]), .join 1, .join 0, .join 0,
    .release 0 "a", .enter 2 (.ofNames ["d"])]

/-- The lock for the name given back is dropped, and the one that the task still has is kept. -/
theorem table_tracks_use_givenUp :
    Reachable (after givenUp) ∧ Valid givenUp ∧ Tracks givenUp ∧
      (after givenUp).table.keys = ["b", "c", "d"] := by
  have two : Valid ([.enter 0 (.ofNames ["a", "b"])] ++ [.enter 1 (.ofNames ["b", "c"])]) :=
    (Valid.nil.enter _ (by decide)).enter _ (by decide +kernel)
  have valid : Valid givenUp :=
    ((((two.quiet (.join 1) rfl).quiet (.join 0) rfl).quiet (.join 0) rfl).quiet
      (.release 0 "a") rfl).enter (.ofNames ["d"]) (by decide +kernel)
  have reachable := valid.reachable
  exact ⟨reachable, valid, (table_tracks_use reachable).2 givenUp valid rfl, by decide +kernel⟩

end Locks
end CertEnrollment.Enrollment
