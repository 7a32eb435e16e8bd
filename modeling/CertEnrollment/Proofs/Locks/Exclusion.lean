import CertEnrollment.Enrollment.Schedule

/-!
# Mutual exclusion of the locks

A task enters, joins the queues of its locks one by one, and gives its locks back one by
one in any order, be it that it is done or that it is abandoned while it waits. Between any
two of these steps other tasks may take theirs. The invariant is that the table maps every
name to the lock that the members interested in the name have; entering keeps it because
it drops only locks that no member has. Whatever a schedule does with the locks is a row of
such steps.
-/
namespace CertEnrollment.Data.SortedMap
variable {β : Type}

theorem lookup_filter_of_increasing {p : String → β → Bool} {entries : List (String × β)}
    (h : Increasing entries) (key : String) :
    (entries.filter fun e => p e.1 e.2).lookup key = (entries.lookup key).filter (p key) := by
  induction entries with
  | nil => rfl
  | cons e rest ih =>
    obtain ⟨k, v⟩ := e
    obtain ⟨first, others⟩ := List.pairwise_cons.mp h
    rw [lookup_entry_cons]
    by_cases same : key = k
    · subst same
      cases kept : p key v with
      | true =>
        rw [List.filter_cons_of_pos (by simpa using kept), lookup_entry_cons]
        simp [Option.filter, kept]
      | false =>
        have absent : rest.lookup key = none := by
          refine List.lookup_eq_none_iff.mpr fun e he => ?_
          have after := first e he
          refine bne_iff_ne.mpr fun same => ?_
          rw [← same] at after
          exact Precedes.irrefl key after
        rw [List.filter_cons_of_neg (by simp [kept]), ih others, absent]
        simp [Option.filter, kept]
    · rw [if_neg same, ← ih others]
      cases kept : p k v with
      | true =>
        rw [List.filter_cons_of_pos (by simpa using kept), lookup_entry_cons, if_neg same]
      | false => rw [List.filter_cons_of_neg (by simp [kept])]

@[simp] theorem get?_filter (m : SortedMap β) (p : String → β → Bool) (key : String) :
    (m.filter p).get? key = (m.get? key).filter (p key) :=
  lookup_filter_of_increasing m.increasing key

end CertEnrollment.Data.SortedMap

namespace CertEnrollment.Enrollment.Member

/-- What is left of a member when a task gives the lock for a name back. -/
def without (m : Member) (task : Task) (name : String) : Member :=
  if m.task = task then { m with locks := m.locks.filter (·.1 ≠ name) } else m

@[simp] theorem without_task (m : Member) (task : Task) (name : String) :
    (m.without task name).task = m.task := by
  unfold without
  split <;> rfl

theorem mem_without {m : Member} {task : Task} {name : String} {e : String × LockId} :
    e ∈ (m.without task name).locks ↔ e ∈ m.locks ∧ (m.task = task → e.1 ≠ name) := by
  unfold without
  split <;> simp [*]

end CertEnrollment.Enrollment.Member

namespace CertEnrollment.Enrollment.Locks
open Data Cache

/-! ## Steps -/

/-- Gives the lock for one name back, whether it was held, waited for, or not yet asked
for. -/
def release (t : Locks) (task : Task) (name : String) : Locks :=
  let given (j : LockId × Task) : Bool :=
    j.2 == task && (t.member? task).any fun m => m.locks.contains (name, j.1)
  { t with
    members := t.members.map (·.without task name)
    joins := t.joins.filter fun j => !given j }

/-- One step of one task. -/
inductive Step : Locks → Locks → Prop
  | enter (t : Locks) (task : Task) (domains : DomainSet) (new : t.member? task = none) :
      Step t (t.enter task domains)
  | join (t : Locks) (task : Task) : Step t (t.join task)
  | release (t : Locks) (task : Task) (name : String) : Step t (t.release task name)
  | leave (t : Locks) (task : Task) : Step t (t.leave task)

/-- What any number of tasks can come to, whichever takes the next step. -/
inductive Reachable : Locks → Prop
  | empty : Reachable .empty
  | step {t t' : Locks} (h : Reachable t) (next : Step t t') : Reachable t'

/-- The task has the lock for the name, among its locks and as the first in the queue. -/
def Holds (t : Locks) (task : Task) (name : String) : Prop :=
  ∃ m ∈ t.members, m.task = task ∧
    ∃ e ∈ m.locks, e.1 = name ∧ t.holder? e.2 = some task

instance (t : Locks) (task : Task) (name : String) : Decidable (t.Holds task name) := by
  unfold Holds
  infer_instance

/-- The table knows every lock that a member has, under the name it has it for. -/
def Known (t : Locks) : Prop :=
  ∀ m ∈ t.members, ∀ e ∈ m.locks, t.table.get? e.1 = some e.2

/-- A task is a member only once. -/
def Distinct (t : Locks) : Prop := t.members.Pairwise fun m n => m.task ≠ n.task

/-- Whoever is in a queue is a member that has the lock. -/
def Queued (t : Locks) : Prop :=
  ∀ j ∈ t.joins, ∃ m ∈ t.members, m.task = j.2 ∧ ∃ name, (name, j.1) ∈ m.locks

/-- Different names have different locks, and the next lock is another one still. -/
structure Apart (t : Locks) : Prop where
  apart : ∀ {a b : String} {id : LockId},
    t.table.get? a = some id → t.table.get? b = some id → a = b
  fresh : ∀ {name : String} {id : LockId}, t.table.get? name = some id → id < t.fresh

structure Consistent (t : Locks) : Prop where
  known : t.Known
  distinct : t.Distinct
  queued : t.Queued
  apart : t.Apart

theorem member?_eq_some {t : Locks} {task : Task} {m : Member} (h : t.member? task = some m) :
    m ∈ t.members ∧ m.task = task :=
  ⟨List.mem_of_find?_eq_some h, by simpa using List.find?_some h⟩

theorem member?_eq_none {t : Locks} {task : Task} (h : t.member? task = none) :
    ∀ m ∈ t.members, m.task ≠ task := by
  intro m hm
  simpa using List.find?_eq_none.mp h m hm

theorem Distinct.unique {t : Locks} (h : t.Distinct) {m n : Member} (hm : m ∈ t.members)
    (hn : n ∈ t.members) (same : m.task = n.task) : m = n := by
  obtain ⟨i, hi, rfl⟩ := List.getElem_of_mem hm
  obtain ⟨j, hj, rfl⟩ := List.getElem_of_mem hn
  have different := List.pairwise_iff_getElem.mp h
  rcases Nat.lt_trichotomy i j with before | rfl | after
  · exact absurd same (different i j hi hj before)
  · rfl
  · exact absurd same.symm (different j i hj hi after)

theorem Distinct.member?_eq {t : Locks} (h : t.Distinct) {m : Member} (hm : m ∈ t.members) :
    t.member? m.task = some m := by
  cases found : t.member? m.task with
  | none => exact absurd rfl (member?_eq_none found m hm)
  | some n =>
    obtain ⟨hn, same⟩ := member?_eq_some found
    rw [h.unique hn hm same]

/-! ## Entering -/

theorem provide_get? (t : Locks) (name : String) :
    (t.provide name).2.table.get? name = some (t.provide name).1 := by
  unfold provide
  split
  · assumption
  · simp

theorem provide_keeps {t : Locks} {key : String} {id : LockId} (h : t.table.get? key = some id)
    (name : String) : (t.provide name).2.table.get? key = some id := by
  unfold provide
  split
  · exact h
  · next absent =>
    have other : key ≠ name := by
      rintro rfl
      cases absent.symm.trans h
    simp [other, h]

theorem provideAll_keeps {t : Locks} {key : String} {id : LockId} (h : t.table.get? key = some id)
    (names : List String) : (t.provideAll names).2.table.get? key = some id := by
  induction names generalizing t with
  | nil => exact h
  | cons name names ih => exact ih (provide_keeps h name)

theorem provideAll_names (t : Locks) (names : List String) :
    (t.provideAll names).1.map (·.1) = names := by
  induction names generalizing t with
  | nil => rfl
  | cons name names ih => simp [provideAll, ih]

theorem provideAll_known (t : Locks) (names : List String) :
    ∀ e ∈ (t.provideAll names).1, (t.provideAll names).2.table.get? e.1 = some e.2 := by
  induction names generalizing t with
  | nil => simp [provideAll]
  | cons name names ih =>
    exact List.forall_mem_cons.mpr
      ⟨provideAll_keeps (t.provide_get? name) names, ih (t.provide name).2⟩

/-- Pruning drops no lock that a member has, be it held or waited for. -/
theorem prune_keeps {t : Locks} (h : t.Known) {m : Member} (hm : m ∈ t.members)
    {e : String × LockId} (he : e ∈ m.locks) : t.prune.table.get? e.1 = some e.2 := by
  have used : (t.members.any fun m => m.locks.any (·.2 == e.2)) = true :=
    List.any_eq_true.mpr ⟨m, hm, List.any_eq_true.mpr ⟨e, he, by simp⟩⟩
  simp [prune, h m hm e he, used]

/-- A task that enters has a lock for every name of its set, the one in the table. -/
theorem enter_members (t : Locks) (task : Task) (domains : DomainSet) :
    ∃ locks, (t.enter task domains).members = t.members ++ [⟨task, locks⟩] ∧
      locks.map (·.1) = domains.names ∧
      ∀ e ∈ locks, (t.enter task domains).table.get? e.1 = some e.2 :=
  ⟨(t.prune.provideAll domains.names).1, rfl, provideAll_names _ _, provideAll_known _ _⟩

@[simp] theorem provide_joins (t : Locks) (name : String) :
    (t.provide name).2.joins = t.joins := by
  unfold provide
  split <;> rfl

@[simp] theorem provideAll_joins (t : Locks) (names : List String) :
    (t.provideAll names).2.joins = t.joins := by
  induction names generalizing t with
  | nil => rfl
  | cons name names ih => exact (ih (t.provide name).2).trans (t.provide_joins name)

@[simp] theorem enter_joins (t : Locks) (task : Task) (domains : DomainSet) :
    (t.enter task domains).joins = t.joins :=
  provideAll_joins t.prune domains.names

theorem Known.enter {t : Locks} (h : t.Known) (task : Task) (domains : DomainSet) :
    (t.enter task domains).Known := by
  obtain ⟨locks, members, -, known⟩ := t.enter_members task domains
  intro m hm e he
  rw [members, List.mem_append, List.mem_singleton] at hm
  rcases hm with hm | rfl
  · exact provideAll_keeps (prune_keeps h hm he) domains.names
  · exact known e he

theorem Apart.provide {t : Locks} (h : t.Apart) (name : String) : (t.provide name).2.Apart := by
  unfold Locks.provide
  split
  · exact h
  · refine ⟨?_, ?_⟩
    · intro a b id
      simp only [SortedMap.get?_insert]
      split
      · next same =>
        rintro ⟨⟩
        split
        · next same' => exact fun _ => same.trans same'.symm
        · intro known
          exact absurd (h.fresh known) (Nat.lt_irrefl _)
      · intro known
        split
        · rintro ⟨⟩
          exact absurd (h.fresh known) (Nat.lt_irrefl _)
        · exact h.apart known
    · intro key id
      simp only [SortedMap.get?_insert]
      split
      · rintro ⟨⟩
        exact Nat.lt_succ_self _
      · exact fun known => Nat.lt_succ_of_lt (h.fresh known)

theorem Apart.provideAll {t : Locks} (h : t.Apart) (names : List String) :
    (t.provideAll names).2.Apart := by
  induction names generalizing t with
  | nil => exact h
  | cons name names ih => exact ih (h.provide name)

theorem Apart.prune {t : Locks} (h : t.Apart) : t.prune.Apart := by
  have before : ∀ {name : String} {id : LockId}, t.prune.table.get? name = some id →
      t.table.get? name = some id := by
    intro name id known
    simp only [Locks.prune, SortedMap.get?_filter] at known
    exact (Option.filter_eq_some_iff.mp known).1
  exact ⟨fun a b => h.apart (before a) (before b), fun a => h.fresh (before a)⟩

theorem Consistent.enter {t : Locks} (h : t.Consistent) {task : Task}
    (new : t.member? task = none) (domains : DomainSet) : (t.enter task domains).Consistent := by
  obtain ⟨locks, members, -, -⟩ := t.enter_members task domains
  refine ⟨h.known.enter task domains, ?_, ?_, ?_⟩
  · rw [Distinct, members]
    refine List.pairwise_append.mpr ⟨h.distinct, List.pairwise_singleton _ _, ?_⟩
    intro m hm n hn
    rw [List.mem_singleton.mp hn]
    exact member?_eq_none new m hm
  · intro j hj
    rw [enter_joins] at hj
    obtain ⟨m, hm, mine⟩ := h.queued j hj
    exact ⟨m, members ▸ List.mem_append_left _ hm, mine⟩
  · have provided := h.apart.prune.provideAll domains.names
    exact ⟨provided.apart, provided.fresh⟩

/-! ## The other steps -/

/-- A task joins only the queue of a lock that it has. -/
theorem join_cases (t : Locks) (task : Task) :
    t.join task = t ∨ ∃ m ∈ t.members, m.task = task ∧ ∃ name id, (name, id) ∈ m.locks ∧
      t.join task = { t with joins := t.joins ++ [(id, task)] } := by
  unfold join
  split
  · exact .inl rfl
  · next m found =>
    split
    · exact .inl rfl
    · split
      · exact .inl rfl
      · next id another =>
        obtain ⟨hm, same⟩ := member?_eq_some found
        obtain ⟨e, he, rfl⟩ := List.mem_map.mp (List.mem_of_find?_eq_some another)
        exact .inr ⟨m, hm, same, e.1, e.2, he, rfl⟩

theorem Consistent.join {t : Locks} (h : t.Consistent) (task : Task) :
    (t.join task).Consistent := by
  rcases t.join_cases task with same | ⟨m, hm, rfl, name, id, mine, same⟩
  · rwa [same]
  · rw [same]
    refine ⟨h.known, h.distinct, fun j hj => ?_, h.apart.apart, h.apart.fresh⟩
    rcases List.mem_append.mp hj with hj | hj
    · exact h.queued j hj
    · rw [List.mem_singleton.mp hj]
      exact ⟨m, hm, rfl, name, mine⟩

theorem Consistent.release {t : Locks} (h : t.Consistent) (task : Task) (name : String) :
    (t.release task name).Consistent := by
  refine ⟨?_, ?_, ?_, h.apart.apart, h.apart.fresh⟩
  · intro m hm e he
    obtain ⟨n, hn, rfl⟩ := List.mem_map.mp hm
    exact h.known n hn e (Member.mem_without.mp he).1
  · refine List.pairwise_map.mpr (h.distinct.imp fun different => ?_)
    simpa only [Member.without_task] using different
  · intro j hj
    obtain ⟨hj, kept⟩ := List.mem_filter.mp hj
    obtain ⟨m, hm, same, name', mine⟩ := h.queued j hj
    refine ⟨m.without task name, List.mem_map_of_mem hm, by simpa using same, name', ?_⟩
    refine Member.mem_without.mpr ⟨mine, fun asked => ?_⟩
    rintro rfl
    have found := h.distinct.member?_eq hm
    simp [← asked, same] at kept
    simp [← same, found, mine] at kept

theorem Consistent.leave {t : Locks} (h : t.Consistent) (task : Task) :
    (t.leave task).Consistent := by
  refine ⟨fun m hm => h.known m (List.mem_filter.mp hm).1, h.distinct.filter _, ?_,
    h.apart.apart, h.apart.fresh⟩
  intro j hj
  obtain ⟨hj, other⟩ := List.mem_filter.mp hj
  obtain ⟨m, hm, same, mine⟩ := h.queued j hj
  exact ⟨m, List.mem_filter.mpr ⟨hm, same ▸ other⟩, same, mine⟩

theorem Consistent.step {t t' : Locks} (h : t.Consistent) (next : Step t t') :
    t'.Consistent := by
  cases next with
  | enter task domains new => exact h.enter new domains
  | join task => exact h.join task
  | release task name => exact h.release task name
  | leave task => exact h.leave task

theorem Reachable.consistent {t : Locks} (h : Reachable t) : t.Consistent := by
  induction h with
  | empty =>
    exact ⟨by simp [Known, Locks.empty], .nil, by simp [Queued, Locks.empty],
      by simp [Locks.empty], by simp [Locks.empty]⟩
  | step _ next ih => exact ih.step next

/-! ## Exclusion -/

/-- Members that are interested in a name have the same lock for it. -/
theorem Known.same_lock {t : Locks} (h : t.Known) {m n : Member} (hm : m ∈ t.members)
    (hn : n ∈ t.members) {name : String} {a b : LockId} (ha : (name, a) ∈ m.locks)
    (hb : (name, b) ∈ n.locks) : a = b :=
  Option.some.inj ((h m hm _ ha).symm.trans (h n hn _ hb))

theorem Known.holds_unique {t : Locks} (h : t.Known) {a b : Task} {name : String}
    (ha : t.Holds a name) (hb : t.Holds b name) : a = b := by
  obtain ⟨m, hm, -, ⟨_, id⟩, mine, rfl, first⟩ := ha
  obtain ⟨n, hn, -, ⟨_, id'⟩, yours, rfl, first'⟩ := hb
  obtain rfl : id = id' := h.same_lock hm hn mine yours
  exact Option.some.inj (first.symm.trans first')

theorem mem_queue {t : Locks} {task : Task} {id : LockId} :
    task ∈ t.queue id ↔ (id, task) ∈ t.joins := by
  simp [queue]

/-- In whatever order tasks enter, join queues, and give locks back: no name is held by two
tasks at once. Whoever is in a queue is a member with that lock. A task that enters gets a
lock for every name of its set, and neither its pruning nor anything else in its step takes
from the table a lock that a member has, be it held or waited for, so all tasks interested
in a name at a time have the same lock for it. -/
theorem names_exclusive {t : Locks} (h : Reachable t) :
    (∀ a b name, t.Holds a name → t.Holds b name → a = b) ∧
      (∀ id, ∀ task ∈ t.queue id, ∃ m ∈ t.members, m.task = task ∧
        ∃ name, (name, id) ∈ m.locks) ∧
      (∀ m ∈ t.members, ∀ e ∈ m.locks, ∀ task domains,
        t.prune.table.get? e.1 = some e.2 ∧
          (t.enter task domains).table.get? e.1 = some e.2) ∧
      (∀ m ∈ t.members, ∀ n ∈ t.members, ∀ name a b,
        (name, a) ∈ m.locks → (name, b) ∈ n.locks → a = b) ∧
      ∀ task domains, ∃ locks,
        (t.enter task domains).members = t.members ++ [⟨task, locks⟩] ∧
          locks.map (·.1) = domains.names := by
  have known := h.consistent.known
  refine ⟨fun a b name => known.holds_unique, ?_, ?_, ?_, ?_⟩
  · intro id task waits
    exact h.consistent.queued _ (mem_queue.mp waits)
  · intro m hm e he task domains
    have kept := prune_keeps known hm he
    exact ⟨kept, provideAll_keeps kept domains.names⟩
  · intro m hm n hn name a b
    exact known.same_lock hm hn
  · intro task domains
    obtain ⟨locks, members, names, -⟩ := t.enter_members task domains
    exact ⟨locks, members, names⟩

/-- Two tasks with a name in common, one of which has to wait for it. -/
def overlapping : Locks :=
  let first := ((empty.enter 0 (.ofNames ["a", "b"])).join 0).join 0
  (first.enter 1 (.ofNames ["b", "c"])).join 1

theorem names_exclusive_overlapping :
    Reachable overlapping ∧ overlapping.Holds 0 "b" ∧
      ∀ task, overlapping.Holds task "b" → task = 0 := by
  have reachable : Reachable overlapping :=
    ((((Reachable.empty.step (.enter _ 0 (.ofNames ["a", "b"]) (by decide))).step
      (.join _ 0)).step (.join _ 0)).step
        (.enter _ 1 (.ofNames ["b", "c"]) (by decide +kernel))).step (.join _ 1)
  have holds : overlapping.Holds 0 "b" := by decide +kernel
  exact ⟨reachable, holds, fun task held => (names_exclusive reachable).1 task 0 "b" held holds⟩

/-! ## Schedules -/

/-- What holds before and after every single join holds after all of them. -/
theorem advance_induction {motive : Locks → Prop} {t : Locks} {task : Task} (h : motive t)
    (next : ∀ t, motive t → motive (t.join task)) : motive (t.advance task) := by
  unfold advance
  split
  · exact h
  · next m found =>
    clear found
    induction m.locks generalizing t with
    | nil => exact h
    | cons _ locks ih => exact ih (next t h)

theorem Reachable.advance {t : Locks} (h : Reachable t) (task : Task) :
    Reachable (t.advance task) :=
  advance_induction h fun t h => h.step (.join t task)

end CertEnrollment.Enrollment.Locks

namespace CertEnrollment.Enrollment.Schedule
variable {α σ : Type}

theorem request_reachable {t : Locks} (h : t.Reachable) (task : Task)
    (domains : Cache.DomainSet) : (request t task domains).Reachable := by
  unfold request
  split
  · exact h.advance task
  · next new =>
    exact (h.step (.enter t task domains (by simpa using new))).advance task

/-- A schedule does nothing with the locks but steps of tasks. -/
theorem proceed_reachable (respond : (c : Call) → StateM σ c.Answer) (task : Task)
    (x : Flow α) (s : Schedule α) (world : σ) (h : s.locks.Reachable) :
    ((proceed respond task x s).run world).1.locks.Reachable := by
  induction x generalizing s world with
  | done result => exact h
  | ask request next ih =>
    cases request with
    | call c => exact ih _ s _ h
    | lock domains =>
      have requested := request_reachable h task domains
      rw [proceed]
      split
      · exact ih () _ world requested
      · exact requested
    | unlock => exact ih () _ world (h.step (.leave s.locks task))
    | now => exact ih s.now s world h
    | sleep ms =>
      rw [proceed]
      split
      · exact ih () s world h
      · exact h

theorem turn_reachable (respond : (c : Call) → StateM σ c.Answer) (s : Schedule α) (world : σ)
    (h : s.locks.Reachable) : ((turn respond s).run world).1.locks.Reachable := by
  unfold turn
  split
  · show s.wake.locks.Reachable
    unfold wake
    split <;> exact h
  · exact proceed_reachable respond _ _ _ world h

theorem turns_reachable (respond : (c : Call) → StateM σ c.Answer) (n : Nat) (s : Schedule α)
    (world : σ) (h : s.locks.Reachable) :
    ((turns respond n s).run world).1.locks.Reachable := by
  induction n generalizing s world with
  | zero => exact h
  | succ n ih =>
    rw [turns]
    split
    · exact h
    · exact ih _ _ (turn_reachable respond s world h)

end CertEnrollment.Enrollment.Schedule
