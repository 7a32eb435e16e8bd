import CertEnrollment.Proofs.Locks.Queues

/-!
# Who waits for whom

A member takes its locks in the order of their names, so whatever it holds has a name before
the one that it waits for. Along a chain of tasks that wait for each other the names grow,
and no chain comes back to where it began. Its last task has all its locks, or the lock that
it wants next is free and it gets it by joining the queue.
-/
namespace CertEnrollment.Enrollment.Locks
open Data Cache
variable {t : Locks} {task : Task} {m n : Member} {a b : Task} {d e f : String × LockId}

/-- The lock is the next one that the member has to be granted. It holds all the locks before.
If it held this one too, that would be for one of the names before, and it could not be granted
the lock again. -/
def Awaits (t : Locks) (m : Member) (e : String × LockId) : Prop :=
  ∃ before after, m.locks = before ++ e :: after ∧
    (∀ d ∈ before, t.holder? d.2 = some m.task) ∧
    (t.holder? e.2 = some m.task → ∃ d ∈ before, d.2 = e.2)

/-- One task waits for another: the other one holds the lock for the next name of its set. -/
def WaitsFor (t : Locks) (a b : Task) : Prop :=
  ∃ m ∈ t.members, m.task = a ∧ ∃ e, t.Awaits m e ∧ t.holder? e.2 = some b

/-! ## The order of taking locks -/

/-- The locks of a member are in the order of their names, and while it is in the queue of one
it holds those before. -/
structure InOrder (t : Locks) : Prop where
  sorted : ∀ m ∈ t.members, m.locks.Pairwise fun d e => Precedes d.1 e.1
  held : ∀ m ∈ t.members, ∀ d ∈ m.locks, ∀ e ∈ m.locks, Precedes d.1 e.1 →
    m.task ∈ t.queue e.2 → t.holder? d.2 = some m.task

theorem mem_queue_of_holder? {id : LockId} (h : t.holder? id = some task) :
    task ∈ t.queue id :=
  List.mem_of_head? h

/-- A member has a lock under one name only. -/
theorem Consistent.eq_of_lock (h : t.Consistent) (hm : m ∈ t.members) (hn : n ∈ t.members)
    (hd : d ∈ m.locks) (he : e ∈ n.locks) (same : d.2 = e.2) : d = e := by
  have name : d.1 = e.1 := h.apart.apart (h.known m hm d hd) (same ▸ h.known n hn e he)
  exact Prod.ext name same

theorem InOrder.enter (h : t.InOrder) (consistent : t.Consistent)
    (new : t.member? task = none) (domains : DomainSet) : (t.enter task domains).InOrder := by
  obtain ⟨locks, members, names, -⟩ := t.enter_members task domains
  have queues : ∀ id, (t.enter task domains).queue id = t.queue id := by
    intro id
    rw [queue, queue, enter_joins]
  have cases_of_mem : ∀ m ∈ (t.enter task domains).members,
      m ∈ t.members ∨ m = ⟨task, locks⟩ := by
    intro m hm
    simpa [members] using hm
  refine ⟨fun m hm => ?_, fun m hm d hd e he before queued => ?_⟩
  · rcases cases_of_mem m hm with hm | rfl
    · exact h.sorted m hm
    · exact List.pairwise_map.mp (names ▸ domains.increasing)
  · rw [queues] at queued
    rcases cases_of_mem m hm with hm | rfl
    · exact holder?_enter (h.held m hm d hd e he before queued) domains
    · obtain ⟨n, hn, own, -⟩ := consistent.queued _ (mem_queue.mp queued)
      exact absurd own (member?_eq_none new n hn)

/-- A member that joins a queue holds all the locks with names before. -/
theorem held_of_next? (h : t.InOrder) (consistent : t.Consistent) (hm : m ∈ t.members)
    (free : t.isBlocked m = false) (next : t.next? m = some e.2) (hd : d ∈ m.locks)
    (he : e ∈ m.locks) (before : Precedes d.1 e.1) : t.holder? d.2 = some m.task := by
  rw [next?, List.find?_map, Option.map_eq_some_iff] at next
  obtain ⟨f, found, same⟩ := next
  obtain ⟨-, front, back, split, queued⟩ := List.find?_eq_some_iff_append.mp found
  have hf : f ∈ m.locks := List.mem_of_find?_eq_some found
  obtain rfl : f = e := consistent.eq_of_lock hm hm hf he same
  have sorted := h.sorted m hm
  rw [split] at sorted hd
  have inFront : d ∈ front := by
    rcases List.mem_append.mp hd with hd | hd
    · exact hd
    · obtain ⟨later, -⟩ := List.pairwise_cons.mp (List.pairwise_append.mp sorted).2.1
      rcases List.mem_cons.mp hd with rfl | hd
      · exact absurd before (Precedes.irrefl _)
      · exact absurd (before.trans (later d hd)) (Precedes.irrefl _)
  have joined : m.task ∈ t.queue d.2 := by simpa using queued d inFront
  have notBehind := List.any_eq_false.mp free d (split ▸ List.mem_append_left _ inFront)
  simpa [joined] using notBehind

theorem InOrder.join (h : t.InOrder) (consistent : t.Consistent) (task : Task) :
    (t.join task).InOrder := by
  unfold Locks.join
  split
  · exact h
  · next m found =>
    split
    · exact h
    · next free =>
      split
      · exact h
      · next id next =>
        obtain ⟨hm, rfl⟩ := member?_eq_some found
        refine ⟨h.sorted, fun n hn d hd e he before queued => ?_⟩
        have joined : t.join m.task = { t with joins := t.joins ++ [(id, m.task)] } := by
          simp [Locks.join, found, free, next]
        rw [← joined]
        refine holder?_join ?_
        rcases List.mem_append.mp (mem_queue.mp queued) with earlier | now
        · exact h.held n hn d hd e he before (mem_queue.mpr earlier)
        · have pair : (e.2, n.task) = (id, m.task) := List.mem_singleton.mp now
          obtain ⟨rfl, own⟩ := Prod.mk.inj pair
          obtain rfl : n = m := consistent.distinct.unique hn hm own
          exact held_of_next? h consistent hn (by simpa using free) next hd he before

theorem InOrder.release (h : t.InOrder) (consistent : t.Consistent) (task : Task)
    (name : String) : (t.release task name).InOrder := by
  refine ⟨fun m hm => ?_, fun m hm d hd e he before queued => ?_⟩
  · obtain ⟨n, hn, rfl⟩ := List.mem_map.mp hm
    have sorted := h.sorted n hn
    unfold Member.without
    split
    · exact sorted.filter _
    · exact sorted
  · obtain ⟨n, hn, rfl⟩ := List.mem_map.mp hm
    obtain ⟨had, kept⟩ := Member.mem_without.mp hd
    rw [Member.without_task] at queued ⊢
    have earlier : n.task ∈ t.queue e.2 :=
      mem_queue.mpr (List.mem_filter.mp (mem_queue.mp queued)).1
    have held := h.held n hn d had e (Member.mem_without.mp he).1 before earlier
    by_cases own : n.task = task
    · subst own
      exact holder?_release_self consistent hn had (kept rfl) held
    · exact holder?_release (Ne.symm own) held name

theorem InOrder.leave (h : t.InOrder) (task : Task) : (t.leave task).InOrder := by
  refine ⟨fun m hm => h.sorted m (mem_leave.mp hm).1, fun m hm d hd e he before queued => ?_⟩
  obtain ⟨hm, other⟩ := mem_leave.mp hm
  have earlier : m.task ∈ t.queue e.2 :=
    mem_queue.mpr (List.mem_filter.mp (mem_queue.mp queued)).1
  exact holder?_leave other.symm (h.held m hm d hd e he before earlier)

theorem Reachable.inOrder (h : Reachable t) : t.InOrder := by
  induction h with
  | empty => exact ⟨by simp [Locks.empty], by simp [Locks.empty]⟩
  | step reached next ih =>
    cases next with
    | enter task domains new => exact ih.enter reached.consistent new domains
    | join task => exact ih.join reached.consistent task
    | release task name => exact ih.release reached.consistent task name
    | leave task => exact ih.leave task

/-! ## Chains -/

theorem Awaits.mem (h : t.Awaits m e) : e ∈ m.locks := by
  obtain ⟨before, after, split, -⟩ := h
  simp [split]

theorem Awaits.held_of_precedes (h : t.Awaits m e) (inOrder : t.InOrder) (hm : m ∈ t.members)
    (hd : d ∈ m.locks) (before : Precedes d.1 e.1) : t.holder? d.2 = some m.task := by
  obtain ⟨front, back, split, held, -⟩ := h
  have sorted := inOrder.sorted m hm
  rw [split] at sorted hd
  obtain ⟨later, -⟩ := List.pairwise_cons.mp (List.pairwise_append.mp sorted).2.1
  rcases List.mem_append.mp hd with hd | hd
  · exact held d hd
  · rcases List.mem_cons.mp hd with rfl | hd
    · exact absurd before (Precedes.irrefl _)
    · exact absurd (before.trans (later d hd)) (Precedes.irrefl _)

/-- A member has different locks for its names, so it never waits for a lock that it holds. -/
theorem Awaits.not_held (h : t.Awaits m e) (consistent : t.Consistent) (inOrder : t.InOrder)
    (hm : m ∈ t.members) : t.holder? e.2 ≠ some m.task := by
  intro held
  have he := h.mem
  obtain ⟨before, after, split, -, again⟩ := h
  obtain ⟨d, hd, same⟩ := again held
  have listed : d ∈ m.locks := split ▸ List.mem_append_left _ hd
  obtain rfl : d = e := consistent.eq_of_lock hm hm listed he same
  have sorted := inOrder.sorted m hm
  rw [split] at sorted
  have twice := (List.pairwise_append.mp sorted).2.2 d hd d List.mem_cons_self
  exact Precedes.irrefl _ twice

/-- Whatever a member holds has a name before the one that it waits for. -/
theorem Awaits.precedes_of_held (h : t.Awaits m e) (consistent : t.Consistent)
    (inOrder : t.InOrder) (hm : m ∈ t.members) (hd : d ∈ m.locks)
    (held : t.holder? d.2 = some m.task) : Precedes d.1 e.1 := by
  have notHeld := h.not_held consistent inOrder hm
  refine Classical.byContradiction fun notBefore => ?_
  by_cases after : Precedes e.1 d.1
  · exact notHeld (inOrder.held m hm e h.mem d hd after (mem_queue_of_holder? held))
  · have name : d.1 = e.1 := eq_of_not_precedes notBefore after
    have lock : some d.2 = some e.2 :=
      (consistent.known m hm d hd).symm.trans (name ▸ consistent.known m hm e h.mem)
    exact notHeld (Option.some.inj lock ▸ held)

/-- A task that another one waits for wants a later name, if it waits as well. -/
theorem precedes_of_waits (consistent : t.Consistent) (inOrder : t.InOrder)
    (hm : m ∈ t.members) (wants : t.Awaits m e) (hn : n ∈ t.members)
    (held : t.holder? e.2 = some n.task) (wants' : t.Awaits n f) : Precedes e.1 f.1 := by
  obtain ⟨n', hn', own, name, has⟩ := consistent.queued _ (mem_queue.mp (mem_queue_of_holder? held))
  obtain rfl : n' = n := consistent.distinct.unique hn' hn own
  have lock : (name, e.2) = e := consistent.eq_of_lock hn' hm has wants.mem rfl
  exact wants'.precedes_of_held consistent inOrder hn' (lock ▸ has) held

/-- The names that the tasks of a chain want come one after another. -/
theorem precedes_of_chain (consistent : t.Consistent) (inOrder : t.InOrder)
    (chain : Relation.TransGen t.WaitsFor a b) : ∃ m ∈ t.members, m.task = a ∧ ∃ e,
      t.Awaits m e ∧ ∀ n ∈ t.members, n.task = b → ∀ f, t.Awaits n f → Precedes e.1 f.1 := by
  induction chain with
  | single waits =>
    obtain ⟨m, hm, own, e, wants, held⟩ := waits
    refine ⟨m, hm, own, e, wants, fun n hn own' f wants' => ?_⟩
    exact precedes_of_waits consistent inOrder hm wants hn (own' ▸ held) wants'
  | tail _ waits ih =>
    obtain ⟨m, hm, own, e, wants, later⟩ := ih
    obtain ⟨n, hn, own', f, wants', held⟩ := waits
    refine ⟨m, hm, own, e, wants, fun k hk own'' g wants'' => ?_⟩
    have step := precedes_of_waits consistent inOrder hn wants' hk (own'' ▸ held) wants''
    exact (later n hn own' f wants').trans step

/-! ## The end of a chain -/

theorem exists_awaits (missing : ∃ e ∈ m.locks, t.holder? e.2 ≠ some m.task) :
    ∃ e, t.Awaits m e := by
  obtain ⟨d, hd, notHeld⟩ := missing
  have some_there : (m.locks.find? fun e => t.holder? e.2 != some m.task).isSome = true :=
    List.find?_isSome.mpr ⟨d, hd, by simpa using notHeld⟩
  obtain ⟨e, found⟩ := Option.isSome_iff_exists.mp some_there
  obtain ⟨first, before, after, split, held⟩ := List.find?_eq_some_iff_append.mp found
  refine ⟨e, before, after, split, fun d hd => by simpa using held d hd, fun holds => ?_⟩
  simp [holds] at first

theorem exists_awaits_of_not_granted (consistent : t.Consistent) (hm : m ∈ t.members)
    (waits : t.isGranted m.task = false) : ∃ e, t.Awaits m e := by
  refine exists_awaits (Classical.byContradiction fun all => ?_)
  have granted : t.isGranted m.task = true := by
    refine granted_iff.mpr ⟨m, consistent.distinct.member?_eq hm, fun e he => ?_⟩
    exact Classical.byContradiction fun notHeld => all ⟨e, he, notHeld⟩
  rw [granted] at waits
  cases waits

/-- A member whose next lock is free gets it by joining its queue. -/
theorem Awaits.join (h : t.Awaits m e) (consistent : t.Consistent) (inOrder : t.InOrder)
    (hm : m ∈ t.members) (free : t.holder? e.2 = none) :
    (t.join m.task).holder? e.2 = some m.task := by
  have empty : t.queue e.2 = [] := List.head?_eq_none_iff.mp free
  have notBlocked : t.isBlocked m = false := by
    refine List.any_eq_false.mpr fun d hd => ?_
    have holds : m.task ∈ t.queue d.2 → t.holder? d.2 = some m.task := by
      intro queued
      by_cases before : Precedes d.1 e.1
      · exact h.held_of_precedes inOrder hm hd before
      by_cases after : Precedes e.1 d.1
      · have held := inOrder.held m hm e h.mem d hd after queued
        cases free.symm.trans held
      · have name : d.1 = e.1 := eq_of_not_precedes before after
        have lock : some d.2 = some e.2 :=
          (consistent.known m hm d hd).symm.trans (name ▸ consistent.known m hm e h.mem)
        rw [Option.some.inj lock, empty] at queued
        cases queued
    by_cases queued : m.task ∈ t.queue d.2
    · simp [holds queued]
    · simp [queued]
  have next : t.next? m = some e.2 := by
    obtain ⟨before, after, split, held, -⟩ := h
    rw [next?, List.find?_map, Option.map_eq_some_iff]
    refine ⟨e, List.find?_eq_some_iff_append.mpr ⟨?_, before, after, split, fun d hd => ?_⟩, rfl⟩
    · simp [empty]
    · simpa using mem_queue_of_holder? (held d hd)
  have joined : t.join m.task = { t with joins := t.joins ++ [(e.2, m.task)] } := by
    simp [Locks.join, consistent.distinct.member?_eq hm, notBlocked, next]
  have queue : (t.join m.task).queue e.2 = t.queue e.2 ++ [m.task] := by
    rw [joined]
    simp [Locks.queue]
  rw [holder?, queue, empty]
  rfl

/-- How many of some names come after this one. -/
def countAfter (names : List String) (name : String) : Nat :=
  (names.filter fun other => Precedes name other).length

theorem countAfter_lt {names : List String} {name later : String} (order : Precedes name later)
    (listed : later ∈ names) : countAfter names later < countAfter names name := by
  have within : (names.filter fun other => Precedes later other) =
      (names.filter fun other => Precedes name other).filter fun other => Precedes later other := by
    rw [List.filter_filter]
    refine List.filter_congr fun other _ => ?_
    by_cases after : Precedes later other
    · simp [after, order.trans after]
    · simp [after]
  rw [countAfter, countAfter, within]
  refine List.length_filter_lt_length_iff_exists.mpr ⟨later, ?_, ?_⟩
  · simpa [listed] using order
  · simpa using Precedes.irrefl later

/-- The task can give its locks back, since it has all of them, or it can get the next one. -/
def GoesOn (t : Locks) (task : Task) : Prop :=
  t.isGranted task = true ∨ ∃ m ∈ t.members, m.task = task ∧ ∃ e, t.Awaits m e ∧
    t.holder? e.2 = none ∧ (t.join task).holder? e.2 = some task

/-- From every task that waits, a chain leads to one that goes on. -/
theorem exists_goesOn (consistent : t.Consistent) (inOrder : t.InOrder) (hm : m ∈ t.members)
    (wants : t.Awaits m e) :
    ∃ b, (b = m.task ∨ Relation.TransGen t.WaitsFor m.task b) ∧ t.GoesOn b := by
  -- the names wanted along the chain grow, so fewer and fewer names come after them
  induction left : countAfter (t.members.flatMap fun m => m.locks.map (·.1)) e.1
    using Nat.strongRecOn generalizing m e with
  | _ left ih =>
    subst left
    cases held : t.holder? e.2 with
    | none =>
      have gets := wants.join consistent inOrder hm held
      exact ⟨m.task, .inl rfl, .inr ⟨m, hm, rfl, e, wants, held, gets⟩⟩
    | some b =>
      have waits : t.WaitsFor m.task b := ⟨m, hm, rfl, e, wants, held⟩
      obtain ⟨n, hn, rfl, -⟩ := consistent.queued _ (mem_queue.mp (mem_queue_of_holder? held))
      cases granted : t.isGranted n.task with
      | true => exact ⟨n.task, .inr (.single waits), .inl granted⟩
      | false =>
        obtain ⟨f, wants'⟩ := exists_awaits_of_not_granted consistent hn granted
        have order := precedes_of_waits consistent inOrder hm wants hn held wants'
        have listed : f.1 ∈ t.members.flatMap fun m => m.locks.map (·.1) :=
          List.mem_flatMap.mpr ⟨n, hn, List.mem_map_of_mem wants'.mem⟩
        obtain ⟨b, chain, goesOn⟩ := ih _ (countAfter_lt order listed) hn wants' rfl
        refine ⟨b, .inr ?_, goesOn⟩
        rcases chain with rfl | chain
        · exact .single waits
        · exact (Relation.TransGen.single waits).trans chain

/-! ## No deadlock -/

/-- What waiting comes to, whatever the tasks have done so far. -/
structure DeadlockFree (t : Locks) : Prop where
  /-- No chain of tasks that wait for each other comes back to its first task. -/
  acyclic : ∀ a, ¬ Relation.TransGen t.WaitsFor a a
  /-- No task waits for itself. -/
  notItself : ∀ a, ¬ t.WaitsFor a a
  /-- From a task that has not got all its locks, a chain leads to one that goes on. -/
  goesOn : ∀ m ∈ t.members, t.isGranted m.task = false →
    ∃ b, (b = m.task ∨ Relation.TransGen t.WaitsFor m.task b) ∧ t.GoesOn b

/-- In whatever order tasks enter, join queues, and give locks back, they never wait for each
other in a circle, and while some task waits, some task can go on. -/
theorem never_deadlocked (h : Reachable t) : t.DeadlockFree := by
  have consistent := h.consistent
  have inOrder := h.inOrder
  have acyclic : ∀ a, ¬ Relation.TransGen t.WaitsFor a a := by
    intro a chain
    obtain ⟨m, hm, own, e, wants, later⟩ := precedes_of_chain consistent inOrder chain
    exact Precedes.irrefl e.1 (later m hm own e wants)
  refine ⟨acyclic, fun a waits => acyclic a (.single waits), fun m hm waits => ?_⟩
  obtain ⟨e, wants⟩ := exists_awaits_of_not_granted consistent hm waits
  exact exists_goesOn consistent inOrder hm wants

/-- Three tasks in a row: the last one waits for the second one, and that for the first. -/
def chained : Locks :=
  let first := (empty.enter 0 (.ofNames ["c"])).join 0
  let second := ((first.enter 1 (.ofNames ["b", "c"])).join 1).join 1
  ((second.enter 2 (.ofNames ["a", "b"])).join 2).join 2

/-- The chain ends at the first of the three tasks, which can give its lock back. -/
theorem never_deadlocked_chained :
    Reachable chained ∧ chained.WaitsFor 2 1 ∧ chained.WaitsFor 1 0 ∧ chained.GoesOn 0 ∧
      ¬ Relation.TransGen chained.WaitsFor 2 2 ∧
      ∃ b, (b = 2 ∨ Relation.TransGen chained.WaitsFor 2 b) ∧ chained.GoesOn b := by
  have first : Reachable ((empty.enter 0 (.ofNames ["c"])).join 0) :=
    (Reachable.empty.step (.enter _ 0 _ (by decide))).step (.join _ 0)
  have second := ((first.step (.enter _ 1 (.ofNames ["b", "c"]) (by decide +kernel))).step
    (.join _ 1)).step (.join _ 1)
  have reachable : Reachable chained :=
    ((second.step (.enter _ 2 (.ofNames ["a", "b"]) (by decide +kernel))).step
      (.join _ 2)).step (.join _ 2)
  have listed : ∀ task locks, (task, locks) ∈ chained.members.map (fun m => (m.task, m.locks)) →
      (⟨task, locks⟩ : Member) ∈ chained.members := by
    intro task locks h
    obtain ⟨m, hm, same⟩ := List.mem_map.mp h
    cases same
    exact hm
  have middle := listed 1 [("b", 1), ("c", 0)] (by decide +kernel)
  have last := listed 2 [("a", 2), ("b", 1)] (by decide +kernel)
  have waits : chained.WaitsFor 2 1 := by
    refine ⟨_, last, rfl, ("b", 1), ⟨[("a", 2)], [], rfl, ?_, ?_⟩, ?_⟩ <;> decide +kernel
  have waits' : chained.WaitsFor 1 0 := by
    refine ⟨_, middle, rfl, ("c", 0), ⟨[("b", 1)], [], rfl, ?_, ?_⟩, ?_⟩ <;> decide +kernel
  have live := never_deadlocked reachable
  refine ⟨reachable, waits, waits', .inl (by decide +kernel), live.acyclic 2, ?_⟩
  exact live.goesOn _ last (by decide +kernel)

end CertEnrollment.Enrollment.Locks
