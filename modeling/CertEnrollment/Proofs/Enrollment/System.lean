import CertEnrollment.Proofs.Enrollment.Progress
import CertEnrollment.Proofs.Locks.Queues
import CertEnrollment.Proofs.Text.Canonical

/-!
# Enrollments at the same time

Any number of enrollments share the locks and a cache in memory. Between any two steps of
one of them, others may take theirs, and time may pass. A step is a step of the locks or
the answer to what the enrollment asks for; the cache answers as it does, and everything
else answers as it likes. The log keeps all answers with their times.
-/
namespace CertEnrollment.Enrollment
open Authority Cache Interaction

/-- An answer that a task got. -/
structure Logged where
  task : Task
  time : Nat
  event : Event Ask Ask.Answer

structure System where
  locks : Locks
  cache : Table
  /-- The time of the cache in milliseconds. -/
  now : Nat
  /-- What every enrollment is still going to do. -/
  flows : Task → Flow Response
  /-- The answers so far, in the order of time. -/
  log : List Logged

namespace System

/-- What a task has asked for, with the answers. -/
def history (st : System) (task : Task) : Transcript :=
  (st.log.filter (·.task = task)).map (·.event)

/-- The task gets an answer and goes on. -/
def proceed (st : System) (task : Task) (e : Event Ask Ask.Answer) (next : Flow Response) :
    System :=
  { st with
    flows := fun other => if other = task then next else st.flows other
    log := st.log ++ [⟨task, st.now, e⟩] }

/-- An answer that a task may get, and what is left for the others. -/
inductive Answers (st : System) (task : Task) : (request : Ask) → request.Answer → System → Prop
  | lock (domains : DomainSet) (granted : st.locks.isGranted task = true) :
      Answers st task (.lock domains) () st
  | unlock : Answers st task .unlock () { st with locks := st.locks.leave task }
  | cache (a : Cache.Ask) :
      Answers st task (.call (.cache a)) (st.cache.respond st.now a).1
        { st with cache := (st.cache.respond st.now a).2 }
  | call {c : Call} (service : ∀ a, c ≠ .cache a) (answer : c.Answer) :
      Answers st task (.call c) answer st
  | now (time : Nat) : Answers st task .now time st
  | sleep (ms : Nat) : Answers st task (.sleep ms) () st

/-- One step of a task: it enters the locks or joins a queue when it asks for locks, gives
one lock back when it asks to unlock, or gets an answer. -/
inductive Acts (task : Task) : System → System → Prop
  | enter {st : System} {domains : DomainSet} {next : Unit → Flow Response}
      (waits : st.flows task = .ask (.lock domains) next)
      (new : st.locks.member? task = none) :
      Acts task st { st with locks := st.locks.enter task domains }
  | join {st : System} {domains : DomainSet} {next : Unit → Flow Response}
      (waits : st.flows task = .ask (.lock domains) next) :
      Acts task st { st with locks := st.locks.join task }
  | release {st : System} {next : Unit → Flow Response}
      (returns : st.flows task = .ask .unlock next) (name : String) :
      Acts task st { st with locks := st.locks.release task name }
  | proceed {st st' : System} {request : Ask} {next : request.Answer → Flow Response}
      {answer : request.Answer} (asks : st.flows task = .ask request next)
      (answers : Answers st task request answer st') :
      Acts task st (st'.proceed task ⟨request, answer⟩ (next answer))

/-- One step of any task, or time passes. -/
inductive Step : System → System → Prop
  | act {st st' : System} (task : Task) (acts : Acts task st st') : Step st st'
  | wait {st : System} {time : Nat} (later : st.now ≤ time) : Step st { st with now := time }

/-- What a number of steps of one task leads to. -/
inductive Alone (task : Task) : System → System → Prop
  | refl (st : System) : Alone task st st
  | step {st st' st'' : System} (before : Alone task st st') (acts : Acts task st' st'') :
      Alone task st st''

/-- The enrollments of all tasks are about to start. -/
def start (s : Setup) (csr : Task → List UInt8) (cache : Table) (now : Nat) : System :=
  ⟨.empty, cache, now, fun task => enroll s (csr task), []⟩

/-- What steps in any order lead to. -/
inductive Reachable (s : Setup) (csr : Task → List UInt8) (cache : Table) : System → Prop
  | start (now : Nat) : Reachable s csr cache (start s csr cache now)
  | step {st st' : System} (h : Reachable s csr cache st) (next : Step st st') :
      Reachable s csr cache st'

/-! ## Histories -/

variable {s : Setup} {csr : Task → List UInt8} {cache : Table} {st st' : System}
  {task other : Task}

@[simp] theorem history_proceed (e : Event Ask Ask.Answer) (next : Flow Response) :
    (st.proceed task e next).history other =
      if other = task then st.history other ++ [e] else st.history other := by
  by_cases same : other = task
  · simp [history, proceed, same]
  · simp [history, proceed, same, Ne.symm same]

@[simp] theorem flows_proceed (e : Event Ask Ask.Answer) (next : Flow Response) :
    (st.proceed task e next).flows other = if other = task then next else st.flows other :=
  rfl

theorem mem_history {e : Event Ask Ask.Answer} :
    e ∈ st.history task ↔ ∃ o ∈ st.log, o.task = task ∧ o.event = e := by
  simp [history, and_assoc]

/-- An answer changes neither flows nor log. -/
theorem Answers.frame {request : Ask} {answer : request.Answer}
    (h : Answers st task request answer st') :
    st'.flows = st.flows ∧ st'.log = st.log ∧ st'.now = st.now := by
  cases h <;> exact ⟨rfl, rfl, rfl⟩

/-- The history of a task has led to what it is still going to do. -/
theorem Reachable.becomes (h : Reachable s csr cache st) (task : Task) :
    Becomes (enroll s (csr task)) (st.history task) (st.flows task) := by
  induction h with
  | start now => exact .start _
  | step _ next ih =>
    cases next with
    | wait later => exact ih
    | act actor acts =>
      cases acts with
      | enter waits new => exact ih
      | join waits => exact ih
      | release returns name => exact ih
      | @proceed st₁ request next answer asks answers =>
        obtain ⟨flows, log, -⟩ := answers.frame
        rw [history_proceed, flows_proceed, history, log]
        by_cases same : task = actor
        · subst same
          rw [if_pos rfl, if_pos rfl]
          rw [asks] at ih
          exact ih.snoc answer
        · rw [if_neg same, if_neg same, flows]
          exact ih

theorem Reachable.locks (h : Reachable s csr cache st) : st.locks.Reachable := by
  induction h with
  | start now => exact .empty
  | step _ next ih =>
    cases next with
    | wait later => exact ih
    | act actor acts =>
      cases acts with
      | enter waits new => exact ih.step (.enter _ _ _ new)
      | join waits => exact ih.step (.join _ _)
      | release returns name => exact ih.step (.release _ _ _)
      | proceed asks answers =>
        cases answers with
        | unlock => exact ih.step (.leave _ _)
        | _ => exact ih

end System
end CertEnrollment.Enrollment
