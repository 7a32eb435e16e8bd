import CertEnrollment.Cache.DomainSet

/-!
# Locks on domains

Enrollments with a name in common take turns: each one needs a lock for every name of
its set. A lock is a queue of tasks, and the first task in it holds the lock. A task
joins the queues in the order of the names, the next one only when it holds all locks
before, and it stays in all of them until it leaves.

A lock is made when a task needs one for its name and there is none. It is dropped when
another task enters and no task has it any more. A number tells it apart from a lock
made for the same name later.
-/
namespace CertEnrollment.Enrollment
open Data Cache

abbrev Task := Nat
abbrev LockId := Nat

/-- A task that waits for its locks or holds them. -/
structure Member where
  task : Task
  /-- The locks for the names of its set, in the order of the names. -/
  locks : List (String × LockId)

structure Locks where
  /-- The lock for each name. -/
  table : SortedMap LockId
  /-- The number of the next lock. -/
  fresh : LockId
  members : List Member
  /-- Who has joined which queue, in the order of time. -/
  joins : List (LockId × Task)

namespace Locks

def empty : Locks := ⟨.empty, 0, [], []⟩

/-- How many names have a lock. -/
def size (t : Locks) : Nat := t.table.size

def member? (t : Locks) (task : Task) : Option Member := t.members.find? (·.task == task)

/-- The tasks in the queue of a lock. -/
def queue (t : Locks) (id : LockId) : List Task := (t.joins.filter (·.1 == id)).map (·.2)

def holder? (t : Locks) (id : LockId) : Option Task := (t.queue id).head?

/-! ## Entering -/

/-- Drops the locks that no member has. -/
def prune (t : Locks) : Locks :=
  { t with table := t.table.filter fun _ id => t.members.any fun m => m.locks.any (·.2 == id) }

/-- The lock for a name, made if there is none. -/
def provide (t : Locks) (name : String) : LockId × Locks :=
  match t.table.get? name with
  | some id => (id, t)
  | none => (t.fresh, { t with table := t.table.insert name t.fresh, fresh := t.fresh + 1 })

/-- The locks for names, in their order. -/
def provideAll (t : Locks) : List String → List (String × LockId) × Locks
  | [] => ([], t)
  | name :: names =>
    let first := t.provide name
    let others := first.2.provideAll names
    ((name, first.1) :: others.1, others.2)

/-- Makes a task a member. It is in no queue yet. -/
def enter (t : Locks) (task : Task) (domains : DomainSet) : Locks :=
  let provided := t.prune.provideAll domains.names
  { provided.2 with members := t.members ++ [⟨task, provided.1⟩] }

/-! ## Waiting -/

/-- Whether the member is behind another one in some queue. -/
def isBlocked (t : Locks) (m : Member) : Bool :=
  m.locks.any fun (_, id) => (t.queue id).contains m.task && t.holder? id != some m.task

/-- The first lock whose queue the member is not in. -/
def next? (t : Locks) (m : Member) : Option LockId :=
  (m.locks.map (·.2)).find? fun id => !(t.queue id).contains m.task

/-- Lets a task join its next queue, unless it has to wait in one. -/
def join (t : Locks) (task : Task) : Locks :=
  match t.member? task with
  | none => t
  | some m =>
    if t.isBlocked m then t
    else match t.next? m with
      | none => t
      | some id => { t with joins := t.joins ++ [(id, task)] }

/-- Lets a task join queues until it has to wait or is in all of them. -/
def advance (t : Locks) (task : Task) : Locks :=
  match t.member? task with
  | none => t
  | some m => m.locks.foldl (fun t _ => t.join task) t

/-- Whether a task holds all its locks. -/
def isGranted (t : Locks) (task : Task) : Bool :=
  (t.member? task).any fun m => m.locks.all fun (_, id) => t.holder? id == some task

/-! ## Leaving -/

/-- The tasks that hold a lock next when a task leaves, in the order of its locks. -/
def heirs (t : Locks) (task : Task) : List Task :=
  match t.member? task with
  | none => []
  | some m => m.locks.filterMap fun (_, id) =>
    if t.holder? id = some task then (t.queue id)[1]? else none

/-- Takes a task out of all queues, whether it held the locks or waited. -/
def leave (t : Locks) (task : Task) : Locks :=
  { t with
    members := t.members.filter (·.task != task)
    joins := t.joins.filter (·.2 != task) }

end Locks
end CertEnrollment.Enrollment
