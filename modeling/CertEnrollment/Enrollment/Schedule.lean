import CertEnrollment.Enrollment.Locks
import CertEnrollment.Enrollment.Response

/-!
# Enrollments in turns

Flows that share the locks and the services. Each one runs until it has to wait for a
lock or for a time; what has become free to go on does so in the order in which it
became free. Time passes only while all of them wait.
-/
namespace CertEnrollment.Enrollment

structure Schedule (α : Type) where
  locks : Locks
  /-- The time in milliseconds. -/
  now : Nat
  /-- The flows that can go on, the one that is next first. -/
  ready : List (Task × Flow α)
  /-- The flows that wait for locks, each at its request for them. -/
  queued : List (Task × Flow α)
  /-- The flows that wait for a time, with that time. -/
  asleep : List (Nat × Task × Flow α)
  results : List (Task × α)

namespace Schedule
variable {α : Type}

/-- The start of some flows together. -/
def start (flows : List (Flow α)) : Schedule α :=
  ⟨.empty, 0, flows.zipIdx.map fun (x, task) => (task, x), [], [], []⟩

/-- The task gives its locks back; the flows that hold one of them next can go on. -/
def unlock (s : Schedule α) (task : Task) : Schedule α :=
  let heirs := s.locks.heirs task
  { s with
    locks := s.locks.leave task
    queued := s.queued.filter fun (t, _) => !heirs.contains t
    ready := s.ready ++ heirs.filterMap fun t => (s.queued.lookup t).map (t, ·) }

/-- The locks after a task has asked for those of a set. It enters only once. -/
def request (locks : Locks) (task : Task) (domains : Cache.DomainSet) : Locks :=
  (if (locks.member? task).isSome then locks else locks.enter task domains).advance task

/-- Runs a flow until it has to wait or is done. -/
def proceed {m : Type → Type} [Monad m] (respond : (c : Call) → m c.Answer) (task : Task) :
    Flow α → Schedule α → m (Schedule α)
  | .done result, s => pure { s with results := s.results ++ [(task, result)] }
  | .ask (.call c) next, s => do proceed respond task (next (← respond c)) s
  | .ask (.lock domains) next, s =>
    let locks := request s.locks task domains
    if locks.isGranted task then proceed respond task (next ()) { s with locks }
    else pure { s with locks, queued := s.queued ++ [(task, .ask (.lock domains) next)] }
  | .ask .unlock next, s => proceed respond task (next ()) (s.unlock task)
  | .ask .now next, s => proceed respond task (next s.now) s
  | .ask (.sleep ms) next, s =>
    if ms = 0 then proceed respond task (next ()) s
    else pure { s with asleep := s.asleep ++ [(s.now + ms, task, next ())] }

/-- Lets time pass until the next flow wakes up; all flows of that time do. -/
def wake (s : Schedule α) : Schedule α :=
  match (s.asleep.map (·.1)).min? with
  | none => s
  | some time =>
    { s with
      now := time
      asleep := s.asleep.filter (·.1 ≠ time)
      ready := s.ready ++ (s.asleep.filter (·.1 = time)).map (·.2) }

/-- Runs the next flow, or lets time pass when there is none. -/
def turn {m : Type → Type} [Monad m] (respond : (c : Call) → m c.Answer) (s : Schedule α) :
    m (Schedule α) :=
  match s.ready with
  | [] => pure s.wake
  | (task, x) :: rest => proceed respond task x { s with ready := rest }

/-- As many turns as it takes, up to a number. -/
def turns {m : Type → Type} [Monad m] (respond : (c : Call) → m c.Answer) :
    Nat → Schedule α → m (Schedule α)
  | 0, s => pure s
  | n + 1, s =>
    if s.ready.isEmpty ∧ s.asleep.isEmpty then pure s
    else do turns respond n (← turn respond s)

/-- The result of each flow. -/
def outcome (s : Schedule α) (flows : Nat) : List (Option α) :=
  (List.range flows).map fun task => s.results.lookup task

end Schedule

/-- How many turns an enrollment takes at most: one to start, one for each lock, and two
for each sleep. A request has fewer names than bytes. -/
def Setup.turns (s : Setup) (csr : List UInt8) : Nat := csr.length + 2 * s.looks + 1

/-- Enrolls requests together: the responses and the time it took. -/
def enrollTogether {m : Type → Type} [Monad m] (s : Setup) (respond : (c : Call) → m c.Answer)
    (csrs : List (List UInt8)) : m (List (Option Response) × Nat) := do
  let turns := csrs.foldl (fun n csr => n + s.turns csr) 0
  let final ← (Schedule.start (csrs.map (enroll s))).turns respond turns
  return (final.outcome csrs.length, final.now)

/-- Issues and caches a certificate for these domains: the result and the time it
took. -/
def prefetchAlone {m : Type → Type} [Monad m] (s : Setup) (respond : (c : Call) → m c.Answer)
    (domains : List String) (csr : List UInt8) :
    m (Option (Except String Cache.Issued) × Nat) := do
  let final ← (Schedule.start [(prefetch s domains csr).run]).turns respond (s.turns csr)
  return (final.results.lookup 0, final.now)

end CertEnrollment.Enrollment
