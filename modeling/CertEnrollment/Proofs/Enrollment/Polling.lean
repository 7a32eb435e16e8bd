import CertEnrollment.Proofs.Enrollment.Stages
import Mathlib.Algebra.Order.Floor.Div

/-!
# Polling against the clock

Polling looks at the status until it is settled or the timeout has passed. How it goes is fixed
by a timetable: what each look is answered, how long that takes, and how long each sleep lasts.
Nothing else takes time. The looks that are made are just those that start in time with nothing
settled before them, and the result is read off the timetable. Since every sleep takes at least
the delay, only so many looks fit into the timeout, and the bound on their number never ends
polling.
-/
namespace CertEnrollment.Enrollment
open Authority Interaction

/-- The message when the timeout has passed. -/
def Policy.late (p : Policy) : String :=
  "timeout (" ++ toString (p.pollTimeout / 1000) ++ "s) while waiting for certificate to be issued"

/-! ## Timetables -/

/-- What polling meets with: the answer to each look and how long it takes, and how long the sleep
after each look lasts. -/
structure Timetable where
  answer : Nat → Except Authority.Error Certificate
  latency : Nat → Nat
  rest : Nat → Nat

namespace Timetable
variable (w : Timetable) (p : Policy) (id : String)

/-- How long after the start a look is due, when all looks before it were made. -/
def elapsed (w : Timetable) : Nat → Nat
  | 0 => 0
  | i + 1 => w.elapsed i + w.latency i + w.rest i

/-- A look that settles nothing: the certificate is not issued yet, and may still be. -/
def Pending (i : Nat) : Prop :=
  ∃ c, w.answer i = .ok c ∧ c.status ≠ .issued ∧ c.status ≠ .expiringSoon ∧ c.status ≠ .cancelled

/-- A look starts before the timeout, and no look before it has settled anything. -/
def Due (i : Nat) : Prop := w.elapsed i < p.pollTimeout ∧ ∀ j < i, w.Pending j

/-- Time and answers of a transcript are those of the timetable, from a time on and after a number
of looks. -/
def Follows (w : Timetable) : (now looks : Nat) → Transcript → Prop
  | _, _, [] => True
  | now, looks, ⟨.now, time⟩ :: t => time = now ∧ w.Follows now looks t
  | now, looks, ⟨.call (.get _), answer⟩ :: t =>
    answer = w.answer looks ∧ w.Follows (now + w.latency looks) (looks + 1) t
  | now, looks, ⟨.sleep _, _⟩ :: t => w.Follows (now + w.rest (looks - 1)) looks t
  | now, looks, _ :: t => w.Follows now looks t

/-- When the looks of a transcript start. -/
def starts (w : Timetable) : (now looks : Nat) → Transcript → List Nat
  | _, _, [] => []
  | now, looks, ⟨.call (.get _), _⟩ :: t => now :: w.starts (now + w.latency looks) (looks + 1) t
  | now, looks, ⟨.sleep _, _⟩ :: t => w.starts (now + w.rest (looks - 1)) looks t
  | now, looks, _ :: t => w.starts now looks t

variable {w p id}

/-- A timetable leaves polling an answer to everything. -/
theorem exists_follows {α : Type} {x : Flow α} (asks : x.Asks (Ask.polls id)) (now looks : Nat) :
    ∃ t a, Runs x t a ∧ w.Follows now looks t := by
  induction x generalizing now looks with
  | done a => exact ⟨[], a, .done a, trivial⟩
  | ask request next ih =>
    obtain ⟨polls, later⟩ := asks
    cases request with
    | now =>
      obtain ⟨t, a, run, follows⟩ := ih now (later now) now looks
      exact ⟨_, a, .ask now run, rfl, follows⟩
    | sleep ms =>
      obtain ⟨t, a, run, follows⟩ := ih () (later ()) (now + w.rest (looks - 1)) looks
      exact ⟨_, a, .ask () run, follows⟩
    | call c =>
      cases polls
      obtain ⟨t, a, run, follows⟩ :=
        ih (w.answer looks) (later _) (now + w.latency looks) (looks + 1)
      exact ⟨_, a, .ask _ run, rfl, follows⟩
    | lock domains => exact polls.elim
    | unlock => exact polls.elim

/-! ## One look after the other -/

theorem mul_le_elapsed (slept : ∀ n, p.pollDelay ≤ w.rest n) (i : Nat) :
    i * p.pollDelay ≤ w.elapsed i := by
  induction i with
  | zero => simp
  | succ i ih =>
    have := slept i
    rw [elapsed, Nat.succ_mul]
    omega

theorem elapsed_mono {i j : Nat} (h : i ≤ j) : w.elapsed i ≤ w.elapsed j := by
  induction h with
  | refl => exact le_rfl
  | step _ ih =>
    rw [elapsed]
    omega

/-- Where a look is due, all looks before it were. -/
theorem Due.of_le {i j : Nat} (due : w.Due p j) (h : i ≤ j) : w.Due p i :=
  ⟨(elapsed_mono h).trans_lt due.1, fun k before => due.2 k (before.trans_le h)⟩

/-- No more looks are due than sleeps fit into the timeout. -/
theorem Due.lt {i : Nat} (due : w.Due p i) (delay : 0 < p.pollDelay)
    (slept : ∀ n, p.pollDelay ≤ w.rest n) : i < p.pollTimeout ⌈/⌉ p.pollDelay := by
  refine lt_of_not_ge fun h => ?_
  have enough := (ceilDiv_le_iff_le_mul delay).mp h
  have passed := enough.trans_eq (Nat.mul_comm _ _) |>.trans (mul_le_elapsed slept i)
  exact absurd due.1 passed.not_gt

end Timetable

/-- What the answer to a look settles about polling, if it settles anything. -/
def settled (id : String) : Except Authority.Error Certificate → Option (Except String Unit)
  | .error e => some (.error ("error while polling certificate status: " ++ e.message))
  | .ok c =>
    if c.status.isIssued then some (.ok ())
    else if c.status.isTerminalFailure then
      some (.error ("certificate " ++ id ++ " was " ++ c.status.word ++
        " while waiting for it to be issued"))
    else none

/-- What polling asks for when it may look once more. -/
theorem pollFrom_succ (p : Policy) (id : String) (start looks : Nat) :
    (pollFrom p id start (looks + 1)).run = .ask .now fun time =>
      if p.pollTimeout ≤ time - start then .done (.error p.late)
      else .ask (.call (.get id)) fun answer =>
        match settled id answer with
        | some r => .done r
        | none => .ask (.sleep p.pollDelay) fun _ => (pollFrom p id start looks).run := by
  rw [pollFrom]
  refine congrArg (Interaction.ask _) (funext fun time => ?_)
  change ExceptT.run (if p.pollTimeout ≤ time - start then _ else _) = _
  split
  · rw [pollFrom]
    rfl
  refine congrArg (Interaction.ask _) (funext fun answer => ?_)
  cases answer with
  | error e => rfl
  | ok c =>
    change ExceptT.run (if c.status.isIssued then _ else _) = _
    rw [settled]
    split
    · rfl
    · split <;> rfl

/-- Every sleep is to last for the delay. -/
theorem asks_pollFrom_sleep (p : Policy) (id : String) (start looks : Nat) :
    (pollFrom p id start looks).run.Asks fun q => ∀ ms, q = .sleep ms → ms = p.pollDelay := by
  induction looks with
  | zero =>
    rw [pollFrom]
    exact asks_throw
  | succ looks ih =>
    rw [pollFrom_succ]
    refine ⟨by simp, fun time => ?_⟩
    dsimp only
    split
    · trivial
    refine ⟨by simp, fun answer => ?_⟩
    dsimp only
    split
    · trivial
    · exact ⟨by simp, fun _ => ih⟩

namespace Timetable
variable {w : Timetable} {p : Policy} {id : String}

theorem settled_eq_none {i : Nat} : settled id (w.answer i) = none ↔ w.Pending i := by
  cases answer : w.answer i with
  | error e => simp [settled, Pending, answer]
  | ok c => cases status : c.status <;>
      simp [settled, Pending, answer, status, Status.isIssued, Status.isTerminalFailure]

/-- How polling ends after a number of looks. -/
inductive Ends (w : Timetable) (p : Policy) (id : String) : Nat → Except String Unit → Prop
  | late {i : Nat} (made : ∀ j < i, w.Due p j ∧ w.Pending j)
      (passed : p.pollTimeout ≤ w.elapsed i) : Ends w p id i (.error p.late)
  | settled {i : Nat} {r : Except String Unit} (due : w.Due p i)
      (answer : settled id (w.answer i) = some r) : Ends w p id (i + 1) r

/-- After some looks that settled nothing, polling makes its other looks when they are due, until
it ends. The bound on its looks leaves it at least those that still fit into the timeout. -/
theorem ends_of_runs (slept : ∀ n, p.pollDelay ≤ w.rest n) {start looks i : Nat}
    {t : Transcript} {r : Except String Unit} (made : ∀ j < i, w.Due p j ∧ w.Pending j)
    (enough : p.pollTimeout ≤ (i + looks) * p.pollDelay)
    (run : Runs (pollFrom p id start looks).run t r)
    (follows : w.Follows (start + w.elapsed i) i t) :
    ∃ n, w.Ends p id (i + n) r ∧
      w.starts (start + w.elapsed i) i t = (List.range' i n).map fun j => start + w.elapsed j := by
  induction looks generalizing i t with
  | zero =>
    rw [pollFrom] at run
    obtain ⟨rfl, rfl⟩ := runs_throw.mp run
    exact ⟨0, .late made (enough.trans (mul_le_elapsed slept i)), rfl⟩
  | succ looks ih =>
    rw [pollFrom_succ] at run
    obtain ⟨_, t₁, rfl, look⟩ := runs_ask.mp run
    obtain ⟨rfl, follows⟩ := follows
    rw [Nat.add_sub_cancel_left] at look
    split at look
    · next passed =>
      obtain ⟨rfl, rfl⟩ := runs_done.mp look
      exact ⟨0, .late made passed, rfl⟩
    next early =>
    have due : w.Due p i := ⟨by omega, fun j before => (made j before).2⟩
    obtain ⟨_, t₂, rfl, outcome⟩ := runs_ask.mp look
    obtain ⟨rfl, follows⟩ := follows
    split at outcome
    · next settles =>
      obtain ⟨rfl, rfl⟩ := runs_done.mp outcome
      exact ⟨1, .settled due settles, rfl⟩
    next settles =>
    obtain ⟨⟨⟩, t₃, rfl, later⟩ := runs_ask.mp outcome
    have made' : ∀ j < i + 1, w.Due p j ∧ w.Pending j := by
      intro j before
      obtain before | rfl := Nat.lt_succ_iff_lt_or_eq.mp before
      · exact made j before
      · exact ⟨due, settled_eq_none.mp settles⟩
    -- The sleep ends when the next look is due.
    have next : start + w.elapsed i + w.latency i + w.rest i = start + w.elapsed (i + 1) := by
      rw [elapsed]
      omega
    change w.Follows (start + w.elapsed i + w.latency i + w.rest i) (i + 1) t₃ at follows
    rw [next] at follows
    obtain ⟨n, ends, started⟩ := ih made' (by convert enough using 2; omega) later follows
    refine ⟨n + 1, by rwa [Nat.add_assoc, Nat.add_comm 1] at ends, ?_⟩
    change (start + w.elapsed i) ::
      w.starts (start + w.elapsed i + w.latency i + w.rest i) (i + 1) t₃ = _
    rw [next, started]
    rfl

/-- The looks that are made are those that are due. -/
theorem Ends.lt_iff {looks : Nat} {r : Except String Unit} (ends : w.Ends p id looks r) (i : Nat) :
    i < looks ↔ w.Due p i := by
  cases ends with
  | late made passed =>
    refine ⟨fun before => (made i before).1, fun due => lt_of_not_ge fun after => ?_⟩
    exact absurd due.1 (passed.trans (elapsed_mono after)).not_gt
  | settled due answer =>
    refine ⟨fun before => due.of_le (Nat.le_of_lt_succ before), fun later => ?_⟩
    refine lt_of_not_ge fun after => ?_
    rw [settled_eq_none.mpr (later.2 _ after)] at answer
    cases answer

/-- A look that settles anything is the last one. -/
theorem Ends.of_settled {looks i : Nat} {r r' : Except String Unit} (ends : w.Ends p id looks r)
    (due : w.Due p i) (answer : Enrollment.settled id (w.answer i) = some r') :
    r = r' ∧ looks = i + 1 := by
  have notPending : ¬ w.Pending i := fun pending => by
    rw [settled_eq_none.mpr pending] at answer
    cases answer
  have before := (ends.lt_iff i).mpr due
  cases ends with
  | late made passed => exact absurd (made i before).2 notPending
  | @settled k _ last answer' =>
    obtain before | rfl := Nat.lt_succ_iff_lt_or_eq.mp before
    · exact absurd (last.2 i before) notPending
    · exact ⟨Option.some.inj (answer'.symm.trans answer), rfl⟩

/-- Polling that starts at a time, told by its timetable: which looks it makes, when they start, and
how it ends. -/
structure Times (w : Timetable) (p : Policy) (id : String) (start : Nat) (t : Transcript)
    (r : Except String Unit) (looks : Nat) : Prop where
  asked : ∀ e ∈ t, e.request.polls id
  sleeps : ∀ e ∈ t, ∀ ms, e.request = .sleep ms → ms = p.pollDelay
  starts : w.starts start 0 t = (List.range looks).map fun i => start + w.elapsed i
  /-- The looks that are made are those that are due. -/
  due : ∀ i, i < looks ↔ w.Due p i
  bounded : looks ≤ p.pollTimeout ⌈/⌉ p.pollDelay
  /-- Without any time there is no look. -/
  none : p.pollTimeout = 0 → looks = 0
  issued : r = .ok () ↔ ∃ i c, w.Due p i ∧ w.answer i = .ok c ∧
    (c.status = .issued ∨ c.status = .expiringSoon)
  cancelled : ∀ i c, w.Due p i → w.answer i = .ok c → c.status = .cancelled →
    looks = i + 1 ∧ r = .error
      ("certificate " ++ id ++ " was cancelled while waiting for it to be issued")
  refused : ∀ i e, w.Due p i → w.answer i = .error e →
    looks = i + 1 ∧ r = .error ("error while polling certificate status: " ++ e.message)
  late : (∀ i, w.Due p i → w.Pending i) → r = .error p.late

theorem settled_eq_ok {answer : Except Authority.Error Certificate} :
    Enrollment.settled id answer = some (.ok ()) ↔
      ∃ c, answer = .ok c ∧ (c.status = .issued ∨ c.status = .expiringSoon) := by
  cases answer with
  | error e => simp [Enrollment.settled]
  | ok c => cases status : c.status <;>
      simp [Enrollment.settled, status, Status.isIssued, Status.isTerminalFailure]

/-- How polling ends says all about it. -/
theorem Ends.times {start looks : Nat} {t : Transcript} {r : Except String Unit}
    (ends : w.Ends p id looks r) (delay : 0 < p.pollDelay) (slept : ∀ n, p.pollDelay ≤ w.rest n)
    (asked : ∀ e ∈ t, e.request.polls id)
    (sleeps : ∀ e ∈ t, ∀ ms, e.request = .sleep ms → ms = p.pollDelay)
    (starts : w.starts start 0 t = (List.range looks).map fun i => start + w.elapsed i) :
    w.Times p id start t r looks where
  asked := asked
  sleeps := sleeps
  starts := starts
  due := ends.lt_iff
  bounded := by
    refine le_of_not_gt fun more => ?_
    exact lt_irrefl _ (((ends.lt_iff _).mp more).lt delay slept)
  none := by
    intro noTime
    refine Nat.eq_zero_of_not_pos fun some => ?_
    have := ((ends.lt_iff 0).mp some).1
    omega
  issued := by
    constructor
    · rintro rfl
      cases ends with
      | settled due answer =>
        obtain ⟨c, answer, status⟩ := settled_eq_ok.mp answer
        exact ⟨_, c, due, answer, status⟩
    · rintro ⟨i, c, due, answer, status⟩
      exact (ends.of_settled due (settled_eq_ok.mpr ⟨c, answer, status⟩)).1
  cancelled := by
    intro i c due answer status
    refine (ends.of_settled due ?_).symm
    have words : " was " ++ (Status.cancelled.word ++ " while waiting for it to be issued") =
      " was cancelled while waiting for it to be issued" := by decide
    simp [answer, Enrollment.settled, status, Status.isIssued, Status.isTerminalFailure,
      String.append_assoc, words]
  refused := by
    intro i e due answer
    refine (ends.of_settled due ?_).symm
    rw [answer, Enrollment.settled]
  late := by
    intro pending
    cases ends with
    | late made passed => rfl
    | settled due answer =>
      rw [settled_eq_none.mpr (pending _ due)] at answer
      cases answer

end Timetable

/-- The bound on the number of looks is at least what fits into the timeout. -/
theorem Policy.timeout_le_looks {p : Policy} (delay : 0 < p.pollDelay) :
    p.pollTimeout ≤ p.looks * p.pollDelay := by
  rw [looks, Nat.max_eq_left delay, Nat.add_mul]
  have := Nat.div_add_mod' p.pollTimeout p.pollDelay
  have := Nat.mod_lt p.pollTimeout delay
  omega

/-- Against every timetable polling comes to an end, and it makes exactly the looks that are due:
the first one at once and the others after a sleep, while the timeout has not passed and nothing is
settled. Only a look at an issued certificate makes it succeed; one at a cancelled certificate and
an error of the authority end it at once, and else it ends when the timeout has passed. -/
theorem poll_keeps_time {s : Setup} (id : String) (w : Timetable) (start : Nat)
    (delay : 0 < s.policy.pollDelay) (slept : ∀ n, s.policy.pollDelay ≤ w.rest n)
    (enough : s.policy.looks ≤ s.looks) :
    (∃ t r, Runs (poll s id).run t r ∧ w.Follows start 0 t) ∧
      ∀ t r, Runs (poll s id).run t r → w.Follows start 0 t →
        ∃ looks, w.Times s.policy id start t r looks := by
  constructor
  · have polls : (poll s id).run.Asks (Ask.polls id) :=
      Asks.lift_bind (asks_call.mpr trivial) fun time => asks_pollFrom s.policy id time s.looks
    exact Timetable.exists_follows polls start 0
  intro t r run follows
  have asked := (runs_poll run).2
  have sleeps := run.asks (Asks.lift_bind (asks_call.mpr (by simp)) fun time =>
    asks_pollFrom_sleep s.policy id time s.looks)
  rw [poll, runs_lift_bind] at run
  obtain ⟨t₁, t₂, time, rfl, clock, looking⟩ := run
  obtain rfl := runs_call.mp clock
  obtain ⟨rfl, follows⟩ := follows
  have fits : s.policy.pollTimeout ≤ (0 + s.looks) * s.policy.pollDelay := by
    rw [Nat.zero_add]
    exact (Policy.timeout_le_looks delay).trans (Nat.mul_le_mul_right _ enough)
  obtain ⟨looks, ends, starts⟩ := Timetable.ends_of_runs slept (by simp) fits looking follows
  rw [Nat.zero_add] at ends
  refine ⟨looks, ends.times delay slept asked sleeps ?_⟩
  rw [List.range_eq_range']
  exact starts

/-- An authority that never gets any further and takes 100 milliseconds to say so. -/
def Timetable.stuck : Timetable where
  answer _ := .ok ⟨"c", .pendingValidation, none, none, none, none, none⟩
  latency _ := 100
  rest _ := 200

/-- Half a second leaves time for two looks at it; the third one would start too late. -/
theorem poll_keeps_time_stuck :
    let s : Setup := { policy := ⟨6, 200, 500, 90⟩, cache := ⟨0⟩ }
    (0 < s.policy.pollDelay ∧ (∀ n, s.policy.pollDelay ≤ Timetable.stuck.rest n) ∧
      s.policy.looks ≤ s.looks) ∧
    ∃ t, Runs (poll s "c").run t (.error s.policy.late) ∧
      Timetable.stuck.starts 7 0 t = [7, 307] := by
  intro s
  have within : 0 < s.policy.pollDelay ∧ (∀ n, s.policy.pollDelay ≤ Timetable.stuck.rest n) ∧
      s.policy.looks ≤ s.looks := ⟨by decide, fun n => le_rfl, le_rfl⟩
  refine ⟨within, ?_⟩
  obtain ⟨⟨t, r, run, follows⟩, all⟩ :=
    poll_keeps_time "c" Timetable.stuck 7 within.1 within.2.1 within.2.2
  obtain ⟨looks, times⟩ := all t r run follows
  have pending : ∀ i, Timetable.stuck.Pending i := fun i => ⟨_, rfl, by decide⟩
  have second := (times.due 1).mpr ⟨by decide, fun i _ => pending i⟩
  have third : ¬ 2 < looks := fun more => absurd ((times.due 2).mp more).1 (by decide)
  obtain rfl : looks = 2 := by omega
  obtain rfl := times.late fun i _ => pending i
  exact ⟨t, run, times.starts⟩

end CertEnrollment.Enrollment
