import CertEnrollment.Proofs.Transcript

/-!
# Interactions in turns

Any number of interactions go on at the same time, and what answers them is shared. In each turn
one of them gets its next answer. When requests of different interactions do not matter to each
other, it does not matter either who has which turn: once all are done, everything is as if
they had gone on one after the other, in any order.
-/
namespace CertEnrollment.Interaction
variable {Ask α σ ι : Type} {Answer : Ask → Type}

/-- Two requests that can change places: the one that comes second gets the answer that it would
get as the first one, and what is shared is the same after both. -/
structure Independent (respond : (request : Ask) → StateM σ (Answer request)) (a b : Ask) :
    Prop where
  first : ∀ s, ((respond a).run ((respond b).run s).2).1 = ((respond a).run s).1
  second : ∀ s, ((respond b).run ((respond a).run s).2).1 = ((respond b).run s).1
  after : ∀ s, ((respond a).run ((respond b).run s).2).2 =
    ((respond b).run ((respond a).run s).2).2

variable {respond : (request : Ask) → StateM σ (Answer request)} {p : Ask → Prop} {b : Ask}

theorem run_ask {request : Ask} {next : Answer request → Interaction Ask Answer α} (s : σ) :
    ((ask request next).runWith respond).run s =
      ((next ((respond request).run s).1).runWith respond).run ((respond request).run s).2 :=
  rfl

/-- A request that does not matter to an interaction may come before it or after it. -/
theorem run_after {x : Interaction Ask Answer α} (asks : x.Asks p)
    (apart : ∀ a, p a → Independent respond a b) (s : σ) :
    (x.runWith respond).run ((respond b).run s).2 =
        (((x.runWith respond).run s).1, ((respond b).run ((x.runWith respond).run s).2).2) ∧
      ((respond b).run ((x.runWith respond).run s).2).1 = ((respond b).run s).1 := by
  induction x generalizing s with
  | done a => exact ⟨rfl, rfl⟩
  | ask request next ih =>
    have independent := apart request asks.1
    obtain ⟨run, answer⟩ := ih _ (asks.2 _) ((respond request).run s).2
    rw [run_ask, run_ask, independent.first, independent.after]
    exact ⟨run, answer.trans (independent.second s)⟩

/-- Interactions that go on at the same time, and what they share. -/
structure Joint (Ask : Type) (Answer : Ask → Type) (α σ ι : Type) where
  parts : ι → Interaction Ask Answer α
  shared : σ

namespace Joint
variable {i j : ι} {n : Nat} {s s' start : Joint Ask Answer α σ ι}

@[ext] theorem ext (parts : ∀ i, s.parts i = s'.parts i) (shared : s.shared = s'.shared) :
    s = s' := by
  cases s
  cases s'
  cases funext parts
  cases shared
  rfl

variable [DecidableEq ι]

/-- One of the interactions has gone on. -/
def advance (s : Joint Ask Answer α σ ι) (i : ι) (x : Interaction Ask Answer α) (shared : σ) :
    Joint Ask Answer α σ ι :=
  ⟨fun j => if j = i then x else s.parts j, shared⟩

@[simp] theorem parts_advance (s : Joint Ask Answer α σ ι) (i j : ι)
    (x : Interaction Ask Answer α) (shared : σ) :
    (s.advance i x shared).parts j = if j = i then x else s.parts j :=
  rfl

@[simp] theorem shared_advance (s : Joint Ask Answer α σ ι) (i : ι)
    (x : Interaction Ask Answer α) (shared : σ) : (s.advance i x shared).shared = shared :=
  rfl

/-- One of the interactions gets its next answer. -/
inductive Turn (respond : (request : Ask) → StateM σ (Answer request)) :
    ι → Joint Ask Answer α σ ι → Joint Ask Answer α σ ι → Prop
  | take {s : Joint Ask Answer α σ ι} {i : ι} {request : Ask}
      {next : Answer request → Interaction Ask Answer α} (asks : s.parts i = .ask request next) :
      Turn respond i s (s.advance i (next ((respond request).run s.shared).1)
        ((respond request).run s.shared).2)

/-- What a number of turns in any order lead to. -/
inductive Turns (respond : (request : Ask) → StateM σ (Answer request))
    (start : Joint Ask Answer α σ ι) : Nat → Joint Ask Answer α σ ι → Prop
  | none : Turns respond start 0 start
  | snoc {n : Nat} {s s' : Joint Ask Answer α σ ι} {i : ι} (before : Turns respond start n s)
      (turn : Turn respond i s s') : Turns respond start (n + 1) s'

/-- All of the interactions are done. -/
def Done (s : Joint Ask Answer α σ ι) : Prop := ∀ i, ∃ a, s.parts i = .done a

/-- Requests of different interactions do not matter to each other. -/
def Apart (respond : (request : Ask) → StateM σ (Answer request)) (owns : ι → Ask → Prop)
    (s : Joint Ask Answer α σ ι) : Prop :=
  (∀ i, (s.parts i).Asks (owns i)) ∧
    ∀ i j, i ≠ j → ∀ a b, owns i a → owns j b → Independent respond a b

/-- One of the interactions goes on until it is done. -/
def finish (respond : (request : Ask) → StateM σ (Answer request)) (s : Joint Ask Answer α σ ι)
    (i : ι) : Joint Ask Answer α σ ι :=
  let out := ((s.parts i).runWith respond).run s.shared
  s.advance i (.done out.1) out.2

/-- The interactions go on one after the other, in this order. -/
def inOrder (respond : (request : Ask) → StateM σ (Answer request)) (order : List ι)
    (s : Joint Ask Answer α σ ι) : Joint Ask Answer α σ ι :=
  order.foldl (finish respond) s

/-! ## Single turns -/

theorem finish_of_done {a : α} (h : s.parts i = .done a) : s.finish respond i = s := by
  have run : ((s.parts i).runWith respond).run s.shared = (a, s.shared) := by
    rw [h]
    rfl
  refine ext (fun j => ?_) (by rw [finish, run]; rfl)
  rw [finish, run, parts_advance]
  split
  · next same => rw [same, h]
  · rfl

/-- The turn of an interaction is part of its going on until it is done. -/
theorem Turn.finish_own (turn : Turn respond i s s') : s.finish respond i = s'.finish respond i := by
  cases turn with
  | @take _ _ request next asks =>
    have run : ((s.parts i).runWith respond).run s.shared =
        ((next ((respond request).run s.shared).1).runWith respond).run
          ((respond request).run s.shared).2 := by
      rw [asks, run_ask]
    refine ext (fun j => ?_) (by simp [finish, run])
    simp only [finish, run, parts_advance, shared_advance, if_pos]
    split <;> rfl

variable {owns : ι → Ask → Prop}

theorem Turn.apart (turn : Turn respond i s s') (h : s.Apart respond owns) :
    s'.Apart respond owns := by
  refine ⟨fun j => ?_, h.2⟩
  cases turn with
  | take asks =>
    have own := h.1 i
    rw [asks] at own
    rw [parts_advance]
    split
    · next same => exact same ▸ own.2 _
    · exact h.1 j

theorem finish_apart (h : s.Apart respond owns) (i : ι) :
    (s.finish respond i).Apart respond owns := by
  refine ⟨fun j => ?_, h.2⟩
  rw [finish, parts_advance]
  split
  · trivial
  · exact h.1 j

/-- The turn of another interaction may come later. -/
theorem Turn.finish_other (turn : Turn respond i s s') (h : s.Apart respond owns) (other : j ≠ i) :
    Turn respond i (s.finish respond j) (s'.finish respond j) := by
  cases turn with
  | @take _ _ request next asks =>
    have own : owns i request := by
      have all := h.1 i
      rw [asks] at all
      exact all.1
    obtain ⟨run, answer⟩ := run_after (h.1 j) (fun a ha => h.2 j i other a request ha own) s.shared
    have waits : (s.finish respond j).parts i = .ask request next := by
      rw [finish, parts_advance, if_neg (Ne.symm other), asks]
    have same : (s.advance i (next ((respond request).run s.shared).1)
          ((respond request).run s.shared).2).finish respond j =
        (s.finish respond j).advance i (next ((respond request).run (s.finish respond j).shared).1)
          ((respond request).run (s.finish respond j).shared).2 := by
      have shared : (s.finish respond j).shared = (((s.parts j).runWith respond).run s.shared).2 :=
        rfl
      have parts : ∀ k, (s.finish respond j).parts k =
          if k = j then .done (((s.parts j).runWith respond).run s.shared).1 else s.parts k :=
        fun k => rfl
      refine ext (fun k => ?_) ?_
      · simp only [finish, parts_advance, shared_advance, if_neg other, run, answer]
        by_cases here : k = j
        · simp [here, other]
        · simp [here]
      · simp only [finish, parts_advance, shared_advance, if_neg other, run]
    rw [same]
    exact .take waits

/-- It does not matter whether a turn is taken before all go on one after the other. -/
theorem Turn.inOrder_eq {order : List ι} (turn : Turn respond i s s') (h : s.Apart respond owns)
    (mem : i ∈ order) : inOrder respond order s = inOrder respond order s' := by
  induction order generalizing s s' with
  | nil => cases mem
  | cons j order ih =>
    rw [inOrder, inOrder, List.foldl_cons, List.foldl_cons]
    by_cases own : i = j
    · rw [← own, turn.finish_own]
    · have later : i ∈ order := (List.mem_cons.mp mem).resolve_left own
      exact ih (turn.finish_other h (Ne.symm own)) (finish_apart h j) later

/-! ## All turns -/

theorem Turns.apart (h : Turns respond start n s) (apart : start.Apart respond owns) :
    s.Apart respond owns := by
  induction h with
  | none => exact apart
  | snoc before turn ih => exact turn.apart ih

theorem inOrder_of_done {order : List ι} (h : s.Done) : inOrder respond order s = s := by
  induction order with
  | nil => rfl
  | cons i order ih =>
    obtain ⟨a, done⟩ := h i
    rw [inOrder, List.foldl_cons, finish_of_done done]
    exact ih

/-- Whatever turns have been taken, going on one after the other leads to the same end. -/
theorem Turns.inOrder_eq {order : List ι} (h : Turns respond start n s)
    (apart : start.Apart respond owns) (all : ∀ i, i ∈ order) :
    inOrder respond order start = inOrder respond order s := by
  induction h with
  | none => rfl
  | snoc before turn ih => exact ih.trans (turn.inOrder_eq (before.apart apart) (all _))

/-- Once all are done, everything is as if they had gone on one after the other. -/
theorem Turns.eq_inOrder {order : List ι} (h : Turns respond start n s)
    (apart : start.Apart respond owns) (all : ∀ i, i ∈ order) (done : s.Done) :
    s = inOrder respond order start := by
  rw [h.inOrder_eq apart all, inOrder_of_done done]

/-- What an interaction comes to when it goes on alone is the same after all turns: its result, and
what can be seen of the shared part as long as the requests of the others do not change that. -/
theorem Turns.alone {β : Type} (view : σ → β) (h : Turns respond start n s)
    (apart : start.Apart respond owns)
    (frame : ∀ j, j ≠ i → ∀ b, owns j b → ∀ t, view ((respond b).run t).2 = view t) :
    (((s.parts i).runWith respond).run s.shared).1 =
        (((start.parts i).runWith respond).run start.shared).1 ∧
      view (((s.parts i).runWith respond).run s.shared).2 =
        view (((start.parts i).runWith respond).run start.shared).2 := by
  induction h with
  | none => exact ⟨rfl, rfl⟩
  | @snoc _ s s' j before turn ih =>
    obtain ⟨result, seen⟩ := ih
    have apart' := before.apart apart
    cases turn with
    | @take _ _ request next asks =>
      by_cases own : i = j
      · subst own
        rw [asks, run_ask] at result seen
        simp only [parts_advance, shared_advance, if_pos]
        exact ⟨result, seen⟩
      · have theirs : owns j request := by
          have all := apart'.1 j
          rw [asks] at all
          exact all.1
        obtain ⟨run, -⟩ := run_after (apart'.1 i)
          (fun a ha => apart'.2 i j own a request ha theirs) s.shared
        simp only [parts_advance, shared_advance, if_neg own, run]
        exact ⟨result, (frame j (Ne.symm own) request theirs _).trans seen⟩

/-- What no request changes is the same after all turns. -/
theorem Turns.untouched {β : Type} (view : σ → β) (h : Turns respond start n s)
    (apart : start.Apart respond owns)
    (frame : ∀ j b, owns j b → ∀ t, view ((respond b).run t).2 = view t) :
    view s.shared = view start.shared := by
  induction h with
  | none => rfl
  | @snoc _ s s' j before turn ih =>
    have all := (before.apart apart).1 j
    cases turn with
    | take asks =>
      rw [asks] at all
      exact (frame j _ all.1 s.shared).trans ih

/-! ## Coming to an end -/

theorem Turns.finish (h : Turns respond start n s) (i : ι) :
    ∃ m, Turns respond start m (s.finish respond i) := by
  generalize left : s.parts i = x
  induction x generalizing s n with
  | done a =>
    rw [finish_of_done left]
    exact ⟨n, h⟩
  | ask request next ih =>
    have turn : Turn respond i s _ := .take left
    rw [turn.finish_own]
    exact ih ((respond request).run s.shared).1 (h.snoc turn) (by simp)

/-- Going on one after the other is going on in turns. -/
theorem Turns.inOrder (h : Turns respond start n s) (order : List ι) :
    ∃ m, Turns respond start m (inOrder respond order s) := by
  induction order generalizing s n with
  | nil => exact ⟨n, h⟩
  | cons i order ih =>
    obtain ⟨m, finished⟩ := h.finish i
    exact ih finished

theorem done_inOrder {order : List ι} (h : i ∈ order ∨ ∃ a, s.parts i = .done a) :
    ∃ a, (Joint.inOrder respond order s).parts i = .done a := by
  induction order generalizing s with
  | nil => exact h.resolve_left List.not_mem_nil
  | cons j order ih =>
    refine ih ?_
    by_cases here : i = j
    · exact .inr ⟨_, by rw [Joint.finish, parts_advance, if_pos here]⟩
    · rcases h with mem | ⟨a, done⟩
      · exact .inl ((List.mem_cons.mp mem).resolve_left here)
      · exact .inr ⟨a, by rw [Joint.finish, parts_advance, if_neg here, done]⟩

/-- Whatever turns have been taken, more turns lead to where they would have gone one after the
other. -/
theorem Turns.comes_to_end {order : List ι} (h : Turns respond start n s)
    (apart : start.Apart respond owns) (all : ∀ i, i ∈ order) :
    ∃ m, Turns respond s m (Joint.inOrder respond order start) := by
  rw [h.inOrder_eq apart all]
  exact Turns.none.inOrder order

end Joint

/-- No run makes more than so many requests. -/
def AtMost : Interaction Ask Answer α → Nat → Prop
  | done _, _ => True
  | ask _ _, 0 => False
  | ask _ next, n + 1 => ∀ answer, (next answer).AtMost n

theorem AtMost.mono {x : Interaction Ask Answer α} {m n : Nat} (h : x.AtMost m) (le : m ≤ n) :
    x.AtMost n := by
  induction x generalizing m n with
  | done a => trivial
  | ask request next ih =>
    cases m with
    | zero => exact h.elim
    | succ m =>
      cases n with
      | zero => omega
      | succ n => exact fun answer => ih answer (h answer) (by omega)

theorem AtMost.bind {β : Type} {x : Interaction Ask Answer α} {f : α → Interaction Ask Answer β}
    {m n : Nat} (first : x.AtMost m) (second : ∀ a, (f a).AtMost n) :
    (x >>= f).AtMost (m + n) := by
  induction x generalizing m with
  | done a => exact (second a).mono (by omega)
  | ask request next ih =>
    cases m with
    | zero => exact first.elim
    | succ m =>
      rw [ask_bind, show m + 1 + n = (m + n) + 1 by omega]
      exact fun answer => ih answer (first answer)

theorem AtMost.run_bind {ε β : Type} {x : ExceptT ε (Interaction Ask Answer) α}
    {f : α → ExceptT ε (Interaction Ask Answer) β} {m n : Nat} (first : x.run.AtMost m)
    (second : ∀ a, (f a).run.AtMost n) : (x >>= f).run.AtMost (m + n) := by
  rw [ExceptT.run_bind]
  refine first.bind fun result => ?_
  cases result with
  | error e => trivial
  | ok a => exact second a

namespace Joint

/-- The sum of what is allowed to each of the interactions. -/
def budget (k : ι → Nat) (order : List ι) : Nat := order.foldr (fun i rest => k i + rest) 0

@[simp] theorem budget_nil (k : ι → Nat) : budget k [] = 0 := rfl

@[simp] theorem budget_cons (k : ι → Nat) (i : ι) (order : List ι) :
    budget k (i :: order) = k i + budget k order := rfl

theorem budget_const (m : Nat) (order : List ι) : budget (fun _ => m) order = m * order.length := by
  induction order with
  | nil => rfl
  | cons i order ih => rw [budget_cons, ih, List.length_cons, Nat.mul_succ, Nat.add_comm]

variable [DecidableEq ι] {n : Nat} {s start : Joint Ask Answer α σ ι}

/-- One request less for one of them. -/
theorem budget_decrease {order : List ι} {i : ι} {k : ι → Nat} {m : Nat} (left : k i = m + 1) :
    budget (fun j => if j = i then m else k j) order ≤ budget k order ∧
      (i ∈ order → budget (fun j => if j = i then m else k j) order + 1 ≤ budget k order) := by
  induction order with
  | nil => simp
  | cons j order ih =>
    obtain ⟨le, lt⟩ := ih
    rw [budget_cons, budget_cons]
    by_cases here : j = i
    · rw [if_pos here, here, left]
      exact ⟨by omega, fun _ => by omega⟩
    · rw [if_neg here]
      refine ⟨by omega, fun mem => ?_⟩
      have later := lt ((List.mem_cons.mp mem).resolve_left (Ne.symm here))
      omega

/-- There are not more turns than requests. -/
theorem Turns.bounded {order : List ι} {k : ι → Nat} (h : Turns respond start n s)
    (all : ∀ i, i ∈ order) (most : ∀ i, (start.parts i).AtMost (k i)) : n ≤ budget k order := by
  have left : ∃ k', (∀ i, (s.parts i).AtMost (k' i)) ∧ n + budget k' order ≤ budget k order := by
    induction h with
    | none => exact ⟨k, most, by omega⟩
    | @snoc n s s' i before turn ih =>
      obtain ⟨k', left, enough⟩ := ih
      cases turn with
      | @take _ _ request next asks =>
        have own := left i
        rw [asks] at own
        cases some_left : k' i with
        | zero =>
          rw [some_left] at own
          exact own.elim
        | succ m =>
          rw [some_left] at own
          refine ⟨fun j => if j = i then m else k' j, fun j => ?_, ?_⟩
          · dsimp only
            rw [parts_advance]
            split
            · exact own _
            · exact left j
          · have less := (budget_decrease some_left).2 (all i)
            omega
  obtain ⟨k', -, enough⟩ := left
  omega

end Joint
end CertEnrollment.Interaction
