import CertEnrollment.Interaction

/-!
# Transcripts

A transcript lists the requests that a run of an interaction makes, each with the answer
that it got. Nothing is said about who answers, so what holds of all transcripts holds
against every surrounding. A transcript of two interactions in a row is one of the
first followed by one of the second; with failures, a failed first one stands alone.
-/
namespace CertEnrollment

/-- A request and the answer that it got. -/
structure Event (Ask : Type) (Answer : Ask → Type) where
  request : Ask
  answer : Answer request

namespace Interaction
variable {Ask : Type} {Answer : Ask → Type} {ε α β : Type}

/-- A complete run with its transcript and its result. -/
inductive Runs : Interaction Ask Answer α → List (Event Ask Answer) → α → Prop
  | done (a : α) : Runs (.done a) [] a
  | ask {request : Ask} {next : Answer request → Interaction Ask Answer α}
      (answer : Answer request) {t : List (Event Ask Answer)} {a : α}
      (rest : Runs (next answer) t a) : Runs (.ask request next) (⟨request, answer⟩ :: t) a

@[simp] theorem runs_done {a b : α} {t : List (Event Ask Answer)} :
    Runs (.done a) t b ↔ t = [] ∧ b = a := by
  constructor
  · intro h
    cases h
    exact ⟨rfl, rfl⟩
  · rintro ⟨rfl, rfl⟩
    exact .done b

theorem runs_ask {request : Ask} {next : Answer request → Interaction Ask Answer α}
    {t : List (Event Ask Answer)} {b : α} :
    Runs (.ask request next) t b ↔
      ∃ answer rest, t = ⟨request, answer⟩ :: rest ∧ Runs (next answer) rest b := by
  constructor
  · intro h
    cases h with
    | ask answer rest => exact ⟨answer, _, rfl, rest⟩
  · rintro ⟨answer, rest, rfl, h⟩
    exact .ask answer h

theorem runs_bind {x : Interaction Ask Answer α} {f : α → Interaction Ask Answer β}
    {t : List (Event Ask Answer)} {b : β} :
    Runs (x >>= f) t b ↔ ∃ t₁ t₂ a, t = t₁ ++ t₂ ∧ Runs x t₁ a ∧ Runs (f a) t₂ b := by
  induction x generalizing t with
  | done a =>
    constructor
    · intro h
      exact ⟨[], t, a, rfl, .done a, h⟩
    · rintro ⟨t₁, t₂, a', rfl, first, second⟩
      obtain ⟨rfl, rfl⟩ := runs_done.mp first
      exact second
  | ask request next ih =>
    rw [ask_bind, runs_ask]
    constructor
    · rintro ⟨answer, rest, rfl, h⟩
      obtain ⟨t₁, t₂, a, rfl, first, second⟩ := (ih answer).mp h
      exact ⟨⟨request, answer⟩ :: t₁, t₂, a, rfl, .ask answer first, second⟩
    · rintro ⟨t₁, t₂, a, rfl, first, second⟩
      obtain ⟨answer, rest, rfl, run⟩ := runs_ask.mp first
      exact ⟨answer, rest ++ t₂, rfl, (ih answer).mpr ⟨rest, t₂, a, rfl, run, second⟩⟩

theorem runs_map {x : Interaction Ask Answer α} {f : α → β} {t : List (Event Ask Answer)}
    {b : β} : Runs (f <$> x) t b ↔ ∃ a, Runs x t a ∧ b = f a := by
  rw [← bind_pure_comp, runs_bind]
  constructor
  · rintro ⟨t₁, t₂, a, rfl, first, second⟩
    obtain ⟨rfl, rfl⟩ := runs_done.mp second
    exact ⟨a, by simpa using first, rfl⟩
  · rintro ⟨a, h, rfl⟩
    exact ⟨t, [], a, by simp, h, .done _⟩

@[simp] theorem runs_call {request : Ask} {t : List (Event Ask Answer)} {b : Answer request} :
    Runs (call request) t b ↔ t = [⟨request, b⟩] := by
  rw [call, runs_ask]
  constructor
  · rintro ⟨answer, rest, rfl, h⟩
    obtain ⟨rfl, rfl⟩ := runs_done.mp h
    rfl
  · rintro rfl
    exact ⟨b, [], rfl, .done b⟩

/-- A complete run cannot go on, and the answers decide on its result. -/
theorem Runs.extend {x : Interaction Ask Answer α} {t u : List (Event Ask Answer)} {a b : α}
    (h : Runs x t a) (longer : Runs x (t ++ u) b) : u = [] ∧ b = a := by
  induction h with
  | done a => simpa using longer
  | ask answer rest ih =>
    obtain ⟨answer', rest', same, further⟩ := runs_ask.mp longer
    cases same
    exact ih further

/-- Whoever answers, running an interaction leaves a transcript. -/
theorem exists_runs {σ : Type} (respond : (request : Ask) → StateM σ (Answer request))
    (x : Interaction Ask Answer α) (s : σ) : ∃ t, Runs x t ((x.runWith respond).run s).1 := by
  induction x generalizing s with
  | done a => exact ⟨[], .done a⟩
  | ask request next ih =>
    obtain ⟨t, h⟩ := ih ((respond request).run s).1 ((respond request).run s).2
    exact ⟨⟨request, ((respond request).run s).1⟩ :: t, .ask _ h⟩

/-- Whoever is asked for the answers, they are those of a run. -/
theorem exists_runs_of_runWith {Ask' : Type} {Answer' : Ask' → Type}
    {respond : (request : Ask) → Interaction Ask' Answer' (Answer request)}
    {x : Interaction Ask Answer α} {t' : List (Event Ask' Answer')} {a : α}
    (h : Runs (x.runWith respond) t' a) : ∃ t, Runs x t a := by
  induction x generalizing t' with
  | done b =>
    obtain ⟨-, rfl⟩ := runs_done.mp h
    exact ⟨[], .done a⟩
  | ask request next ih =>
    obtain ⟨_, _, answer, -, -, rest⟩ := runs_bind.mp h
    obtain ⟨t, run⟩ := ih answer rest
    exact ⟨⟨request, answer⟩ :: t, .ask answer run⟩

/-! ## With failures -/

@[simp] theorem runs_pure {a : α} {t : List (Event Ask Answer)} {r : Except ε α} :
    Runs (pure a : ExceptT ε (Interaction Ask Answer) α).run t r ↔ t = [] ∧ r = .ok a :=
  runs_done

@[simp] theorem runs_throw {e : ε} {t : List (Event Ask Answer)} {r : Except ε α} :
    Runs (throw e : ExceptT ε (Interaction Ask Answer) α).run t r ↔ t = [] ∧ r = .error e :=
  runs_done

@[simp] theorem runs_result {a r : Except ε α} {t : List (Event Ask Answer)} :
    Runs (ExceptT.mk (pure a : Interaction Ask Answer (Except ε α))).run t r ↔
      t = [] ∧ r = a :=
  runs_done

@[simp] theorem runs_lift {x : Interaction Ask Answer α} {t : List (Event Ask Answer)}
    {r : Except ε α} :
    Runs (ExceptT.lift x : ExceptT ε (Interaction Ask Answer) α).run t r ↔
      ∃ a, Runs x t a ∧ r = .ok a :=
  runs_map

/-- A failure of the first interaction is that of both. -/
theorem runs_run_bind {x : ExceptT ε (Interaction Ask Answer) α}
    {f : α → ExceptT ε (Interaction Ask Answer) β} {t : List (Event Ask Answer)}
    {r : Except ε β} :
    Runs (x >>= f).run t r ↔
      (∃ e, Runs x.run t (.error e) ∧ r = .error e) ∨
      ∃ t₁ t₂ a, t = t₁ ++ t₂ ∧ Runs x.run t₁ (.ok a) ∧ Runs (f a).run t₂ r := by
  rw [ExceptT.run_bind, runs_bind]
  constructor
  · rintro ⟨t₁, t₂, answer, rfl, first, second⟩
    cases answer with
    | error e =>
      obtain ⟨rfl, rfl⟩ := runs_done.mp second
      exact .inl ⟨e, by simpa using first, rfl⟩
    | ok a => exact .inr ⟨t₁, t₂, a, rfl, first, second⟩
  · rintro (⟨e, h, rfl⟩ | ⟨t₁, t₂, a, rfl, first, second⟩)
    · exact ⟨t, [], .error e, by simp, h, .done _⟩
    · exact ⟨t₁, t₂, .ok a, rfl, first, second⟩

/-- What is lifted never fails. -/
theorem runs_lift_bind {x : Interaction Ask Answer α}
    {f : α → ExceptT ε (Interaction Ask Answer) β} {t : List (Event Ask Answer)}
    {r : Except ε β} :
    Runs (ExceptT.lift x >>= f).run t r ↔
      ∃ t₁ t₂ a, t = t₁ ++ t₂ ∧ Runs x t₁ a ∧ Runs (f a).run t₂ r := by
  rw [runs_run_bind]
  constructor
  · rintro (⟨e, failed, -⟩ | ⟨t₁, t₂, a, same, first, second⟩)
    · obtain ⟨a, -, absurd⟩ := runs_lift.mp failed
      cases absurd
    · obtain ⟨b, run, eq⟩ := runs_lift.mp first
      cases eq
      exact ⟨t₁, t₂, a, same, run, second⟩
  · rintro ⟨t₁, t₂, a, same, first, second⟩
    exact .inr ⟨t₁, t₂, a, same, runs_lift.mpr ⟨a, first, rfl⟩, second⟩

/-- Going on with a result asks for nothing. -/
theorem runs_result_bind {x : Except ε α} {f : α → ExceptT ε (Interaction Ask Answer) β}
    {t : List (Event Ask Answer)} {r : Except ε β} :
    Runs (ExceptT.mk (pure x : Interaction Ask Answer (Except ε α)) >>= f).run t r ↔
      (∃ e, x = .error e ∧ t = [] ∧ r = .error e) ∨ ∃ a, x = .ok a ∧ Runs (f a).run t r := by
  cases x with
  | error e =>
    refine (runs_done (a := (.error e : Except ε β))).trans ?_
    simp
  | ok a =>
    change Runs (f a).run t r ↔ _
    simp

/-! ## What is asked for -/

/-- Every request that can ever be made satisfies `p`. -/
def Asks (p : Ask → Prop) : Interaction Ask Answer α → Prop
  | done _ => True
  | ask request next => p request ∧ ∀ answer, (next answer).Asks p

@[simp] theorem asks_call {p : Ask → Prop} {request : Ask} :
    (call request : Interaction Ask Answer _).Asks p ↔ p request := by
  simp [call, Asks]

@[simp] theorem asks_pure {p : Ask → Prop} {a : α} :
    (pure a : ExceptT ε (Interaction Ask Answer) α).run.Asks p :=
  trivial

@[simp] theorem asks_throw {p : Ask → Prop} {e : ε} :
    (throw e : ExceptT ε (Interaction Ask Answer) α).run.Asks p :=
  trivial

theorem Asks.imp {p q : Ask → Prop} {x : Interaction Ask Answer α} (h : x.Asks p)
    (weaker : ∀ request, p request → q request) : x.Asks q := by
  induction x with
  | done a => trivial
  | ask request next ih =>
    exact ⟨weaker request h.1, fun answer => ih answer (h.2 answer)⟩

theorem Asks.bind {p : Ask → Prop} {x : Interaction Ask Answer α}
    {f : α → Interaction Ask Answer β} (first : x.Asks p) (second : ∀ a, (f a).Asks p) :
    (x >>= f).Asks p := by
  induction x with
  | done a => exact second a
  | ask request next ih => exact ⟨first.1, fun answer => ih answer (first.2 answer)⟩

theorem Asks.map {p : Ask → Prop} {x : Interaction Ask Answer α} (h : x.Asks p) (f : α → β) :
    (f <$> x).Asks p := by
  rw [← bind_pure_comp]
  exact h.bind fun _ => trivial

theorem Asks.run_bind {p : Ask → Prop} {x : ExceptT ε (Interaction Ask Answer) α}
    {f : α → ExceptT ε (Interaction Ask Answer) β} (first : x.run.Asks p)
    (second : ∀ a, (f a).run.Asks p) : (x >>= f).run.Asks p := by
  rw [ExceptT.run_bind]
  refine first.bind fun answer => ?_
  cases answer with
  | error e => trivial
  | ok a => exact second a

theorem Asks.lift_bind {p : Ask → Prop} {x : Interaction Ask Answer α}
    {f : α → ExceptT ε (Interaction Ask Answer) β} (first : x.Asks p)
    (second : ∀ a, (f a).run.Asks p) : (ExceptT.lift x >>= f).run.Asks p :=
  Asks.run_bind (first.map _) second

/-- What is asked for when the answers are asked for elsewhere. -/
theorem Asks.runWith {Ask' : Type} {Answer' : Ask' → Type} {p : Ask → Prop} {p' : Ask' → Prop}
    {respond : (request : Ask) → Interaction Ask' Answer' (Answer request)}
    {x : Interaction Ask Answer α} (h : x.Asks p)
    (each : ∀ request, p request → (respond request).Asks p') : (x.runWith respond).Asks p' := by
  induction x with
  | done a => trivial
  | ask request next ih => exact (each request h.1).bind fun answer => ih answer (h.2 answer)

/-- What no request changes, an interaction leaves as it was. -/
theorem Asks.untouched {σ : Type} {respond : (request : Ask) → StateM σ (Answer request)}
    {p : Ask → Prop} {x : Interaction Ask Answer α} (h : x.Asks p) (view : σ → β)
    (frame : ∀ request, p request → ∀ s, view ((respond request).run s).2 = view s) (s : σ) :
    view ((x.runWith respond).run s).2 = view s := by
  induction x generalizing s with
  | done a => rfl
  | ask request next ih =>
    exact (ih _ (h.2 _) ((respond request).run s).2).trans (frame request h.1 s)

theorem Runs.asks {p : Ask → Prop} {x : Interaction Ask Answer α}
    {t : List (Event Ask Answer)} {a : α} (h : Runs x t a) (all : x.Asks p) :
    ∀ e ∈ t, p e.request := by
  induction h with
  | done a => simp
  | ask answer rest ih => exact List.forall_mem_cons.mpr ⟨all.1, ih (all.2 answer)⟩

/-! ## Partial runs -/

/-- What is left of an interaction after some of its requests were answered. -/
inductive Becomes :
    Interaction Ask Answer α → List (Event Ask Answer) → Interaction Ask Answer α → Prop
  | start (x : Interaction Ask Answer α) : Becomes x [] x
  | ask {request : Ask} {next : Answer request → Interaction Ask Answer α}
      (answer : Answer request) {t : List (Event Ask Answer)} {y : Interaction Ask Answer α}
      (rest : Becomes (next answer) t y) : Becomes (.ask request next) (⟨request, answer⟩ :: t) y

@[simp] theorem becomes_done {a : α} {t : List (Event Ask Answer)} {y : Interaction Ask Answer α} :
    Becomes (.done a) t y ↔ t = [] ∧ y = .done a := by
  constructor
  · intro h
    cases h
    exact ⟨rfl, rfl⟩
  · rintro ⟨rfl, rfl⟩
    exact .start _

theorem becomes_ask {request : Ask} {next : Answer request → Interaction Ask Answer α}
    {t : List (Event Ask Answer)} {y : Interaction Ask Answer α} :
    Becomes (.ask request next) t y ↔ (t = [] ∧ y = .ask request next) ∨
      ∃ answer rest, t = ⟨request, answer⟩ :: rest ∧ Becomes (next answer) rest y := by
  constructor
  · intro h
    cases h with
    | start => exact .inl ⟨rfl, rfl⟩
    | ask answer rest => exact .inr ⟨answer, _, rfl, rest⟩
  · rintro (⟨rfl, rfl⟩ | ⟨answer, rest, rfl, h⟩)
    · exact .start _
    · exact .ask answer h

/-- One more answer. -/
theorem Becomes.snoc {x : Interaction Ask Answer α} {t : List (Event Ask Answer)} {request : Ask}
    {next : Answer request → Interaction Ask Answer α} (h : Becomes x t (.ask request next))
    (answer : Answer request) : Becomes x (t ++ [⟨request, answer⟩]) (next answer) := by
  generalize left : Interaction.ask request next = y at h
  induction h with
  | start x =>
    subst left
    exact .ask answer (.start _)
  | ask first rest ih => exact .ask first (ih left)

/-- Two interactions in a row are in the first one, which still asks for something, or the
first one is complete. -/
theorem becomes_bind {x : Interaction Ask Answer α} {f : α → Interaction Ask Answer β}
    {t : List (Event Ask Answer)} {y : Interaction Ask Answer β} (h : Becomes (x >>= f) t y) :
    (∃ request next, Becomes x t (.ask request next) ∧
        y = .ask request fun answer => next answer >>= f) ∨
      ∃ t₁ t₂ a, t = t₁ ++ t₂ ∧ Runs x t₁ a ∧ Becomes (f a) t₂ y := by
  induction x generalizing t with
  | done a => exact .inr ⟨[], t, a, rfl, .done a, h⟩
  | ask request next ih =>
    obtain ⟨rfl, rfl⟩ | ⟨answer, rest, rfl, later⟩ := becomes_ask.mp h
    · exact .inl ⟨request, next, .start _, rfl⟩
    · obtain ⟨request', next', inside, rfl⟩ | ⟨t₁, t₂, a, rfl, first, second⟩ := ih answer later
      · exact .inl ⟨request', next', .ask answer inside, rfl⟩
      · exact .inr ⟨⟨request, answer⟩ :: t₁, t₂, a, rfl, .ask answer first, second⟩

/-- A complete run of the first interaction, and then what becomes of the second one. -/
theorem Runs.becomes {x : Interaction Ask Answer α} {f : α → Interaction Ask Answer β}
    {t₁ t₂ : List (Event Ask Answer)} {a : α} {y : Interaction Ask Answer β} (first : Runs x t₁ a)
    (second : Becomes (f a) t₂ y) : Becomes (x >>= f) (t₁ ++ t₂) y := by
  induction first with
  | done a => exact second
  | ask answer rest ih => exact .ask answer (ih second)

theorem Becomes.asks {p : Ask → Prop} {x y : Interaction Ask Answer α}
    {t : List (Event Ask Answer)} (h : Becomes x t y) (all : x.Asks p) :
    (∀ e ∈ t, p e.request) ∧ y.Asks p := by
  induction h with
  | start x => exact ⟨by simp, all⟩
  | ask answer rest ih =>
    obtain ⟨later, left⟩ := ih (all.2 answer)
    exact ⟨List.forall_mem_cons.mpr ⟨all.1, later⟩, left⟩

end Interaction
end CertEnrollment
