import CertEnrollment.Proofs.Transcript

/-!
# Requests in their time

Whether a request may be made depends on the requests before it and on their answers. An
interaction obeys such a rule when each of its requests is due after what came before it,
whatever the answers are; and when it is done, what came before and its result are as they
should be. Two interactions in a row obey a rule when the first one does and leaves a history
after which the second one does.
-/
namespace CertEnrollment.Interaction
variable {Ask : Type} {Answer : Ask → Type} {ε α β : Type}
  {due : List (Event Ask Answer) → Ask → Prop} {t u : List (Event Ask Answer)}

/-- Every request is due when it is made, and in the end the history and the result are in
order. The history at the start is the last argument. -/
def Obeys (due : List (Event Ask Answer) → Ask → Prop)
    (ends : List (Event Ask Answer) → α → Prop) :
    Interaction Ask Answer α → List (Event Ask Answer) → Prop
  | .done a, t => ends t a
  | .ask request next, t =>
    due t request ∧ ∀ answer, (next answer).Obeys due ends (t ++ [⟨request, answer⟩])

section Rules
variable {ends ends' : List (Event Ask Answer) → α → Prop}
  {after : List (Event Ask Answer) → β → Prop} {x y : Interaction Ask Answer α}

@[simp] theorem obeys_done {a : α} : (done a).Obeys due ends t ↔ ends t a := Iff.rfl

theorem obeys_ask {request : Ask} {next : Answer request → Interaction Ask Answer α} :
    (ask request next).Obeys due ends t ↔
      due t request ∧ ∀ answer, (next answer).Obeys due ends (t ++ [⟨request, answer⟩]) :=
  Iff.rfl

theorem Obeys.call {request : Ask} (h : due t request) :
    (call request).Obeys due (fun u answer => u = t ++ [⟨request, answer⟩]) t :=
  ⟨h, fun _ => rfl⟩

theorem obeys_bind {f : α → Interaction Ask Answer β} :
    (x >>= f).Obeys due after t ↔ x.Obeys due (fun u a => (f a).Obeys due after u) t := by
  induction x generalizing t with
  | done a => exact Iff.rfl
  | ask request next ih =>
    rw [ask_bind, obeys_ask, obeys_ask]
    exact and_congr_right fun _ => forall_congr' fun answer => ih answer

theorem Obeys.imp (h : x.Obeys due ends t) (weaker : ∀ u a, ends u a → ends' u a) :
    x.Obeys due ends' t := by
  induction x generalizing t with
  | done a => exact weaker t a h
  | ask request next ih => exact ⟨h.1, fun answer => ih answer (h.2 answer)⟩

theorem Obeys.weaken {due' : List (Event Ask Answer) → Ask → Prop} (h : x.Obeys due ends t)
    (weaker : ∀ u request, due u request → due' u request) : x.Obeys due' ends t := by
  induction x generalizing t with
  | done a => exact h
  | ask request next ih => exact ⟨weaker t request h.1, fun answer => ih answer (h.2 answer)⟩

/-- A rule without a history bounds what is asked for. -/
theorem Obeys.asks {p : Ask → Prop} (h : x.Obeys (fun _ => p) ends t) : x.Asks p := by
  induction x generalizing t with
  | done a => trivial
  | ask request next ih => exact ⟨h.1, fun answer => ih answer (h.2 answer)⟩

/-- Two interactions in a row, the second one only after what the first one can leave. -/
theorem Obeys.bind {f : α → Interaction Ask Answer β} (first : x.Obeys due ends t)
    (second : ∀ u a, ends u a → (f a).Obeys due after u) : (x >>= f).Obeys due after t :=
  obeys_bind.mpr (first.imp second)

/-- What the history at the end has in addition to that at the start is a run. -/
theorem Obeys.with_run (h : x.Obeys due ends t) :
    x.Obeys due (fun v a => ends v a ∧ ∃ u, v = t ++ u ∧ Runs x u a) t := by
  induction x generalizing t with
  | done a => exact ⟨h, [], by simp, .done a⟩
  | ask request next ih =>
    refine ⟨h.1, fun answer => (ih answer (h.2 answer)).imp ?_⟩
    rintro v a ⟨ended, u, rfl, run⟩
    exact ⟨ended, ⟨request, answer⟩ :: u, by simp, .ask answer run⟩

/-- An interaction that makes only requests that are due among themselves. -/
theorem Asks.obeys {p : Ask → Prop} (h : x.Asks p)
    (all : ∀ u request, (∀ e ∈ u, p e.request) → p request → due (t ++ u) request) :
    x.Obeys due (fun v a => ∃ u, v = t ++ u ∧ Runs x u a) t := by
  have obeys : x.Obeys due (fun _ _ => True) t := by
    induction x generalizing t with
    | done a => trivial
    | ask request next ih =>
      refine ⟨by simpa using all [] request (by simp) h.1, fun answer => ih answer (h.2 answer) ?_⟩
      intro u request' hu k
      have later := all (⟨request, answer⟩ :: u) request' (List.forall_mem_cons.mpr ⟨h.1, hu⟩) k
      simpa using later
  exact obeys.with_run.imp fun _ _ => And.right

/-- An interaction whose answers are asked for elsewhere. -/
theorem Obeys.runWith {Ask' : Type} {Answer' : Ask' → Type} {p : Ask → Prop} {p' : Ask' → Prop}
    {q : α → Prop} {respond : (request : Ask) → Interaction Ask' Answer' (Answer request)}
    {t' : List (Event Ask' Answer')} (h : x.Obeys (fun _ => p) (fun _ => q) t)
    (each : ∀ request, p request → (respond request).Asks p') :
    (x.runWith respond).Obeys (fun _ => p') (fun _ => q) t' := by
  induction x generalizing t t' with
  | done a => exact h
  | ask request next ih =>
    exact ((each request h.1).obeys fun _ _ _ => id).bind fun _ answer _ => ih answer (h.2 answer)

/-! ## Histories -/

theorem Obeys.becomes (h : x.Obeys due ends t) (run : Becomes x u y) :
    y.Obeys due ends (t ++ u) := by
  induction run generalizing t with
  | start x => simpa using h
  | ask answer rest ih => simpa using ih (h.2 answer)

/-- Every request of a run was due when it was made. -/
theorem Obeys.due_of_becomes (h : x.Obeys due ends t) (run : Becomes x u y)
    {before later : List (Event Ask Answer)} {e : Event Ask Answer}
    (split : u = before ++ e :: later) : due (t ++ before) e.request := by
  induction run generalizing t before with
  | start x => simp at split
  | ask answer rest ih =>
    cases before with
    | nil =>
      obtain ⟨rfl, -⟩ := List.cons.inj split
      simpa using h.1
    | cons first before =>
      obtain ⟨rfl, others⟩ := List.cons.inj split
      simpa using ih (h.2 answer) others

theorem runs_of_becomes {a : α} (h : Becomes x u (.done a)) : Runs x u a := by
  generalize left : done a = y at h
  induction h with
  | start x =>
    subst left
    exact .done a
  | ask answer rest ih => exact .ask answer (ih left)

theorem becomes_of_runs {a : α} (h : Runs x u a) : Becomes x u (.done a) := by
  induction h with
  | done a => exact .start _
  | ask answer rest ih => exact .ask answer ih

end Rules

/-! ## With failures -/

section Failures
variable {ends : List (Event Ask Answer) → Except ε α → Prop}
  {after : List (Event Ask Answer) → Except ε β → Prop}

@[simp] theorem obeys_pure {a : α} :
    (pure a : ExceptT ε (Interaction Ask Answer) α).run.Obeys due ends t ↔ ends t (.ok a) :=
  Iff.rfl

@[simp] theorem obeys_throw {e : ε} :
    (throw e : ExceptT ε (Interaction Ask Answer) α).run.Obeys due ends t ↔ ends t (.error e) :=
  Iff.rfl

/-- A failure of the first interaction is that of both. -/
theorem Obeys.run_bind {x : ExceptT ε (Interaction Ask Answer) α}
    {f : α → ExceptT ε (Interaction Ask Answer) β} (first : x.run.Obeys due ends t)
    (fails : ∀ u e, ends u (.error e) → after u (.error e))
    (second : ∀ u a, ends u (.ok a) → (f a).run.Obeys due after u) :
    (x >>= f).run.Obeys due after t := by
  rw [ExceptT.run_bind]
  refine first.bind fun u result h => ?_
  cases result with
  | error e => exact fails u e h
  | ok a => exact second u a h

/-- What is lifted never fails. -/
theorem Obeys.lift_bind {x : Interaction Ask Answer α}
    {f : α → ExceptT ε (Interaction Ask Answer) β} {ends : List (Event Ask Answer) → α → Prop}
    (first : x.Obeys due ends t) (second : ∀ u a, ends u a → (f a).run.Obeys due after u) :
    (ExceptT.lift x >>= f).run.Obeys due after t := by
  rw [ExceptT.run_bind_lift]
  exact first.bind second

end Failures
end CertEnrollment.Interaction
