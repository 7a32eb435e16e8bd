import CertEnrollment.Proofs.Obedience

/-!
# Interactions that look the same

Two interactions look the same from outside when they ask for the same things in the same order,
whatever the answers are. Their results may be of different kinds; a relation says how they belong
together. If that relation is equality, the interactions are equal, so a program can be replaced by
another one wherever the two look the same at every step.
-/
namespace CertEnrollment.Interaction
variable {Ask : Type} {Answer : Ask → Type} {α β γ δ : Type} {R : α → β → Prop}

/-- Two interactions that ask for the same, whatever the answers are, and whose results belong
together. -/
inductive Alike (R : α → β → Prop) : Interaction Ask Answer α → Interaction Ask Answer β → Prop
  | done {a : α} {b : β} (related : R a b) : Alike R (.done a) (.done b)
  | ask {request : Ask} {next : Answer request → Interaction Ask Answer α}
      {next' : Answer request → Interaction Ask Answer β}
      (each : ∀ answer, Alike R (next answer) (next' answer)) :
      Alike R (.ask request next) (.ask request next')

theorem alike_self (x : Interaction Ask Answer α) : Alike Eq x x := by
  induction x with
  | done a => exact .done rfl
  | ask request next ih => exact .ask ih

/-- An interaction looks the same as itself, and its results are as it obeys. -/
theorem alike_of_obeys {due : List (Event Ask Answer) → Ask → Prop} {p : α → Prop}
    {x : Interaction Ask Answer α} {t : List (Event Ask Answer)}
    (h : x.Obeys due (fun _ => p) t) : Alike (fun a b => a = b ∧ p a) x x := by
  induction x generalizing t with
  | done a => exact .done ⟨rfl, h⟩
  | ask request next ih => exact .ask fun answer => ih answer (h.2 answer)

theorem Alike.eq {x y : Interaction Ask Answer α} (h : Alike Eq x y) : x = y := by
  induction h with
  | done same => rw [same]
  | ask each ih => rw [funext ih]

/-- Two interactions in a row look the same as two others when each of them does. -/
theorem Alike.bind {S : γ → δ → Prop} {x : Interaction Ask Answer α} {y : Interaction Ask Answer β}
    {f : α → Interaction Ask Answer γ} {g : β → Interaction Ask Answer δ} (first : Alike R x y)
    (second : ∀ a b, R a b → Alike S (f a) (g b)) : Alike S (x >>= f) (y >>= g) := by
  induction first with
  | done related => exact second _ _ related
  | ask each ih => exact .ask ih

/-- The one has a run for each run of the other. -/
theorem Alike.runs {x : Interaction Ask Answer α} {y : Interaction Ask Answer β}
    {t : List (Event Ask Answer)} {a : α} (h : Alike R x y) (run : Runs x t a) :
    ∃ b, Runs y t b ∧ R a b := by
  induction run generalizing y with
  | done a =>
    cases h with
    | done related => exact ⟨_, .done _, related⟩
  | ask answer rest ih =>
    cases h with
    | ask each =>
      obtain ⟨b, run, related⟩ := ih (each answer)
      exact ⟨b, .ask answer run, related⟩

end CertEnrollment.Interaction
