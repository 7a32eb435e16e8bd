/-!
# Interactions

What a program does towards its surroundings, as data: it is done, or it asks for
something and goes on with the answer. The same interaction can be run against a script,
against a model of the surroundings, in turns with others, or step by step.
-/
namespace CertEnrollment

/-- A finite tree of requests; each one branches over its possible answers. -/
inductive Interaction (Ask : Type) (Answer : Ask → Type) (α : Type) : Type where
  | done (result : α)
  | ask (request : Ask) (next : Answer request → Interaction Ask Answer α)

namespace Interaction
variable {Ask : Type} {Answer : Ask → Type} {α β γ : Type}

/-- Goes on with `f` where the interaction is done. -/
def bind (x : Interaction Ask Answer α) (f : α → Interaction Ask Answer β) :
    Interaction Ask Answer β :=
  match x with
  | done a => f a
  | ask request next => .ask request fun answer => (next answer).bind f

instance : Monad (Interaction Ask Answer) where
  pure := done
  bind := bind

@[simp] theorem pure_eq (a : α) : (pure a : Interaction Ask Answer α) = done a := rfl

@[simp] theorem done_bind (a : α) (f : α → Interaction Ask Answer β) :
    (done a >>= f) = f a := rfl

@[simp] theorem ask_bind (request : Ask) (next : Answer request → Interaction Ask Answer α)
    (f : α → Interaction Ask Answer β) :
    (ask request next >>= f) = ask request fun answer => next answer >>= f := rfl

theorem bind_done (x : Interaction Ask Answer α) : x >>= done = x := by
  induction x with
  | done a => rfl
  | ask request next ih => simp [ih]

theorem bind_bind (x : Interaction Ask Answer α) (f : α → Interaction Ask Answer β)
    (g : β → Interaction Ask Answer γ) : x >>= f >>= g = x >>= fun a => f a >>= g := by
  induction x with
  | done a => rfl
  | ask request next ih => simp [ih]

instance : LawfulMonad (Interaction Ask Answer) :=
  LawfulMonad.mk' _ bind_done (fun _ _ => rfl) bind_bind

/-- Asks for one thing. -/
def call (request : Ask) : Interaction Ask Answer (Answer request) := .ask request done

/-- Runs an interaction where `respond` gives the answers. -/
def runWith {m : Type → Type} [Monad m] (respond : (request : Ask) → m (Answer request)) :
    Interaction Ask Answer α → m α
  | done a => pure a
  | ask request next => respond request >>= fun answer => (next answer).runWith respond

@[simp] theorem runWith_done {m : Type → Type} [Monad m]
    (respond : (request : Ask) → m (Answer request)) (a : α) :
    (done a : Interaction Ask Answer α).runWith respond = pure a := rfl

/-- Running one interaction after another is running both in a row. -/
theorem runWith_bind {m : Type → Type} [Monad m] [LawfulMonad m]
    (respond : (request : Ask) → m (Answer request)) (x : Interaction Ask Answer α)
    (f : α → Interaction Ask Answer β) :
    (x >>= f).runWith respond = x.runWith respond >>= fun a => (f a).runWith respond := by
  induction x with
  | done a => simp
  | ask request next ih => simp [runWith, ih]

end Interaction
end CertEnrollment
