import CertEnrollment.Authority.Client

/-!
# One exchange a call

Every call to the authority fails before it sends anything, or it sends one request and is done
with what came back. So a call is described by what it makes of a response.
-/
namespace CertEnrollment.Authority
open Data

namespace Client
variable {α β : Type}

/-- What a call makes of an answer, given what it makes of a response. -/
def onResponse (result : Http.Response → Except Error α) :
    Except Http.Failure Http.Response → Except Error α
  | .error f => .error (.http f.message)
  | .ok response => result response

/-- The call fails on its own, or it sends one request; without a response it fails, and of a
response it makes the result. -/
inductive Exchanges (result : Http.Response → Except Error α) : ClientAction α → Prop
  | unsent (e : Error) : Exchanges result (ExceptT.mk (.done (.error e)))
  | sent (request : Http.Request) : Exchanges result
      (ExceptT.mk (.ask request fun answer => .done (onResponse result answer)))

/-- Going on with what came back is making more of the response. -/
theorem Exchanges.bind {result : Http.Response → Except Error α} {x : ClientAction α}
    (h : Exchanges result x) (f : α → Except Error β) :
    Exchanges (fun response => result response >>= f)
      (x >>= fun a => ExceptT.mk (.done (f a))) := by
  cases h with
  | unsent e => exact .unsent e
  | sent request =>
    have after : ∀ answer, (ExceptT.mk (.done (onResponse result answer)) >>= fun a =>
        ExceptT.mk (.done (f a)) : ClientAction β) =
          ExceptT.mk (.done (onResponse (fun response => result response >>= f) answer)) := by
      rintro (failure | response)
      · rfl
      · rw [onResponse, onResponse]
        cases result response <;> rfl
    have same : (ExceptT.mk (.ask request fun answer => .done (onResponse result answer)) >>=
        fun a => ExceptT.mk (.done (f a)) : ClientAction β) =
          ExceptT.mk (.ask request fun answer =>
            .done (onResponse (fun response => result response >>= f) answer)) :=
      congrArg (Interaction.ask request) (funext after)
    rw [same]
    exact .sent request

-- The interactions have names here, since to unfold one is to read the address of the authority.
section
variable {c : Client} {path : String} {form : Option (List (String × String))}

theorem exchanges_send {x : ClientAction Value} (sends : c.send path form = x) :
    Exchanges bodyOf x := by
  rw [send] at sends
  subst sends
  cases c.url path with
  | error e => exact .unsent e
  | ok url =>
    dsimp only
    split
    · exact .unsent _
    · exact .sent _

theorem exchanges_fetch {read : Tree → Reading α} {x : ClientAction α}
    (fetches : c.fetch read path form = x) :
    Exchanges (fun response => bodyOf response >>= decode read) x := by
  obtain ⟨y, sends⟩ : ∃ y, c.send path form = y := ⟨_, rfl⟩
  rw [fetch, sends] at fetches
  subst fetches
  exact (exchanges_send sends).bind (decode read)

theorem exchanges_verify {id : String} {method : ChallengeMethod}
    {x : ClientAction VerificationOutcome} (verifies : c.verify id method = x) :
    Exchanges (fun response => bodyOf response >>= fun body => .ok (.ofBody body)) x := by
  rw [verify] at verifies
  generalize sends : c.send _ _ = y at verifies
  subst verifies
  exact (exchanges_send sends).bind fun body => .ok (VerificationOutcome.ofBody body)

end

end Client
end CertEnrollment.Authority
