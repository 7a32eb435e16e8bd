import CertEnrollment.Proofs.Authority.Exchanges
import CertEnrollment.Proofs.Authority.Refusals
import CertEnrollment.Proofs.Text.Decoding
import CertEnrollment.Proofs.Transcript

/-!
# What becomes of a response

A response is looked at in a fixed order: its status, its text, the refusal in it, the record in
it. The first of these that fails decides on the error, and so a record is only ever taken from a
response that passes all four.
-/
namespace CertEnrollment.Authority
open Data

variable {α : Type} {response : Http.Response}

/-! ## Responses outside 2xx -/

/-- The text is JSON that names the kind of an error, at `type` in `error`. -/
def NamesKind (text kind : String) : Prop :=
  ∃ body error, Json.parseValue? text = some body ∧ body.member? "error" = some error ∧
    error.member? "type" = some (.text kind)

/-- What an error outside 2xx carries: the kind that the text names, or else the text. -/
def Carries (text carried : String) : Prop :=
  NamesKind text carried ∨ carried = text ∧ ∀ kind, ¬ NamesKind text kind

theorem carries_errorText (text : String) : Carries text (Client.errorText text) := by
  have named : ∀ kind, (do
      let v ← Json.parseValue? text
      (← (← v.member? "error").member? "type").text?) = some kind ↔ NamesKind text kind := by
    intro kind
    have isText : ∀ v : Value, v.text? = some kind ↔ v = .text kind := by
      intro v
      cases v <;> simp [Value.text?]
    simp [NamesKind, Option.bind_eq_some_iff, isText]
  rw [Client.errorText]
  generalize (do
    let v ← Json.parseValue? text
    (← (← v.member? "error").member? "type").text? : Option String) = found at named ⊢
  cases found with
  | none => exact .inr ⟨rfl, fun kind names => by cases (named kind).mpr names⟩
  | some kind => exact .inl ((named kind).mp rfl)

/-- The error of a response outside 2xx: a failure of the exchange with the status of the
response. -/
structure FailureOf (response : Http.Response) (e : Error) : Prop where
  status : e.statusCode = some response.status
  transport : e.isTransport = true
  authentication : e.isAuthError = true ↔ response.status = 401
  carries : ∀ text, (e = .notFound text ∨ ∃ code, e = .api code text) → Carries response.text text

theorem failureOf_errorOf (response : Http.Response) :
    FailureOf response (Client.errorOf response.status response.text) := by
  have carried := carries_errorText response.text
  rw [Client.errorOf]
  split
  · next unauthorized =>
    exact ⟨by simp [Error.statusCode, unauthorized], rfl, by simp [Error.isAuthError, unauthorized],
      by simp⟩
  · next authorized =>
    split
    · next missing =>
      exact ⟨by simp [Error.statusCode, missing], rfl, by simp [Error.isAuthError, authorized],
        by simpa using carried⟩
    · split
      · next limited =>
        exact ⟨by simp [Error.statusCode, limited], rfl, by simp [Error.isAuthError, authorized],
          by simp⟩
      · exact ⟨rfl, rfl, by simp [Error.isAuthError, authorized], by simpa using carried⟩

/-- The result of a call when the response is outside 2xx. -/
def Failed (response : Http.Response) (result : Except Error α) : Prop :=
  ∃ e, result = .error e ∧ FailureOf response e

/-- Every call fails on a response outside 2xx, whatever it would do with a body. -/
theorem failed_bind (fails : response.isSuccess = false) (f : Value → Except Error α) :
    Failed response (Client.bodyOf response >>= f) := by
  rw [Client.bodyOf, if_neg (by simp [fails])]
  exact ⟨_, rfl, failureOf_errorOf response⟩

/-! ## Responses in 2xx -/

/-- How the result of a call that reads a record depends on the response. -/
structure Classified (read : Tree → Reading α) (response : Http.Response)
    (result : Except Error α) : Prop where
  record : ∀ a, result = .ok a ↔ response.isSuccess = true ∧
    ∃ body, Json.parseValue? response.text = some body ∧ ¬ Refuses body ∧ read body.tree = .ok a
  refused : response.isSuccess = true → ∀ body, Json.parseValue? response.text = some body →
    Refuses body → ∃ code kind, RejectedWith body code kind ∧ result = .error (.rejected code kind)
  unread : response.isSuccess = true →
    (∀ body, Json.parseValue? response.text = some body → ¬ Refuses body) →
    ∀ e, result = .error e → ∃ cause, e = .json cause
  quiet : response.isSuccess = true → ∀ e, result = .error e →
    e.statusCode = none ∧ e.isTransport = false
  failed : response.isSuccess = false → Failed response result

theorem classified_of_failed {read : Tree → Reading α} {result : Except Error α}
    (fails : response.isSuccess = false) (failed : Failed response result) :
    Classified read response result := by
  obtain ⟨e, rfl, failure⟩ := failed
  exact ⟨by simp [fails], by simp [fails], by simp [fails], by simp [fails],
    fun _ => ⟨e, rfl, failure⟩⟩

theorem classified_of_unparsed {read : Tree → Reading α} (success : response.isSuccess = true)
    (unparsed : Json.parseValue? response.text = none) :
    Classified read response (.error (.json .malformed)) := by
  refine ⟨by simp [unparsed], by simp [unparsed], ?_, ?_, by simp [success]⟩
  · rintro - - e ⟨⟩
    exact ⟨_, rfl⟩
  · rintro - e ⟨⟩
    exact ⟨rfl, rfl⟩

theorem classified_of_refuses {read : Tree → Reading α} {body : Value}
    (success : response.isSuccess = true) (parsed : Json.parseValue? response.text = some body)
    (refuses : Refuses body) : Classified read response (Client.decode read body) := by
  obtain ⟨f, code, kind, detected, same, rejected⟩ :=
    detect_of_refuses (Json.regular_of_parseValue? parsed) refuses
  rw [Client.decode, detected]
  dsimp only
  rw [same]
  refine ⟨?_, ?_, ?_, ?_, by simp [success]⟩
  · simp [parsed, refuses]
  · rintro - body' parsed' -
    obtain rfl : body = body' := Option.some.inj (parsed.symm.trans parsed')
    exact ⟨code, kind, rejected, rfl⟩
  · intro _ accepts
    exact absurd refuses (accepts body parsed)
  · rintro - e ⟨⟩
    exact ⟨rfl, rfl⟩

theorem classified_of_accepts {read : Tree → Reading α} {body : Value}
    (success : response.isSuccess = true) (parsed : Json.parseValue? response.text = some body)
    (accepts : ¬ Refuses body) : Classified read response (Client.decode read body) := by
  rw [Client.decode, detect_of_not_refuses accepts]
  have failure : ∀ e, (read body.tree).mapError Error.json = .error e →
      ∃ cause, e = .json cause := by
    cases read body.tree with
    | error cause =>
      rintro e ⟨⟩
      exact ⟨cause, rfl⟩
    | ok a => rintro e ⟨⟩
  refine ⟨fun a => ?_, ?_, fun _ _ => failure, ?_, by simp [success]⟩
  · cases reads : read body.tree <;> simp [Except.mapError, success, parsed, accepts, reads]
  · rintro - body' parsed' refuses
    obtain rfl : body = body' := Option.some.inj (parsed.symm.trans parsed')
    exact absurd refuses accepts
  · rintro - e failed
    obtain ⟨cause, rfl⟩ := failure e failed
    exact ⟨rfl, rfl⟩

/-- Whatever the record is that a call reads. -/
theorem classified_decode (read : Tree → Reading α) (response : Http.Response) :
    Classified read response (Client.bodyOf response >>= Client.decode read) := by
  cases success : response.isSuccess with
  | false => exact classified_of_failed success (failed_bind success _)
  | true =>
    rw [Client.bodyOf, if_pos success]
    cases parsed : Json.parseValue? response.text with
    | none => exact classified_of_unparsed success parsed
    | some body =>
      by_cases refuses : Refuses body
      · exact classified_of_refuses success parsed refuses
      · exact classified_of_accepts success parsed refuses

/-! ## All calls -/

namespace Client

/-- On every response that is received the result of the call is of this kind. -/
def Answered (kind : Http.Response → Except Error α → Prop) (x : ClientAction α) : Prop :=
  ∃ result, Exchanges result x ∧ ∀ response, kind response (result response)

theorem answered_fetch {c : Client} {read : Tree → Reading α} {path : String}
    {form : Option (List (String × String))} {x : ClientAction α}
    (fetches : c.fetch read path form = x) : Answered (Classified read) x :=
  ⟨_, exchanges_fetch fetches, classified_decode read⟩

/-- What a call to the authority returns depends on the response alone: a record only when the
status, the text, the lack of a refusal and the form of the record all allow it, and else the error
of the first of these that does not. All four calls fail alike outside 2xx. -/
theorem responses_classified (c : Client) :
    (∀ domains csr days, Answered (Classified Certificate.read) (c.create domains csr days)) ∧
    (∀ id, Answered (Classified Certificate.read) (c.get id)) ∧
    (∀ id, Answered (Classified Download.read) (c.download id)) ∧
    ∀ id method, Answered (fun response result => response.isSuccess = false →
      Failed response result) (c.verify id method) := by
  refine ⟨fun _ _ _ => ?_, fun _ => ?_, fun _ => ?_, fun _ _ => ?_⟩
  · exact answered_fetch rfl
  · exact answered_fetch rfl
  · exact answered_fetch rfl
  · exact ⟨_, exchanges_verify rfl, fun response fails => failed_bind fails _⟩

/-! ## A refusal with an empty kind -/

/-- The request that a call sends first, if it sends one. -/
def firstRequest? (x : ClientAction α) : Option Http.Request :=
  match x.run with
  | .ask request _ => some request
  | .done _ => none

/-- A call that sends a request makes of every response to it what it makes of responses. -/
theorem Exchanges.runs {result : Http.Response → Except Error α} {x : ClientAction α}
    (h : Exchanges result x) (sends : (firstRequest? x).isSome = true) :
    ∃ request, ∀ {response : Http.Response} {r : Except Error α},
      Interaction.Runs x.run [⟨request, .ok response⟩] r ↔ r = result response := by
  cases h with
  | unsent e => cases sends
  | sent request =>
    refine ⟨request, fun {response} {r} => Interaction.runs_ask.trans ?_⟩
    simp [onResponse]

def account : Client := ⟨"k", defaultBaseUrl, defaultUserAgent⟩

/-- The refusal `{"error":{"code":7,"type":""},"success":false}`. -/
def emptyKind : Value :=
  .object [("error", .object [("code", .number (.int 7)), ("type", .text "")]),
    ("success", .bool false)]

theorem parseValue?_emptyKind : Json.parseValue? (Json.write emptyKind) = some emptyKind := by
  have regular : Json.Regular Json.maxNesting emptyKind := by
    simp only [emptyKind, Json.Regular, Json.RegularMembers, Increasing, Precedes]
    decide
  refine Json.parseValue?_write (fun n hn => ?_) regular
  obtain rfl : n = .int 7 := by simpa [emptyKind, Json.numbers, Json.numbersUnder] using hn
  exact Json.exact_int (by decide) (by decide)

/-- The response with that refusal. -/
def emptyKindResponse : Http.Response := ⟨200, Utf8.encode (Json.write emptyKind)⟩

/-- The envelope is read with the code 7 and the empty type, but the error is of another kind. -/
theorem refused_emptyKind :
    emptyKindResponse.isSuccess = true ∧
      Json.parseValue? emptyKindResponse.text = some emptyKind ∧ Refuses emptyKind ∧
      Failure.read emptyKind.tree = .ok ⟨false, some ⟨7, ""⟩⟩ ∧
      ∃ request,
        Interaction.Runs (account.get "c1").run [⟨request, .ok emptyKindResponse⟩]
          (.error (.rejected 7 "unknown_error")) ∧
        ¬ Interaction.Runs (account.get "c1").run [⟨request, .ok emptyKindResponse⟩]
          (.error (.rejected 7 "")) := by
  obtain ⟨x, gets⟩ : ∃ x, account.get "c1" = x := ⟨_, rfl⟩
  have sends : (firstRequest? x).isSome = true := gets ▸ by decide +kernel
  have parsed : Json.parseValue? emptyKindResponse.text = some emptyKind := by
    rw [Http.Response.text, emptyKindResponse, Utf8.decodeLossy_encode, parseValue?_emptyKind]
  have rejected : bodyOf emptyKindResponse >>= decode Certificate.read =
      .error (.rejected 7 "unknown_error") := by
    rw [bodyOf, if_pos (by rfl), parsed]
    rfl
  obtain ⟨request, runs⟩ := (exchanges_fetch gets).runs sends
  refine ⟨rfl, parsed, rfl, rfl, request, ?_, ?_⟩
  · rw [gets, runs, rejected]
  · rw [gets, runs, rejected]
    simp

end Client
end CertEnrollment.Authority
