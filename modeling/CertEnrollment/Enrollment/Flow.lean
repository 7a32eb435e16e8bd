import CertEnrollment.Authority.Certificate
import CertEnrollment.Authority.Challenge
import CertEnrollment.Authority.Download
import CertEnrollment.Cache.Prefetch
import CertEnrollment.Enrollment.Policy
import CertEnrollment.Interaction

/-!
# What an enrollment asks for

The calls to the services around an enrollment, and the requests that have to do with
other enrollments and with time. The same flow of requests can be run alone, together
with others, or in any other order that its requests allow.
-/
namespace CertEnrollment.Enrollment
open Authority Cache

/-- A call to a service. -/
inductive Call where
  /-- Has the DNS side look whether it can serve a host, without any change. -/
  | place (host : String)
  | cache (a : Cache.Ask)
  | create (names : List String) (pem : String) (validityDays : Nat)
  /-- Has the challenges of a certificate checked. -/
  | check (id : String)
  | get (id : String)
  | download (id : String)
  | createRecord (host target : String)
  | deleteRecord (host : String)

abbrev Call.Answer : Call → Type
  | place _ => Except Dns.Error Unit
  | cache a => a.Answer
  | create _ _ _ => Except Authority.Error Certificate
  | check _ => Except Authority.Error VerificationOutcome
  | get _ => Except Authority.Error Certificate
  | download _ => Except Authority.Error Download
  | createRecord _ _ => Except Dns.Error Unit
  | deleteRecord _ => Except Dns.Error Unit

inductive Ask where
  | call (c : Call)
  /-- Waits until all locks of a set are held. -/
  | lock (domains : DomainSet)
  /-- Gives all locks back. -/
  | unlock
  /-- The time in milliseconds. -/
  | now
  | sleep (ms : Nat)

abbrev Ask.Answer : Ask → Type
  | call c => c.Answer
  | lock _ => Unit
  | unlock => Unit
  | now => Nat
  | sleep _ => Unit

/-- What is asked for in turn, down to a result. -/
abbrev Flow := Interaction Ask Ask.Answer

/-- A flow that may end with the message that its client gets to see. -/
abbrev Action := ExceptT String Flow

/-- Makes a call and reports its failure after `what`. -/
def Call.orFail {ε α : Type} (answer : Flow (Except ε α)) (what : String) (message : ε → String) :
    Action α :=
  ExceptT.mk do return (← answer).mapError fun e => what ++ message e

/-- Makes a call. -/
def Call.make (c : Call) : Flow c.Answer := Interaction.call (Ask.call c)

/-- Something asked of the cache store. -/
def onCache {α : Type} (x : Cache.Action α) : Flow (Except Error α) :=
  x.run.runWith fun a => (Call.cache a).make

/-- How an enrollment is set up. -/
structure Setup where
  policy : Policy
  cache : Prefetch
  /-- A bound on the number of looks at the status, for clocks that sleeping does not
  move on. -/
  looks : Nat := policy.looks

end CertEnrollment.Enrollment
