import CertEnrollment.Calendar
import CertEnrollment.X509.Basic

/-!
# Certificates

The form of a certificate is checked, the signature is not. Times have to be on the
calendar.
-/
namespace CertEnrollment.X509
open Der Scanner

/-! ## Times -/

def digit : Reader Nat := do
  let b ← next
  if 48 ≤ b ∧ b ≤ 57 then return b.toNat - 48 else failure

/-- A number of two digits. -/
def twoDigits : Reader Nat := do
  let tens ← digit
  return tens * 10 + (← digit)

/-- The seconds, which may be left out before a time zone of one sign. -/
def seconds : Reader Nat := fun bytes =>
  if bytes.length < 2 then some (0, bytes) else twoDigits bytes

/-- The rest of a time after its year. -/
def timeInYear (year : Nat) : Reader Unit := do
  let month ← twoDigits
  let day ← twoDigits
  let hour ← twoDigits
  let minute ← twoDigits
  let more ← get
  let second ← seconds
  if Calendar.hasDay year month day ∧ hour ≤ 23 ∧ minute ≤ 59 ∧ second ≤ 59 ∧ more ≠ [] then
    return
  else failure

/-- A time zone: the letter for the zero meridian, or the distance from it. -/
def zone : Reader Unit := do
  let sign ← next
  if sign = 'Z'.toUInt8 then return
  else if sign = '+'.toUInt8 ∨ sign = '-'.toUInt8 then
    let hours ← twoDigits
    let minutes ← twoDigits
    if hours ≤ 25 ∧ minutes ≤ 59 then return else failure
  else failure

/-- Up to three digits of a second, after a point. -/
def fraction : Reader Unit := fun bytes =>
  match bytes with
  | [] => some ((), [])
  | b :: rest =>
    if b ≠ '.'.toUInt8 then some ((), bytes)
    else
      let digits := rest.takeWhile fun d => 48 ≤ d && d ≤ 57
      if digits.length ≤ 3 then some ((), rest.drop digits.length) else none

/-- A time with a year of two digits, which is one from 1950 to 2049. -/
def shortTime : Reader Unit := do
  let content ← primitive Tag.utcTime
  let read : Reader Unit := do
    let n ← twoDigits
    timeInYear (if n < 50 then 2000 + n else 1900 + n)
    zone
  if (whole read content).isSome then return else failure

/-- A time with a year of four digits and on the zero meridian. -/
def longTime : Reader Unit := do
  let content ← primitive Tag.generalizedTime
  let read : Reader Unit := do
    let centuries ← twoDigits
    timeInYear (centuries * 100 + (← twoDigits))
    fraction
    zone
  if content.getLast? = some 'Z'.toUInt8 ∧ (whole read content).isSome then return else failure

def time : Reader Unit := fun bytes =>
  match shortTime bytes with
  | some r => some r
  | none => longTime bytes

def validity : Reader Unit := sequence do
  time
  time

/-! ## Certificates -/

/-- The version, if it is given. -/
def version : Reader Unit := fun bytes =>
  match element bytes with
  | none => none
  | some (e, rest) =>
    if e.header.kind = 2 ∧ e.header.number = 0 then
      (natural 32 e.content).map fun _ => ((), rest)
    else some ((), bytes)

def serialNumber : Reader Unit := do
  let e ← element
  if e.header.number = Tag.integer then return else failure

/-- An identifier of issuer or subject, if it is given under this number. -/
def uniqueIdentifier (number : Nat) : Reader Unit := fun bytes =>
  if bytes.isEmpty then some ((), bytes)
  else match element bytes with
    | none => none
    | some (e, rest) =>
      if e.header.number ≠ number then some ((), bytes)
      else if e.content.isEmpty then none
      else some ((), rest)

/-- The extensions at the end of the signed part, if there are any. -/
def trailingExtensions : Reader Unit := fun bytes =>
  if bytes.isEmpty then some ((), bytes)
  else match header bytes with
    | none => none
    | some (h, rest) =>
      if h.number = 3 then (whole extensions rest).map fun r => ((), r.2) else none

/-- The signed part of a certificate. -/
def certificateInfo : Reader Unit := sequence do
  version
  serialNumber
  algorithm
  let _issuer ← distinguishedName
  validity
  let _subject ← distinguishedName
  publicKey
  uniqueIdentifier 1
  uniqueIdentifier 2
  trailingExtensions

/-- Whether the bytes start with a certificate. -/
def isCertificate (der : List UInt8) : Bool :=
  let certificate : Reader Unit := sequence do
    certificateInfo
    algorithm
    let _ ← bitString
  (certificate der).isSome

end CertEnrollment.X509
