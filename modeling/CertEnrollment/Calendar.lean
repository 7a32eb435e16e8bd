/-!
# The calendar

Which days there are, by the rule of leap years.
-/
namespace CertEnrollment.Calendar

def isLeap (year : Nat) : Bool := year % 4 == 0 && (year % 100 != 0 || year % 400 == 0)

/-- How many days a month has; none if there is no such month. -/
def daysIn (year month : Nat) : Nat :=
  match month with
  | 2 => if isLeap year then 29 else 28
  | 4 | 6 | 9 | 11 => 30
  | 1 | 3 | 5 | 7 | 8 | 10 | 12 => 31
  | _ => 0

/-- Whether there is such a day. -/
def hasDay (year month day : Nat) : Bool := 1 ≤ day && day ≤ daysIn year month

end CertEnrollment.Calendar
