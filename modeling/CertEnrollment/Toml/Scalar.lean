import CertEnrollment.Calendar
import CertEnrollment.Data.Tree
import CertEnrollment.Toml.Text

/-!
# Scalars of TOML

Numbers, truth values, dates and times. A float spells no value here, since no record
has one; it only has to be well-formed. A date or time is an object with one member of a
name that no record has.
-/
namespace CertEnrollment.Toml
open Scanner Data

/-! ## Numbers -/

/-- Digits of a base, each underscore between two of them. -/
def digits (base : Nat) : Reader (List Char) := do
  let digit := one fun c => (Text.digitIn? base c).isSome
  let first ← digit
  let others ← many do
    let _ ← optional (exactly ['_'])
    digit
  return first :: others

/-- A sign; true for minus. -/
def sign : Reader Bool :=
  (do exactly ['+']; return false) <|> (do exactly ['-']; return true) <|> pure false

/-- Decimal digits without a zero in front of others. -/
def decimals : Reader (List Char) := do
  if ← sees (exactly ['0']) then
    exactly ['0']
    return ['0']
  else digits 10

/-- An integer of 64 bits. -/
def bounded (n : Int) : Reader Tree :=
  if leastInt ≤ n ∧ n ≤ greatestInt then return .number (some (.int n)) else failure

def integerIn (base : Nat) (mark : List Char) : Reader Tree := do
  exactly mark
  match Text.numberIn? base (← digits base) with
  | none => failure
  | some n => bounded n

def integer : Reader Tree := do
  let negative ← sign
  match Text.numberIn? 10 (← decimals) with
  | none => failure
  | some n => bounded (if negative then -n else n)

/-- Whether `digits · 10 ^ power` rounds to more than the largest double. -/
def overflows (digits : Nat) (power : Int) : Bool :=
  let places : Int := power + (toString digits).length
  if digits = 0 ∨ places < 300 then false
  else if 400 < places then true
  else
    let r : Decimal.Ratio :=
      if power < 0 then ⟨digits, Nat.pow 10 power.natAbs⟩ else ⟨digits * Nat.pow 10 power.natAbs, 1⟩
    Decimal.infinitePattern ≤ Decimal.nearest r

/-- The exponent of a float. -/
def exponent : Reader Int := do
  let _ ← one fun c => c == 'e' || c == 'E'
  let negative ← sign
  match Text.numberIn? 10 (← digits 10) with
  | none => failure
  | some n => return if negative then -n else n

def fraction : Reader (List Char) := do
  exactly ['.']
  digits 10

/-- A float. One that is too large is refused, one that is too small is not. -/
def float : Reader Tree := do
  let negative ← sign
  let special : Reader Bool := do
    exactly "inf".toList <|> exactly "nan".toList
    return false
  let numeral : Reader Bool := do
    let whole ← decimals
    let part ← optional fraction
    let power ← optional exponent
    if part.isNone ∧ power.isNone then failure
    let part := part.getD []
    let digits := (Text.numberIn? 10 (whole ++ part)).getD 0
    return overflows digits (power.getD 0 - part.length)
  if (← numeral <|> special) && !negative then failure else return .number none

def number : Reader Tree :=
  integerIn 16 ['0', 'x'] <|> integerIn 8 ['0', 'o'] <|> integerIn 2 ['0', 'b'] <|>
    float <|> integer

/-! ## Dates and times -/

/-- A number of so many decimal digits within bounds, with its text. -/
def bounds (count low high : Nat) : Reader (Nat × List Char) := do
  let cs ← take count
  match Text.numberIn? 10 cs with
  | none => failure
  | some n => if low ≤ n ∧ n ≤ high then return (n, cs) else failure

def date : Reader (List Char) := do
  let (year, ys) ← bounds 4 0 9999
  exactly ['-']
  let (month, ms) ← bounds 2 1 12
  exactly ['-']
  let (day, ds) ← bounds 2 1 31
  if Calendar.hasDay year month day then return ys ++ '-' :: ms ++ '-' :: ds else failure

/-- The digits of a second after the point, nine at most and without zeros at the end. -/
def subsecond : Reader (List Char) := do
  exactly ['.']
  let ds ← run Char.isDigit
  let kept := ((ds.take 9).reverse.dropWhile (· == '0')).reverse
  return if kept.isEmpty then [] else '.' :: kept

/-- A time of day; a minute may have a leap second. -/
def clock : Reader (List Char) := do
  let (_, hs) ← bounds 2 0 23
  exactly [':']
  let (_, ms) ← bounds 2 0 59
  exactly [':']
  let (_, ss) ← bounds 2 0 60
  return hs ++ ':' :: ms ++ ':' :: ss ++ (← optional subsecond).getD []

/-- The distance from the zero meridian. -/
def offset : Reader (List Char) := do
  match ← next with
  | 'Z' | 'z' => return ['Z']
  | '+' => distance '+'
  | '-' => distance '-'
  | _ => failure
where
  distance (side : Char) : Reader (List Char) := do
    let (h, hs) ← bounds 2 0 23
    exactly [':']
    let (m, ms) ← bounds 2 0 59
    let side := if h = 0 ∧ m = 0 then '+' else side
    return side :: hs ++ ':' :: ms

/-- A date, a time of day, or both. -/
def instant : Reader (List Char) := do
  let onDate : Reader (List Char) := do
    let day ← date
    let time ← optional do
      let _ ← one fun c => c == 'T' || c == 't' || c == ' '
      let time ← clock
      return 'T' :: time ++ (← optional offset).getD []
    return day ++ time.getD []
  onDate <|> clock

/-- The name of the only member of a date or time. -/
def instantName : String := "$__toml_private_datetime"

def dateTime : Reader Tree := do
  let cs ← instant
  return .object [(some instantName, .text (some (String.ofList cs)))]

/-! ## Scalars -/

def truth : Reader Tree := do
  (do exactly "true".toList; return .bool true) <|>
    (do exactly "false".toList; return .bool false)

def scalar : Reader Tree :=
  (do return .text (some (← string))) <|> dateTime <|> number <|> truth

end CertEnrollment.Toml
