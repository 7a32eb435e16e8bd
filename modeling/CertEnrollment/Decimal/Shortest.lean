import CertEnrollment.Decimal.Double

/-!
# The shortest decimal of a double

Every decimal strictly between the two midpoints around a double reads back as
that double; the midpoints themselves do when the significand is even. For each
number of digits from one up, the two decimals of that many digits around the
value are tried, and the first number of digits with a hit wins.
-/
namespace CertEnrollment.Decimal

/-- Digits and the power of ten of the last one. -/
structure Numeral where
  digits : Nat
  exponent : Int

/-- `n · 10 ^ exponent` as a ratio. -/
def tens (n : Nat) (exponent : Int) : Ratio :=
  if 0 ≤ exponent then ⟨n * Nat.pow 10 exponent.toNat, 1⟩ else ⟨n, Nat.pow 10 (-exponent).toNat⟩

def Ratio.lt (a b : Ratio) : Bool := a.num * b.den < b.num * a.den

def Ratio.le (a b : Ratio) : Bool := a.num * b.den ≤ b.num * a.den

/-- The distance between two ratios. -/
def Ratio.gap (a b : Ratio) : Ratio :=
  ⟨max (a.num * b.den) (b.num * a.den) - min (a.num * b.den) (b.num * a.den), a.den * b.den⟩

/-- Whether a decimal rounds to the pattern: it lies between the midpoints towards
the neighbouring patterns, ends included when the significand is even. -/
def roundsTo (pattern : Nat) (d : Numeral) : Bool :=
  let v := valueOf pattern
  let below := valueOf (pattern - 1)
  let above := valueOf (pattern + 1)
  let low : Ratio := ⟨v.num * below.den + below.num * v.den, 2 * v.den * below.den⟩
  let high : Ratio := ⟨v.num * above.den + above.num * v.den, 2 * v.den * above.den⟩
  let t := tens d.digits d.exponent
  if pattern % 2 = 0 then low.le t && t.le high else low.lt t && t.lt high

/-- How many decimal digits a number has. -/
def digitCount (n : Nat) : Nat := (Nat.toDigits 10 n).length

/-- The power of ten of the first digit of a positive ratio. -/
def leadingPower (r : Ratio) : Int :=
  if r.den ≤ r.num then (digitCount (r.num / r.den) : Int) - 1
  else -(digitCount ((r.den + r.num - 1) / r.num - 1) : Int)

/-- The hit among the two decimals with `count` digits around the value, the nearer
one of two hits. -/
def hit? (pattern count : Nat) : Option Numeral :=
  let v := valueOf pattern
  let e := leadingPower v - (count - 1)
  let t := tens 1 e
  let q := v.num * t.den / (v.den * t.num)
  let lower : Numeral := ⟨q, e⟩
  let upper : Numeral := ⟨q + 1, e⟩
  match roundsTo pattern lower, roundsTo pattern upper with
  | true, true =>
    let down := v.gap (tens q e)
    let up := v.gap (tens (q + 1) e)
    if down.lt up || (down.le up && q % 2 == 0) then some lower else some upper
  | true, false => some lower
  | false, true => some upper
  | false, false => none

/-- The shortest decimal of a positive pattern; seventeen digits always suffice. -/
def shortest (pattern : Nat) : Numeral :=
  ((List.range 17).findSome? fun n => hit? pattern (n + 1)).getD ⟨0, 0⟩

/-- Drops the zeros at the end of the digits; `fuel` bounds their number. -/
def Numeral.stripZeros : Nat → Numeral → Numeral
  | 0, d => d
  | fuel + 1, d =>
    if d.digits % 10 = 0 ∧ d.digits ≠ 0 then stripZeros fuel ⟨d.digits / 10, d.exponent + 1⟩
    else d

/-- The digits with a point after the first `whole` ones, zeros filled in, and `.0`
when nothing follows the point. -/
def positional (digits : List Char) (whole : Int) : List Char :=
  if whole ≤ 0 then '0' :: '.' :: (List.replicate (-whole).toNat '0' ++ digits)
  else
    let padded := digits ++ List.replicate (whole.toNat - digits.length) '0'
    let fraction := padded.drop whole.toNat
    padded.take whole.toNat ++ '.' :: (if fraction.isEmpty then ['0'] else fraction)

/-- The digits in scientific notation, the exponent with its sign and unpadded. -/
def scientific (digits : List Char) (power : Int) : List Char :=
  let exponent := 'e' :: (if power < 0 then '-' else '+') :: Nat.toDigits 10 power.natAbs
  match digits with
  | [] => exponent
  | [d] => d :: exponent
  | d :: more => d :: '.' :: (more ++ exponent)

/-- The text of a double: the shortest digits that read back, positional from
`10 ^ -5` to below `10 ^ 16` and scientific elsewhere. -/
def Double.write (x : Double) : List Char :=
  let body :=
    if x.magnitude = 0 then ['0', '.', '0']
    else
      let d := (shortest x.magnitude).stripZeros 20
      let digits := Nat.toDigits 10 d.digits
      let power := d.exponent + digits.length - 1
      if -5 ≤ power ∧ power < 16 then positional digits (power + 1) else scientific digits power
  if x.negative then '-' :: body else body

end CertEnrollment.Decimal
