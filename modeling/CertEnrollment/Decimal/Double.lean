/-!
# Finite double-precision numbers

A finite double is a sign and the pattern of its remaining 63 bits, read as a
natural number. Patterns are ordered as the magnitudes they stand for, so the
neighbours of a magnitude are the neighbours of its pattern. All arithmetic is
exact arithmetic on natural numbers followed by one rounding, half to even.
-/
namespace CertEnrollment.Decimal

/-- A finite double; `magnitude` is below `infinitePattern`. -/
structure Double where
  negative : Bool
  magnitude : Nat
  deriving DecidableEq, Repr, Inhabited

/-- The pattern one above the largest finite magnitude. -/
def infinitePattern : Nat := 2047 * Nat.pow 2 52

/-- A positive rational as numerator and denominator. -/
structure Ratio where
  num : Nat
  den : Nat

/-- The integral significand of a pattern. -/
def significand (pattern : Nat) : Nat :=
  if pattern < Nat.pow 2 52 then pattern else Nat.pow 2 52 + pattern % Nat.pow 2 52

/-- The exponent of two that belongs to `significand`, raised by 1074. -/
def raisedExponent (pattern : Nat) : Nat := pattern / Nat.pow 2 52 - 1

/-- `n · 2 ^ (raised - 1074)` as a ratio. -/
def scaled (n raised : Nat) : Ratio :=
  if 1074 ≤ raised then ⟨n * Nat.pow 2 (raised - 1074), 1⟩
  else ⟨n, Nat.pow 2 (1074 - raised)⟩

/-- The value of a pattern. -/
def valueOf (pattern : Nat) : Ratio := scaled (significand pattern) (raisedExponent pattern)

/-- `num / den` to the nearest integer, a half to the even one. -/
def roundDiv (num den : Nat) : Nat :=
  let q := num / den
  let twice := 2 * (num % den)
  if twice < den then q
  else if den < twice then q + 1
  else q + q % 2

/-- The pattern nearest to a ratio, a tie to the even significand; `infinitePattern`
or more when the ratio is out of range. The exponent is chosen so that the quotient
has 53 bits, or is the least one; a quotient that rounds up to 54 bits carries into
the exponent by itself. -/
def nearest (r : Ratio) : Nat :=
  if r.num = 0 then 0
  else
    let guess : Int := (r.num.log2 : Int) - r.den.log2 - 53 + 1074
    let fits (raised : Nat) : Bool :=
      let s := scaled 1 raised
      r.num * s.den / (r.den * s.num) < Nat.pow 2 53
    let base := guess.toNat
    let raised := if fits base then base else base + 1
    let s := scaled 1 raised
    raised * Nat.pow 2 52 + roundDiv (r.num * s.den) (r.den * s.num)

/-- The rounded product of two magnitudes. -/
def times (a b : Nat) : Nat :=
  let x := valueOf a
  let y := valueOf b
  nearest ⟨x.num * y.num, x.den * y.den⟩

/-- The rounded quotient of two magnitudes, the second one positive. -/
def quotient (a b : Nat) : Nat :=
  let x := valueOf a
  let y := valueOf b
  nearest ⟨x.num * y.den, x.den * y.num⟩

/-- The double nearest to a power of ten. -/
def powerOfTen (n : Nat) : Nat := nearest ⟨Nat.pow 10 n, 1⟩

/-- Scales a rounded significand by ten to the `exponent`. Powers up to `10 ^ 308`
are applied in one rounded step; a smaller number takes steps of `10 ^ 308`, and no
significand survives a third one. Out of range is `none`. -/
def scaleByTen : Nat → Nat → Int → Option Nat
  | 0, _, _ => some 0
  | steps + 1, f, exponent =>
    if exponent.natAbs ≤ 308 then
      if 0 ≤ exponent then
        let p := times f (powerOfTen exponent.natAbs)
        if p < infinitePattern then some p else none
      else some (quotient f (powerOfTen exponent.natAbs))
    else if f = 0 then some 0
    else if 0 ≤ exponent then none
    else scaleByTen steps (quotient f (powerOfTen 308)) (exponent + 308)

/-- The double read from a decimal `digits · 10 ^ exponent`: the digits are rounded
first, then scaled, so the result may differ from the nearest double by one unit. -/
def Double.ofDecimal (negative : Bool) (digits : Nat) (exponent : Int) : Option Double :=
  (scaleByTen 4 (nearest ⟨digits, 1⟩) exponent).map (⟨negative, ·⟩)

/-- Equality of values: the two zeros are one value. -/
def Double.same (a b : Double) : Bool :=
  a.magnitude == b.magnitude && (a.negative == b.negative || a.magnitude == 0)

end CertEnrollment.Decimal
