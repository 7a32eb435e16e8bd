import CertEnrollment.Text.CaseTable

/-!
# Full lowercase

Lowercase by the Unicode rules. Two characters need more than the table of
single mappings: the dotted capital `İ` becomes two characters, and a capital
sigma at the end of a word becomes the final sigma.
-/
namespace CertEnrollment.Text

/-- The lowercase form of a character on its own. -/
def lowerChar (c : Char) : List Char :=
  if c == 'İ' then ['i', '\u0307']
  else match lowercaseRuns.find? (·.holds c.toNat) with
    | some r => [Char.ofNat (c.toNat + r.shift).toNat]
    | none => [c]

/-- Whether the first character that is not ignorable is cased. -/
def casedAhead (cs : List Char) : Bool :=
  match cs.dropWhile (inRanges caseIgnorableRanges) with
  | c :: _ => inRanges casedRanges c
  | [] => false

/-- Lowercases the rest of a text; `before` holds the characters already passed, last first. -/
def lowercaseFrom (before : List Char) : List Char → List Char
  | [] => []
  | c :: rest =>
    let here := if c == 'Σ' then
        if casedAhead before && !casedAhead rest then ['ς'] else ['σ']
      else lowerChar c
    here ++ lowercaseFrom (c :: before) rest

/-- The lowercase form of a text. -/
def lowercase (s : String) : String := String.ofList (lowercaseFrom [] s.toList)

end CertEnrollment.Text
