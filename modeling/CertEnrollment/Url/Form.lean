import CertEnrollment.Url.Percent

/-!
# Form encoding

Pairs of names and values as a form sends them: letters, digits and `*-._` stand as
they are, a space becomes a plus sign, every other byte is percent-encoded.
-/
namespace CertEnrollment.Url

def isFormChar (c : Char) : Bool := c.isAlphanum || ['*', '-', '.', '_'].contains c

def encodeFormChar (c : Char) : List Char :=
  if c = ' ' then ['+'] else encodeChar (fun c => !isFormChar c) c

def encodeFormText (s : String) : List Char := s.toList.flatMap encodeFormChar

def encodePair (pair : String × String) : List Char :=
  encodeFormText pair.1 ++ '=' :: encodeFormText pair.2

/-- The pairs one after another with ampersands between them. -/
def encodeForm (pairs : List (String × String)) : List Char :=
  ['&'].intercalate (pairs.map encodePair)

end CertEnrollment.Url
