/-!
# Scanners

A scanner takes something from the front of a sequence and leaves the rest, or fails and
takes nothing. Repetition ends where the scanner fails or takes nothing, and so ends.
-/
namespace CertEnrollment

abbrev Scanner (τ α : Type) := StateT (List τ) Option α

namespace Scanner
variable {τ α : Type}

/-- The first element. -/
def next : Scanner τ τ := fun xs =>
  match xs with
  | [] => none
  | x :: rest => some (x, rest)

/-- The first element, if it satisfies `p`. -/
def one (p : τ → Bool) : Scanner τ τ := fun xs =>
  match xs with
  | [] => none
  | x :: rest => if p x then some (x, rest) else none

/-- The longest run of elements that satisfy `p`. -/
def span (p : τ → Bool) : Scanner τ (List τ) := fun xs =>
  some (xs.takeWhile p, xs.dropWhile p)

/-- The longest run of elements that satisfy `p`, at least one. -/
def run (p : τ → Bool) : Scanner τ (List τ) := fun xs =>
  if (xs.takeWhile p).isEmpty then none else span p xs

/-- So many elements. -/
def take (n : Nat) : Scanner τ (List τ) := fun xs =>
  if n ≤ xs.length then some (xs.splitAt n) else none

/-- These elements. -/
def exactly [BEq τ] (word : List τ) : Scanner τ Unit := fun xs =>
  if word.isPrefixOf xs then some ((), xs.drop word.length) else none

/-- Nothing, and only at the end. -/
def atEnd : Scanner τ Unit := fun xs => if xs.isEmpty then some ((), xs) else none

/-- As often as it succeeds and takes something. -/
def manyFrom (x : Scanner τ α) (xs : List τ) : List α × List τ :=
  match x xs with
  | none => ([], xs)
  | some (a, rest) =>
    if rest.length < xs.length then
      let more := manyFrom x rest
      (a :: more.1, more.2)
    else ([], xs)
termination_by xs.length

/-- As often as it succeeds. -/
def many (x : Scanner τ α) : Scanner τ (List α) := fun xs => some (manyFrom x xs)

/-- One or more, with separators between them. -/
def separated {β : Type} (x : Scanner τ α) (separator : Scanner τ β) : Scanner τ (List α) := do
  let first ← x
  let others ← many do
    let _ ← separator
    x
  return first :: others

/-- All of the sequence. -/
def whole (x : Scanner τ α) : Scanner τ α := fun xs =>
  match x xs with
  | some (a, []) => some (a, [])
  | _ => none

/-- Whether the sequence starts with something. -/
def sees (x : Scanner τ α) : Scanner τ Bool := fun xs => some ((x xs).isSome, xs)

end Scanner
end CertEnrollment
