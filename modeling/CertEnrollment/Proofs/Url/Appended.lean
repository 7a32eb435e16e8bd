import CertEnrollment.Proofs.Text.Canonical
import CertEnrollment.Proofs.Url.Forms
import CertEnrollment.Url.Basic
import Mathlib.Data.List.Basic
import Mathlib.Data.List.TakeDrop

/-!
# What is appended to URLs

A web address that goes on with a slash and a number is read as the same URL with the number at
the end of its path, or else of its query or its fragment, if it has one. So the number changes
nothing about who is asked, and different numbers give different URLs. Different pairs at the end
of a query give different URLs, too.
-/
namespace CertEnrollment.Url
open Text

/-! ## Slash and digits -/

/-- A text of digits only, in ASCII. -/
def Digits (ds : List Char) : Prop := ∀ c ∈ ds, c.isDigit = true

theorem toList_toString (n : Nat) : (toString n).toList = Nat.toDigits 10 n := Nat.toList_repr

theorem toString_injective : Function.Injective (toString : Nat → String) := by
  intro n m same
  have digits := congrArg String.toList same
  rw [toList_toString, toList_toString] at digits
  have read (n : Nat) := Nat.ofDigitChars_toDigits (b := 10) (n := n) (by decide) (by decide)
  rw [← read n, digits, read m]

theorem digits_toDigits (n : Nat) : Digits (Nat.toDigits 10 n) :=
  fun _ hc => Nat.isDigit_of_mem_toDigits (by decide) (by decide) hc

theorem digits_toString (n : Nat) : Digits (toString n).toList :=
  toList_toString n ▸ digits_toDigits n

variable {ds : List Char} {sep : Char}

theorem Digits.bounds (h : Digits ds) {c : Char} (hc : c ∈ ds) : 48 ≤ c.toNat ∧ c.toNat ≤ 57 := by
  simpa [Char.isDigit, UInt32.le_iff_toNat_le] using h c hc

theorem Digits.not_mem (h : Digits ds) {c : Char} (other : c.isDigit = false) : c ∉ ds :=
  fun hc => by cases other.symm.trans (h c hc)

/-- A separator is not among a slash and digits. -/
theorem Digits.not_mem_cons (h : Digits ds) {c : Char} (other : c.isDigit = false)
    (noSlash : c ≠ '/') : c ∉ '/' :: ds := by
  simp [noSlash, h.not_mem other]

theorem reserved_digit {c : Char} (digit : c.isDigit = true) : inFragmentSet c = false ∧
    inPathSet c = false ∧ inQuerySet true c = false := by
  have alone : Digits [c] := by simpa [Digits] using digit
  have bounds := alone.bounds List.mem_cons_self
  have other {d : Char} (sign : d.isDigit = false) : c ≠ d := by
    rintro rfl
    cases sign.symm.trans digit
  have control : isControl c = false := by
    simp [isControl]
    omega
  simp [inPathSet, inFragmentSet, inQuerySet, control, other]

/-- Digits stand for themselves wherever they are not reserved. -/
theorem Digits.percentEncode {reserved : Char → Bool} (h : Digits ds)
    (free : ∀ c, c.isDigit = true → reserved c = false) : percentEncode reserved ds = ds := by
  refine percentEncode_eq_self fun c hc => ⟨?_, free c (h c hc)⟩
  have small := (h.bounds hc).2
  omega

/-- Digits are no dot segment. -/
theorem Digits.dots (h : Digits ds) : dots ds = 0 := by
  have lower : ds.map Char.toLower = ds := by
    refine (List.map_congr_left fun c hc => ?_).trans (List.map_id ds)
    have below := (h.bounds hc).2
    rw [← Char.toNat_inj, toNat_toLower, if_neg (by omega), id]
  have other : ∀ s : String, '.' ∈ s.toList ∨ '%' ∈ s.toList → String.ofList ds ≠ s := by
    rintro s special rfl
    rw [String.toList_ofList] at special
    rcases special with dot | percent
    · exact h.not_mem (by decide) dot
    · exact h.not_mem (by decide) percent
  rw [Url.dots, lower, if_neg, if_neg]
  · simp [other]
  · simp [other]

/-! ## Paths -/

/-- A segment at the end that is no dot segment stays there. -/
theorem resolveDots_append (above segments : List (List Char)) : ∃ front, ∀ s, dots s = 0 →
    resolveDots above (segments ++ [s]) = front ++ [s] := by
  induction segments generalizing above with
  | nil =>
    refine ⟨above.reverse, fun s plain => ?_⟩
    simp [resolveDots, plain]
  | cons first segments ih =>
    obtain ⟨kept, onward⟩ : ∃ kept, ∀ s, resolveDots above (first :: segments ++ [s]) =
        resolveDots kept (segments ++ [s]) := by
      refine ⟨?kept, ?onward⟩
      case onward =>
        intro s
        have more : ¬((segments ++ [s]).isEmpty = true ∧ dots first ≠ 0) := by simp
        rw [List.cons_append, resolveDots]
        exact if_neg more
    obtain ⟨front, last⟩ := ih kept
    exact ⟨front, fun s plain => (onward s).trans (last s plain)⟩

/-- What counts as a slash in the path of a web address is one. -/
def slashed (cs : List Char) : List Char := cs.map fun c => if c = '\\' then '/' else c

theorem Digits.slashed (h : Digits ds) : slashed ds = ds := by
  refine (List.map_congr_left fun c hc => if_neg ?_).trans (List.map_id' ds)
  rintro rfl
  exact h.not_mem (by decide) hc

theorem Digits.splitAt (h : Digits ds) : splitAt '/' ds = [ds] :=
  splitAt_eq_iff.mpr ⟨by simp, by simpa using h.not_mem (by decide), by simp⟩

/-- The last segment of a path, when it is a number. -/
theorem segmentsOf_of_last (pieces : List (List Char)) : ∃ front, ∀ cs ds, Digits ds →
    Text.splitAt '/' (slashed cs) = pieces ++ [ds] →
      segmentsOf true cs = .segments (front ++ [String.ofList ds]) := by
  obtain ⟨front, last⟩ := resolveDots_append [] (pieces.map (percentEncode inPathSet))
  refine ⟨front.map String.ofList, fun cs ds digits cut => ?_⟩
  have encoded := digits.percentEncode fun c digit => (reserved_digit digit).2.1
  rw [segmentsOf, if_pos rfl]
  change Path.segments ((resolveDots [] ((Text.splitAt '/' (slashed cs)).map _)).map _) = _
  rw [cut, List.map_append, List.map_singleton, encoded, last ds digits.dots, List.map_append]
  rfl

/-- A path that goes on with a slash and a number ends with the number. -/
theorem pathAfter_append (cs : List Char) : ∃ front, ∀ ds, Digits ds →
    pathAfter true (cs ++ '/' :: ds) = .segments (front ++ [String.ofList ds]) := by
  have behind (cs : List Char) {ds : List Char} (digits : Digits ds) :
      Text.splitAt '/' (slashed (cs ++ '/' :: ds)) = Text.splitAt '/' (slashed cs) ++ [ds] := by
    have parts : slashed (cs ++ '/' :: ds) = slashed cs ++ '/' :: slashed ds := by
      simp [Url.slashed]
    rw [parts, digits.slashed, splitAt_append, digits.splitAt]
  cases cs with
  | nil =>
    obtain ⟨front, last⟩ := segmentsOf_of_last []
    refine ⟨front, fun ds digits => ?_⟩
    rw [List.nil_append, pathAfter, if_pos (by simp)]
    exact last ds ds digits (by rw [digits.slashed, digits.splitAt, List.nil_append])
  | cons c cs =>
    by_cases slash : (c == '/' || (true && c == '\\')) = true
    · obtain ⟨front, last⟩ := segmentsOf_of_last (Text.splitAt '/' (slashed cs))
      refine ⟨front, fun ds digits => ?_⟩
      rw [List.cons_append, pathAfter, if_pos slash]
      exact last _ ds digits (behind cs digits)
    · obtain ⟨front, last⟩ := segmentsOf_of_last (Text.splitAt '/' (slashed (c :: cs)))
      refine ⟨front, fun ds digits => ?_⟩
      rw [List.cons_append, pathAfter, if_neg slash]
      exact last _ ds digits (behind (c :: cs) digits)

/-! ## The end of a web address -/

/-- Cutting at a separator leaves what has none of them at the end of the last part. -/
theorem cutAt_append_right {ending : List Char} (h : sep ∉ ending) (cs : List Char) :
    cutAt sep (cs ++ ending) =
      if sep ∈ cs then ((cutAt sep cs).1, (cutAt sep cs).2.map (· ++ ending))
      else (cs ++ ending, none) := by
  split
  · next there =>
    obtain ⟨before, after, rfl, first⟩ := List.eq_append_cons_of_mem there
    rw [List.append_assoc, List.cons_append, cutAt_append first, cutAt_append first]
    rfl
  · next absent => exact cutAt_of_not_mem (by simp [absent, h])

/-- Path, query and fragment of a web address. -/
def ends (extra cs : List Char) : Path × Option String × Option String :=
  (pathAfter true (extra ++ (cutTail cs).1),
    (cutTail cs).2.1.map fun q => String.ofList (percentEncode (inQuerySet true) q),
    (cutTail cs).2.2.map fun f => String.ofList (percentEncode inFragmentSet f))

/-- A slash and digits at the end stand for themselves. -/
theorem Digits.percentEncode_append {reserved : Char → Bool} (h : Digits ds)
    (slash : reserved '/' = false) (free : ∀ c, c.isDigit = true → reserved c = false)
    (cs : List Char) :
    Url.percentEncode reserved (cs ++ '/' :: ds) = Url.percentEncode reserved cs ++ '/' :: ds := by
  rw [Url.percentEncode, List.flatMap_append, List.flatMap_cons, encodeChar,
    if_pos ⟨by decide, slash⟩]
  exact congrArg (_ ++ '/' :: ·) (h.percentEncode free)

/-- A text that goes on with a slash and digits, which are the same for the same result. -/
theorem Digits.eq_of_encoded {reserved : Char → Bool} {ds' : List Char} (h : Digits ds)
    (h' : Digits ds') (slash : reserved '/' = false)
    (free : ∀ c, c.isDigit = true → reserved c = false) {cs : List Char}
    (same : String.ofList (Url.percentEncode reserved (cs ++ '/' :: ds)) =
      String.ofList (Url.percentEncode reserved (cs ++ '/' :: ds'))) : ds = ds' := by
  have chars := congrArg String.toList same
  rw [String.toList_ofList, String.toList_ofList, h.percentEncode_append slash free,
    h'.percentEncode_append slash free] at chars
  simpa using chars

/-- Different numbers make different ends. -/
theorem ends_append (extra cs : List Char) {ds ds' : List Char} (digits : Digits ds)
    (digits' : Digits ds') (same : ends extra (cs ++ '/' :: ds) = ends extra (cs ++ '/' :: ds')) :
    ds = ds' := by
  simp only [ends, cutTail, cutAt_append_right (digits.not_mem_cons (c := '#') rfl (by decide)),
    cutAt_append_right (digits'.not_mem_cons (c := '#') rfl (by decide))] at same
  by_cases fragment : '#' ∈ cs
  · obtain ⟨before, after, rfl, first⟩ := List.eq_append_cons_of_mem fragment
    simp only [if_pos fragment, cutAt_append first, Option.map_some, Prod.mk.injEq,
      Option.some.injEq] at same
    exact digits.eq_of_encoded digits' rfl (fun c digit => (reserved_digit digit).1) same.2.2
  · simp only [if_neg fragment, cutAt_append_right (digits.not_mem_cons (c := '?') rfl (by decide)),
      cutAt_append_right (digits'.not_mem_cons (c := '?') rfl (by decide))] at same
    by_cases query : '?' ∈ cs
    · obtain ⟨before, after, rfl, first⟩ := List.eq_append_cons_of_mem query
      simp only [if_pos query, cutAt_append first, Option.map_some, Prod.mk.injEq,
        Option.some.injEq] at same
      exact digits.eq_of_encoded digits' rfl (fun c digit => (reserved_digit digit).2.2) same.2.1
    · simp only [if_neg query, Prod.mk.injEq] at same
      obtain ⟨front, last⟩ := pathAfter_append (extra ++ cs)
      rw [← List.append_assoc, ← List.append_assoc, last ds digits, last ds' digits'] at same
      have number : String.ofList ds = String.ofList ds' := by simpa using same.1
      exact String.ofList_injective number

/-! ## Whole addresses -/

/-- A web address, from what stands after its scheme and the slashes there. -/
def readWeb (scheme : String) (cs : List Char) : Option Url :=
  let parts := cs.span (!endsAuthority true ·)
  (authority? scheme parts.1).map fun found =>
    let (path, query, fragment) := ends found.2 parts.2
    { scheme, username := found.1.username, password := found.1.password, host := some found.1.host
      port := found.1.port, path, query, fragment }

/-- The schemes of web addresses. -/
def IsWeb (scheme : String) : Prop := scheme = "http" ∨ scheme = "https"

theorem parse?_of_web {text scheme : String} {rest : List Char}
    (named : scheme? (clean text) = some (scheme, rest)) (web : IsWeb scheme) :
    parse? text = readWeb scheme (dropSlashes rest) := by
  have special : isSpecial scheme = true := by rcases web with rfl | rfl <;> decide
  have notFile : scheme ≠ "file" := by rcases web with rfl | rfl <;> decide
  have place : authorityText? scheme rest = some (dropSlashes rest) := by
    unfold authorityText?
    rw [if_neg notFile, if_pos special]
  simp only [parse?, named, Option.bind_eq_bind, Option.bind_some, special, place, if_neg notFile]
  rw [readWeb]
  cases authority? scheme ((dropSlashes rest).span (!endsAuthority true ·)).1 <;> rfl

/-- The scheme of what was read is the one that is written there. -/
theorem scheme_of_parse? {text : String} {url : Url} (h : parse? text = some url) :
    ∃ rest, scheme? (clean text) = some (url.scheme, rest) := by
  rw [parse?] at h
  obtain ⟨⟨scheme, rest⟩, named, read⟩ := Option.bind_eq_some_iff.mp h
  refine ⟨rest, named.trans (congrArg (fun s => some (s, rest)) ?_)⟩
  -- every way to read the rest ends with this scheme
  have made {α : Type} {x : Option α} {f : α → Url} (all : ∀ a, (f a).scheme = scheme)
      (h : (x.bind fun a => some (f a)) = some url) : scheme = url.scheme := by
    obtain ⟨a, -, same⟩ := Option.bind_eq_some_iff.mp h
    cases same
    exact (all a).symm
  dsimp only at read
  split at read
  · split at read
    · split at read
      · exact made (fun _ => rfl) read
      · exact made (fun _ => rfl) read
    · exact made (fun _ => rfl) read
  · split at read
    · cases read
      rfl
    · split at read <;> (cases read; rfl)

theorem dropWhile_append_cons {α : Type} {p : α → Bool} {x : α} (stays : p x = false)
    (xs ys : List α) : (xs ++ x :: ys).dropWhile p = xs.dropWhile p ++ x :: ys := by
  rw [List.dropWhile_append, List.dropWhile_cons_of_neg (by simp [stays])]
  split
  · next none => rw [List.isEmpty_iff.mp none, List.nil_append]
  · rfl

theorem span_append_cons {α : Type} {p : α → Bool} {x : α} (stops : p x = false)
    (xs ys : List α) : (xs ++ x :: ys).span p = ((xs.span p).1, (xs.span p).2 ++ x :: ys) := by
  rw [List.span_eq_takeWhile_dropWhile, List.span_eq_takeWhile_dropWhile,
    dropWhile_append_cons stops]
  have front : (xs ++ x :: ys).takeWhile p = xs.takeWhile p := by
    rw [List.takeWhile_append, List.takeWhile_cons_of_neg (by simp [stops]), List.append_nil]
    split
    · next full => exact ((List.takeWhile_prefix p).eq_of_length full).symm
    · rfl
  rw [front]

/-- A character at the end of a text that is neither blank nor a control is not dropped, and
neither is what follows it. -/
theorem exists_clean {s : String} {cs : List Char} {c : Char} (last : s.toList = cs ++ [c])
    (letter : 0x20 < c.toNat) : ∃ front, ∀ t : String, (∀ d ∈ t.toList, 0x20 < d.toNat) →
      clean (s ++ t) = front ++ c :: t.toList := by
  let low : Char → Bool := fun c => c.toNat ≤ 0x20
  let kept : Char → Bool := fun c => !(c == '\t' || c == '\n' || c == '\r')
  have high {d : Char} (h : 0x20 < d.toNat) : low d = false := by simpa [low] using h
  refine ⟨(cs.dropWhile low).filter kept, fun t plain => ?_⟩
  have all : ∀ d ∈ c :: t.toList, 0x20 < d.toNat := List.forall_mem_cons.mpr ⟨letter, plain⟩
  have ending : ∀ d ∈ (cs.dropWhile low ++ c :: t.toList).getLast?, low d = false := by
    intro d hd
    rw [List.getLast?_append_cons] at hd
    exact high (all d (List.mem_of_getLast? hd))
  have passed : (c :: t.toList).filter kept = c :: t.toList := by
    refine List.filter_eq_self.mpr fun d hd => ?_
    have other {e : Char} (small : e.toNat ≤ 0x20) : d ≠ e := by
      rintro rfl
      exact absurd (all d hd) (by omega)
    simp [kept, other]
  change (dropEndWhile low ((s ++ t).toList.dropWhile low)).filter kept = _
  rw [String.toList_append, last, List.append_assoc, List.singleton_append,
    dropWhile_append_cons (high letter), dropEndWhile,
    dropWhile_eq_self (by rwa [List.head?_reverse]), List.reverse_reverse, List.filter_append, passed]

theorem scheme?_append {ending : List Char} (h : ':' ∉ ending) (cs : List Char) :
    scheme? (cs ++ ending) = (scheme? cs).map fun found => (found.1, found.2 ++ ending) := by
  rw [scheme?, scheme?, cutAt_append_right h]
  by_cases colon : ':' ∈ cs
  · obtain ⟨before, after, rfl, first⟩ := List.eq_append_cons_of_mem colon
    rw [if_pos colon, cutAt_append first]
    cases before with
    | nil => rfl
    | cons c name =>
      dsimp only [Option.map_some]
      split <;> rfl
  · rw [if_neg colon, cutAt_of_not_mem colon]
    cases cs <;> cases ending <;> rfl

/-- A web address with a number after it, where the address itself ends in a letter: who is asked
stays, and different numbers make different ends. -/
theorem exists_appended {s : String} {cs : List Char} {c : Char} {url : Url}
    (last : s.toList = cs ++ [c]) (letter : c.isAlpha = true) (read : parse? s = some url)
    (web : IsWeb url.scheme) :
    ∃ tail : Nat → Path × Option String × Option String, Function.Injective tail ∧
      ∀ n, parse? (s ++ ("/" ++ toString n)) =
        some { url with path := (tail n).1, query := (tail n).2.1, fragment := (tail n).2.2 } := by
  have other {d : Char} (sign : d.isAlpha = false) : c ≠ d := by
    rintro rfl
    cases sign.symm.trans letter
  have high : 0x20 < c.toNat := by
    refine Nat.lt_of_not_le fun low => ?_
    have blank : ∀ n ≤ 0x20, (Char.ofNat n).isAlpha = false := by decide
    have sign := blank c.toNat low
    rw [Char.ofNat_toNat] at sign
    cases sign.symm.trans letter
  obtain ⟨front, cleaned⟩ := exists_clean last high
  obtain ⟨rest, named⟩ := scheme_of_parse? read
  generalize url.scheme = scheme at web named
  -- the scheme stands before the last letter
  have colon : ':' ≠ c := (other rfl).symm
  have whole := cleaned "" (by simp)
  rw [String.append_empty] at whole
  rw [whole, scheme?_append (by simpa using colon)] at named
  obtain ⟨⟨scheme, middle⟩, named', same⟩ := Option.map_eq_some_iff.mp named
  cases same
  have readAs {text : String} {w : List Char} (h : clean text = front ++ c :: w) (noColon : ':' ∉ w) :
      parse? text = readWeb scheme (dropSlashes middle ++ c :: w) := by
    have found : scheme? (clean text) = some (scheme, middle ++ c :: w) := by
      rw [h, scheme?_append (by simp [noColon, colon]), named']
      rfl
    rw [parse?_of_web found web]
    exact congrArg (readWeb scheme) (dropWhile_append_cons (by simp [other]) middle w)
  rw [readAs whole (by simp)] at read
  obtain ⟨⟨authority, extra⟩, found, rfl⟩ := Option.map_eq_some_iff.mp read
  let parts := (dropSlashes middle ++ [c]).span (!endsAuthority true ·)
  refine ⟨fun n => ends extra (parts.2 ++ '/' :: (toString n).toList), fun n m same => ?_,
    fun n => ?_⟩
  · have digits := ends_append extra parts.2 (digits_toString n) (digits_toString m) same
    exact toString_injective (String.toList_injective digits)
  · have digits := digits_toString n
    have spelled : ("/" ++ toString n).toList = '/' :: (toString n).toList := by
      rw [String.toList_append]
      rfl
    have plain : ∀ d ∈ ("/" ++ toString n).toList, 0x20 < d.toNat := by
      rw [spelled]
      refine List.forall_mem_cons.mpr ⟨by decide, fun d hd => ?_⟩
      have := (digits.bounds hd).1
      omega
    have noColon : ':' ∉ ("/" ++ toString n).toList := by
      rw [spelled]
      exact digits.not_mem_cons rfl (by decide)
    have longer := span_append_cons (p := (!endsAuthority true ·)) (x := '/') rfl
      (dropSlashes middle ++ [c]) (toString n).toList
    rw [List.append_assoc, List.singleton_append] at longer
    rw [readAs (cleaned _ plain) noColon, spelled, readWeb, longer]
    exact congrArg (Option.map _) found

/-! ## Pairs -/

theorem appendPairs_injective (u : Url) : Function.Injective u.appendPairs := by
  intro pairs pairs' same
  have queries := String.ofList_injective (Option.some.inj (congrArg Url.query same))
  have forms : encodeForm pairs = encodeForm pairs' := by
    split at queries
    · exact queries
    · split at queries
      · exact queries
      · exact (List.cons.inj (List.append_cancel_left queries)).2
  rw [← decodeForm_encodeForm pairs, forms, decodeForm_encodeForm]

end CertEnrollment.Url
