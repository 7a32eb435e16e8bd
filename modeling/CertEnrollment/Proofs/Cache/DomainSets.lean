import CertEnrollment.Cache.Prefetch
import CertEnrollment.Proofs.Text.ByteOrder
import CertEnrollment.Proofs.Text.Trimming
import Mathlib.Data.List.Destutter
import Mathlib.Data.Set.Operations

/-!
# What makes two sets of domains the same

A set of domains has the names of a list without the blanks around them, in ASCII lowercase, and
without the empty ones. Names are brought into this form before they are put in order, so two
spellings of a name are one name by then, and putting a name in its place leaves it out if it is
there. A list without repetition that is in order is determined by its elements, so nothing else of
the list it was made from can be seen in a set. For the same reason it is enough to leave out
repetitions next to each other, if that is done when the names are sorted.
-/
namespace CertEnrollment.Cache.DomainSet
open Data Text

/-- The name is the other one without the blanks around it, in ASCII lowercase. -/
def FormOf (n name : String) : Prop :=
  ∃ front core back, name.toList = front ++ core ++ back ∧ (∀ c ∈ front, isBlank c = true) ∧
    (∀ c ∈ back, isBlank c = true) ∧ Bare core ∧ n.toList = core.map Char.toLower

/-- The forms of the names in a list that are not empty. -/
def formsIn (names : List String) : Set String := {n | n ≠ "" ∧ ∃ name ∈ names, FormOf n name}

variable {names others : List String} {n name : String} {a b : DomainSet}

theorem formOf_iff : FormOf n name ↔ canonical name = n := by
  constructor
  · rintro ⟨front, core, back, spelled, blankFront, blankBack, bare, lower⟩
    have trimmed : trimChars name.toList = core :=
      trimChars_eq_iff.mpr ⟨front, back, spelled, blankFront, blankBack, bare⟩
    rw [canonical, asciiLower, trim, String.toList_ofList, trimmed, ← lower, String.ofList_toList]
  · rintro rfl
    obtain ⟨front, back, spelled, blankFront, blankBack, bare⟩ := trimChars_eq_iff.mp rfl
    exact ⟨front, trimChars name.toList, back, spelled, blankFront, blankBack, bare,
      by simp [canonical, asciiLower, trim]⟩

theorem mem_formsIn : n ∈ formsIn names ↔ n ≠ "" ∧ ∃ name ∈ names, canonical name = n := by
  simp only [formsIn, Set.mem_ofPred_eq, formOf_iff]

theorem mem_ofNames : n ∈ (ofNames names).names ↔ n ∈ formsIn names := by
  rw [mem_formsIn, ofNames, mem_sort, List.mem_filter, List.mem_map, decide_eq_true_eq, and_comm]

/-- Lists that are in order and have the same elements are the same. -/
theorem eq_of_increasing {xs ys : List String} (hx : xs.Pairwise Precedes)
    (hy : ys.Pairwise Precedes) (same : ∀ n, n ∈ xs ↔ n ∈ ys) : xs = ys := by
  have listed : xs.Perm ys :=
    (List.perm_ext_iff_of_nodup (nodup_of_increasing hx) (nodup_of_increasing hy)).mpr same
  refine listed.eq_of_pairwise ?_ hx hy
  exact fun m n _ _ before after => absurd (before.trans after) (Precedes.irrefl m)

theorem ofNames_eq_iff : ofNames names = ofNames others ↔ formsIn names = formsIn others := by
  constructor
  · intro same
    ext n
    rw [← mem_ofNames, ← mem_ofNames, same]
  · intro same
    refine ext (eq_of_increasing (ofNames names).increasing (ofNames others).increasing ?_)
    exact fun n => by rw [mem_ofNames, mem_ofNames, same]

/-- The names of a set are forms of themselves, and of no other name. -/
theorem formsIn_ofNames (names : List String) : formsIn (ofNames names).names = formsIn names := by
  ext n
  rw [mem_formsIn, mem_formsIn]
  constructor
  · rintro ⟨filled, name, listed, rfl⟩
    obtain ⟨-, first, given, rfl⟩ := mem_formsIn.mp (mem_ofNames.mp listed)
    exact ⟨filled, first, given, (canonical_canonical first).symm⟩
  · rintro ⟨filled, name, given, rfl⟩
    have listed : canonical name ∈ (ofNames names).names :=
      mem_ofNames.mpr (mem_formsIn.mpr ⟨filled, name, given, rfl⟩)
    exact ⟨filled, canonical name, listed, canonical_canonical name⟩

/-! ## Sorting with repetitions -/

/-- The bytes of the one name are those of the other one or come before them. -/
def UpTo (m n : String) : Prop := Utf8.encode m ≤ Utf8.encode n

instance (m n : String) : Decidable (UpTo m n) :=
  inferInstanceAs (Decidable (Utf8.encode m ≤ Utf8.encode n))

theorem upTo_iff {m n : String} : UpTo m n ↔ ¬ Precedes n m := by
  rw [UpTo, Utf8.precedes_iff_encode_lt, List.not_lt]

instance : Std.Antisymm UpTo where
  antisymm _ _ h k := eq_of_not_precedes (upTo_iff.mp k) (upTo_iff.mp h)

theorem sorted_mergeSort (names : List String) :
    (names.mergeSort fun m n => UpTo m n).Pairwise UpTo := by
  refine (List.pairwise_mergeSort ?_ ?_ names).imp decide_eq_true_iff.mp
  · intro l m n before after
    exact decide_eq_true (List.le_trans (of_decide_eq_true before) (of_decide_eq_true after))
  · intro m n
    rw [Bool.or_eq_true, decide_eq_true_eq, decide_eq_true_eq]
    exact List.le_total _ _

/-- Repetitions stand next to each other in a sorted list. -/
theorem sort_eq_destutter (names : List String) :
    sort names = (names.mergeSort fun m n => UpTo m n).destutter (· ≠ ·) := by
  have sorted := sorted_mergeSort names
  rw [sorted.destutter_eq_dedup]
  refine eq_of_increasing (pairwise_sort names) ?_ fun n => ?_
  · have distinct := (sorted.sublist (List.dedup_sublist _)).and (List.nodup_dedup _)
    refine distinct.imp fun ⟨upTo, other⟩ => Classical.not_not.mp fun notBefore => ?_
    exact other (eq_of_not_precedes notBefore (upTo_iff.mp upTo))
  · rw [mem_sort, List.mem_dedup, List.mem_mergeSort]

/-! ## Sets -/

/-- What the set of a list shows of it. -/
structure ShowsForms (names : List String) : Prop where
  /-- It has the forms of the names and nothing else. -/
  members : ∀ n, n ∈ (ofNames names).names ↔ n ∈ formsIn names
  /-- Two lists give the same set just when they have the same forms. -/
  same : ∀ others, ofNames names = ofNames others ↔ formsIn names = formsIn others
  /-- The names that locks are taken for are the same just then, -/
  locks : ∀ others,
    (ofNames names).names = (ofNames others).names ↔ formsIn names = formsIn others
  /-- and then there is one cache entry for both. -/
  entry : ∀ others, formsIn names = formsIn others →
    entryKey (ofNames names) = entryKey (ofNames others)
  /-- They are what sorting the forms and then leaving out repetitions next to each other gives. -/
  sorted : (ofNames names).names = (((names.map canonical).filter (· ≠ "")).mergeSort
    fun m n => UpTo m n).destutter (· ≠ ·)
  /-- The names are strictly increasing, by their bytes. -/
  increasing : (ofNames names).names.Pairwise fun a b => Utf8.encode a < Utf8.encode b
  /-- The set of the names of the set is the set. -/
  again : ofNames (ofNames names).names = ofNames names

/-- The set of a list shows the forms of its names: not in which order they are listed, how often,
and with which blanks and capitals. -/
theorem canonical_sets (names : List String) : ShowsForms names where
  members _ := mem_ofNames
  same _ := ofNames_eq_iff
  locks _ := ⟨fun same => ofNames_eq_iff.mp (ext same), fun same => by rw [ofNames_eq_iff.mpr same]⟩
  entry _ same := by rw [ofNames_eq_iff.mpr same]
  sorted := sort_eq_destutter _
  increasing := (ofNames names).increasing.imp Utf8.precedes_iff_encode_lt.mp
  again := ofNames_eq_iff.mpr (formsIn_ofNames names)

example : ofNames [" B.org", "a.org", "", "b.ORG\t"] = ofNames ["a.org", "A.org ", "b.org"] := by
  decide +kernel

end CertEnrollment.Cache.DomainSet
