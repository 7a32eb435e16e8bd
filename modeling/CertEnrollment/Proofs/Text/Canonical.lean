import CertEnrollment.Cache.DomainSet

/-!
# Names in canonical form

Trimming and lowercasing do not get into each other's way, so a name that was brought
into canonical form once stays as it is.
-/
namespace CertEnrollment.Text

theorem dropWhile_eq_self {α : Type} {p : α → Bool} {xs : List α}
    (h : ∀ x ∈ xs.head?, p x = false) : xs.dropWhile p = xs := by
  cases xs with
  | nil => rfl
  | cons x xs => rw [List.dropWhile_cons_of_neg (by simp [h x rfl])]

theorem dropWhile_dropWhile {α : Type} (p : α → Bool) (xs : List α) :
    (xs.dropWhile p).dropWhile p = xs.dropWhile p := by
  refine dropWhile_eq_self fun x hx => ?_
  have first := List.head?_dropWhile_not p xs
  rw [Option.mem_def.mp hx] at first
  exact first

theorem exists_dropEndWhile_append {α : Type} (p : α → Bool) (xs : List α) :
    ∃ tail, xs = dropEndWhile p xs ++ tail ∧ ∀ x ∈ tail, p x = true := by
  refine ⟨(xs.reverse.takeWhile p).reverse, ?_, fun x hx => ?_⟩
  · rw [dropEndWhile, ← List.reverse_append, List.takeWhile_append_dropWhile, List.reverse_reverse]
  · exact List.all_eq_true.mp List.all_takeWhile x (List.mem_reverse.mp hx)

theorem dropEndWhile_eq_self {α : Type} {p : α → Bool} {xs : List α}
    (h : ∀ x ∈ xs.getLast?, p x = false) : dropEndWhile p xs = xs := by
  rw [dropEndWhile, dropWhile_eq_self (by simpa using h), List.reverse_reverse]

/-- What is left at the end does not change what comes first. -/
theorem dropWhile_dropEndWhile_of_eq {α : Type} {p q : α → Bool} {xs : List α}
    (h : xs.dropWhile p = xs) : (dropEndWhile q xs).dropWhile p = dropEndWhile q xs := by
  obtain ⟨tail, same, -⟩ := exists_dropEndWhile_append q xs
  refine dropWhile_eq_self fun x hx => ?_
  have first := List.head?_dropWhile_not p xs
  rw [h, same, List.head?_append, Option.mem_def.mp hx] at first
  exact first

theorem dropWhile_dropEndWhile {α : Type} (p : α → Bool) (xs : List α) :
    (dropEndWhile p (xs.dropWhile p)).dropWhile p = dropEndWhile p (xs.dropWhile p) :=
  dropWhile_dropEndWhile_of_eq (dropWhile_dropWhile p xs)

/-- An element that is not dropped ends the run from the end. -/
theorem dropEndWhile_append_cons {α : Type} {p : α → Bool} {x : α} (kept : p x = false)
    (xs ys : List α) : dropEndWhile p (xs ++ x :: ys) = xs ++ x :: dropEndWhile p ys := by
  simp only [dropEndWhile, List.reverse_append, List.reverse_cons, List.append_assoc,
    List.dropWhile_append]
  split
  · next all =>
    rw [List.isEmpty_iff.mp all]
    simp [kept]
  · simp

theorem trimChars_trimChars (cs : List Char) : trimChars (trimChars cs) = trimChars cs := by
  rw [trimChars, trimChars, dropWhile_dropEndWhile]
  simp [dropEndWhile, dropWhile_dropWhile]

theorem toNat_toLower (c : Char) :
    c.toLower.toNat = if 65 ≤ c.toNat ∧ c.toNat ≤ 90 then c.toNat + 32 else c.toNat := by
  unfold Char.toLower
  have upper : (c.val ≥ 'A'.val ∧ c.val ≤ 'Z'.val) ↔ (65 ≤ c.toNat ∧ c.toNat ≤ 90) := by
    exact Iff.rfl
  split
  · next h =>
    rw [if_pos (upper.mp h)]
    have bound := (upper.mp h).2
    show (c.val + ('a'.val - 'A'.val)).toNat = c.toNat + 32
    rw [UInt32.toNat_add, Nat.mod_eq_of_lt]
    · rfl
    · exact Nat.lt_of_le_of_lt (Nat.add_le_add_right bound _) (by decide)
  · next h => rw [if_neg fun k => h (upper.mpr k)]

theorem isBlank_toLower (c : Char) : isBlank c.toLower = isBlank c := by
  unfold isBlank
  rw [toNat_toLower]
  split
  · rw [Bool.eq_iff_iff]
    simp
    omega
  · rfl

theorem toLower_toLower (c : Char) : c.toLower.toLower = c.toLower := by
  refine Char.toNat_inj.mp ?_
  rw [toNat_toLower c.toLower, toNat_toLower c]
  split
  · rw [if_neg (by omega)]
  · rfl

theorem toLower_eq_self_iff {c : Char} : c.toLower = c ↔ c.isUpper = false := by
  have upper : c.isUpper = true ↔ 65 ≤ c.toNat ∧ c.toNat ≤ 90 := decide_eq_true_iff
  rw [← Char.toNat_inj, toNat_toLower, ← Bool.not_eq_true, upper]
  split <;> omega

theorem trimChars_map_toLower (cs : List Char) :
    trimChars (cs.map Char.toLower) = (trimChars cs).map Char.toLower := by
  have same : isBlank ∘ Char.toLower = isBlank := funext isBlank_toLower
  simp only [trimChars, dropEndWhile, List.dropWhile_map, ← List.map_reverse, same]

/-- Signs that come before the letters come from nothing else. -/
theorem toLower_eq_iff {c d : Char} (sign : d.toNat < 65) : c.toLower = d ↔ c = d := by
  rw [← Char.toNat_inj, ← Char.toNat_inj, toNat_toLower]
  split <;> omega

theorem mem_map_toLower {cs : List Char} {d : Char} (sign : d.toNat < 65) :
    d ∈ cs.map Char.toLower ↔ d ∈ cs := by
  simp [List.mem_map, toLower_eq_iff sign]

theorem dropEndWhile_sublist {α : Type} (p : α → Bool) (xs : List α) :
    (dropEndWhile p xs).Sublist xs := by
  obtain ⟨tail, whole, -⟩ := exists_dropEndWhile_append p xs
  have front : (dropEndWhile p xs).Sublist (dropEndWhile p xs ++ tail) :=
    List.sublist_append_left _ _
  rwa [← whole] at front

theorem trimChars_sublist (cs : List Char) : (trimChars cs).Sublist cs :=
  (dropEndWhile_sublist _ _).trans (List.dropWhile_sublist _)

theorem mem_of_mem_dropEndWhile {α : Type} {p : α → Bool} {xs : List α} {x : α}
    (h : x ∈ dropEndWhile p xs) : x ∈ xs :=
  (dropEndWhile_sublist p xs).subset h

theorem mem_of_mem_trimChars {cs : List Char} {c : Char} (h : c ∈ trimChars cs) : c ∈ cs :=
  (trimChars_sublist cs).subset h

/-- A trimmed text does not end in a blank. -/
theorem getLast?_trimChars {cs : List Char} : ∀ c ∈ (trimChars cs).getLast?, isBlank c = false := by
  intro c hc
  have kept := List.head?_dropWhile_not isBlank (cs.dropWhile isBlank).reverse
  rw [trimChars, dropEndWhile, List.getLast?_reverse] at hc
  rwa [Option.mem_def.mp hc] at kept

end CertEnrollment.Text

namespace CertEnrollment.Cache.DomainSet
open Text

theorem canonical_canonical (name : String) : canonical (canonical name) = canonical name := by
  have lower : Char.toLower ∘ Char.toLower = Char.toLower := funext toLower_toLower
  simp only [canonical, asciiLower, trim, String.toList_ofList, trimChars_map_toLower,
    trimChars_trimChars, List.map_map, lower]

end CertEnrollment.Cache.DomainSet
