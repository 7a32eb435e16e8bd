import CertEnrollment.Proofs.Text.Canonical

/-!
# What trimming leaves

Trimming takes blanks away and stops at the first and at the last character that is none. This
makes out what it leaves: a text is blanks, then its trimmed form, which begins and ends with no
blank, and then blanks again.
-/
namespace CertEnrollment.Text
variable {α : Type} {p : α → Bool} {xs ys : List α} {cs core : List Char}

theorem head?_of_dropWhile_eq_self (h : xs.dropWhile p = xs) : ∀ x ∈ xs.head?, p x = false := by
  intro x hx
  have kept := List.head?_dropWhile_not p xs
  rwa [h, Option.mem_def.mp hx] at kept

theorem dropEndWhile_append_of_all (h : ∀ y ∈ ys, p y = true) (xs : List α) :
    dropEndWhile p (xs ++ ys) = dropEndWhile p xs := by
  rw [dropEndWhile, List.reverse_append, List.dropWhile_append_of_pos, dropEndWhile]
  exact fun y hy => h y (List.mem_reverse.mp hy)

/-- The text has no blank at either end. -/
structure Bare (cs : List Char) : Prop where
  front : ∀ c ∈ cs.head?, isBlank c = false
  back : ∀ c ∈ cs.getLast?, isBlank c = false

theorem bare_trimChars (cs : List Char) : Bare (trimChars cs) :=
  ⟨head?_of_dropWhile_eq_self (dropWhile_dropEndWhile isBlank cs), getLast?_trimChars⟩

theorem Bare.trimChars_eq (h : Bare cs) : trimChars cs = cs := by
  rw [trimChars, dropWhile_eq_self h.front, dropEndWhile_eq_self h.back]

theorem Bare.of_trimChars (h : trimChars cs = cs) : Bare cs := h ▸ bare_trimChars cs

/-- Blanks around a text are what trimming takes away. -/
theorem trimChars_append {front back : List Char} (blankFront : ∀ c ∈ front, isBlank c = true)
    (blankBack : ∀ c ∈ back, isBlank c = true) (cs : List Char) :
    trimChars (front ++ cs ++ back) = trimChars cs := by
  have unfronted : (front ++ cs ++ back).dropWhile isBlank = (cs ++ back).dropWhile isBlank := by
    rw [List.append_assoc, List.dropWhile_append_of_pos blankFront]
  rw [trimChars, unfronted, List.dropWhile_append]
  split
  · next all =>
    have gone : back.dropWhile isBlank = [] := by
      rw [← List.append_nil back, List.dropWhile_append_of_pos blankBack, List.dropWhile_nil]
    rw [trimChars, List.isEmpty_iff.mp all, gone]
  · rw [dropEndWhile_append_of_all blankBack, trimChars]

theorem trimChars_eq_iff : trimChars cs = core ↔ ∃ front back, cs = front ++ core ++ back ∧
    (∀ c ∈ front, isBlank c = true) ∧ (∀ c ∈ back, isBlank c = true) ∧ Bare core := by
  constructor
  · rintro rfl
    obtain ⟨back, split, blankBack⟩ :=
      exists_dropEndWhile_append isBlank (cs.dropWhile isBlank)
    refine ⟨cs.takeWhile isBlank, back, ?_, ?_, blankBack, bare_trimChars cs⟩
    · rw [List.append_assoc, trimChars, ← split, List.takeWhile_append_dropWhile]
    · exact List.all_eq_true.mp List.all_takeWhile
  · rintro ⟨front, back, rfl, blankFront, blankBack, bare⟩
    rw [trimChars_append blankFront blankBack, bare.trimChars_eq]

end CertEnrollment.Text
