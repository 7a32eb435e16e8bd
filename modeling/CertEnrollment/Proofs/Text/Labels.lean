import CertEnrollment.Text.Pieces

/-!
# Labels

The pieces of a text between separators have no separator in them, and with separators
between them they give the text back. Both together make them unique.
-/
namespace CertEnrollment.Text
variable {sep : Char}

theorem splitAt_eq_splitOn (sep : Char) (cs : List Char) : splitAt sep cs = cs.splitOn sep := by
  induction cs with
  | nil => simp [splitAt]
  | cons c cs ih =>
    rw [splitAt, ih, List.splitOn_eq_splitOnP, List.splitOn_eq_splitOnP,
      List.splitOnP_cons_eq_if_modifyHead]
    by_cases same : c = sep
    · simp [same]
    · cases pieces : List.splitOnP (· == sep) cs with
      | nil => exact absurd pieces (List.splitOnP_ne_nil _ _)
      | cons piece more => simp [same]

theorem splitAt_ne_nil (sep : Char) (cs : List Char) : splitAt sep cs ≠ [] := by
  rw [splitAt_eq_splitOn]
  exact List.splitOn_ne_nil _ _

theorem intercalate_splitAt (sep : Char) (cs : List Char) :
    [sep].intercalate (splitAt sep cs) = cs := by
  rw [splitAt_eq_splitOn]
  exact List.intercalate_splitOn sep

theorem splitAt_intercalate {pieces : List (List Char)} (some_there : pieces ≠ [])
    (whole : ∀ p ∈ pieces, sep ∉ p) : splitAt sep ([sep].intercalate pieces) = pieces := by
  rw [splitAt_eq_splitOn]
  exact List.splitOn_intercalate sep whole some_there

theorem not_mem_of_mem_splitAt {cs p : List Char} (h : p ∈ splitAt sep cs) : sep ∉ p := by
  induction cs generalizing p with
  | nil =>
    have empty : p = [] := by simpa [splitAt] using h
    simp [empty]
  | cons c cs ih =>
    rw [splitAt] at h
    split at h
    · rcases List.mem_cons.mp h with rfl | h
      · simp
      · exact ih h
    · next different =>
      cases pieces : splitAt sep cs with
      | nil => exact absurd pieces (splitAt_ne_nil sep cs)
      | cons piece more =>
        rw [pieces] at h ih
        rcases List.mem_cons.mp h with rfl | h
        · have rest : sep ∉ piece := ih List.mem_cons_self
          simp [Ne.symm different, rest]
        · exact ih (List.mem_cons_of_mem _ h)

theorem intercalate_cons_of_ne_nil {first : List Char} {pieces : List (List Char)}
    (some_there : pieces ≠ []) :
    [sep].intercalate (first :: pieces) = first ++ sep :: [sep].intercalate pieces := by
  cases pieces with
  | nil => exact absurd rfl some_there
  | cons second more => simp [List.intercalate_cons_cons]

theorem cutAt_of_not_mem {cs : List Char} (h : sep ∉ cs) : cutAt sep cs = (cs, none) := by
  induction cs with
  | nil => rfl
  | cons c cs ih =>
    obtain ⟨here, later⟩ : sep ≠ c ∧ sep ∉ cs := by simpa using h
    rw [cutAt, if_neg (Ne.symm here), ih later]

theorem cutAt_append {before : List Char} (h : sep ∉ before) (after : List Char) :
    cutAt sep (before ++ sep :: after) = (before, some after) := by
  induction before with
  | nil => simp [cutAt]
  | cons c before ih =>
    obtain ⟨here, later⟩ : sep ≠ c ∧ sep ∉ before := by simpa using h
    rw [List.cons_append, cutAt, if_neg (Ne.symm here), ih later]

/-- These two properties make out the pieces of a text. -/
theorem splitAt_eq_iff {cs : List Char} {pieces : List (List Char)} :
    splitAt sep cs = pieces ↔
      pieces ≠ [] ∧ (∀ p ∈ pieces, sep ∉ p) ∧ cs = [sep].intercalate pieces := by
  constructor
  · rintro rfl
    exact ⟨splitAt_ne_nil sep cs, fun p => not_mem_of_mem_splitAt,
      (intercalate_splitAt sep cs).symm⟩
  · rintro ⟨some_there, whole, rfl⟩
    exact splitAt_intercalate some_there whole

/-- With a separator between them, two texts are cut apart there. -/
theorem splitAt_append (cs ds : List Char) :
    splitAt sep (cs ++ sep :: ds) = splitAt sep cs ++ splitAt sep ds := by
  induction cs with
  | nil => simp [splitAt]
  | cons c cs ih =>
    rw [List.cons_append, splitAt, splitAt, ih]
    by_cases same : c = sep
    · simp [same]
    · cases pieces : splitAt sep cs with
      | nil => exact absurd pieces (splitAt_ne_nil sep cs)
      | cons piece more => simp [same]

/-- Texts with separators between them are cut into their own pieces. -/
theorem splitAt_intercalate_flatMap {texts : List (List Char)} (some_there : texts ≠ []) :
    splitAt sep ([sep].intercalate texts) = texts.flatMap (splitAt sep) := by
  induction texts with
  | nil => exact absurd rfl some_there
  | cons text texts ih =>
    by_cases last : texts = []
    · simp [last]
    · rw [intercalate_cons_of_ne_nil last, splitAt_append, ih last, List.flatMap_cons]

/-- Cutting texts changes nothing just when they have no separators. -/
theorem flatMap_splitAt_eq_self_iff {texts : List (List Char)} :
    texts.flatMap (splitAt sep) = texts ↔ ∀ cs ∈ texts, sep ∉ cs := by
  constructor
  · intro same cs hcs
    rw [← same] at hcs
    obtain ⟨text, -, piece⟩ := List.mem_flatMap.mp hcs
    exact not_mem_of_mem_splitAt piece
  · intro whole
    induction texts with
    | nil => rfl
    | cons text texts ih =>
      obtain ⟨here, later⟩ := List.forall_mem_cons.mp whole
      have one : splitAt sep text = [text] := splitAt_eq_iff.mpr (by simpa using here)
      rw [List.flatMap_cons, one, ih later, List.singleton_append]

/-- Cutting once gives the first piece and what the others spell. -/
theorem cutAt_of_splitAt {cs first : List Char} {more : List (List Char)}
    (h : splitAt sep cs = first :: more) :
    (cutAt sep cs).1 = first ∧ (cutAt sep cs).2.getD [] = [sep].intercalate more := by
  obtain ⟨-, whole, rfl⟩ := splitAt_eq_iff.mp h
  have here : sep ∉ first := whole first List.mem_cons_self
  cases more with
  | nil => simp [cutAt_of_not_mem here]
  | cons second more =>
    rw [intercalate_cons_of_ne_nil (List.cons_ne_nil _ _), cutAt_append here]
    simp

theorem beforeEnding?_eq_some_iff {ending text rest : List Char} :
    beforeEnding? ending text = some rest ↔ text = rest ++ ending := by
  rw [beforeEnding?]
  constructor
  · intro h
    split at h
    · next ends =>
      obtain ⟨before, rfl⟩ := List.isSuffixOf_iff_suffix.mp ends
      simpa using h
    · cases h
  · rintro rfl
    rw [if_pos (List.isSuffixOf_iff_suffix.mpr (List.suffix_append rest ending))]
    simp

@[simp] theorem toList_join (sep : String) (pieces : List String) :
    (join sep pieces).toList = sep.toList.intercalate (pieces.map String.toList) :=
  String.toList_ofList

/-- Every text is spelled by a list of characters, and so is every list of texts. -/
theorem exists_map_toList (pieces : List (List Char)) :
    ∃ texts : List String, texts.map String.toList = pieces :=
  ⟨pieces.map String.ofList, by simp [Function.comp_def]⟩

end CertEnrollment.Text
