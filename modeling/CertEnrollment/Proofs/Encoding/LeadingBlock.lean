import CertEnrollment.Encoding.Pem

/-!
# The block that leads a text

A text may have anything around its blocks. The block that counts begins at the first mark of a
beginning, and each of its parts ends at the first mark that can end it. None of this is looked
for behind the block, so a text that goes on after a block still leads with it.
-/
namespace CertEnrollment.Text
variable {word text before after : List Char}

/-- The word stands in the text with these parts around it, and at no earlier place. -/
structure FirstPlace (word text before after : List Char) : Prop where
  spells : text = before ++ (word ++ after)
  first : ∀ before' after', text = before' ++ (word ++ after') → before.length ≤ before'.length

theorem FirstPlace.unique {before' after' : List Char} (h : FirstPlace word text before after)
    (k : FirstPlace word text before' after') : before = before' ∧ after = after' := by
  have lengths := Nat.le_antisymm (h.first _ _ k.spells) (k.first _ _ h.spells)
  obtain ⟨fronts, ends⟩ := List.append_inj (h.spells.symm.trans k.spells) lengths
  exact ⟨fronts, List.append_cancel_left ends⟩

theorem afterStart?_eq_some_iff {start rest : List Char} :
    afterStart? start text = some rest ↔ text = start ++ rest := by
  induction start generalizing text with
  | nil => simp [afterStart?]
  | cons c start ih =>
    cases text with
    | nil => simp [afterStart?]
    | cons d text => by_cases same : c = d <;> simp [afterStart?, same, ih, eq_comm]

/-- A word that is not found has no place in the text. -/
theorem ne_of_cutAtWord (h : cutAtWord word text = none) (before after : List Char) :
    text ≠ before ++ (word ++ after) := by
  rintro rfl
  induction before with
  | nil =>
    cases whole : word ++ after with
    | nil => simp_all [cutAtWord]
    | cons c cs =>
      have here : afterStart? word (c :: cs) = some after := afterStart?_eq_some_iff.mpr whole.symm
      simp [whole, cutAtWord, here] at h
  | cons c before ih =>
    rw [List.cons_append, cutAtWord] at h
    split at h
    · cases h
    · exact ih (Option.map_eq_none_iff.mp h)

theorem firstPlace_of_cutAtWord (h : cutAtWord word text = some (before, after)) :
    FirstPlace word text before after := by
  induction text generalizing before with
  | nil =>
    rw [cutAtWord] at h
    split at h
    · next none_there =>
      cases h
      exact ⟨by simp [none_there], by simp⟩
    · cases h
  | cons c cs ih =>
    rw [cutAtWord] at h
    split at h
    · next rest here =>
      cases h
      exact ⟨by simpa using afterStart?_eq_some_iff.mp here, by simp⟩
    · next elsewhere =>
      obtain ⟨⟨front, ending⟩, found, same⟩ := Option.map_eq_some_iff.mp h
      cases same
      obtain ⟨spells, first⟩ := ih found
      refine ⟨by rw [spells]; rfl, fun before' after' same => ?_⟩
      cases before' with
      | nil => cases elsewhere.symm.trans (afterStart?_eq_some_iff.mpr same)
      | cons d before' =>
        exact Nat.succ_le_succ (first before' after' (List.cons.inj same).2)

/-- Cutting a text at a word is finding the first place of the word. -/
theorem cutAtWord_eq_some_iff :
    cutAtWord word text = some (before, after) ↔ FirstPlace word text before after := by
  refine ⟨firstPlace_of_cutAtWord, fun h => ?_⟩
  cases found : cutAtWord word text with
  | none => exact absurd h.spells (ne_of_cutAtWord found before after)
  | some parts =>
    obtain ⟨rfl, rfl⟩ := (firstPlace_of_cutAtWord found).unique h
    rfl

/-- What is appended to a text has no earlier place of a word in it. -/
theorem FirstPlace.append (h : FirstPlace word text before after) (more : List Char) :
    FirstPlace word (text ++ more) before (after ++ more) := by
  refine ⟨by simp [h.spells], fun before' after' same => Nat.le_of_not_lt fun earlier => ?_⟩
  -- an earlier place ends where the text still goes on
  have whole : before' ++ word <+: text ++ more := ⟨after', by simp [same]⟩
  have short : (before' ++ word).length ≤ text.length := by
    simp only [h.spells, List.length_append]
    omega
  obtain ⟨rest, inside⟩ := List.prefix_of_prefix_length_le whole (List.prefix_append text more) short
  have place := h.first before' rest (by rw [← inside, List.append_assoc])
  omega

end CertEnrollment.Text

namespace CertEnrollment.Pem
open Text
variable {b : Block} {text : List Char}

/-- The text leads with the block: the first beginning of a block in it and the first end behind
that have its tag, and what stands between them are its bytes. -/
def Block.Leads (b : Block) (text : List Char) : Prop :=
  ∃ before begun titled payload ended rest,
    FirstPlace beginMark text before begun ∧
    FirstPlace dashes begun b.tag.toList titled ∧
    FirstPlace endMark (titled.dropWhile isPadding) payload ended ∧
    FirstPlace dashes ended b.tag.toList rest ∧
    b.tag ≠ "" ∧ payloadBytes? payload = some b.bytes

/-- The block that is read from a text is the one that leads it. -/
theorem first?_eq_some_iff : Block.first? text = some b ↔ b.Leads text := by
  simp only [Block.first?, Block.Leads, ← cutAtWord_eq_some_iff]
  constructor
  · intro h
    obtain ⟨⟨before, begun⟩, found₁, h⟩ := Option.bind_eq_some_iff.mp h
    obtain ⟨⟨tag, titled⟩, found₂, h⟩ := Option.bind_eq_some_iff.mp h
    obtain ⟨⟨payload, ended⟩, found₃, h⟩ := Option.bind_eq_some_iff.mp h
    obtain ⟨⟨closing, rest⟩, found₄, h⟩ := Option.bind_eq_some_iff.mp h
    dsimp only at found₂ found₃ found₄ h
    split at h
    · cases h
    · next fits =>
      obtain ⟨tagged, rfl⟩ : tag ≠ [] ∧ closing = tag := by simpa using fits
      obtain ⟨bytes, read, same⟩ := Option.bind_eq_some_iff.mp h
      obtain rfl := Option.some.inj same
      refine ⟨before, begun, titled, payload, ended, rest, found₁, ?_, found₃, ?_, ?_, read⟩
      · rwa [String.toList_ofList]
      · rwa [String.toList_ofList]
      · simpa using tagged
  · rintro ⟨before, begun, titled, payload, ended, rest, found₁, found₂, found₃, found₄, tagged, read⟩
    simp [found₁, found₂, found₃, found₄, tagged, read]

/-- A text that goes on after a block leads with the same one. -/
theorem Block.Leads.append (h : b.Leads text) (more : List Char) : b.Leads (text ++ more) := by
  obtain ⟨before, begun, titled, payload, ended, rest, begins, title, ends, closes, block⟩ := h
  refine ⟨before, begun ++ more, titled ++ more, payload, ended ++ more, rest ++ more,
    begins.append more, title.append more, ?_, closes.append more, block⟩
  have mark : endMark ≠ [] := by decide
  have some_there : (titled.dropWhile isPadding).isEmpty = false := by
    rw [ends.spells]
    simp [mark]
  rw [List.dropWhile_append, some_there]
  exact ends.append more

end CertEnrollment.Pem
