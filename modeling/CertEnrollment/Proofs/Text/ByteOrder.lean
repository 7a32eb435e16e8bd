import CertEnrollment.Data.SortedMap
import CertEnrollment.Text.Utf8

/-!
# The order of bytes

Texts are in the order of their code points just when their UTF-8 bytes are in the order
of bytes, a start before its continuations in both cases.
-/
namespace CertEnrollment.Utf8
open Data

/-- A byte after the first one of a character, from the last six bits of a number. -/
def followUp (n : Nat) : UInt8 := UInt8.ofNat (n % 0x40 + 0x80)

@[simp] theorem toNat_followUp (n : Nat) : (followUp n).toNat = n % 0x40 + 0x80 := by
  rw [followUp, UInt8.toNat_ofNat']
  omega

/-- The bytes of a character by how many there are. -/
theorem utf8EncodeChar_cases (c : Char) : ∃ lead : UInt8,
    (c.val.toNat < 0x80 ∧ lead.toNat = c.val.toNat ∧ String.utf8EncodeChar c = [lead]) ∨
    (0x80 ≤ c.val.toNat ∧ c.val.toNat < 0x800 ∧ lead.toNat = c.val.toNat / 0x40 + 0xC0 ∧
      String.utf8EncodeChar c = [lead, followUp c.val.toNat]) ∨
    (0x800 ≤ c.val.toNat ∧ c.val.toNat < 0x10000 ∧ lead.toNat = c.val.toNat / 0x1000 + 0xE0 ∧
      String.utf8EncodeChar c = [lead, followUp (c.val.toNat / 0x40), followUp c.val.toNat]) ∨
    (0x10000 ≤ c.val.toNat ∧ lead.toNat = c.val.toNat / 0x40000 + 0xF0 ∧
      String.utf8EncodeChar c = [lead, followUp (c.val.toNat / 0x1000),
        followUp (c.val.toNat / 0x40), followUp c.val.toNat]) := by
  have bound : c.val.toNat < 0x110000 := by
    rcases c.valid with low | ⟨-, high⟩
    · exact Nat.lt_trans low (by decide)
    · exact high
  unfold String.utf8EncodeChar
  dsimp only
  split
  · exact ⟨_, .inl ⟨by omega, by rw [UInt8.toNat_ofNat']; omega, rfl⟩⟩
  · split
    · exact ⟨_, .inr (.inl ⟨by omega, by omega, by rw [UInt8.toNat_ofNat']; omega, rfl⟩)⟩
    · split
      · exact ⟨_, .inr (.inr (.inl ⟨by omega, by omega, by rw [UInt8.toNat_ofNat']; omega, rfl⟩))⟩
      · exact ⟨_, .inr (.inr (.inr ⟨by omega, by rw [UInt8.toNat_ofNat']; omega, rfl⟩))⟩

/-- The bytes of two characters differ at some place, and there they are in order. -/
theorem utf8EncodeChar_lt {c d : Char} (h : c < d) (l m : List UInt8) :
    String.utf8EncodeChar c ++ l < String.utf8EncodeChar d ++ m := by
  have before : c.val.toNat < d.val.toNat := h
  obtain ⟨x, forms⟩ := utf8EncodeChar_cases c
  obtain ⟨y, forms'⟩ := utf8EncodeChar_cases d
  rcases forms with ⟨low, lead, bytes⟩ | ⟨low, high, lead, bytes⟩ | ⟨low, high, lead, bytes⟩ |
      ⟨low, lead, bytes⟩ <;>
    rcases forms' with ⟨low', lead', bytes'⟩ | ⟨low', high', lead', bytes'⟩ |
      ⟨low', high', lead', bytes'⟩ | ⟨low', lead', bytes'⟩ <;>
    rw [bytes, bytes'] <;>
    simp only [List.cons_append, List.nil_append, List.cons_lt_cons_iff,
      UInt8.lt_iff_toNat_lt, ← UInt8.toNat_inj, toNat_followUp, lead, lead'] <;>
    omega

theorem append_lt_append {l m : List UInt8} (h : l < m) (bytes : List UInt8) :
    bytes ++ l < bytes ++ m := by
  induction bytes with
  | nil => exact h
  | cons b bytes ih => exact List.cons_lt_cons_iff.mpr (.inr ⟨rfl, ih⟩)

theorem flatMap_lt {cs ds : List Char} (h : cs < ds) :
    cs.flatMap String.utf8EncodeChar < ds.flatMap String.utf8EncodeChar := by
  induction h with
  | nil =>
    rename_i d ds
    have some_there : String.utf8EncodeChar d ≠ [] :=
      List.ne_nil_of_length_pos (by rw [String.length_utf8EncodeChar]; exact d.utf8Size_pos)
    obtain ⟨lead, more, bytes⟩ := List.exists_cons_of_ne_nil some_there
    rw [List.flatMap_cons, bytes]
    exact List.nil_lt_cons _ _
  | rel before => exact utf8EncodeChar_lt before _ _
  | cons _ ih => exact append_lt_append ih _

/-- Keys are in the order of their bytes. -/
theorem precedes_iff_encode_lt {a b : String} : Precedes a b ↔ encode a < encode b := by
  constructor
  · exact flatMap_lt
  · intro bytes
    refine Classical.not_not.mp fun notBefore => ?_
    rcases Classical.em (Precedes b a) with after | notAfter
    · exact List.lt_asymm bytes (flatMap_lt after)
    · rw [eq_of_not_precedes notBefore notAfter] at bytes
      exact List.lt_irrefl _ bytes

end CertEnrollment.Utf8
