import CertEnrollment.Encoding.Base64
import CertEnrollment.Text.Blank

/-!
# Base64 is read back as it was written

Four signs hold the bits of three bytes, and the padding at the end says how many bytes the last
group has. The signs of a text are none of the characters that other forms are told apart by.
-/
namespace CertEnrollment.Base64

/-! ## Signs -/

theorem bits?_sign {n : Nat} (h : n < 64) : bits? (sign n) = some n := by
  have all : ∀ n < 64, bits? (sign n) = some n := by decide
  exact all n h

/-- Neither a blank nor a dash nor padding. -/
def IsPlain (c : Char) : Prop := Text.isBlank c = false ∧ c ≠ '-'

instance (c : Char) : Decidable (IsPlain c) := inferInstanceAs (Decidable (_ ∧ _))

theorem sign_plain {n : Nat} (h : n < 64) : IsPlain (sign n) ∧ sign n ≠ '=' := by
  have all : ∀ n < 64, IsPlain (sign n) ∧ sign n ≠ '=' := by decide
  exact all n h

theorem plain_of_mem {bytes : List UInt8} {c : Char} (h : c ∈ encodeBytes bytes) : IsPlain c := by
  have padding : IsPlain '=' := by decide
  induction bytes using encodeBytes.induct with
  | case1 => simp [encodeBytes] at h
  | case2 a =>
    have bound := a.toNat_lt
    simp only [encodeBytes, List.mem_cons, List.not_mem_nil, or_false] at h
    rcases h with rfl | rfl | rfl | rfl
    · exact (sign_plain (by omega)).1
    · exact (sign_plain (by omega)).1
    · exact padding
    · exact padding
  | case3 a b =>
    have bound := a.toNat_lt
    have bound' := b.toNat_lt
    simp only [encodeBytes, List.mem_cons, List.not_mem_nil, or_false] at h
    rcases h with rfl | rfl | rfl | rfl
    · exact (sign_plain (by omega)).1
    · exact (sign_plain (by omega)).1
    · exact (sign_plain (by omega)).1
    · exact padding
  | case4 a b c' rest ih =>
    have bound := a.toNat_lt
    have bound' := b.toNat_lt
    have bound'' := c'.toNat_lt
    simp only [encodeBytes, List.mem_cons] at h
    rcases h with rfl | rfl | rfl | rfl | later
    · exact (sign_plain (by omega)).1
    · exact (sign_plain (by omega)).1
    · exact (sign_plain (by omega)).1
    · exact (sign_plain (by omega)).1
    · exact ih later

/-! ## Groups -/

theorem group?_two {x y : Nat} (hx : x < 64) (hy : y < 64) :
    group? [sign x, sign y] = some (x * 64 + y) := by
  simp [group?, bits?_sign hx, bits?_sign hy]

theorem group?_three {x y z : Nat} (hx : x < 64) (hy : y < 64) (hz : z < 64) :
    group? [sign x, sign y, sign z] = some ((x * 64 + y) * 64 + z) := by
  simp [group?, bits?_sign hx, bits?_sign hy, bits?_sign hz]

theorem group?_four {x y z w : Nat} (hx : x < 64) (hy : y < 64) (hz : z < 64) (hw : w < 64) :
    group? [sign x, sign y, sign z, sign w] = some (((x * 64 + y) * 64 + z) * 64 + w) := by
  simp [group?, bits?_sign hx, bits?_sign hy, bits?_sign hz, bits?_sign hw]

/-- A group without padding stands for three bytes, whatever follows it. -/
theorem decode?_group {a b c d : Char} {rest : List Char} (full : d ≠ '=') :
    decode? (a :: b :: c :: d :: rest) = (do
      let n ← group? [a, b, c, d]
      let more ← decode? rest
      return UInt8.ofNat (n / 65536) :: UInt8.ofNat (n / 256 % 256) :: UInt8.ofNat (n % 256) ::
        more) := by
  rw [decode?] <;> simp [full]

theorem ofNat_eq {n : Nat} {b : UInt8} (h : n = b.toNat) : UInt8.ofNat n = b := by
  rw [h, UInt8.ofNat_toNat]

/-- What is written for bytes is read as these bytes. -/
theorem decode?_encodeBytes (bytes : List UInt8) : decode? (encodeBytes bytes) = some bytes := by
  induction bytes using encodeBytes.induct with
  | case1 => rfl
  | case2 a =>
    have bound := a.toNat_lt
    have whole : a.toNat * 16 / 64 * 64 + a.toNat * 16 % 64 = a.toNat * 16 := by omega
    rw [encodeBytes, decode?, group?_two (by omega) (by omega), whole]
    change (if a.toNat * 16 % 16 = 0 then some [UInt8.ofNat (a.toNat * 16 / 16)] else none) = _
    rw [if_pos (by omega), ofNat_eq (b := a) (by omega)]
  | case3 a b =>
    have bound := a.toNat_lt
    have bound' := b.toNat_lt
    obtain ⟨n, same⟩ : ∃ n, (a.toNat * 256 + b.toNat) * 4 = n := ⟨_, rfl⟩
    have whole : (n / 4096 * 64 + n / 64 % 64) * 64 + n % 64 = n := by omega
    have notPadding := (sign_plain (n := n % 64) (by omega)).2
    rw [encodeBytes, same, decode?, group?_three (by omega) (by omega) (by omega), whole]
    change (if n % 4 = 0 then some [UInt8.ofNat (n / 1024), UInt8.ofNat (n / 4 % 256)]
      else none) = _
    · rw [if_pos (by omega), ofNat_eq (b := a) (by omega), ofNat_eq (b := b) (by omega)]
    · exact notPadding
  | case4 a b c rest ih =>
    have bound := a.toNat_lt
    have bound' := b.toNat_lt
    have bound'' := c.toNat_lt
    obtain ⟨n, same⟩ : ∃ n, (a.toNat * 256 + b.toNat) * 256 + c.toNat = n := ⟨_, rfl⟩
    have whole : ((n / 262144 * 64 + n / 4096 % 64) * 64 + n / 64 % 64) * 64 + n % 64 = n := by
      omega
    have notPadding := (sign_plain (n := n % 64) (by omega)).2
    rw [encodeBytes, same, decode?_group notPadding,
      group?_four (by omega) (by omega) (by omega) (by omega), whole, ih]
    change some (UInt8.ofNat (n / 65536) :: UInt8.ofNat (n / 256 % 256) :: UInt8.ofNat (n % 256) ::
      rest) = _
    rw [ofNat_eq (b := a) (by omega), ofNat_eq (b := b) (by omega), ofNat_eq (b := c) (by omega)]

/-- The signs of a sequence begin with this one. -/
theorem head?_encodeBytes {bytes : List UInt8} (h : bytes.head? = some 0x30) :
    (encodeBytes bytes).head? = some 'M' := by
  have first : ∀ a : UInt8, some a = some 0x30 → a.toNat = 48 := by
    rintro a ⟨⟩
    rfl
  have twelfth : sign 12 = 'M' := by decide
  match bytes, h with
  | [a], h =>
    have value := first a h
    rw [encodeBytes, List.head?_cons, value, twelfth]
  | [a, b], h =>
    have value := first a h
    have bound := b.toNat_lt
    have twelve : (a.toNat * 256 + b.toNat) * 4 / 4096 = 12 := by omega
    rw [encodeBytes, List.head?_cons, twelve, twelfth]
  | a :: b :: c :: rest, h =>
    have value := first a h
    have bound := b.toNat_lt
    have bound' := c.toNat_lt
    have twelve : ((a.toNat * 256 + b.toNat) * 256 + c.toNat) / 262144 = 12 := by omega
    rw [encodeBytes, List.head?_cons, twelve, twelfth]

end CertEnrollment.Base64
