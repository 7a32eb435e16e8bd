import CertEnrollment.Proofs.Text.ByteOrder

/-!
# Decoding what was encoded

The decoder reads one byte at a time, with the bits of the character under way and the bounds
for its next byte. The first byte of an encoded character sets these bounds so that the bytes
after it keep them, and the last one completes the character. So both decoders give back every
text from its bytes.
-/
namespace CertEnrollment.Utf8

/-! ## Bytes after the first one -/

theorem low_le_followUp (n : Nat) : 0x80 ≤ followUp n := by
  rw [UInt8.le_iff_toNat_le, toNat_followUp]
  exact Nat.le_add_left _ _

theorem followUp_le_high (n : Nat) : followUp n ≤ 0xBF := by
  have high : (0xBF : UInt8).toNat = 0xBF := rfl
  rw [UInt8.le_iff_toNat_le, toNat_followUp, high]
  omega

/-- A lower bound that only some first bytes set. -/
theorem bound_le_followUp {n : Nat} {narrow : Prop} [Decidable narrow] {bound : UInt8}
    (h : narrow → bound.toNat ≤ n % 0x40 + 0x80) :
    (if narrow then bound else 0x80) ≤ followUp n := by
  split
  · next there =>
    rw [UInt8.le_iff_toNat_le, toNat_followUp]
    exact h there
  · exact low_le_followUp n

/-- An upper bound that only some first bytes set. -/
theorem followUp_le_bound {n : Nat} {narrow : Prop} [Decidable narrow] {bound : UInt8}
    (h : narrow → n % 0x40 + 0x80 ≤ bound.toNat) :
    followUp n ≤ (if narrow then bound else 0xBF) := by
  split
  · next there =>
    rw [UInt8.le_iff_toNat_le, toNat_followUp]
    exact h there
  · exact followUp_le_high n

/-- A byte within the bounds adds six bits. -/
theorem places_followUp {p : Pending} {n : Nat} (low : p.low ≤ followUp n)
    (high : followUp n ≤ p.high) (more : p.due ≠ 1) (bytes : List UInt8) :
    places (some p) (followUp n :: bytes) =
      places (some ⟨p.bits * 64 + n % 0x40, p.due - 1, 0x80, 0xBF⟩) bytes := by
  simp [places, advance, low, high, more]

/-- The last byte that is due completes the character. -/
theorem places_last {p : Pending} {n : Nat} (low : p.low ≤ followUp n)
    (high : followUp n ≤ p.high) (last : p.due = 1) (bytes : List UInt8) :
    places (some p) (followUp n :: bytes) =
      some (Char.ofNat (p.bits * 64 + n % 0x40)) :: places none bytes := by
  simp [places, advance, low, high, last]

/-! ## First bytes -/

theorem places_first {p : Pending} {b : UInt8} (begun : start b = ([], some p))
    (bytes : List UInt8) : places none (b :: bytes) = places (some p) bytes := by
  simp [places, advance, begun]

theorem start_one {b : UInt8} (h : b.toNat < 0x80) : start b = ([some (Char.ofNat b.toNat)], none) := by
  simp [start, h]

theorem start_two {b : UInt8} (low : 0xC2 ≤ b.toNat) (high : b.toNat ≤ 0xDF) :
    start b = ([], some ⟨b.toNat - 0xC0, 1, 0x80, 0xBF⟩) := by
  have notAscii : ¬ b.toNat < 0x80 := by omega
  simp [start, notAscii, low, high]

/-- The next byte keeps clear of short forms and of surrogates. -/
theorem start_three {b : UInt8} (low : 0xE0 ≤ b.toNat) (high : b.toNat ≤ 0xEF) :
    start b = ([], some ⟨b.toNat - 0xE0, 2, if b.toNat = 0xE0 then 0xA0 else 0x80,
      if b.toNat = 0xED then 0x9F else 0xBF⟩) := by
  have notAscii : ¬ b.toNat < 0x80 := by omega
  have notTwo : ¬ b.toNat ≤ 0xDF := by omega
  by_cases first : b.toNat = 0xE0
  · simp [start, first]
  · by_cases surrogates : b.toNat = 0xED
    · simp [start, surrogates]
    · have inside : 0xE1 ≤ b.toNat := by omega
      simp [start, notAscii, notTwo, first, surrogates, inside, high]

/-- The next byte keeps clear of short forms and of what is beyond the last character. -/
theorem start_four {b : UInt8} (low : 0xF0 ≤ b.toNat) (high : b.toNat ≤ 0xF4) :
    start b = ([], some ⟨b.toNat - 0xF0, 3, if b.toNat = 0xF0 then 0x90 else 0x80,
      if b.toNat = 0xF4 then 0x8F else 0xBF⟩) := by
  have notAscii : ¬ b.toNat < 0x80 := by omega
  have notTwo : ¬ b.toNat ≤ 0xDF := by omega
  have notThree : ¬ b.toNat ≤ 0xEF := by omega
  by_cases first : b.toNat = 0xF0
  · simp [start, first]
  · by_cases last : b.toNat = 0xF4
    · simp [start, last]
    · have inside : 0xF1 ≤ b.toNat ∧ b.toNat ≤ 0xF3 := by omega
      have notE : b.toNat ≠ 0xE0 ∧ b.toNat ≠ 0xED := by omega
      simp [start, notAscii, notTwo, notThree, first, last, inside, notE]

/-! ## Whole texts -/

/-- The bytes of a character are read as that character. -/
theorem places_char (c : Char) (bytes : List UInt8) :
    places none (String.utf8EncodeChar c ++ bytes) = some c :: places none bytes := by
  have whole : Char.ofNat c.val.toNat = c := Char.ofNat_toNat c
  have notSurrogate : c.val.toNat < 0xD800 ∨ 0xDFFF < c.val.toNat := c.valid.imp id And.left
  have notBeyond : c.val.toNat < 0x110000 := by
    rcases c.valid with low | ⟨-, high⟩
    · exact Nat.lt_trans low (by decide)
    · exact high
  obtain ⟨lead, forms⟩ := utf8EncodeChar_cases c
  rcases forms with ⟨low, first, enc⟩ | ⟨low, high, first, enc⟩ | ⟨low, high, first, enc⟩ |
    ⟨low, first, enc⟩
  · have ascii : start lead = ([some c], none) := by
      rw [start_one (by omega), first, whole]
    simp [enc, places, advance, ascii]
  · have spelled : (lead.toNat - 0xC0) * 64 + c.val.toNat % 0x40 = c.val.toNat := by omega
    rw [enc, List.cons_append, places_first (start_two (by omega) (by omega)),
      List.singleton_append, places_last (low_le_followUp _) (followUp_le_high _) rfl]
    rw [spelled, whole]
  · have above : (if lead.toNat = 0xE0 then 0xA0 else 0x80) ≤ followUp (c.val.toNat / 0x40) :=
      bound_le_followUp fun _ => by change 0xA0 ≤ _; omega
    have below : followUp (c.val.toNat / 0x40) ≤ (if lead.toNat = 0xED then 0x9F else 0xBF) :=
      followUp_le_bound fun _ => by change _ ≤ 0x9F; omega
    have spelled : ((lead.toNat - 0xE0) * 64 + c.val.toNat / 0x40 % 0x40) * 64 +
        c.val.toNat % 0x40 = c.val.toNat := by omega
    rw [enc, List.cons_append, places_first (start_three (by omega) (by omega)),
      List.cons_append, places_followUp above below (by simp), List.singleton_append,
      places_last (low_le_followUp _) (followUp_le_high _) rfl]
    rw [spelled, whole]
  · have above : (if lead.toNat = 0xF0 then 0x90 else 0x80) ≤ followUp (c.val.toNat / 0x1000) :=
      bound_le_followUp fun _ => by change 0x90 ≤ _; omega
    have below : followUp (c.val.toNat / 0x1000) ≤ (if lead.toNat = 0xF4 then 0x8F else 0xBF) :=
      followUp_le_bound fun _ => by change _ ≤ 0x8F; omega
    have spelled : (((lead.toNat - 0xF0) * 64 + c.val.toNat / 0x1000 % 0x40) * 64 +
        c.val.toNat / 0x40 % 0x40) * 64 + c.val.toNat % 0x40 = c.val.toNat := by omega
    rw [enc, List.cons_append, places_first (start_four (by omega) (by omega)),
      List.cons_append, places_followUp above below (by simp), List.cons_append,
      places_followUp (low_le_followUp _) (followUp_le_high _) (by simp), List.singleton_append,
      places_last (low_le_followUp _) (followUp_le_high _) rfl]
    rw [spelled, whole]

theorem places_encode (s : String) : places none (encode s) = s.toList.map some := by
  rw [encode]
  induction s.toList with
  | nil => rfl
  | cons c cs ih => rw [List.flatMap_cons, places_char, ih, List.map_cons]

/-- The strict decoder gives back the text. -/
theorem decode?_encode (s : String) : decode? (encode s) = some s := by
  have read : (s.toList.map some).mapM id = some s.toList := by
    simpa [Function.comp_def] using List.mapM_pure (m := Option) (f := id) (l := s.toList)
  rw [decode?, places_encode, read, Option.map_some, String.ofList_toList]

/-- The tolerant decoder gives back the text. -/
theorem decodeLossy_encode (s : String) : decodeLossy (encode s) = s := by
  simp [decodeLossy, places_encode, Function.comp_def]

end CertEnrollment.Utf8
