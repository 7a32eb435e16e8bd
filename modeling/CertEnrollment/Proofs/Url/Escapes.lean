import CertEnrollment.Proofs.Text.Canonical
import CertEnrollment.Proofs.Url.Forms

/-!
# Percent signs that are not encoded

In the user information of a URL a percent sign is left as it is, and so are hexadecimal digits.
Decoding takes a percent sign with two digits for the byte that they spell, whether the encoder
wrote it or it stood in the text before. So an encoded text is read as the text itself would be,
and that is the text just when it has no such escape in it.
-/
namespace CertEnrollment.Url
open Text

/-! ## What a text with escapes stands for -/

/-- The bytes of a text, and those that its escapes spell. -/
def unescape : List Char → List UInt8
  | '%' :: x :: y :: cs =>
    match digitIn? 16 x, digitIn? 16 y with
    | some h, some l => UInt8.ofNat (h * 16 + l) :: unescape cs
    | _, _ => 0x25 :: unescape (x :: y :: cs)
  | c :: cs => String.utf8EncodeChar c ++ unescape cs
  | [] => []

/-- The text starts with two hexadecimal digits. -/
def startsWithByte : List Char → Bool
  | x :: y :: _ => (digitIn? 16 x).isSome && (digitIn? 16 y).isSome
  | _ => false

/-- There is an escape in the text: a percent sign with two hexadecimal digits after it. -/
def hasEscape : List Char → Bool
  | [] => false
  | c :: cs => (c == '%' && startsWithByte cs) || hasEscape cs

theorem unescape_escape {x y : Char} {h l : Nat} (high : digitIn? 16 x = some h)
    (low : digitIn? 16 y = some l) (cs : List Char) :
    unescape ('%' :: x :: y :: cs) = UInt8.ofNat (h * 16 + l) :: unescape cs := by
  rw [unescape, high, low]

/-- A character that starts no escape stands for itself. -/
theorem unescape_cons {c : Char} {cs : List Char} (plain : c = '%' → startsWithByte cs = false) :
    unescape (c :: cs) = String.utf8EncodeChar c ++ unescape cs := by
  rw [unescape.eq_def]
  split
  · next x y cs same =>
    obtain ⟨rfl, rfl⟩ := List.cons.inj same
    rw [utf8EncodeChar_percent]
    split
    · next digit digit' =>
      have neither := plain rfl
      rw [startsWithByte, digit, digit'] at neither
      cases neither
    · rfl
  · next same =>
    obtain ⟨rfl, rfl⟩ := List.cons.inj same
    rfl
  · next same => cases same

/-- A text is taken from the front: an escape or a character that starts none. -/
theorem induction_on_escapes {P : List Char → Prop} (nil : P [])
    (escape : ∀ x y h l cs, digitIn? 16 x = some h → digitIn? 16 y = some l → P cs →
      P ('%' :: x :: y :: cs))
    (plain : ∀ c cs, (c = '%' → startsWithByte cs = false) → P cs → P (c :: cs)) :
    ∀ cs, P cs
  | [] => nil
  | c :: cs => by
    by_cases starts : c = '%' ∧ startsWithByte cs = true
    · obtain ⟨rfl, spelled⟩ := starts
      match cs with
      | [] => cases spelled
      | [_] => cases spelled
      | x :: y :: cs =>
        obtain ⟨⟨h, high⟩, l, low⟩ : (∃ h, digitIn? 16 x = some h) ∧ ∃ l, digitIn? 16 y = some l := by
          simpa [startsWithByte, Option.isSome_iff_exists] using spelled
        exact escape x y h l cs high low (induction_on_escapes nil escape plain cs)
    · refine plain c cs (fun percent => ?_) (induction_on_escapes nil escape plain cs)
      simpa [percent] using starts

theorem utf8EncodeChar_ne_nil (c : Char) : String.utf8EncodeChar c ≠ [] := by
  obtain ⟨lead, ⟨-, -, enc⟩ | ⟨-, -, -, enc⟩ | ⟨-, -, -, enc⟩ | ⟨-, -, enc⟩⟩ :=
    Utf8.utf8EncodeChar_cases c <;> simp [enc]

/-- Escapes are longer than what they stand for. -/
theorem length_unescape_le (cs : List Char) :
    (unescape cs).length ≤ (cs.flatMap String.utf8EncodeChar).length := by
  induction cs using induction_on_escapes with
  | nil => exact Nat.le_refl _
  | escape x y h l cs high low ih =>
    rw [unescape_escape high low]
    simp only [List.flatMap_cons, utf8EncodeChar_percent, List.length_append, List.length_cons]
    omega
  | plain c cs none_there ih =>
    rw [unescape_cons none_there, List.flatMap_cons, List.length_append, List.length_append]
    omega

/-- A text stands for itself just when it has no escapes. -/
theorem unescape_eq_iff (cs : List Char) :
    unescape cs = cs.flatMap String.utf8EncodeChar ↔ hasEscape cs = false := by
  induction cs using induction_on_escapes with
  | nil => simp [unescape, hasEscape]
  | escape x y h l cs high low ih =>
    have spelled : hasEscape ('%' :: x :: y :: cs) = true := by
      simp [hasEscape, startsWithByte, high, low]
    have shorter := length_unescape_le cs
    have digit := List.length_pos_iff.mpr (utf8EncodeChar_ne_nil x)
    rw [spelled, unescape_escape high low]
    refine iff_of_false (fun same => ?_) (by simp)
    have lengths := congrArg List.length same
    simp only [List.flatMap_cons, utf8EncodeChar_percent, List.length_append,
      List.length_cons] at lengths
    omega
  | plain c cs none_there ih =>
    have rest : hasEscape (c :: cs) = hasEscape cs := by
      by_cases percent : c = '%'
      · simp [hasEscape, none_there percent]
      · simp [hasEscape, percent]
    rw [rest, ← ih, unescape_cons none_there, List.flatMap_cons, List.append_cancel_left_eq]

/-! ## Decoding -/

/-- Hexadecimal digits are ASCII, and in the user information they are not encoded. -/
theorem plain_of_digit {c : Char} {n : Nat} (h : digitIn? 16 c = some n) :
    c.toNat < 0x80 ∧ inUserinfoSet c = false := by
  have ascii : c.toNat < 0x80 := by
    refine Nat.lt_of_not_le fun beyond => ?_
    have lower : c.toLower.toNat = c.toNat := by rw [toNat_toLower, if_neg (by omega)]
    have noNumber : c.isDigit = false := by
      simp [Char.isDigit, UInt32.le_iff_toNat_le]
      omega
    have noLetter : ¬('a' ≤ c.toLower ∧ c.toLower ≤ 'z') := by
      rintro ⟨-, last⟩
      have bound : c.toLower.toNat ≤ 122 := last
      omega
    simp [digitIn?, noNumber, noLetter] at h
  refine ⟨ascii, ?_⟩
  have all : ∀ n < 0x80, (digitIn? 16 (Char.ofNat n)).isSome = true →
      inUserinfoSet (Char.ofNat n) = false := by decide
  have found := all c.toNat ascii
  rw [Char.ofNat_toNat, h] at found
  exact found rfl

theorem hexDigit?_ofNat {c : Char} (ascii : c.toNat < 0x80) :
    hexDigit? (UInt8.ofNat c.toNat) = digitIn? 16 c := by
  rw [hexDigit?, UInt8.toNat_ofNat', Nat.mod_eq_of_lt (by omega), Char.ofNat_toNat]

theorem high_of_mem_utf8EncodeChar {c : Char} (beyond : 0x80 ≤ c.toNat) {b : UInt8}
    (h : b ∈ String.utf8EncodeChar c) : 0x80 ≤ b.toNat := by
  have large : 0x80 ≤ c.val.toNat := beyond
  obtain ⟨lead, ⟨low, -⟩ | ⟨-, -, first, enc⟩ | ⟨-, -, first, enc⟩ | ⟨-, first, enc⟩⟩ :=
    Utf8.utf8EncodeChar_cases c
  · omega
  all_goals
    simp only [enc, List.mem_cons, List.not_mem_nil, or_false] at h
    rcases h with rfl | h
    · omega
    · rcases h with rfl | rfl | rfl <;> simp

/-- Characters are written as bytes in this way for a reader of percent signs: what belongs to
escapes stands for itself, and nothing else looks like it. -/
structure Spells (f : Char → List UInt8) : Prop where
  percent : f '%' = [0x25]
  digit : ∀ c n, digitIn? 16 c = some n → f c = [UInt8.ofNat c.toNat]
  other : ∀ c, digitIn? 16 c = none → ∃ b bytes, f c = b :: bytes ∧ hexDigit? b = none
  read : ∀ c, c ≠ '%' → ∀ bytes,
    percentDecodeBytes (f c ++ bytes) = String.utf8EncodeChar c ++ percentDecodeBytes bytes

/-- A percent sign that starts no escape stands for itself. -/
theorem percentDecodeBytes_percent {bytes : List UInt8}
    (h : ∀ c d rest, bytes = c :: d :: rest → hexDigit? c = none ∨ hexDigit? d = none) :
    percentDecodeBytes (0x25 :: bytes) = 0x25 :: percentDecodeBytes bytes := by
  match bytes with
  | [] => rfl
  | [_] => rfl
  | c :: d :: rest =>
    rw [percentDecodeBytes, if_pos rfl]
    split
    · next high low =>
      rcases h c d rest rfl with absent | absent
      · cases absent.symm.trans high
      · cases absent.symm.trans low
    · rfl

/-- Whatever is encoded, a text is read with its own escapes. -/
theorem Spells.percentDecodeBytes_flatMap {f : Char → List UInt8} (spells : Spells f)
    (cs : List Char) : percentDecodeBytes (cs.flatMap f) = unescape cs := by
  induction cs using induction_on_escapes with
  | nil => rfl
  | escape x y h l cs high low ih =>
    rw [unescape_escape high low, ← ih]
    simp only [List.flatMap_cons, spells.percent, spells.digit x h high, spells.digit y l low,
      List.singleton_append]
    rw [percentDecodeBytes, if_pos rfl, hexDigit?_ofNat (plain_of_digit high).1, high,
      hexDigit?_ofNat (plain_of_digit low).1, low]
  | plain c cs none_there ih =>
    rw [unescape_cons none_there, ← ih, List.flatMap_cons]
    by_cases percent : c = '%'
    · subst percent
      rw [spells.percent, utf8EncodeChar_percent, List.singleton_append, List.singleton_append]
      refine percentDecodeBytes_percent fun b d rest same => ?_
      have neither := none_there rfl
      cases cs with
      | nil => cases same
      | cons x cs =>
        cases first : digitIn? 16 x with
        | none =>
          obtain ⟨lead, more, enc, noDigit⟩ := spells.other x first
          rw [List.flatMap_cons, enc] at same
          obtain ⟨rfl, -⟩ := List.cons.inj same
          exact .inl noDigit
        | some h =>
          rw [List.flatMap_cons, spells.digit x h first] at same
          cases cs with
          | nil => simp at same
          | cons y cs =>
            have second : digitIn? 16 y = none := by
              simpa [startsWithByte, first] using neither
            obtain ⟨lead, more, enc, noDigit⟩ := spells.other y second
            rw [List.flatMap_cons, enc] at same
            obtain ⟨-, same⟩ := List.cons.inj same
            obtain ⟨rfl, -⟩ := List.cons.inj same
            exact .inr noDigit
    · exact spells.read c percent _

theorem hexDigit?_of_high {b : UInt8} (high : 0x80 ≤ b.toNat) : hexDigit? b = none := by
  have valid : b.toNat.isValidChar := .inl (Nat.lt_trans b.toNat_lt (by decide))
  have code : (Char.ofNat b.toNat).toNat = b.toNat := by
    rw [Char.ofNat, dif_pos valid]
    rfl
  cases digit : hexDigit? b with
  | none => rfl
  | some n =>
    have ascii := (plain_of_digit digit).1
    omega

theorem percentDecodeBytes_append {bs : List UInt8} (h : ∀ b ∈ bs, b ≠ 0x25)
    (bytes : List UInt8) : percentDecodeBytes (bs ++ bytes) = bs ++ percentDecodeBytes bytes := by
  induction bs with
  | nil => rfl
  | cons b bs ih =>
    obtain ⟨here, later⟩ := List.forall_mem_cons.mp h
    rw [List.cons_append, percentDecodeBytes_cons here, ih later, List.cons_append]

theorem spells_utf8EncodeChar : Spells String.utf8EncodeChar where
  percent := utf8EncodeChar_percent
  digit c n h := utf8EncodeChar_ascii (plain_of_digit h).1
  other c h := by
    by_cases ascii : c.toNat < 0x80
    · exact ⟨_, [], utf8EncodeChar_ascii ascii, (hexDigit?_ofNat ascii).trans h⟩
    · obtain ⟨b, bytes, enc⟩ := List.exists_cons_of_ne_nil (utf8EncodeChar_ne_nil c)
      have first : b ∈ String.utf8EncodeChar c := by simp [enc]
      exact ⟨b, bytes, enc,
        hexDigit?_of_high (high_of_mem_utf8EncodeChar (Nat.le_of_not_lt ascii) first)⟩
  read c other bytes := by
    refine percentDecodeBytes_append (fun b hb percent => ?_) bytes
    by_cases ascii : c.toNat < 0x80
    · rw [utf8EncodeChar_ascii ascii, List.mem_singleton] at hb
      have code := congrArg UInt8.toNat (hb.symm.trans percent)
      rw [UInt8.toNat_ofNat', Nat.mod_eq_of_lt (by omega)] at code
      exact other (Char.toNat_inj.mp code)
    · have high := high_of_mem_utf8EncodeChar (Nat.le_of_not_lt ascii) hb
      rw [percent] at high
      exact absurd high (by decide)

theorem spells_encodeChar :
    Spells fun c => (encodeChar inUserinfoSet c).flatMap String.utf8EncodeChar where
  percent := by decide
  digit c n h := by
    obtain ⟨ascii, free⟩ := plain_of_digit h
    rw [encodeChar, if_pos ⟨ascii, free⟩, List.flatMap_singleton, utf8EncodeChar_ascii ascii]
  other c h := by
    by_cases free : c.toNat < 0x80 ∧ inUserinfoSet c = false
    · rw [encodeChar, if_pos free, List.flatMap_singleton]
      exact spells_utf8EncodeChar.other c h
    · obtain ⟨b, bytes, enc⟩ := List.exists_cons_of_ne_nil (utf8EncodeChar_ne_nil c)
      rw [encodeChar, if_neg free, enc, List.flatMap_cons, encodeByte, List.flatMap_append,
        List.flatMap_cons, utf8EncodeChar_percent]
      exact ⟨0x25, _, rfl, by decide⟩
  read c other bytes := percentDecodeBytes_encodeChar (absurd · other) bytes

/-- In the user information, a text is read with its own escapes. -/
theorem percentDecode_userinfo (s : String) :
    percentDecode (String.ofList (percentEncode inUserinfoSet s.toList)) = percentDecode s := by
  rw [percentDecode, percentDecode, Utf8.encode, Utf8.encode, String.toList_ofList, percentEncode,
    List.flatMap_assoc, spells_encodeChar.percentDecodeBytes_flatMap,
    spells_utf8EncodeChar.percentDecodeBytes_flatMap]

/-- Decoding leaves a text as it is just when there are no escapes in it. -/
theorem percentDecode_eq_encode_iff (s : String) :
    percentDecode s = Utf8.encode s ↔ hasEscape s.toList = false := by
  rw [percentDecode, Utf8.encode, spells_utf8EncodeChar.percentDecodeBytes_flatMap,
    unescape_eq_iff]

end CertEnrollment.Url
