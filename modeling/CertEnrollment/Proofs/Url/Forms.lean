import CertEnrollment.Proofs.Text.Decoding
import CertEnrollment.Proofs.Text.Labels
import CertEnrollment.Url.Form

/-!
# Reading forms

Who gets a form cuts it at ampersands and each part at its first equals sign, takes plus signs
for spaces, and decodes what is percent-encoded. Names and values are encoded so that they have
none of these signs, and the percent sign is encoded itself. So the pairs are read as they were
sent.
-/
namespace CertEnrollment.Url
open Text

/-! ## Percent encoding -/

theorem utf8EncodeChar_ascii {c : Char} (h : c.toNat < 0x80) :
    String.utf8EncodeChar c = [UInt8.ofNat c.toNat] := by
  have small : c.val.toNat < 0x80 := h
  obtain ⟨lead, forms⟩ := Utf8.utf8EncodeChar_cases c
  rcases forms with ⟨-, first, enc⟩ | ⟨low, -⟩ | ⟨low, -⟩ | ⟨low, -⟩
  · rw [enc, ← UInt8.ofNat_toNat (x := lead), first]
    rfl
  all_goals omega

theorem utf8EncodeChar_percent : String.utf8EncodeChar '%' = [0x25] := by decide

/-- A byte that is no percent sign stands for itself. -/
theorem percentDecodeBytes_cons {b : UInt8} (h : b ≠ 0x25) (bytes : List UInt8) :
    percentDecodeBytes (b :: bytes) = b :: percentDecodeBytes bytes := by
  match bytes with
  | [] => rfl
  | [_] => rfl
  | _ :: _ :: _ => rw [percentDecodeBytes, if_neg h]

/-- The digits of a byte are ASCII and are read as they were written. -/
theorem hexUpper_digit : ∀ n < 16, (hexUpper n).toNat < 0x80 ∧
    hexDigit? (UInt8.ofNat (hexUpper n).toNat) = some n ∧ (hexUpper n).isAlphanum = true := by
  decide

theorem percentDecodeBytes_encodeByte (b : UInt8) (bytes : List UInt8) :
    percentDecodeBytes ((encodeByte b).flatMap String.utf8EncodeChar ++ bytes) =
      b :: percentDecodeBytes bytes := by
  have bound : b.toNat < 256 := b.toNat_lt
  obtain ⟨ascii, read, -⟩ := hexUpper_digit (b.toNat / 16) (by omega)
  obtain ⟨ascii', read', -⟩ := hexUpper_digit (b.toNat % 16) (by omega)
  have spelled : UInt8.ofNat (b.toNat / 16 * 16 + b.toNat % 16) = b := by
    rw [Nat.div_add_mod' b.toNat 16, UInt8.ofNat_toNat]
  simp only [encodeByte, List.flatMap_cons, List.flatMap_nil, utf8EncodeChar_percent,
    utf8EncodeChar_ascii ascii, utf8EncodeChar_ascii ascii', List.append_nil, List.cons_append,
    List.nil_append]
  rw [percentDecodeBytes, if_pos rfl, read, read']
  simp only [spelled]

theorem percentDecodeBytes_encodeBytes (bs bytes : List UInt8) :
    percentDecodeBytes ((bs.flatMap encodeByte).flatMap String.utf8EncodeChar ++ bytes) =
      bs ++ percentDecodeBytes bytes := by
  induction bs with
  | nil => rfl
  | cons b bs ih =>
    rw [List.flatMap_cons, List.flatMap_append, List.append_assoc, percentDecodeBytes_encodeByte,
      ih, List.cons_append]

variable {reserved : Char → Bool}

/-- Where nothing has to be encoded, nothing is. -/
theorem percentEncode_eq_self {cs : List Char}
    (h : ∀ c ∈ cs, c.toNat < 0x80 ∧ reserved c = false) : percentEncode reserved cs = cs := by
  induction cs with
  | nil => rfl
  | cons c cs ih =>
    obtain ⟨here, later⟩ := List.forall_mem_cons.mp h
    rw [percentEncode, List.flatMap_cons, encodeChar, if_pos here]
    exact congrArg (c :: ·) (ih later)

/-- Unless it is a percent sign that is left as it is, a character is read as its bytes. -/
theorem percentDecodeBytes_encodeChar {c : Char} (h : c = '%' → reserved c = true)
    (bytes : List UInt8) :
    percentDecodeBytes ((encodeChar reserved c).flatMap String.utf8EncodeChar ++ bytes) =
      String.utf8EncodeChar c ++ percentDecodeBytes bytes := by
  rw [encodeChar]
  split
  · next plain =>
    obtain ⟨ascii, free⟩ := plain
    have notPercent : UInt8.ofNat c.toNat ≠ 0x25 := by
      intro same
      have code : c.toNat = '%'.toNat := by
        have low := congrArg UInt8.toNat same
        rw [UInt8.toNat_ofNat', Nat.mod_eq_of_lt (by omega)] at low
        exact low
      rw [h (Char.toNat_inj.mp code)] at free
      cases free
    rw [List.flatMap_singleton, utf8EncodeChar_ascii ascii, List.singleton_append,
      percentDecodeBytes_cons notPercent]
    rfl
  · exact percentDecodeBytes_encodeBytes _ bytes

theorem percentDecode_percentEncode (h : reserved '%' = true) (s : String) :
    percentDecode (String.ofList (percentEncode reserved s.toList)) = Utf8.encode s := by
  rw [percentDecode, Utf8.encode, String.toList_ofList, percentEncode, Utf8.encode]
  induction s.toList with
  | nil => rfl
  | cons c cs ih =>
    rw [List.flatMap_cons, List.flatMap_append,
      percentDecodeBytes_encodeChar fun percent => percent ▸ h, ih, List.flatMap_cons]

/-! ## Parts of a form -/

/-- Plus signs stand for spaces. -/
def plusesToSpaces (cs : List Char) : List Char := cs.map fun c => if c = '+' then ' ' else c

/-- What a name or a value of a form says. -/
def decodeFormText (cs : List Char) : String :=
  Utf8.decodeLossy (percentDecode (String.ofList (plusesToSpaces cs)))

theorem mem_encodeByte {b : UInt8} {d : Char} (h : d ∈ encodeByte b) :
    isFormChar d = true ∨ d = '%' := by
  have bound : b.toNat < 256 := b.toNat_lt
  have digit : ∀ n < 16, isFormChar (hexUpper n) = true := fun n hn => by
    rw [isFormChar, (hexUpper_digit n hn).2.2, Bool.true_or]
  simp only [encodeByte, List.mem_cons, List.not_mem_nil, or_false] at h
  rcases h with rfl | rfl | rfl
  · exact .inr rfl
  · exact .inl (digit _ (by omega))
  · exact .inl (digit _ (by omega))

theorem mem_encodeChar {c d : Char} (h : d ∈ encodeChar (fun c => !isFormChar c) c) :
    isFormChar d = true ∨ d = '%' := by
  rw [encodeChar] at h
  split at h
  · next plain =>
    rw [List.mem_singleton.mp h]
    exact .inl (by simpa using plain.2)
  · obtain ⟨b, -, hb⟩ := List.mem_flatMap.mp h
    exact mem_encodeByte hb

/-- An encoded text has no other signs than plus and percent. -/
theorem not_mem_encodeFormText {d : Char} (sign : isFormChar d = false) (notPercent : d ≠ '%')
    (notPlus : d ≠ '+') (s : String) : d ∉ encodeFormText s := by
  intro h
  obtain ⟨c, -, hc⟩ := List.mem_flatMap.mp h
  rw [encodeFormChar] at hc
  split at hc
  · exact notPlus (List.mem_singleton.mp hc)
  · rcases mem_encodeChar hc with plain | percent
    · cases sign.symm.trans plain
    · exact notPercent percent

/-- Apart from the plus signs, the encoding for forms is percent encoding. -/
theorem plusesToSpaces_encodeFormText (s : String) : plusesToSpaces (encodeFormText s) =
    percentEncode (fun c => !isFormChar c && c != ' ') s.toList := by
  rw [plusesToSpaces, encodeFormText, List.map_flatMap, percentEncode]
  refine congrArg (List.flatMap · s.toList) (funext fun c => ?_)
  rw [encodeFormChar]
  split
  · next space =>
    subst space
    decide
  · next other =>
    have noPlus : ∀ d ∈ encodeChar (fun c => !isFormChar c) c, d ≠ '+' := by
      rintro d hd rfl
      rcases mem_encodeChar hd with plain | percent
      · cases plain
      · cases percent
    rw [List.map_congr_left fun d hd => if_neg (noPlus d hd), List.map_id']
    simp [encodeChar, other]

theorem decodeFormText_encodeFormText (s : String) : decodeFormText (encodeFormText s) = s := by
  rw [decodeFormText, plusesToSpaces_encodeFormText, percentDecode_percentEncode (by decide),
    Utf8.decodeLossy_encode]

/-! ## Whole forms -/

/-- A pair, from what stands before its first equals sign and after it. -/
def decodePair (cs : List Char) : String × String :=
  (decodeFormText (cutAt '=' cs).1, decodeFormText ((cutAt '=' cs).2.getD []))

/-- The pairs that a form says. -/
def decodeForm (cs : List Char) : List (String × String) :=
  ((splitAt '&' cs).filter (!·.isEmpty)).map decodePair

theorem decodePair_encodePair (pair : String × String) : decodePair (encodePair pair) = pair := by
  have whole := not_mem_encodeFormText (d := '=') rfl (by decide) (by decide) pair.1
  rw [decodePair, encodePair, cutAt_append whole, Option.getD_some,
    decodeFormText_encodeFormText, decodeFormText_encodeFormText]

theorem not_mem_encodePair (pair : String × String) : '&' ∉ encodePair pair := by
  have absent := not_mem_encodeFormText (d := '&') rfl (by decide) (by decide)
  simp [encodePair, absent]

/-- A form is read as it was sent. -/
theorem decodeForm_encodeForm (pairs : List (String × String)) :
    decodeForm (encodeForm pairs) = pairs := by
  by_cases none_there : pairs = []
  · rw [none_there]
    rfl
  have whole : ∀ cs ∈ pairs.map encodePair, '&' ∉ cs ∧ (!cs.isEmpty) = true := by
    intro cs hcs
    obtain ⟨pair, -, rfl⟩ := List.mem_map.mp hcs
    exact ⟨not_mem_encodePair pair, by simp [encodePair]⟩
  have back : decodePair ∘ encodePair = id := funext decodePair_encodePair
  rw [decodeForm, encodeForm, splitAt_intercalate (by simpa using none_there)
    fun cs hcs => (whole cs hcs).1, List.filter_eq_self.mpr fun cs hcs => (whole cs hcs).2,
    List.map_map, back, List.map_id]

end CertEnrollment.Url
