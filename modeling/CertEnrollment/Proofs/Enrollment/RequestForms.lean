import CertEnrollment.Proofs.Encoding.Blocks
import CertEnrollment.Proofs.Enrollment.Requests
import CertEnrollment.Proofs.Text.Decoding

/-!
# The three forms of a request

Which form a request has is told by its first byte and by the mark of a block. No form is taken for
another one, so bytes, base64 and blocks of the same request are the same request, and what is
handed on is read back as what it came from.
-/
namespace CertEnrollment.Enrollment.SigningRequest
open Text

variable {d : List UInt8} {text : String}

theorem parse_of_decode {x : List UInt8} (h : decode x = .ok d) :
    parse x = (ofDer d).mapError .request := by
  rw [parse, h]

/-- A sequence is taken as it is. -/
theorem decode_of_sequence (sequence : d.head? = some 0x30) : decode d = .ok d := if_pos sequence

/-- A text that does not begin like a sequence is taken as text. -/
theorem decode_of_text {c : Char} (first : text.toList.head? = some c)
    (other : ∃ b, (String.utf8EncodeChar c).head? = some b ∧ b ≠ 0x30) :
    decode (Utf8.encode text) = decodeText text.toList := by
  obtain ⟨b, head, different⟩ := other
  have notSequence : (Utf8.encode text).head? ≠ some 0x30 := by
    obtain ⟨cs, same⟩ := List.head?_eq_some_iff.mp first
    rw [Utf8.encode, same, List.flatMap_cons, List.head?_append, head]
    simpa using different
  rw [decode, if_neg notSequence, Utf8.decode?_encode]

/-! ## Base64 -/

theorem plain_of_base64 (signs : text.toList.filter (!isAsciiBlank ·) = Base64.encodeBytes d) :
    '-' ∉ text.toList := by
  intro h
  have kept : '-' ∈ text.toList.filter (!isAsciiBlank ·) := List.mem_filter.mpr ⟨h, by decide⟩
  rw [signs] at kept
  exact (Base64.plain_of_mem kept).2 rfl

/-- The text of a sequence begins with a blank or with the first sign. -/
theorem first_of_base64 (sequence : d.head? = some 0x30)
    (signs : text.toList.filter (!isAsciiBlank ·) = Base64.encodeBytes d) :
    ∃ c, text.toList.head? = some c ∧ (isAsciiBlank c = true ∨ c = 'M') := by
  have first := Base64.head?_encodeBytes sequence
  rw [← signs] at first
  cases chars : text.toList with
  | nil => simp [chars] at first
  | cons c cs =>
    refine ⟨c, rfl, ?_⟩
    cases blank : isAsciiBlank c with
    | true => exact .inl rfl
    | false =>
      rw [chars, List.filter_cons_of_pos (by simp [blank])] at first
      exact .inr (Option.some.inj first)

/-- Base64 is read as the bytes, wherever it has blanks. -/
theorem decode_of_base64 (sequence : d.head? = some 0x30)
    (signs : text.toList.filter (!isAsciiBlank ·) = Base64.encodeBytes d) :
    decode (Utf8.encode text) = .ok d := by
  obtain ⟨c, first, start⟩ := first_of_base64 sequence signs
  have other : ∃ b, (String.utf8EncodeChar c).head? = some b ∧ b ≠ 0x30 := by
    rcases start with blank | rfl
    · simp only [isAsciiBlank, Bool.or_eq_true, beq_iff_eq] at blank
      rcases blank with (((rfl | rfl) | rfl) | rfl) | rfl
      · exact ⟨0x20, rfl, by decide⟩
      · exact ⟨0x09, rfl, by decide⟩
      · exact ⟨0x0A, rfl, by decide⟩
      · exact ⟨0x0C, rfl, by decide⟩
      · exact ⟨0x0D, rfl, by decide⟩
    · exact ⟨0x4D, rfl, by decide⟩
  have noBlock : cutAtWord "-----BEGIN".toList text.toList = none :=
    cutAtWord_of_not_mem (plain_of_base64 signs)
  rw [decode_of_text first other, decodeText, noBlock, signs, Base64.decode?_encodeBytes]
  rfl

/-! ## Blocks -/

theorem plain_of_mem_tags {tag : String} (h : tag ∈ tags) : tag ≠ "" ∧ '-' ∉ tag.toList := by
  have all : ∀ tag ∈ tags, tag ≠ "" ∧ '-' ∉ tag.toList := by decide
  exact all tag h

/-- A block with one of the tags is read as its bytes, whichever layout it has. -/
theorem decode_of_block {tag : String} (tagged : tag ∈ tags)
    (spells : (Pem.Block.mk tag d).Spells text.toList) : decode (Utf8.encode text) = .ok d := by
  obtain ⟨some_tag, noDash⟩ := plain_of_mem_tags tagged
  have read := Pem.first?_of_spells spells some_tag noDash
  obtain ⟨_, -, _, _, -, -, same⟩ := spells
  have first : text.toList.head? = some '-' := by rw [same]; rfl
  have begins : (cutAtWord "-----BEGIN".toList text.toList).isSome = true := by
    rw [same, show Pem.beginMark = "-----BEGIN".toList ++ [' '] from rfl, List.append_assoc,
      cutAtWord_append]
    rfl
  rw [decode_of_text first ⟨0x2D, rfl, by decide⟩, decodeText, if_pos begins, read]
  exact if_pos (List.contains_iff_mem.mpr tagged)

/-! ## All forms -/

/-- What is handed on for accepted bytes is a block of these bytes. -/
theorem pem_of_ofDer {r : SigningRequest} (accepted : ofDer d = .ok r) :
    r.pem = (Pem.Block.mk tag d).text := by
  unfold ofDer at accepted
  split at accepted
  · cases accepted
  · split at accepted
    · cases accepted
    · obtain rfl := Except.ok.inj accepted
      rfl

/-- A request that was accepted in some form is read back from what is handed on for it. -/
theorem parse_pem {x : List UInt8} {r : SigningRequest} (accepted : parse x = .ok r) :
    parse (Utf8.encode r.pem) = .ok r := by
  cases decoded : decode x with
  | error e =>
    rw [parse, decoded] at accepted
    cases accepted
  | ok der =>
    rw [parse_of_decode decoded] at accepted
    have spells : (Pem.Block.mk tag der).Spells (Pem.Block.mk tag der).text.toList := by
      rw [Pem.Block.text, String.toList_ofList]
      exact Pem.spells_chars _
    have back : decode (Utf8.encode r.pem) = .ok der := by
      rw [pem_of_ofDer (Data.mapError_eq_ok.mp accepted)]
      exact decode_of_block (by decide) spells
    rw [parse_of_decode back, accepted]

/-- All forms of a request are the same request, or are refused alike, and every accepted request is
read back as it was handed on. -/
theorem forms_agree :
    (∀ d : List UInt8, d.head? = some 0x30 →
      (∀ text : String, text.toList.filter (!isAsciiBlank ·) = Base64.encodeBytes d →
        parse (Utf8.encode text) = parse d) ∧
      ∀ tag ∈ tags, ∀ text : String, (Pem.Block.mk tag d).Spells text.toList →
        parse (Utf8.encode text) = parse d) ∧
    ∀ x r, parse x = .ok r → parse (Utf8.encode r.pem) = .ok r := by
  refine ⟨fun d sequence => ?_, fun x r => parse_pem⟩
  have plain := parse_of_decode (decode_of_sequence sequence)
  refine ⟨fun text signs => ?_, fun tag tagged text spells => ?_⟩
  · rw [plain, parse_of_decode (decode_of_base64 sequence signs)]
  · rw [plain, parse_of_decode (decode_of_block tagged spells)]

/-- The request for `a.org` as base64 with blanks in it. -/
def oneDomainSigns : String :=
  " MCswIQIBADAQMQ4wDAYDVQQDDAVh\r\nLm9yZzAIMAMGASoD AQCgADADBgEqAwEA\n"

/-- The same request in a block, with rows that end in line feeds. -/
def oneDomainBlock : String :=
  "-----BEGIN NEW CERTIFICATE REQUEST-----\n" ++ "MCswIQIBADAQMQ4wDAYDVQQDDAVh\n" ++
    "Lm9yZzAIMAMGASoDAQCgADADBgEqAwEA\n" ++ "-----END NEW CERTIFICATE REQUEST-----\n"

theorem spells_oneDomainBlock :
    (Pem.Block.mk "NEW CERTIFICATE REQUEST" oneDomain).Spells oneDomainBlock.toList :=
  ⟨['\n'], by decide, ["MCswIQIBADAQMQ4wDAYDVQQDDAVh".toList,
    "Lm9yZzAIMAMGASoDAQCgADADBgEqAwEA".toList], ['\n'], by decide, by decide +kernel,
    by decide +kernel⟩

/-- The three forms of the request for `a.org`, and what is handed on for it. -/
theorem forms_agree_oneDomain :
    ∃ r, parse oneDomain = .ok r ∧ r.names = ["a.org"] ∧
      parse (Utf8.encode oneDomainSigns) = .ok r ∧ parse (Utf8.encode oneDomainBlock) = .ok r ∧
      parse (Utf8.encode r.pem) = .ok r := by
  obtain ⟨r, parsed, names⟩ := parse_oneDomain
  obtain ⟨alike, back⟩ := forms_agree
  obtain ⟨signs, blocks⟩ := alike oneDomain rfl
  refine ⟨r, parsed, names, ?_, ?_, back oneDomain r parsed⟩
  · rw [signs oneDomainSigns (by decide +kernel), parsed]
  · rw [blocks _ (by decide) oneDomainBlock spells_oneDomainBlock, parsed]

end CertEnrollment.Enrollment.SigningRequest
