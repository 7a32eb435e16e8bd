import CertEnrollment.Proofs.Encoding.Base64
import CertEnrollment.Proofs.Encoding.LeadingBlock

/-!
# PEM blocks are read back, however they are laid out

A block may have rows of any length and line ends of either kind. The dashes of its first and of its
last line stand nowhere else, so the reader finds the tag and the payload, and the payload has no
blank line that could be taken for the end of headers.
-/
namespace CertEnrollment.Text

/-! ## Cutting at a word -/

theorem cutAtWord_append (word rest : List Char) :
    cutAtWord word (word ++ rest) = some ([], rest) :=
  cutAtWord_eq_some_iff.mpr ⟨rfl, fun _ _ _ => Nat.zero_le _⟩

/-- What lacks the first character of a word is passed over. -/
theorem cutAtWord_skip {c : Char} {word before : List Char} (h : c ∉ before) (rest : List Char) :
    cutAtWord (c :: word) (before ++ rest) =
      (cutAtWord (c :: word) rest).map fun parts => (before ++ parts.1, parts.2) := by
  induction before with
  | nil => simp
  | cons d before ih =>
    obtain ⟨different, later⟩ : c ≠ d ∧ c ∉ before := by simpa using h
    rw [List.cons_append, cutAtWord, afterStart?, if_neg different, ih later, Option.map_map]
    rfl

theorem cutAtWord_found {c : Char} {word before : List Char} (h : c ∉ before) (rest : List Char) :
    cutAtWord (c :: word) (before ++ (c :: word ++ rest)) = some (before, rest) := by
  rw [cutAtWord_skip h, cutAtWord_append]
  simp

theorem cutAtWord_of_not_mem {c : Char} {word text : List Char} (h : c ∉ text) :
    cutAtWord (c :: word) text = none := by
  rw [← List.append_nil text, cutAtWord_skip h]
  rfl

end CertEnrollment.Text

namespace CertEnrollment.Pem
open Text Base64

/-- The two kinds of line ends. -/
def lineEnds : List (List Char) := [['\n'], lineEnd]

/-- The rows with an end behind each. -/
def payload (lineEnd : List Char) (rows : List (List Char)) : List Char :=
  rows.flatMap (· ++ lineEnd)

/-- The text begins with the block, laid out in rows of some lengths. -/
def Block.Spells (b : Block) (text : List Char) : Prop :=
  ∃ lineEnd ∈ lineEnds, ∃ rows rest, [] ∉ rows ∧ rows.flatten = encodeBytes b.bytes ∧
    text = beginMark ++ (b.tag.toList ++ (dashes ++ (lineEnd ++ (payload lineEnd rows ++
      (endMark ++ (b.tag.toList ++ (dashes ++ rest)))))))

/-! ## Rows -/

theorem flatten_rows (cs : List Char) : (rows cs).flatten = cs := by
  induction cs using rows.induct with
  | case1 => simp [rows]
  | case2 cs some_there ih =>
    rw [rows, if_neg some_there, List.flatten_cons, ih, List.take_append_drop]

theorem nil_not_mem_rows (cs : List Char) : [] ∉ rows cs := by
  induction cs using rows.induct with
  | case1 => simp [rows]
  | case2 cs some_there ih =>
    rw [rows, if_neg some_there]
    simp [ih, some_there]

/-- A block is written as it may be laid out. -/
theorem spells_chars (b : Block) : b.Spells b.chars := by
  refine ⟨lineEnd, by decide, rows (encodeBytes b.bytes), lineEnd, nil_not_mem_rows _,
    flatten_rows _, ?_⟩
  simp [Block.chars, payload]

/-! ## Payloads -/

theorem eq_of_mem_lineEnds {lineEnd : List Char} (h : lineEnd ∈ lineEnds) :
    lineEnd = ['\n'] ∨ lineEnd = ['\r', '\n'] := by
  simpa [lineEnds, Pem.lineEnd] using h

theorem ne_of_plain {c d : Char} (h : IsPlain c) (blank : isBlank d = true) : c ≠ d := by
  rintro rfl
  exact absurd (h.1.symm.trans blank) (by decide)

section
variable {lineEnd : List Char} {rows : List (List Char)} (ends : lineEnd ∈ lineEnds)
  (filled : [] ∉ rows) (plain : ∀ row ∈ rows, ∀ c ∈ row, IsPlain c)

theorem payload_cons {row : List Char} :
    payload lineEnd (row :: rows) = row ++ (lineEnd ++ payload lineEnd rows) := by
  simp [payload]

include filled plain in
/-- A payload does not begin with a line end. -/
theorem afterStart?_payload {c : Char} (blank : isBlank c = true) (word : List Char) :
    afterStart? (c :: word) (payload lineEnd rows) = none := by
  match rows, filled, plain with
  | [], _, _ => rfl
  | [] :: _, filled, _ => simp at filled
  | (d :: row) :: _, _, plain =>
    have different := ne_of_plain (plain _ List.mem_cons_self d List.mem_cons_self) blank
    rw [payload_cons, List.cons_append, afterStart?, if_neg different.symm]

include ends filled plain in
/-- Neither form of a blank line is in a payload. -/
theorem cutAtWord_payload : cutAtWord ['\n', '\n'] (payload lineEnd rows) = none ∧
    cutAtWord ['\r', '\n', '\r', '\n'] (payload lineEnd rows) = none := by
  induction rows with
  | nil => exact ⟨rfl, rfl⟩
  | cons row rows ih =>
    have filled' : [] ∉ rows := fun h => filled (List.mem_cons_of_mem _ h)
    obtain ⟨plain', plain''⟩ := List.forall_mem_cons.mp plain
    obtain ⟨feeds, returns⟩ := ih filled' plain''
    have feed : '\n' ∉ row := fun h => ne_of_plain (plain' _ h) (by decide) rfl
    have return_ : '\r' ∉ row := fun h => ne_of_plain (plain' _ h) (by decide) rfl
    have noFeed : afterStart? ['\n'] (payload lineEnd rows) = none :=
      afterStart?_payload filled' plain'' (by decide) []
    have noReturn : afterStart? ['\r', '\n'] (payload lineEnd rows) = none :=
      afterStart?_payload filled' plain'' (by decide) ['\n']
    rw [payload_cons, cutAtWord_skip feed, cutAtWord_skip return_, Option.map_eq_none_iff,
      Option.map_eq_none_iff]
    obtain same | same := eq_of_mem_lineEnds ends
    · rw [same] at noFeed feeds returns ⊢
      simp [cutAtWord, afterStart?, noFeed, feeds, returns]
    · rw [same] at noFeed noReturn feeds returns ⊢
      simp [cutAtWord, afterStart?, noFeed, noReturn, feeds, returns]

include ends filled plain in
/-- So all of it is data. -/
theorem splitHeaders_payload :
    splitHeaders (payload lineEnd rows) = ([], payload lineEnd rows) := by
  obtain ⟨feeds, returns⟩ := cutAtWord_payload ends filled plain
  rw [splitHeaders, feeds, returns]

include ends plain in
theorem filter_payload :
    (payload lineEnd rows).filter (fun c => !isBlank c) = rows.flatten := by
  have blank : lineEnd.filter (fun c => !isBlank c) = [] := by
    obtain rfl | rfl := eq_of_mem_lineEnds ends <;> decide
  induction rows with
  | nil => rfl
  | cons row rows ih =>
    obtain ⟨plain', plain''⟩ := List.forall_mem_cons.mp plain
    have kept : row.filter (fun c => !isBlank c) = row :=
      List.filter_eq_self.mpr fun c hc => by simp [(plain' c hc).1]
    rw [payload_cons, List.filter_append, List.filter_append, kept, blank, ih plain'',
      List.nil_append, List.flatten_cons]

include ends filled plain in
theorem payloadBytes?_payload {bytes : List UInt8} (signs : rows.flatten = encodeBytes bytes) :
    payloadBytes? (payload lineEnd rows) = some bytes := by
  have fit : headersFit [] = true := rfl
  rw [payloadBytes?, splitHeaders_payload ends filled plain]
  dsimp only
  rw [if_pos fit, filter_payload ends plain, signs, decode?_encodeBytes]

include ends filled plain in
/-- The payload begins right behind the first line. -/
theorem dropWhile_payload (rest : List Char) :
    (lineEnd ++ (payload lineEnd rows ++ (endMark ++ rest))).dropWhile isPadding =
      payload lineEnd rows ++ (endMark ++ rest) := by
  have passed : ∀ X, (lineEnd ++ X).dropWhile isPadding = X.dropWhile isPadding := by
    intro X
    obtain rfl | rfl := eq_of_mem_lineEnds ends <;> rfl
  rw [passed]
  match rows, filled, plain with
  | [], _, _ => rfl
  | [] :: _, filled, _ => simp at filled
  | (c :: row) :: _, _, plain =>
    have sign : IsPlain c := plain _ List.mem_cons_self c List.mem_cons_self
    have notPadding : isPadding c = false := by
      simp [isPadding, ne_of_plain sign (d := ' ') rfl, ne_of_plain sign (d := '\t') rfl,
        ne_of_plain sign (d := '\n') rfl, ne_of_plain sign (d := '\r') rfl]
    rw [payload_cons, List.cons_append, List.cons_append,
      List.dropWhile_cons_of_neg (by simp [notPadding])]

include ends plain in
theorem dash_not_mem_payload : '-' ∉ payload lineEnd rows := by
  intro h
  obtain ⟨row, hrow, h⟩ := List.mem_flatMap.mp h
  rcases List.mem_append.mp h with h | h
  · exact (plain row hrow _ h).2 rfl
  · obtain rfl | rfl := eq_of_mem_lineEnds ends <;> simp at h

end

/-! ## Whole blocks -/

/-- A block is read back however it is laid out, and whatever follows it. -/
theorem first?_of_spells {b : Block} {text : List Char} (spells : b.Spells text)
    (some_tag : b.tag ≠ "") (noDash : '-' ∉ b.tag.toList) : Block.first? text = some b := by
  obtain ⟨lineEnd, ends, rows, rest, filled, signs, rfl⟩ := spells
  have plain : ∀ row ∈ rows, ∀ c ∈ row, IsPlain c := fun row hrow c hc =>
    plain_of_mem (signs ▸ List.mem_flatten.mpr ⟨row, hrow, hc⟩)
  have tagged : b.tag.toList ≠ [] := by simpa using some_tag
  have closing : ∀ X, cutAtWord dashes (b.tag.toList ++ (dashes ++ X)) = some (b.tag.toList, X) :=
    cutAtWord_found noDash
  have ending : ∀ X, cutAtWord endMark (payload lineEnd rows ++ (endMark ++ X)) =
      some (payload lineEnd rows, X) :=
    cutAtWord_found (dash_not_mem_payload ends plain)
  rw [Block.first?, cutAtWord_append]
  simp [closing, dropWhile_payload ends filled plain, ending, tagged,
    payloadBytes?_payload ends filled plain signs]

end CertEnrollment.Pem
