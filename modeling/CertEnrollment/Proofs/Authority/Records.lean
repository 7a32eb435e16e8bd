import CertEnrollment.Authority.Client
import CertEnrollment.Proofs.Authority.Refusals

/-!
# Certificate records are read back as they were written

A record is written with all of its fields, and every field reads as what was written for it. What
is read from other forms, where fields are absent or a section is an array, is thereby read back as
well, with a status that has no meaning here as an unknown one and without challenges that were not
there.
-/
namespace CertEnrollment.Authority
open Data Json

/-! ## Values without numbers -/

/-- The value has its members in order, nests no deeper than allowed, and holds no number. -/
def Textual (room : Nat) (v : Value) : Prop := Regular room v ∧ ∀ n, n ∉ numbers v

theorem not_mem_numbersUnder {room : Nat} {members : List (String × Value)}
    (each : ∀ e ∈ members, Textual room e.2) : ∀ n, n ∉ numbersUnder members := by
  intro n hn
  obtain ⟨e, he, hn⟩ := mem_numbersUnder.mp hn
  exact (each e he).2 n hn

theorem Textual.object {room : Nat} {members : List (String × Value)} (order : Increasing members)
    (each : ∀ e ∈ members, Textual room e.2) : Textual (room + 1) (.object members) :=
  ⟨⟨by omega, order, regularMembers_iff.mpr fun e he => (each e he).1⟩, not_mem_numbersUnder each⟩

theorem textual_ofOption (room : Nat) (s : Option String) : Textual room (.ofOption .text s) := by
  cases s <;> exact ⟨trivial, by simp [Value.ofOption, numbers]⟩

/-! ## Fields -/

theorem optionalText_tree (s : Option String) :
    optionalText (Value.ofOption .text s).tree = .ok s := by
  cases s <;> rfl

theorem readStatus_tree (s : Status) : readStatus (Value.text s.word).tree = .ok s :=
  congrArg Except.ok (Status.ofWord_word s)

theorem allows_optionalText {members : List (String × Value)}
    (distinct : (members.map (·.1)).Nodup) {name : String} {s : Option String} {place : Nat}
    (h : (name, Value.ofOption .text s) ∈ members) :
    (Value.object members).tree.Allows name place optionalText none s :=
  .inr (Value.requires_of_mem distinct h (optionalText_tree s))

/-! ## Challenges of a domain -/

def DomainValidation.fields (v : DomainValidation) : List (String × Value) :=
  [("cname_validation_p1", .ofOption .text v.cnameHost),
    ("cname_validation_p2", .ofOption .text v.cnameTarget),
    ("file_validation_url_http", .ofOption .text v.fileUrl)]

theorem DomainValidation.increasing_fields (v : DomainValidation) : Increasing v.fields := by
  have names : ["cname_validation_p1", "cname_validation_p2",
      "file_validation_url_http"].Pairwise Precedes := by decide
  exact List.pairwise_map.mp names

theorem DomainValidation.value_eq (v : DomainValidation) : v.value = .object v.fields :=
  ofMembers_increasing v.increasing_fields

theorem DomainValidation.textual_value (room : Nat) (v : DomainValidation) :
    Textual (room + 1) v.value := by
  rw [value_eq]
  refine .object v.increasing_fields fun e he => ?_
  obtain ⟨s, same⟩ : ∃ s, e.2 = .ofOption .text s := by
    revert e
    simp [fields]
  exact same ▸ textual_ofOption room s

theorem DomainValidation.read_value (v : DomainValidation) :
    DomainValidation.read v.value.tree = .ok v := by
  have distinct := Increasing.nodup_keys v.increasing_fields
  have host : (Value.object v.fields).tree.Allows "cname_validation_p1" 0 optionalText none
      v.cnameHost := allows_optionalText distinct (by simp [fields])
  have target : (Value.object v.fields).tree.Allows "cname_validation_p2" 1 optionalText none
      v.cnameTarget := allows_optionalText distinct (by simp [fields])
  have file : (Value.object v.fields).tree.Allows "file_validation_url_http" 2 optionalText none
      v.fileUrl := allows_optionalText distinct (by simp [fields])
  have fits : (Value.object v.fields).tree.Fits 0 [field "cname_validation_p1" optionalText,
      field "cname_validation_p2" optionalText, field "file_validation_url_http" optionalText] :=
    ⟨host.check, target.check, file.check, trivial⟩
  obtain ⟨row, found⟩ := Row.exists_read fits trivial (Value.named_object distinct)
  rw [value_eq, DomainValidation.read]
  refine bind_eq_ok.mpr ⟨row, found, ?_⟩
  refine bind_eq_ok.mpr ⟨_, (Row.optional_iff found (by decide) rfl).mpr host, ?_⟩
  refine bind_eq_ok.mpr ⟨_, (Row.optional_iff found (by decide) rfl).mpr target, ?_⟩
  exact bind_eq_ok.mpr ⟨_, (Row.optional_iff found (by decide) rfl).mpr file, rfl⟩

/-! ## The validation section -/

theorem textual_challenges (room : Nat) (m : SortedMap DomainValidation) :
    Textual (room + 2) (.ofMap DomainValidation.value m) := by
  refine .object (List.pairwise_map.mpr m.increasing) fun e he => ?_
  obtain ⟨⟨domain, v⟩, -, rfl⟩ := List.mem_map.mp he
  exact v.textual_value room

theorem readChallenges_tree (m : SortedMap DomainValidation) :
    readChallenges (Value.ofMap DomainValidation.value m).tree = .ok m := by
  have whole : (Value.ofMap DomainValidation.value m).tree.value? challengeNesting = some _ :=
    value?_tree _ (textual_challenges 123 m).1
  rw [readChallenges.eq_def, whole]
  exact Value.asMap_ofMap fun e _ => e.2.read_value

def Validation.fields (v : Validation) : List (String × Value) :=
  [("other_methods", .ofMap DomainValidation.value v.otherMethods)]

theorem Validation.textual_value (room : Nat) (v : Validation) : Textual (room + 3) v.value := by
  refine .object (List.pairwise_singleton _ _) fun e he => ?_
  rw [List.mem_singleton.mp he]
  exact textual_challenges room v.otherMethods

theorem Validation.read_value (v : Validation) : Validation.read v.value.tree = .ok v := by
  have distinct : (v.fields.map (·.1)).Nodup := List.nodup_singleton _
  have challenges : (Value.object v.fields).tree.Allows "other_methods" 0 readChallenges .empty
      v.otherMethods :=
    .inr (Value.requires_of_mem distinct List.mem_cons_self (readChallenges_tree _))
  have fits : (Value.object v.fields).tree.Fits 0 [field "other_methods" readChallenges] :=
    ⟨challenges.check, trivial⟩
  obtain ⟨row, found⟩ := Row.exists_read fits trivial (Value.named_object distinct)
  refine bind_eq_ok.mpr ⟨row, found, ?_⟩
  exact bind_eq_ok.mpr ⟨_, (Row.optional_iff found (by decide) rfl).mpr challenges, rfl⟩

theorem asOption_validation (v : Option Validation) :
    (Value.ofOption Validation.value v).tree.asOption Validation.read = .ok v := by
  cases v with
  | none => rfl
  | some v => exact Tree.asOption_eq_ok.mpr (.inr ⟨nofun, v, v.read_value, rfl⟩)

theorem textual_validation (room : Nat) (v : Option Validation) :
    Textual (room + 3) (.ofOption Validation.value v) := by
  cases v with
  | none => exact ⟨trivial, by simp [Value.ofOption, numbers]⟩
  | some v => exact v.textual_value room

/-! ## Whole records -/

namespace Certificate

/-- The fields of a record with what is written for them, in the order in which it lists them. -/
def fields (c : Certificate) : List (String × Value) :=
  [("id", .text c.id), ("status", .text c.status.word),
    ("common_name", .ofOption .text c.commonName),
    ("additional_domains", .ofOption .text c.additionalDomains),
    ("created", .ofOption .text c.created), ("expires", .ofOption .text c.expires),
    ("validation", .ofOption Validation.value c.validation)]

/-- The value is an object of the fields, in whichever order a writer puts them. -/
def Written (c : Certificate) (v : Value) : Prop :=
  ∃ members, members.Perm c.fields ∧ v = .object members

theorem nodup_fields (c : Certificate) : (c.fields.map (·.1)).Nodup := by
  have names : ["id", "status", "common_name", "additional_domains", "created", "expires",
      "validation"].Nodup := by decide
  exact names

theorem textual_fields (room : Nat) (c : Certificate) :
    ∀ e ∈ c.fields, Textual (room + 3) e.2 := by
  have texts : ∀ s, Textual (room + 3) (.text s) := fun s => ⟨trivial, by simp [numbers]⟩
  have optional := textual_ofOption (room + 3)
  have validation := textual_validation room c.validation
  simp [fields, texts, optional, validation]

/-- What stands for the fields of a record in a document. -/
structure Cells (t : Tree) (c : Certificate) : Prop where
  id : t.Requires "id" 0 Tree.asText c.id
  status : t.Requires "status" 1 readStatus c.status
  commonName : t.Allows "common_name" 2 optionalText none c.commonName
  additionalDomains : t.Allows "additional_domains" 3 optionalText none c.additionalDomains
  created : t.Allows "created" 4 optionalText none c.created
  expires : t.Allows "expires" 5 optionalText none c.expires
  validation : t.Allows "validation" 6 (Tree.asOption Validation.read) none c.validation

theorem cells_of_read {t : Tree} {c : Certificate} (h : Certificate.read t = .ok c) :
    Cells t c := by
  obtain ⟨row, found, h⟩ := bind_eq_ok.mp h
  obtain ⟨id, idRead, h⟩ := bind_eq_ok.mp h
  obtain ⟨status, statusRead, h⟩ := bind_eq_ok.mp h
  obtain ⟨commonName, commonNameRead, h⟩ := bind_eq_ok.mp h
  obtain ⟨additionalDomains, additionalDomainsRead, h⟩ := bind_eq_ok.mp h
  obtain ⟨created, createdRead, h⟩ := bind_eq_ok.mp h
  obtain ⟨expires, expiresRead, h⟩ := bind_eq_ok.mp h
  obtain ⟨validation, validationRead, same⟩ := bind_eq_ok.mp h
  cases same
  exact {
    id := (Row.required_iff found (by decide) rfl).mp idRead
    status := (Row.required_iff found (by decide) rfl).mp statusRead
    commonName := (Row.optional_iff found (by decide) rfl).mp commonNameRead
    additionalDomains := (Row.optional_iff found (by decide) rfl).mp additionalDomainsRead
    created := (Row.optional_iff found (by decide) rfl).mp createdRead
    expires := (Row.optional_iff found (by decide) rfl).mp expiresRead
    validation := (Row.optional_iff found (by decide) rfl).mp validationRead }

theorem read_of_cells {t : Tree} {c : Certificate} (form : t.IsRow 7) (named : t.Named)
    (cells : Cells t c) : Certificate.read t = .ok c := by
  have fits : t.Fits 0 [field "id" Tree.asText, field "status" readStatus,
      field "common_name" optionalText, field "additional_domains" optionalText,
      field "created" optionalText, field "expires" optionalText,
      field "validation" (Tree.asOption Validation.read)] :=
    ⟨cells.id.check, cells.status.check, cells.commonName.check, cells.additionalDomains.check,
      cells.created.check, cells.expires.check, cells.validation.check, trivial⟩
  obtain ⟨row, found⟩ := Row.exists_read fits form named
  refine bind_eq_ok.mpr ⟨row, found, ?_⟩
  refine bind_eq_ok.mpr ⟨_, (Row.required_iff found (by decide) rfl).mpr cells.id, ?_⟩
  refine bind_eq_ok.mpr ⟨_, (Row.required_iff found (by decide) rfl).mpr cells.status, ?_⟩
  refine bind_eq_ok.mpr ⟨_, (Row.optional_iff found (by decide) rfl).mpr cells.commonName, ?_⟩
  refine bind_eq_ok.mpr
    ⟨_, (Row.optional_iff found (by decide) rfl).mpr cells.additionalDomains, ?_⟩
  refine bind_eq_ok.mpr ⟨_, (Row.optional_iff found (by decide) rfl).mpr cells.created, ?_⟩
  refine bind_eq_ok.mpr ⟨_, (Row.optional_iff found (by decide) rfl).mpr cells.expires, ?_⟩
  exact bind_eq_ok.mpr ⟨_, (Row.optional_iff found (by decide) rfl).mpr cells.validation, rfl⟩

theorem written_value (c : Certificate) : c.Written c.value := by
  obtain ⟨kept, same, order⟩ := Value.ofMembers_perm c.nodup_fields
  exact ⟨kept, order, same⟩

section
variable {c : Certificate} {members : List (String × Value)} (order : members.Perm c.fields)
include order

theorem nodup_of_perm : (members.map (·.1)).Nodup :=
  (order.map (·.1)).nodup_iff.mpr c.nodup_fields

theorem cells_object : Cells (Value.object members).tree c := by
  have distinct := nodup_of_perm order
  have there : ∀ {name v}, (name, v) ∈ c.fields → (name, v) ∈ members := order.mem_iff.mpr
  exact {
    id := Value.requires_of_mem distinct (there List.mem_cons_self) rfl
    status := Value.requires_of_mem distinct
      (there (List.mem_cons_of_mem _ List.mem_cons_self)) (readStatus_tree c.status)
    commonName := allows_optionalText distinct (there (by simp [fields]))
    additionalDomains := allows_optionalText distinct (there (by simp [fields]))
    created := allows_optionalText distinct (there (by simp [fields]))
    expires := allows_optionalText distinct (there (by simp [fields]))
    validation := .inr (Value.requires_of_mem distinct (there (by simp [fields]))
      (asOption_validation c.validation)) }

theorem read_object : Certificate.read (Value.object members).tree = .ok c :=
  read_of_cells trivial (Value.named_object (nodup_of_perm order)) (cells_object order)

theorem textual_of_perm (room : Nat) : ∀ e ∈ members, Textual (room + 3) e.2 :=
  fun e he => c.textual_fields room e (order.mem_iff.mp he)

/-- No record has a member that a refusal has. -/
theorem accepts_object : ¬ Refuses (.object members) := by
  intro refuses
  obtain ⟨before, after, split, -⟩ := List.lookup_eq_some_iff.mp refuses
  have there : ("success", Value.bool false) ∈ c.fields := order.mem_iff.mp (split ▸ by simp)
  simp [fields] at there

end

variable {c : Certificate} {v : Value} (written : c.Written v)
include written

/-- What is written for a record is read as the record. -/
theorem read_written : Certificate.read v.tree = .ok c := by
  obtain ⟨members, order, rfl⟩ := written
  exact read_object order

/-- So is its text. -/
theorem readText_written : readText Certificate.read (write v) = .ok c := by
  rw [← read_written written]
  obtain ⟨members, order, rfl⟩ := written
  have noNumbers : ∀ n, n ∉ numbers (.object members) :=
    not_mem_numbersUnder (textual_of_perm order 0)
  exact readText_write (fun n hn => absurd hn (noNumbers n)) _

/-- And so is the answer with that text. -/
theorem decode_written : ∃ w, parseValue? (write v) = some w ∧
    Client.decode Certificate.read w = .ok c := by
  obtain ⟨members, order, rfl⟩ := written
  have textual := textual_of_perm order 123
  obtain ⟨kept, same, moved⟩ := Value.ofMembers_perm (nodup_of_perm order)
  refine ⟨.object kept, ?_, ?_⟩
  · rw [parseValue?_write_object (fun e he n hn => absurd hn ((textual e he).2 n))
      fun e he => (textual e he).1, same]
  · rw [Client.decode, detect_of_not_refuses (accepts_object (moved.trans order))]
    exact congrArg (Except.mapError Error.json) (read_object (moved.trans order))

end Certificate

/-! ## Other forms -/

/-- The section has no challenges: they are absent, null, or an array. -/
def NoChallenges (part : Tree) : Prop :=
  part.cell? "other_methods" 0 = none ∨ part.cell? "other_methods" 0 = some .null ∨
    ∃ items, part.cell? "other_methods" 0 = some (.array items)

theorem eq_empty_of_readChallenges {t : Tree} {m : SortedMap DomainValidation}
    (h : readChallenges t = .ok m) (none_there : t = .null ∨ ∃ items, t = .array items) :
    m = .empty := by
  obtain rfl | ⟨items, rfl⟩ := none_there
  · cases h
    rfl
  · unfold readChallenges at h
    split at h <;> cases h <;> rfl

theorem Validation.eq_empty_of_read {t : Tree} {v : Validation} (h : Validation.read t = .ok v)
    (none_there : NoChallenges t) : v = ⟨.empty⟩ := by
  obtain ⟨row, found, h⟩ := bind_eq_ok.mp h
  obtain ⟨challenges, challengesRead, same⟩ := bind_eq_ok.mp h
  cases same
  have cell : t.Allows "other_methods" 0 readChallenges .empty challenges :=
    (Row.optional_iff found (by decide) rfl).mp challengesRead
  obtain ⟨-, rfl⟩ | ⟨c, there, reads⟩ := cell
  · rfl
  · rw [NoChallenges, there] at none_there
    rw [eq_empty_of_readChallenges reads (by simpa using none_there)]

theorem Certificate.status_of_read {t : Tree} {c : Certificate} {word : String}
    (h : Certificate.read t = .ok c) (given : t.cell? "status" 1 = some (.text (some word))) :
    c.status = Status.ofWord word := by
  obtain ⟨cell, there, reads⟩ := (cells_of_read h).status
  obtain rfl : Tree.text (some word) = cell := Option.some.inj (given.symm.trans there)
  exact (Except.ok.inj reads).symm

theorem Certificate.validation_of_read {t part : Tree} {c : Certificate}
    (h : Certificate.read t = .ok c) (given : t.cell? "validation" 6 = some part)
    (notNull : part ≠ .null) (none_there : NoChallenges part) :
    c.validation = some ⟨.empty⟩ := by
  obtain ⟨absent, -⟩ | ⟨cell, there, reads⟩ := (cells_of_read h).validation
  · rw [given] at absent
    cases absent
  · obtain rfl : part = cell := Option.some.inj (given.symm.trans there)
    obtain ⟨null, -⟩ | ⟨-, v, reads, same⟩ := Tree.asOption_eq_ok.mp reads
    · exact absurd null notNull
    · rw [same, Validation.eq_empty_of_read reads none_there]

theorem Status.ofWord_of_unrecognized {word : String} (h : ∀ s, s ≠ unknown → word ≠ s.word) :
    ofWord word = unknown := by
  have other : word ≠ "draft" ∧ word ≠ "pending_validation" ∧ word ≠ "issued" ∧
      word ≠ "cancelled" ∧ word ≠ "expiring_soon" ∧ word ≠ "expired" :=
    ⟨h draft nofun, h pendingValidation nofun, h issued nofun, h cancelled nofun,
      h expiringSoon nofun, h expired nofun⟩
  simp [ofWord, other]

/-- Records survive being written and read again: as they are, and as they were read from any
document. A status without a meaning is unknown from then on, and a section without challenges has
none. -/
theorem records_recoded :
    (∀ c : Certificate, c.Written c.value ∧ ∀ v, c.Written v →
      readText Certificate.read (write v) = .ok c ∧
      ∃ w, parseValue? (write v) = some w ∧ Client.decode Certificate.read w = .ok c) ∧
    ∀ (t : Tree) (c : Certificate), Certificate.read t = .ok c →
      (∀ v, c.Written v → readText Certificate.read (write v) = Certificate.read t) ∧
      (∀ word, t.cell? "status" 1 = some (.text (some word)) →
        (∀ s : Status, s ≠ .unknown → word ≠ s.word) → c.status = .unknown) ∧
      ∀ part, t.cell? "validation" 6 = some part → part ≠ .null →
        NoChallenges part → c.validation = some ⟨.empty⟩ := by
  refine ⟨fun c => ⟨c.written_value, fun v written => ?_⟩, fun t c h => ⟨?_, ?_, ?_⟩⟩
  · exact ⟨Certificate.readText_written written, Certificate.decode_written written⟩
  · intro v written
    rw [h, Certificate.readText_written written]
  · intro word given unrecognized
    rw [Certificate.status_of_read h given, Status.ofWord_of_unrecognized unrecognized]
  · exact fun part => Certificate.validation_of_read h

/-- A record in array form: on hold, and with an array for its challenges. -/
def listedRecord : Value :=
  .array [.text "c1", .text "on_hold", .null, .null, .null, .null, .array [.array []]]

/-- The record becomes one with an unknown status and no challenges, and stays it. -/
theorem records_recoded_listed :
    ∃ c, Certificate.read listedRecord.tree = .ok c ∧ c.status = .unknown ∧
      c.validation = some ⟨.empty⟩ ∧
      readText Certificate.read (write c.value) = Certificate.read listedRecord.tree := by
  have read : Certificate.read listedRecord.tree =
      .ok ⟨"c1", .unknown, none, none, none, none, some ⟨.empty⟩⟩ := rfl
  obtain ⟨all, others⟩ := records_recoded
  obtain ⟨recoded, status, challenges⟩ := others _ _ read
  have unrecognized : ∀ s : Status, s ≠ .unknown → "on_hold" ≠ s.word := by
    intro s _
    cases s <;> decide
  refine ⟨_, read, status "on_hold" rfl unrecognized, ?_, recoded _ (all _).1⟩
  exact challenges (.array [.array []]) rfl nofun (.inr (.inr ⟨[], rfl⟩))

end CertEnrollment.Authority
