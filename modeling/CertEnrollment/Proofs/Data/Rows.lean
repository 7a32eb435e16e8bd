import CertEnrollment.Data.Record
import CertEnrollment.Proofs.Data.Results
import Mathlib.Data.List.Nodup

/-!
# Rows of records

A row holds what stands for each field of a record, and it is the same in both forms of a
document: in an object the member of the name, in an array the item at the place. A document
reads as a row exactly if it has one of these forms and everything in it that stands for a field
reads as that field.
-/
namespace CertEnrollment.Data

/-! ## Cells of a document -/

namespace Tree

/-- What stands for a field: the member of its name, or the item at its place. -/
def cell? (name : String) (place : Nat) : Tree → Option Tree
  | .object members => members.lookup (some name)
  | .array items => items[place]?
  | _ => none

/-- The form of a record with so many fields. -/
def IsRow (fields : Nat) : Tree → Prop
  | .object _ => True
  | .array items => items.length ≤ fields
  | _ => False

/-- The field is there, and `a` is read from it. -/
def Requires {α : Type} (t : Tree) (name : String) (place : Nat) (read : Tree → Reading α)
    (a : α) : Prop :=
  ∃ c, t.cell? name place = some c ∧ read c = .ok a

/-- The field is there and `a` is read from it, or it is absent and `a` stands for that. -/
def Allows {α : Type} (t : Tree) (name : String) (place : Nat) (read : Tree → Reading α)
    (absent a : α) : Prop :=
  t.cell? name place = none ∧ a = absent ∨ t.Requires name place read a

/-- What stands for the fields, from a place on, satisfies what they check. -/
def Fits (t : Tree) : Nat → List Field → Prop
  | _, [] => True
  | place, f :: fields =>
    (∀ c, t.cell? f.name place = some c → f.check c = .ok ()) ∧ t.Fits (place + 1) fields

/-- The members of an object have readable names, and no two the same. -/
def Named : Tree → Prop
  | .object members => (members.map (·.1)).Nodup ∧ none ∉ members.map (·.1)
  | _ => True

end Tree

theorem field_check {α : Type} {name : String} {read : Tree → Reading α} {t : Tree} :
    (field name read).check t = .ok () ↔ ∃ a, read t = .ok a := by
  rw [field, map_eq_ok]
  simp

theorem Tree.Requires.check {α : Type} {t : Tree} {name : String} {place : Nat}
    {read : Tree → Reading α} {a : α} (h : t.Requires name place read a) :
    ∀ c, t.cell? name place = some c → (field name read).check c = .ok () := by
  obtain ⟨c, there, reads⟩ := h
  intro c' there'
  obtain rfl : c = c' := Option.some.inj (there.symm.trans there')
  exact field_check.mpr ⟨a, reads⟩

theorem Tree.Allows.check {α : Type} {t : Tree} {name : String} {place : Nat}
    {read : Tree → Reading α} {absent a : α} (h : t.Allows name place read absent a) :
    ∀ c, t.cell? name place = some c → (field name read).check c = .ok () := by
  obtain ⟨gone, -⟩ | there := h
  · simp [gone]
  · exact there.check

theorem Tree.Fits.check {t : Tree} {fields : List Field} {place i : Nat} {f : Field} {c : Tree}
    (h : t.Fits place fields) (here : fields[i]? = some f)
    (there : t.cell? f.name (place + i) = some c) : f.check c = .ok () := by
  induction fields generalizing place i with
  | nil => simp at here
  | cons g fields ih =>
    cases i with
    | zero =>
      cases here
      exact h.1 c there
    | succ i =>
      have later : place + (i + 1) = place + 1 + i := by omega
      exact ih h.2 here (later ▸ there)

theorem Tree.asOption_eq_ok {α : Type} {read : Tree → Reading α} {t : Tree} {x : Option α} :
    t.asOption read = .ok x ↔
      t = .null ∧ x = none ∨ t ≠ .null ∧ ∃ a, read t = .ok a ∧ x = some a := by
  cases t with
  | null => simp [asOption, @eq_comm _ x]
  | _ => simp [asOption, map_eq_ok, @eq_comm _ x]

/-- The first member decides unless the name is another one. -/
theorem lookup_member_cons {β : Type} {name other : String} {value : β}
    {members : List (Option String × β)} :
    ((some other, value) :: members).lookup (some name) =
      if name = other then some value else members.lookup (some name) := by
  by_cases same : name = other
  · simp [same]
  · rw [List.lookup_cons, if_neg same, beq_false_of_ne (by simpa using same)]

/-- Where no two keys are the same, every entry is found by its key. -/
theorem lookup_of_mem {κ β : Type} [BEq κ] [LawfulBEq κ] {entries : List (κ × β)}
    (distinct : (entries.map (·.1)).Nodup) {key : κ} {value : β} (h : (key, value) ∈ entries) :
    entries.lookup key = some value := by
  obtain ⟨before, after, rfl⟩ := List.append_of_mem h
  refine List.lookup_eq_some_iff.mpr ⟨before, after, rfl, fun e he => bne_iff_ne.mpr ?_⟩
  intro same
  rw [List.map_append, List.map_cons, List.nodup_middle, List.nodup_cons] at distinct
  exact distinct.1 (List.mem_append_left _ (List.mem_map.mpr ⟨e, he, same.symm⟩))

namespace Row
variable {fields : List Field}

/-! ## Objects -/

theorem lookup_of_collect {name : String} (known : (fields.find? (·.name == name)).isSome = true)
    {members : List (Option String × Tree)} {seen cells : List (String × Tree)}
    (h : collect fields seen members = .ok cells) :
    cells.lookup name = (seen.lookup name).or (members.lookup (some name)) := by
  induction members generalizing seen with
  | nil =>
    cases h
    simp
  | cons member members ih =>
    obtain ⟨_ | other, t⟩ := member
    · cases h
    rw [collect] at h
    rw [lookup_member_cons]
    split at h
    · next unknown =>
      have different : name ≠ other := by
        rintro rfl
        simp [unknown] at known
      rw [ih h, if_neg different]
    · split at h
      · cases h
      · next fresh =>
        split at h
        · cases h
        · rw [ih h, List.lookup_append, lookup_entry_cons, List.lookup_nil]
          split
          · next same =>
            subst same
            simp [Option.not_isSome_iff_eq_none.mp fresh]
          · simp

/-- An object whose known members can be read is collected. -/
theorem exists_collect {members : List (Option String × Tree)} {seen : List (String × Tree)}
    (named : (Tree.object members).Named)
    (fresh : ∀ name, some name ∈ members.map (·.1) → seen.lookup name = none)
    (checks : ∀ name t f, (some name, t) ∈ members → fields.find? (·.name == name) = some f →
      f.check t = .ok ()) : ∃ cells, collect fields seen members = .ok cells := by
  induction members generalizing seen with
  | nil => exact ⟨seen, rfl⟩
  | cons member members ih =>
    obtain ⟨distinct, readable⟩ := named
    obtain ⟨_ | name, t⟩ := member
    · simp at readable
    rw [List.map_cons, List.nodup_cons] at distinct
    have readable' : none ∉ members.map (·.1) := fun h => readable (List.mem_cons_of_mem _ h)
    have checks' := fun other t f h => checks other t f (List.mem_cons_of_mem _ h)
    rw [collect]
    cases found : fields.find? (·.name == name) with
    | none =>
      have fresh' := fun other h => fresh other (List.mem_cons_of_mem _ h)
      exact ih ⟨distinct.2, readable'⟩ fresh' checks'
    | some f =>
      simp only [fresh name List.mem_cons_self, Option.isSome_none, Bool.false_eq_true, if_false,
        checks name t f List.mem_cons_self found]
      refine ih ⟨distinct.2, readable'⟩ (fun other h => ?_) checks'
      have different : other ≠ name := by
        rintro rfl
        exact distinct.1 h
      rw [List.lookup_append, fresh other (List.mem_cons_of_mem _ h), lookup_entry_cons,
        if_neg different]
      rfl

/-! ## Arrays -/

theorem align_eq_ok {items : List Tree} {cells : List (String × Tree)} :
    align false fields items = .ok cells ↔ items.length ≤ fields.length ∧
      (∀ p ∈ fields.zip items, p.1.check p.2 = .ok ()) ∧
      cells = (fields.zip items).map fun p => (p.1.name, p.2) := by
  induction items generalizing fields cells with
  | nil => cases fields <;> simp [align, eq_comm]
  | cons t items ih =>
    cases fields with
    | nil => simp [align]
    | cons f fields =>
      simp only [align, bind_eq_ok, ih]
      constructor
      · rintro ⟨⟨⟩, first, _, ⟨fits, others, rfl⟩, same⟩
        cases same
        exact ⟨by simpa using fits, List.forall_mem_cons.mpr ⟨first, others⟩, rfl⟩
      · rintro ⟨fits, checks, rfl⟩
        obtain ⟨first, others⟩ := List.forall_mem_cons.mp checks
        exact ⟨(), first, _, ⟨by simpa using fits, others, rfl⟩, rfl⟩

theorem lookup_zip {items : List Tree} (distinct : (fields.map (·.name)).Nodup) {i : Nat}
    {f : Field} (here : fields[i]? = some f) (fits : items.length ≤ fields.length) :
    ((fields.zip items).map fun p => (p.1.name, p.2)).lookup f.name = items[i]? := by
  induction fields generalizing items i with
  | nil => simp at here
  | cons g fields ih =>
    rw [List.map_cons, List.nodup_cons] at distinct
    cases items with
    | nil => simp
    | cons t items =>
      rw [List.zip_cons_cons, List.map_cons, lookup_entry_cons]
      cases i with
      | zero =>
        cases here
        simp
      | succ i =>
        have there : fields[i]? = some f := here
        have different : f.name ≠ g.name := fun same =>
          distinct.1 (same ▸ List.mem_map_of_mem (List.mem_of_getElem? there))
        rw [if_neg different, ih distinct.2 there (by simpa using fits), List.getElem?_cons_succ]

/-! ## Both forms -/

theorem isRow_of_read {t : Tree} {row : Row} (h : read false fields t = .ok row) :
    t.IsRow fields.length := by
  cases t with
  | object members => trivial
  | array items =>
    obtain ⟨cells, aligned, -⟩ := map_eq_ok.mp h
    exact (align_eq_ok.mp aligned).1
  | _ => cases h

/-- A document of the right form whose cells can be read is read as a row. -/
theorem exists_read {t : Tree} (fits : t.Fits 0 fields) (form : t.IsRow fields.length)
    (named : t.Named) : ∃ row, read false fields t = .ok row := by
  have checks : ∀ (i : Nat) (f : Field) (c : Tree), fields[i]? = some f →
      t.cell? f.name i = some c → f.check c = .ok () :=
    fun i f c here there => fits.check here (by simpa using there)
  cases t with
  | object members =>
    obtain ⟨cells, collected⟩ := @exists_collect fields members [] named
      (fun _ _ => rfl) fun name t f ht found => by
        obtain ⟨i, here⟩ := List.mem_iff_getElem?.mp (List.mem_of_find?_eq_some found)
        obtain rfl : f.name = name := by simpa using List.find?_some found
        exact checks i f t here (lookup_of_mem named.1 ht)
    exact ⟨_, map_eq_ok.mpr ⟨cells, collected, rfl⟩⟩
  | array items =>
    refine ⟨_, map_eq_ok.mpr ⟨_, align_eq_ok.mpr ⟨form, fun p hp => ?_, rfl⟩, rfl⟩⟩
    obtain ⟨i, here⟩ := List.mem_iff_getElem?.mp hp
    obtain ⟨field, item⟩ := List.getElem?_zip_eq_some.mp here
    exact checks i p.1 p.2 field item
  | _ => exact form.elim

/-! ## Fields of a row that was read -/

section
variable {α : Type} {t : Tree} {row : Row} {name : String} {place : Nat} {reads : Tree → Reading α}
  (h : read false fields t = .ok row) (distinct : (fields.map (·.name)).Nodup)
  (here : fields[place]?.map (·.name) = some name)
include h distinct here

/-- The cells of a row are those of the document. -/
theorem lookup_of_read : row.cells.lookup name = t.cell? name place := by
  obtain ⟨f, there, rfl⟩ := Option.map_eq_some_iff.mp here
  cases t with
  | object members =>
    obtain ⟨cells, collected, rfl⟩ := map_eq_ok.mp h
    have known : (fields.find? (·.name == f.name)).isSome = true :=
      List.find?_isSome.mpr ⟨f, List.mem_of_getElem? there, by simp⟩
    exact (lookup_of_collect known collected).trans (by simp [Tree.cell?])
  | array items =>
    obtain ⟨cells, aligned, rfl⟩ := map_eq_ok.mp h
    obtain ⟨fits, -, rfl⟩ := align_eq_ok.mp aligned
    exact lookup_zip distinct there fits
  | _ => cases h

theorem required_iff {a : α} :
    row.required name reads = .ok a ↔ t.Requires name place reads a := by
  rw [required, lookup_of_read h distinct here, Tree.Requires]
  cases t.cell? name place <;> simp

theorem optional_iff {absent a : α} :
    row.optional name reads absent = .ok a ↔ t.Allows name place reads absent a := by
  rw [optional, lookup_of_read h distinct here, Tree.Allows, Tree.Requires]
  cases t.cell? name place <;> simp [eq_comm]

end

end Row
end CertEnrollment.Data
