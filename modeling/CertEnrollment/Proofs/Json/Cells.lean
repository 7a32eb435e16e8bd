import CertEnrollment.Proofs.Data.Rows
import CertEnrollment.Proofs.Json.Reading

/-!
# Records in values

A record that is read from a value reads the members and items of that value: the leaves are read
just as they are, and no name stands twice in a value that was parsed.
-/
namespace CertEnrollment.Data

namespace Value

/-- What stands for a field: the member of its name, or the item at its place. -/
def cell? (name : String) (place : Nat) : Value → Option Value
  | .object members => members.lookup name
  | .array items => items[place]?
  | _ => none

/-- The form of a record with so many fields. -/
def IsRow (fields : Nat) : Value → Prop
  | .object _ => True
  | .array items => items.length ≤ fields
  | _ => False

theorem treeMembers_eq_map (members : List (String × Value)) :
    treeMembers members = members.map fun m => (some m.1, m.2.tree) := by
  induction members with
  | nil => rfl
  | cons member members ih => rw [treeMembers, ih, List.map_cons]

theorem treeItems_eq_map (items : List Value) : treeItems items = items.map tree := by
  induction items with
  | nil => rfl
  | cons item items ih => rw [treeItems, ih, List.map_cons]

theorem lookup_treeMembers (members : List (String × Value)) (name : String) :
    (treeMembers members).lookup (some name) = (members.lookup name).map tree := by
  induction members with
  | nil => rfl
  | cons member members ih =>
    obtain ⟨other, v⟩ := member
    rw [treeMembers, lookup_member_cons, lookup_entry_cons, ih]
    split <;> rfl

@[simp] theorem cell?_tree (v : Value) (name : String) (place : Nat) :
    v.tree.cell? name place = (v.cell? name place).map tree := by
  cases v with
  | array items => simp [tree, Tree.cell?, cell?, treeItems_eq_map]
  | object members => exact lookup_treeMembers members name
  | _ => rfl

@[simp] theorem isRow_tree (v : Value) (fields : Nat) : v.tree.IsRow fields ↔ v.IsRow fields := by
  cases v with
  | array items => simp [tree, Tree.IsRow, IsRow, treeItems_eq_map]
  | _ => exact Iff.rfl

/-! ## Leaves -/

theorem asText_tree {v : Value} {s : String} : v.tree.asText = .ok s ↔ v = .text s := by
  cases v <;> simp [tree, Tree.asText, Reading.ofOption]

theorem asInt_tree {v : Value} {low high n : Int} :
    v.tree.asInt low high = .ok n ↔ v = .number (.int n) ∧ low ≤ n ∧ n ≤ high := by
  cases v with
  | number m =>
    cases m with
    | int m =>
      rw [tree, Tree.asInt]
      constructor
      · intro h
        split at h
        · next bounds =>
          cases h
          exact ⟨rfl, bounds⟩
        · cases h
      · rintro ⟨⟨⟩, bounds⟩
        rw [if_pos bounds]
    | double x => simp [tree, Tree.asInt]
  | _ => simp [tree, Tree.asInt]

/-! ## Objects -/

theorem named_object {members : List (String × Value)} (distinct : (members.map (·.1)).Nodup) :
    (object members).tree.Named := by
  have names : (treeMembers members).map (·.1) = (members.map (·.1)).map some := by
    simp [treeMembers_eq_map, Function.comp_def]
  refine ⟨?_, ?_⟩
  · rw [names]
    exact distinct.map fun _ _ => Option.some.inj
  · rw [names]
    simp

/-- In an object without repeated names every member is found under its name. -/
theorem cell?_of_mem {members : List (String × Value)} (distinct : (members.map (·.1)).Nodup)
    {name : String} {v : Value} (h : (name, v) ∈ members) (place : Nat) :
    (object members).tree.cell? name place = some v.tree := by
  rw [cell?_tree, cell?, lookup_of_mem distinct h]
  rfl

theorem requires_of_mem {α : Type} {read : Tree → Reading α} {members : List (String × Value)}
    (distinct : (members.map (·.1)).Nodup) {name : String} {v : Value} {place : Nat} {a : α}
    (h : (name, v) ∈ members) (reads : read v.tree = .ok a) :
    (object members).tree.Requires name place read a :=
  ⟨v.tree, cell?_of_mem distinct h place, reads⟩

/-- A map is read from the object that it spells out. -/
theorem asMap_ofMap {β : Type} {read : Tree → Reading β} {f : β → Value} {m : SortedMap β}
    (each : ∀ e ∈ m.entries, read (f e.2).tree = .ok e.2) :
    (ofMap f m).tree.asMap read = .ok m := by
  rw [ofMap, tree, Tree.asMap, treeMembers_eq_map, List.map_map]
  refine bind_eq_ok.mpr ⟨m.entries, mapM_map_eq_ok fun e he => ?_, congrArg _ m.ofList_entries⟩
  exact bind_eq_ok.mpr ⟨e.1, rfl, bind_eq_ok.mpr ⟨e.2, each e he, rfl⟩⟩

/-- A list is read from the array of what is written for its elements. -/
theorem asList_array {β : Type} {read : Tree → Reading β} {f : β → Value} {xs : List β}
    (each : ∀ x ∈ xs, read (f x).tree = .ok x) :
    (array (xs.map f)).tree.asList read = .ok xs := by
  rw [tree, Tree.asList, treeItems_eq_map, List.map_map]
  exact mapM_map_eq_ok each

end Value

/-! ## Members in order -/

theorem insertEntry_perm {β : Type} {key : String} {value : β} {entries : List (String × β)}
    (fresh : key ∉ entries.map (·.1)) :
    (insertEntry key value entries).Perm ((key, value) :: entries) := by
  induction entries with
  | nil => exact .refl _
  | cons e entries ih =>
    obtain ⟨k, v⟩ := e
    obtain ⟨different, later⟩ : key ≠ k ∧ key ∉ entries.map (·.1) := by simpa using fresh
    rw [insertEntry, if_neg different]
    split
    · exact .refl _
    · exact ((ih later).cons _).trans (.swap ..)

/-- Putting members with different names in order loses none. -/
theorem Value.ofMembers_perm {members : List (String × Value)}
    (distinct : (members.map (·.1)).Nodup) :
    ∃ kept, ofMembers members = .object kept ∧ kept.Perm members := by
  have all : ∀ kept : List (String × Value), ((kept ++ members).map (·.1)).Nodup →
      (members.foldl (fun kept m => insertEntry m.1 m.2 kept) kept).Perm (kept ++ members) := by
    clear distinct
    induction members with
    | nil => simp
    | cons m members ih =>
      intro kept distinct
      have moved : ((m :: kept) ++ members).Perm (kept ++ m :: members) :=
        List.perm_middle.symm
      have fresh : m.1 ∉ kept.map (·.1) := by
        have distinct' := (moved.map (·.1)).nodup_iff.mpr distinct
        rw [List.cons_append, List.map_cons, List.nodup_cons, List.map_append] at distinct'
        exact fun h => distinct'.1 (List.mem_append_left _ h)
      have inserted := @insertEntry_perm _ m.1 m.2 kept fresh
      have same := (inserted.append_right members).trans moved
      refine (ih _ ((same.map (·.1)).nodup_iff.mpr distinct)).trans same
  exact ⟨_, rfl, all [] distinct⟩

end CertEnrollment.Data

namespace CertEnrollment.Json
open Data

theorem Regular.named {room : Nat} {v : Value} (h : Regular room v) : v.tree.Named := by
  cases v with
  | object members => exact Value.named_object (Increasing.nodup_keys h.2.1)
  | _ => trivial

theorem regular_of_lookup {room : Nat} {members : List (String × Value)} {name : String}
    {v : Value} (h : RegularMembers room members) (there : members.lookup name = some v) :
    Regular room v := by
  induction members with
  | nil => cases there
  | cons member members ih =>
    obtain ⟨other, w⟩ := member
    rw [lookup_entry_cons] at there
    split at there
    · cases there
      exact h.1
    · exact ih h.2 there

theorem Regular.member {room : Nat} {v w : Value} {name : String} (h : Regular room v)
    (there : v.member? name = some w) : Regular (room - 1) w := by
  cases v with
  | object members => exact regular_of_lookup h.2.2 there
  | _ => cases there

theorem regularMembers_iff {room : Nat} {members : List (String × Value)} :
    RegularMembers room members ↔ ∀ e ∈ members, Regular room e.2 := by
  induction members with
  | nil => simp [RegularMembers]
  | cons e members ih => simp [RegularMembers, ih]

theorem mem_numbersIn {n : Number} {items : List Value} :
    n ∈ numbersIn items ↔ ∃ v ∈ items, n ∈ numbers v := by
  induction items with
  | nil => simp [numbersIn]
  | cons v items ih => simp [numbersIn, ih]

theorem mem_numbersUnder {n : Number} {members : List (String × Value)} :
    n ∈ numbersUnder members ↔ ∃ e ∈ members, n ∈ numbers e.2 := by
  induction members with
  | nil => simp [numbersUnder]
  | cons e members ih => simp [numbersUnder, ih]

/-- An object whose members are in any order is read as the object with the members in order. -/
theorem parseValue?_write_object {members : List (String × Value)}
    (exact : ∀ e ∈ members, ∀ n ∈ numbers e.2, Exact n)
    (regular : ∀ e ∈ members, Regular (maxNesting - 1) e.2) :
    parseValue? (write (.object members)) = some (.ofMembers members) := by
  have all : ∀ n ∈ numbers (.object members), Exact n := by
    intro n hn
    obtain ⟨e, he, hn⟩ := mem_numbersUnder.mp hn
    exact exact e he n hn
  have parsed : parse? (write (.object members)) = some (Value.object members).tree := by
    rw [parse?, front?_write all]
    rfl
  rw [parseValue?, parsed]
  change (Value.object members).tree.value? maxNesting = _
  rw [Value.tree, Tree.value?, if_neg (by decide),
    members?_tree members (regularMembers_iff.mpr regular)]
  rfl

theorem regular_of_parseValue? {text : String} {v : Value} (h : parseValue? text = some v) :
    Regular maxNesting v := by
  obtain ⟨t, -, value⟩ := Option.bind_eq_some_iff.mp h
  exact (regular_of_value? t value).1

end CertEnrollment.Json
