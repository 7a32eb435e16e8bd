import CertEnrollment.Proofs.Json.RoundTrip

/-!
# What was read can be written

A value that was read from a text is regular, and its integers are in range. So it is
read back as it is written, as long as its doubles are.
-/
namespace CertEnrollment.Json
open Data Decimal

/-! ## Numbers -/

/-- An integer fits into 64 bits, with or without a sign. -/
def InRange : Number → Prop
  | .int n => leastInt ≤ n ∧ n < Int.ofNat (Nat.pow 2 64)
  | .double _ => True

theorem takeDigits_lt {ds : List Char} {n : Nat} (h : n < Nat.pow 2 64) :
    (takeDigits n ds).1 < Nat.pow 2 64 := by
  induction ds generalizing n with
  | nil => exact h
  | cons c ds ih =>
    rw [takeDigits]
    split
    · next fits => exact ih fits
    · exact h

theorem number?_inRange {x : Numeral} {n : Number} (h : x.number? = some n) : InRange n := by
  have small : (takeDigits 0 x.whole).1 < Nat.pow 2 64 := takeDigits_lt (by decide)
  unfold Numeral.number? at h
  simp only at h
  split at h
  · split at h
    · split at h
      · cases h
        simp [InRange, leastInt] at small ⊢
        omega
      · split at h
        · obtain ⟨d, -, rfl⟩ := Option.map_eq_some_iff.mp h
          trivial
        · next fits =>
          cases h
          simp [InRange, leastInt] at small fits ⊢
          omega
    · obtain ⟨d, -, rfl⟩ := Option.map_eq_some_iff.mp h
      trivial
  · split at h
    · obtain ⟨d, -, rfl⟩ := Option.map_eq_some_iff.mp h
      trivial
    · split at h
      · obtain ⟨d, -, rfl⟩ := Option.map_eq_some_iff.mp h
        trivial
      · split at h
        · cases h
        · cases h
          trivial

/-! ## Trees -/

mutual
/-- The numbers that a tree spells. -/
def treeNumbers : Tree → List Number
  | .number n => n.toList
  | .array items => treeNumbersIn items
  | .object members => treeNumbersUnder members
  | _ => []

def treeNumbersIn : List Tree → List Number
  | [] => []
  | t :: ts => treeNumbers t ++ treeNumbersIn ts

def treeNumbersUnder : List (Option String × Tree) → List Number
  | [] => []
  | (_, t) :: ts => treeNumbers t ++ treeNumbersUnder ts
end

/-- The numbers of what is read are in range, whichever part of a document it is. -/
theorem inRange_of_read (fuel : Nat) (cs : List Char) :
    (∀ t rest, tree? fuel cs = some (t, rest) → ∀ n ∈ treeNumbers t, InRange n) ∧
    (∀ ts rest, items? fuel cs = some (ts, rest) → ∀ n ∈ treeNumbersIn ts, InRange n) ∧
    (∀ ts rest, members? fuel cs = some (ts, rest) → ∀ n ∈ treeNumbersUnder ts, InRange n) := by
  induction fuel generalizing cs with
  | zero => simp [tree?, items?, members?]
  | succ fuel ih =>
    refine ⟨?_, ?_, ?_⟩
    · intro t rest h
      rw [tree?] at h
      split at h
      · cases h; simp [treeNumbers]
      · cases h; simp [treeNumbers]
      · cases h; simp [treeNumbers]
      · obtain ⟨⟨s, more⟩, -, same⟩ := Option.map_eq_some_iff.mp h
        cases same
        simp [treeNumbers]
      · split at h
        · cases h; simp [treeNumbers, treeNumbersIn]
        · obtain ⟨⟨items, more⟩, read, same⟩ := Option.map_eq_some_iff.mp h
          cases same
          exact (ih _).2.1 _ _ read
      · split at h
        · cases h; simp [treeNumbers, treeNumbersUnder]
        · obtain ⟨⟨members, more⟩, read, same⟩ := Option.map_eq_some_iff.mp h
          cases same
          exact (ih _).2.2 _ _ read
      · obtain ⟨⟨x, more⟩, -, same⟩ := Option.map_eq_some_iff.mp h
        cases same
        intro n hn
        exact number?_inRange (Option.mem_toList.mp hn)
    · intro ts rest h
      rw [items?] at h
      obtain ⟨⟨t, more⟩, first, h⟩ := Option.bind_eq_some_iff.mp h
      have mine := (ih cs).1 t more first
      simp only at h
      split at h
      · obtain ⟨⟨others, after⟩, read, same⟩ := Option.bind_eq_some_iff.mp h
        cases same
        exact List.forall_mem_append.mpr ⟨mine, (ih _).2.1 _ _ read⟩
      · cases h
        exact List.forall_mem_append.mpr ⟨mine, by simp [treeNumbersIn]⟩
      · cases h
    · intro ts rest h
      rw [members?] at h
      split at h
      · obtain ⟨⟨name, more⟩, -, h⟩ := Option.bind_eq_some_iff.mp h
        simp only at h
        split at h
        · obtain ⟨⟨t, after⟩, first, h⟩ := Option.bind_eq_some_iff.mp h
          have mine := (ih _).1 t after first
          simp only at h
          split at h
          · obtain ⟨⟨others, last⟩, read, same⟩ := Option.bind_eq_some_iff.mp h
            cases same
            exact List.forall_mem_append.mpr ⟨mine, (ih _).2.2 _ _ read⟩
          · cases h
            exact List.forall_mem_append.mpr ⟨mine, by simp [treeNumbersUnder]⟩
          · cases h
        · cases h
      · cases h

/-! ## Values -/

theorem numbersUnder_insertEntry {key : String} {v : Value} {members : List (String × Value)} :
    ∀ n ∈ numbersUnder (insertEntry key v members),
      n ∈ numbers v ∨ n ∈ numbersUnder members := by
  induction members with
  | nil => simp [insertEntry, numbersUnder]
  | cons e members ih =>
    obtain ⟨k, w⟩ := e
    rw [insertEntry]
    split
    · exact fun n hn => List.mem_append.mp hn
    · split
      · intro n hn
        exact (List.mem_append.mp hn).imp_right (List.mem_append_right _)
      · intro n hn
        rcases List.mem_append.mp hn with hn | hn
        · exact .inr (List.mem_append_left _ hn)
        · exact (ih n hn).imp_right (List.mem_append_right _)

theorem regular_insertEntry {room : Nat} {key : String} {v : Value}
    {members : List (String × Value)} (first : Regular room v)
    (others : RegularMembers room members) :
    RegularMembers room (insertEntry key v members) := by
  induction members with
  | nil => exact ⟨first, trivial⟩
  | cons e members ih =>
    obtain ⟨k, w⟩ := e
    rw [insertEntry]
    split
    · exact ⟨first, others⟩
    · split
      · exact ⟨first, others.2⟩
      · exact ⟨others.1, ih others.2⟩

/-- Putting members into an object one after the other keeps it in order and adds nothing
but what the members have. -/
theorem ofMembers_regular {room : Nat} (members : List (String × Value))
    (h : RegularMembers room members) :
    ∃ kept, Value.ofMembers members = .object kept ∧ Increasing kept ∧
      RegularMembers room kept ∧ ∀ n ∈ numbersUnder kept, n ∈ numbersUnder members := by
  have all : ∀ kept : List (String × Value), Increasing kept → RegularMembers room kept →
      Increasing (members.foldl (fun kept m => insertEntry m.1 m.2 kept) kept) ∧
      RegularMembers room (members.foldl (fun kept m => insertEntry m.1 m.2 kept) kept) ∧
      ∀ n ∈ numbersUnder (members.foldl (fun kept m => insertEntry m.1 m.2 kept) kept),
        n ∈ numbersUnder kept ∨ n ∈ numbersUnder members := by
    induction members with
    | nil => exact fun kept order regular => ⟨order, regular, fun n => .inl⟩
    | cons e members ih =>
      obtain ⟨k, v⟩ := e
      intro kept order regular
      obtain ⟨order', regular', from'⟩ := ih h.2 (insertEntry k v kept)
        (order.insertEntry k v) (regular_insertEntry h.1 regular)
      refine ⟨order', regular', fun n hn => ?_⟩
      rcases from' n hn with hn | hn
      · rcases numbersUnder_insertEntry n hn with hn | hn
        · exact .inr (List.mem_append_left _ hn)
        · exact .inl hn
      · exact .inr (List.mem_append_right _ hn)
  obtain ⟨order, regular, from'⟩ := all [] .nil trivial
  exact ⟨_, rfl, order, regular, fun n hn => (from' n hn).resolve_left (by simp [numbersUnder])⟩

mutual
/-- A value read from a tree is regular and has no numbers but those of the tree. -/
theorem regular_of_value? {room : Nat} : (t : Tree) → {v : Value} → t.value? room = some v →
    Regular room v ∧ ∀ n ∈ numbers v, n ∈ treeNumbers t
  | .null, _, h => by
    cases h
    exact ⟨trivial, fun n hn => hn⟩
  | .bool b, _, h => by
    cases h
    exact ⟨trivial, fun n hn => hn⟩
  | .number n, _, h => by
    obtain ⟨m, rfl, rfl⟩ := Option.map_eq_some_iff.mp h
    exact ⟨trivial, fun n hn => hn⟩
  | .text s, _, h => by
    obtain ⟨s, rfl, rfl⟩ := Option.map_eq_some_iff.mp h
    exact ⟨trivial, fun n hn => hn⟩
  | .array items, _, h => by
    rw [Tree.value?] at h
    split at h
    · cases h
    · next some_room =>
      obtain ⟨vs, read, rfl⟩ := Option.map_eq_some_iff.mp h
      obtain ⟨regular, from'⟩ := regular_of_values? items read
      exact ⟨⟨some_room, regular⟩, from'⟩
  | .object members, _, h => by
    rw [Tree.value?] at h
    split at h
    · cases h
    · next some_room =>
      obtain ⟨vs, read, rfl⟩ := Option.map_eq_some_iff.mp h
      obtain ⟨regular, from'⟩ := regular_of_members? members read
      obtain ⟨kept, same, order, regular', fewer⟩ := ofMembers_regular vs regular
      rw [same]
      exact ⟨⟨some_room, order, regular'⟩, fun n hn => from' n (fewer n hn)⟩

theorem regular_of_values? {room : Nat} : (ts : List Tree) → {vs : List Value} →
    Tree.values? room ts = some vs →
    RegularItems room vs ∧ ∀ n ∈ numbersIn vs, n ∈ treeNumbersIn ts
  | [], _, h => by
    cases h
    exact ⟨trivial, fun n hn => hn⟩
  | t :: ts, _, h => by
    rw [Tree.values?] at h
    split at h
    · next v vs first others =>
      cases h
      obtain ⟨regular, mine⟩ := regular_of_value? t first
      obtain ⟨regular', theirs⟩ := regular_of_values? ts others
      refine ⟨⟨regular, regular'⟩, fun n hn => ?_⟩
      exact List.mem_append.mpr ((List.mem_append.mp hn).imp (mine n) (theirs n))
    · cases h

theorem regular_of_members? {room : Nat} : (ts : List (Option String × Tree)) →
    {vs : List (String × Value)} → Tree.members? room ts = some vs →
    RegularMembers room vs ∧ ∀ n ∈ numbersUnder vs, n ∈ treeNumbersUnder ts
  | [], _, h => by
    cases h
    exact ⟨trivial, fun n hn => hn⟩
  | (name, t) :: ts, _, h => by
    unfold Tree.members? at h
    split at h
    · next name v vs first others =>
      cases h
      obtain ⟨regular, mine⟩ := regular_of_value? t first
      obtain ⟨regular', theirs⟩ := regular_of_members? ts others
      refine ⟨⟨regular, regular'⟩, fun n hn => ?_⟩
      exact List.mem_append.mpr ((List.mem_append.mp hn).imp (mine n) (theirs n))
    · cases h
end

/-- A record that was read from a text was read from a tree with numbers in range. -/
theorem tree_of_readText {α : Type} {read : Tree → Reading α} {text : String} {a : α}
    (h : readText read text = .ok a) :
    ∃ t, read t = .ok a ∧ ∀ n ∈ treeNumbers t, InRange n := by
  unfold readText at h
  cases found : front? text with
  | none =>
    rw [found] at h
    cases h
  | some front =>
    obtain ⟨t, rest⟩ := front
    rw [found] at h
    refine ⟨t, ?_, (inRange_of_read _ _).1 t rest found⟩
    cases record : read t with
    | error e =>
      simp [Reading.ofOption, record, bind, Except.bind] at h
    | ok b =>
      simp only [Reading.ofOption, record, bind, Except.bind] at h
      split at h
      · exact h
      · cases h

/-- A record that was read from bytes was read from a tree. -/
theorem tree_of_readBytes {α : Type} {read : Tree → Reading α} {bytes : List UInt8} {a : α}
    (h : readBytes read bytes = .ok a) : ∃ t, read t = .ok a := by
  unfold readBytes at h
  split at h
  · obtain ⟨t, record, -⟩ := tree_of_readText h
    exact ⟨t, record⟩
  · obtain ⟨t, record, -⟩ := tree_of_readText h
    exact ⟨_, record⟩

/-- A number that was read is read back as it was written, unless it is a double. -/
theorem exact_of_inRange {n : Number} (h : InRange n)
    (doubles : ∀ x, n = .double x → Exact n) : Exact n := by
  cases n with
  | int n => exact exact_int h.1 h.2
  | double x => exact doubles x rfl

end CertEnrollment.Json
