import CertEnrollment.Proofs.Json.Leaves

/-!
# JSON text is read back as it was written

The compact text of a value is read as the tree of that value, and the tree as the value,
provided that numbers are, that objects have their members in order, and that nesting stays
within its bound. All of this holds of what was read from a text before.
-/
namespace CertEnrollment.Json
open Data

/-! ## Values that come back -/

mutual
/-- The numbers in a value. -/
def numbers : Value → List Number
  | .number n => [n]
  | .array items => numbersIn items
  | .object members => numbersUnder members
  | _ => []

def numbersIn : List Value → List Number
  | [] => []
  | v :: vs => numbers v ++ numbersIn vs

def numbersUnder : List (String × Value) → List Number
  | [] => []
  | (_, v) :: vs => numbers v ++ numbersUnder vs
end

mutual
/-- Every object has its members in order, and so many arrays and objects nest. -/
def Regular (room : Nat) : Value → Prop
  | .array items => room ≠ 0 ∧ RegularItems (room - 1) items
  | .object members => room ≠ 0 ∧ Increasing members ∧ RegularMembers (room - 1) members
  | _ => True

def RegularItems (room : Nat) : List Value → Prop
  | [] => True
  | v :: vs => Regular room v ∧ RegularItems room vs

def RegularMembers (room : Nat) : List (String × Value) → Prop
  | [] => True
  | (_, v) :: vs => Regular room v ∧ RegularMembers room vs
end

/-! ## From text to trees -/

theorem skip_cons {c : Char} (h : isSpace c = false) (cs : List Char) :
    skip (c :: cs) = c :: cs := by
  simp [skip, h]

theorem head_of_numeral? {cs rest : List Char} {x : Numeral} (h : numeral? cs = some (x, rest)) :
    ∃ c more, cs = c :: more ∧ (c = '-' ∨ c.isDigit = true) := by
  cases cs with
  | nil => cases h
  | cons c cs =>
    refine ⟨c, cs, rfl, Classical.or_iff_not_imp_left.mpr fun positive => ?_⟩
    unfold numeral? at h
    split at h
    · next same => exact absurd (List.cons.inj same).1 positive
    · obtain ⟨⟨whole, more⟩, first, -⟩ := Option.bind_eq_some_iff.mp h
      unfold whole? at first
      split at first
      · next same => rw [(List.cons.inj same).1]; rfl
      · cases digit : c.isDigit with
        | true => rfl
        | false => simp [digits?, digit] at first

theorem numeral_start {c : Char} (h : c = '-' ∨ c.isDigit = true) :
    isSpace c = false ∧ c ≠ ']' := by
  rcases h with rfl | digit
  · decide
  · have other : ∀ d, d.isDigit = false → c ≠ d := by
      rintro d notDigit rfl
      rw [digit] at notDigit
      cases notDigit
    refine ⟨?_, other ']' (by decide)⟩
    simp [isSpace, other ' ' (by decide), other '\t' (by decide), other '\n' (by decide),
      other '\r' (by decide)]

/-- A text that starts with a numeral is read as one. -/
theorem tree?_numeral {cs rest : List Char} {x : Numeral} (h : numeral? cs = some (x, rest))
    (fuel : Nat) : tree? (fuel + 1) cs = some (.number x.number?, rest) := by
  obtain ⟨c, more, rfl, first⟩ := head_of_numeral? h
  have other : ∀ d, d ≠ '-' → d.isDigit = false → c ≠ d := by
    rintro d minus digit rfl
    rcases first with rfl | first
    · exact minus rfl
    · rw [digit] at first
      cases first
  rw [tree?, skip_cons (numeral_start first).1]
  split
  all_goals first
    | next same => exact absurd (List.cons.inj same).1 (other _ (by decide) (by decide))
    | skip
  rw [h]
  rfl

theorem string_tree? (s : String) (fuel : Nat) (rest : List Char) :
    tree? (fuel + 1) (writeString s ++ rest) = some (.text (some s), rest) := by
  have read := string?_write s rest
  simp [writeString, tree?, skip, isSpace, read]

theorem writeValue_head {v : Value} (h : ∀ n ∈ numbers v, Exact n) :
    ∃ c more, writeValue v = c :: more ∧ isSpace c = false ∧ c ≠ ']' := by
  cases v with
  | null => exact ⟨_, _, rfl, rfl, by decide⟩
  | bool b => cases b <;> exact ⟨_, _, rfl, rfl, by decide⟩
  | number n =>
    obtain ⟨x, read, -⟩ := h n (by simp [numbers])
    obtain ⟨c, more, same, first⟩ := head_of_numeral? read
    exact ⟨c, more, same, numeral_start first⟩
  | text s => exact ⟨_, _, rfl, rfl, by decide⟩
  | array items => cases items <;> exact ⟨_, _, rfl, rfl, by decide⟩
  | object members =>
    cases members with
    | nil => exact ⟨_, _, rfl, rfl, by decide⟩
    | cons m members => exact ⟨_, _, rfl, rfl, by decide⟩

theorem tree?_array {c : Char} {cs rest : List Char} {fuel : Nat} {ts : List Tree}
    (plain : isSpace c = false) (other : c ≠ ']')
    (items : items? fuel (c :: cs) = some (ts, rest)) :
    tree? (fuel + 1) ('[' :: c :: cs) = some (.array ts, rest) := by
  have noSpace : skip ('[' :: c :: cs) = '[' :: c :: cs := skip_cons rfl _
  simp only [tree?, noSpace, skip_cons plain]
  split
  · next close => exact absurd (List.cons.inj close).1 other
  · simp [items]

theorem tree?_object {cs rest : List Char} {fuel : Nat} {ts : List (Option String × Tree)}
    (members : members? fuel ('"' :: cs) = some (ts, rest)) :
    tree? (fuel + 1) ('\x7b' :: '"' :: cs) = some (.object ts, rest) := by
  have noSpace : skip ('"' :: cs) = '"' :: cs := skip_cons rfl cs
  simp [tree?, skip_cons, isSpace, noSpace, members]

theorem items?_last {cs rest : List Char} {fuel : Nat} {t : Tree}
    (first : tree? fuel cs = some (t, ']' :: rest)) :
    items? (fuel + 1) cs = some ([t], rest) := by
  simp [items?, first, skip_cons, isSpace]

theorem items?_more {cs more rest : List Char} {fuel : Nat} {t : Tree} {ts : List Tree}
    (first : tree? fuel cs = some (t, ',' :: more)) (others : items? fuel more = some (ts, rest)) :
    items? (fuel + 1) cs = some (t :: ts, rest) := by
  simp [items?, first, skip_cons, isSpace, others]

theorem members?_last {name : String} {cs rest : List Char} {fuel : Nat} {t : Tree}
    (first : tree? fuel cs = some (t, '\x7d' :: rest)) :
    members? (fuel + 1) (writeString name ++ ':' :: cs) = some ([(some name, t)], rest) := by
  have read := string?_write name (':' :: cs)
  simp [members?, writeString, skip_cons, isSpace, read, first]

theorem members?_more {name : String} {cs more rest : List Char} {fuel : Nat} {t : Tree}
    {ts : List (Option String × Tree)} (first : tree? fuel cs = some (t, ',' :: more))
    (others : members? fuel more = some (ts, rest)) :
    members? (fuel + 1) (writeString name ++ ':' :: cs) = some ((some name, t) :: ts, rest) := by
  have read := string?_write name (':' :: cs)
  simp [members?, writeString, skip_cons, isSpace, read, first, others]

theorem ends_writeItems (vs : List Value) (rest : List Char) : Ends (writeItems vs ++ rest) := by
  cases vs <;> simp [Ends, writeItems]

theorem ends_writeMembers (vs : List (String × Value)) (rest : List Char) :
    Ends (writeMembers vs ++ rest) := by
  cases vs <;> simp [Ends, writeMembers]

mutual
/-- What is written for a value is read as its tree. -/
theorem tree?_write : (v : Value) → (∀ n ∈ numbers v, Exact n) → (fuel : Nat) →
    (rest : List Char) → 2 * (writeValue v).length ≤ fuel → Ends rest →
    tree? fuel (writeValue v ++ rest) = some (v.tree, rest)
  | v, h, 0, rest, enough, _ => by
    obtain ⟨c, more, same, -⟩ := writeValue_head h
    rw [same] at enough
    simp at enough
  | .null, _, fuel + 1, rest, _, _ => rfl
  | .bool true, _, fuel + 1, rest, _, _ => rfl
  | .bool false, _, fuel + 1, rest, _, _ => rfl
  | .number n, h, fuel + 1, rest, _, ends => by
    obtain ⟨x, read, back⟩ := h n (by simp [numbers])
    rw [writeValue, tree?_numeral (numeral?_extend read ends) fuel, back]
    rfl
  | .text s, _, fuel + 1, rest, _, _ => string_tree? s fuel rest
  | .array [], _, fuel + 1, rest, _, _ => rfl
  | .array (v :: vs), h, fuel + 1, rest, enough, ends => by
    obtain ⟨first, -⟩ := List.forall_mem_append.mp h
    obtain ⟨c, more, same, plain, other⟩ := writeValue_head first
    have items := items?_write (v :: vs) h fuel rest rfl
      (by simp [writeValue] at enough ⊢; omega)
    rw [same] at items
    rw [writeValue, same]
    exact tree?_array plain other items
  | .object [], _, fuel + 1, rest, _, _ => rfl
  | .object ((name, v) :: vs), h, fuel + 1, rest, enough, ends => by
    have members := members?_write ((name, v) :: vs) h fuel rest rfl
      (by simp [writeValue] at enough ⊢; omega)
    exact tree?_object members

theorem items?_write : (items : List Value) → (∀ n ∈ numbersIn items, Exact n) →
    {v : Value} → {vs : List Value} → (fuel : Nat) → (rest : List Char) → items = v :: vs →
    2 * (writeValue v ++ writeItems vs).length ≤ fuel →
    items? fuel (writeValue v ++ writeItems vs ++ rest) = some (Value.treeItems items, rest)
  | v :: vs, h, _, _, 0, rest, rfl, enough => by
    obtain ⟨mine, -⟩ := List.forall_mem_append.mp h
    obtain ⟨c, more, same, -⟩ := writeValue_head mine
    rw [same] at enough
    simp at enough
  | v :: vs, h, _, _, fuel + 1, rest, rfl, enough => by
    obtain ⟨mine, theirs⟩ := List.forall_mem_append.mp h
    rw [List.length_append] at enough
    have some_there : 1 ≤ (writeItems vs).length := by cases vs <;> simp [writeItems]
    have first := tree?_write v mine fuel _ (by omega) (ends_writeItems vs rest)
    rw [List.append_assoc]
    cases vs with
    | nil => exact items?_last first
    | cons w vs =>
      have others := items?_write (w :: vs) theirs fuel rest rfl
        (by simp [writeItems] at enough ⊢; omega)
      exact items?_more first others

theorem members?_write : (members : List (String × Value)) →
    (∀ n ∈ numbersUnder members, Exact n) → {name : String} → {v : Value} →
    {vs : List (String × Value)} → (fuel : Nat) → (rest : List Char) →
    members = (name, v) :: vs →
    2 * (writeString name ++ ':' :: (writeValue v ++ writeMembers vs)).length ≤ fuel →
    members? fuel (writeString name ++ ':' :: (writeValue v ++ writeMembers vs) ++ rest) =
      some (Value.treeMembers members, rest)
  | (name, v) :: vs, h, _, _, _, 0, rest, rfl, enough => by simp at enough
  | (name, v) :: vs, h, _, _, _, fuel + 1, rest, rfl, enough => by
    obtain ⟨mine, theirs⟩ := List.forall_mem_append.mp h
    simp only [List.length_append, List.length_cons] at enough
    have first := tree?_write v mine fuel _ (by omega) (ends_writeMembers vs rest)
    rw [List.append_assoc, List.cons_append, List.append_assoc]
    cases vs with
    | nil => exact members?_last first
    | cons w vs =>
      obtain ⟨next, w⟩ := w
      have others := members?_write ((next, w) :: vs) theirs fuel rest rfl
        (by simp [writeMembers] at enough ⊢; omega)
      exact members?_more first others
end

/-! ## From trees to values -/

/-- Members in order make the object of just these members. -/
theorem ofMembers_increasing {members : List (String × Value)} (h : Increasing members) :
    Value.ofMembers members = .object members := by
  rw [Value.ofMembers, foldl_insertEntry [] h]
  rfl

mutual
theorem value?_tree {room : Nat} : (v : Value) → Regular room v → v.tree.value? room = some v
  | .null, _ => rfl
  | .bool _, _ => rfl
  | .number _, _ => rfl
  | .text _, _ => rfl
  | .array items, h => by
    rw [Value.tree, Tree.value?, if_neg h.1, values?_tree items h.2]
    rfl
  | .object members, h => by
    rw [Value.tree, Tree.value?, if_neg h.1, members?_tree members h.2.2]
    exact congrArg some (ofMembers_increasing h.2.1)

theorem values?_tree {room : Nat} : (items : List Value) → RegularItems room items →
    Tree.values? room (Value.treeItems items) = some items
  | [], _ => rfl
  | v :: vs, h => by
    rw [Value.treeItems, Tree.values?, value?_tree v h.1, values?_tree vs h.2]

theorem members?_tree {room : Nat} : (members : List (String × Value)) →
    RegularMembers room members →
    Tree.members? room (Value.treeMembers members) = some members
  | [], _ => rfl
  | (name, v) :: vs, h => by
    simp [Value.treeMembers, Tree.members?, value?_tree v h.1, members?_tree vs h.2]
end

/-! ## Whole texts -/

theorem front?_write {v : Value} (h : ∀ n ∈ numbers v, Exact n) :
    front? (write v) = some (v.tree, []) := by
  have enough : 2 * (writeValue v).length ≤ 2 * (write v).length + 2 := by
    rw [write, String.length_ofList]
    omega
  have read := tree?_write v h _ [] enough (by simp [Ends])
  rw [front?, write, String.toList_ofList]
  rwa [List.append_nil] at read

/-- Reading what was written is reading the tree of the value. -/
theorem readText_write {α : Type} {v : Value} (h : ∀ n ∈ numbers v, Exact n)
    (read : Tree → Reading α) : readText read (write v) = read v.tree := by
  rw [readText, front?_write h]
  change (read v.tree >>= fun record => pure record) = _
  simp

/-- A value is read back as it was written. -/
theorem parseValue?_write {v : Value} (h : ∀ n ∈ numbers v, Exact n)
    (regular : Regular maxNesting v) : parseValue? (write v) = some v := by
  have parsed : parse? (write v) = some v.tree := by
    rw [parse?, front?_write h]
    rfl
  rw [parseValue?, parsed]
  exact value?_tree v regular

end CertEnrollment.Json
