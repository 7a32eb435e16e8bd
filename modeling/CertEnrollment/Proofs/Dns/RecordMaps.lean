import CertEnrollment.Dns.ZoneStore
import CertEnrollment.Proofs.Json.Cells

/-!
# Stored records

The text that is stored for records spells these records, provided that their doubles are
read back as they are written. Records that were read from a text have all else it takes.
-/
namespace CertEnrollment.Dns
open Data Json

namespace RecordMap

/-- A value that can stand in a field and is read back from it. -/
def Lasting (v : Value) : Prop := Regular recordNesting v ∧ ∀ n ∈ numbers v, Exact n

/-- Every record is read back. -/
def Storable (m : RecordMap) : Prop := ∀ e ∈ m.entries, ∀ v ∈ e.2, Lasting v

/-- The doubles in the records are read back as they are written. -/
def ExactDoubles (m : RecordMap) : Prop :=
  ∀ e ∈ m.entries, ∀ v ∈ e.2, ∀ x, .double x ∈ numbers v → Exact (.double x)

/-! ## From records to text and back -/

theorem asList_tree {vs : List Value} (h : ∀ v ∈ vs, Regular recordNesting v) :
    Tree.asList readRecord (Value.array vs).tree = .ok vs := by
  have each : ∀ v ∈ vs, readRecord (id v).tree = .ok v := by
    intro v hv
    rw [readRecord, id, value?_tree v (h v hv)]
    rfl
  simpa using Value.asList_array each

theorem exact_of_storable {m : RecordMap} (h : Storable m) :
    ∀ n ∈ numbers (.ofMap .array m), Exact n := by
  intro n hn
  obtain ⟨_, he', hn⟩ := mem_numbersUnder.mp hn
  obtain ⟨e, he, rfl⟩ := List.mem_map.mp he'
  obtain ⟨v, hv, hn⟩ := mem_numbersIn.mp hn
  exact (h e he v hv).2 n hn

/-- Stored records are read as they were stored. -/
theorem ofText_text {m : RecordMap} (h : Storable m) : ofText (text m) = .ok m := by
  rw [ofText, text, readText_write (exact_of_storable h)]
  exact Value.asMap_ofMap fun e he => asList_tree fun v hv => (h e he v hv).1

/-! ## What was read -/

/-- The members of an object as entries of a map. -/
def readMembers (members : List (Option String × Tree)) : Reading (List (String × List Value)) :=
  members.mapM fun (name, t) => do
    let name ← Reading.ofOption name
    return (name, ← Tree.asList readRecord t)

theorem treeNumbersIn_of_mem {t : Tree} {ts : List Tree} (h : t ∈ ts) :
    ∀ n ∈ treeNumbers t, n ∈ treeNumbersIn ts := by
  induction h with
  | head => exact fun n hn => List.mem_append_left _ hn
  | tail _ _ ih => exact fun n hn => List.mem_append_right _ (ih n hn)

theorem treeNumbersUnder_of_mem {e : Option String × Tree} {ts : List (Option String × Tree)}
    (h : e ∈ ts) : ∀ n ∈ treeNumbers e.2, n ∈ treeNumbersUnder ts := by
  induction h with
  | head => exact fun n hn => List.mem_append_left _ hn
  | tail _ _ ih => exact fun n hn => List.mem_append_right _ (ih n hn)

/-- The records of a list are regular and have no numbers but those of its tree. -/
theorem regular_of_asList {t : Tree} {vs : List Value} (h : Tree.asList readRecord t = .ok vs) :
    ∀ v ∈ vs, Regular recordNesting v ∧ ∀ n ∈ numbers v, n ∈ treeNumbers t := by
  intro v hv
  cases t with
  | array items =>
    obtain ⟨item, hi, read⟩ := mem_of_mapM h v hv
    have found : item.value? recordNesting = some v := by
      cases value : item.value? recordNesting with
      | none => simp [readRecord, value, Reading.ofOption] at read
      | some w => simpa [readRecord, value, Reading.ofOption] using read
    obtain ⟨regular, fewer⟩ := regular_of_value? item found
    exact ⟨regular, fun n hn => treeNumbersIn_of_mem hi n (fewer n hn)⟩
  | _ => cases h

/-- What was read from a text is regular, and its numbers are in range. -/
theorem regular_of_ofText {text : String} {m : RecordMap} (h : ofText text = .ok m) :
    ∀ e ∈ m.entries, ∀ v ∈ e.2, Regular recordNesting v ∧ ∀ n ∈ numbers v, InRange n := by
  obtain ⟨t, read, fits⟩ := tree_of_readText h
  intro e he v hv
  cases t with
  | object members =>
    change (readMembers members >>= fun entries => pure (SortedMap.ofList entries)) = _ at read
    obtain ⟨entries, found, same⟩ := bind_eq_ok.mp read
    cases same
    obtain ⟨⟨name, t⟩, ht, same⟩ := mem_of_mapM found e (SortedMap.mem_entries_ofList he)
    obtain ⟨name, -, same⟩ := bind_eq_ok.mp same
    obtain ⟨vs, list, same⟩ := bind_eq_ok.mp same
    cases same
    obtain ⟨regular, fewer⟩ := regular_of_asList list v hv
    exact ⟨regular, fun n hn => fits n (treeNumbersUnder_of_mem ht n (fewer n hn))⟩
  | _ => cases read

/-- What was read can be stored, as far as its doubles are read back. -/
theorem storable_of_ofText {text : String} {m : RecordMap} (h : ofText text = .ok m)
    (doubles : ExactDoubles m) : Storable m := by
  intro e he v hv
  obtain ⟨regular, fits⟩ := regular_of_ofText h e he v hv
  refine ⟨regular, fun n hn => exact_of_inRange (fits n hn) ?_⟩
  rintro x rfl
  exact doubles e he v hv x hn

/-! ## Changed records -/

theorem Storable.erase {m : RecordMap} (h : Storable m) (type : String) :
    Storable (m.erase type) :=
  fun e he => h e (List.mem_filter.mp he).1

theorem Storable.insert {m : RecordMap} (h : Storable m) {type : String} {records : List Value}
    (lasting : ∀ v ∈ records, Lasting v) : Storable (m.insert type records) := by
  intro e he
  rcases mem_insertEntry he with rfl | he
  · exact lasting
  · exact h e he

theorem mem_merge {records earlier : List Value} {v : Value} (h : v ∈ merge records earlier) :
    v ∈ records ∨ v ∈ earlier := by
  induction earlier generalizing records with
  | nil => exact .inl h
  | cons r earlier ih =>
    rcases ih h with kept | later
    · dsimp only at kept
      split at kept
      · exact .inl kept
      · rcases List.mem_append.mp kept with kept | last
        · exact .inl kept
        · exact .inr (List.mem_singleton.mp last ▸ List.mem_cons_self)
    · exact .inr (List.mem_cons_of_mem _ later)

theorem Storable.merge {m : RecordMap} (h : Storable m) {type : String} {records : List Value}
    (lasting : ∀ v ∈ records, Lasting v) :
    Storable (m.insert type (merge records ((m.get? type).getD []))) := by
  refine h.insert fun v hv => ?_
  rcases mem_merge hv with new | earlier
  · exact lasting v new
  · cases found : m.get? type with
    | none => simp [found] at earlier
    | some vs =>
      rw [found] at earlier
      exact h _ (SortedMap.mem_entries_of_get? found) v earlier

end RecordMap

theorem ZoneStore.cnameRecord_eq (target : String) :
    cnameRecord target = .object [("host", .text target)] :=
  ofMembers_increasing (List.pairwise_singleton _ _)

/-- A CNAME record is read back. -/
theorem ZoneStore.lasting_cnameRecord (target : String) :
    RecordMap.Lasting (ZoneStore.cnameRecord target) := by
  rw [cnameRecord_eq]
  exact ⟨⟨by decide, List.pairwise_singleton _ _, trivial, trivial⟩,
    by simp [numbers, numbersUnder]⟩

end CertEnrollment.Dns
