import CertEnrollment.Proofs.Data.Sameness
import CertEnrollment.Proofs.Dns.Slots

/-!
# Slots as lists with moves to the front

A creation of a CNAME moves its record to the front of a list without repetition, and a
deletion empties the list. This is all that any number of creations and deletions comes to:
each slot goes through its own changes alone, and the table holds the text of what these make
of its first records.
-/
namespace CertEnrollment.Dns
open Data Store RecordMap ZoneStore

/-! ## Moving to the front -/

namespace RecordMap

/-- The record stands before the first ones of those that it is different from. -/
def toFront (v : Value) (earlier : List Value) : List Value :=
  v :: (Value.firsts earlier).filter fun w => !v.same w

/-- What is appended are the first ones of the records that none of those there stands for. -/
theorem merge_eq (kept earlier : List Value) :
    merge kept earlier =
      kept ++ (Value.firsts earlier).filter fun w => !kept.any (·.same w) := by
  induction earlier generalizing kept with
  | nil => simp [merge, Value.firsts]
  | cons r earlier ih =>
    have step : merge kept (r :: earlier) =
        merge (if kept.any (·.same r) then kept else kept ++ [r]) earlier := rfl
    rw [step, Value.firsts]
    by_cases there : kept.any (·.same r) = true
    -- what stands for `r` stands for all that `r` would keep away, so `r` need not be kept
    · have covered : ∀ w, r.same w = true → kept.any (·.same w) = true := by
        intro w same
        obtain ⟨v, hv, stands⟩ := List.any_eq_true.mp there
        exact List.any_eq_true.mpr ⟨v, hv, Value.same_trans stands same⟩
      rw [if_pos there, ih, List.filter_cons_of_neg (by simp [there]), List.filter_filter]
      refine congrArg (kept ++ ·) (List.filter_congr fun w _ => ?_)
      cases other : r.same w with
      | false => simp
      | true => simp [covered w other]
    · rw [if_neg there, ih, List.filter_cons_of_pos (by simpa using there), List.filter_filter,
        List.append_assoc, List.singleton_append]
      refine congrArg (fun rest => kept ++ r :: rest) (List.filter_congr fun w _ => ?_)
      simp

theorem merge_singleton (v : Value) (earlier : List Value) :
    merge [v] earlier = toFront v earlier := by
  simp [merge_eq, toFront]

theorem different_toFront (v : Value) (earlier : List Value) :
    Value.Different (toFront v earlier) := by
  refine List.pairwise_cons.mpr ⟨fun w hw => ?_, (Value.different_firsts earlier).filter _⟩
  simpa using (List.mem_filter.mp hw).2

/-- What is at the front already stays there. -/
theorem toFront_toFront (v : Value) (earlier : List Value) :
    toFront v (toFront v earlier) = toFront v earlier := by
  rw [toFront, Value.firsts_of_different (different_toFront v earlier), toFront,
    List.filter_cons_of_neg (by simp [v.same_refl]), List.filter_filter]
  simp

end RecordMap

/-! ## Changes -/

/-- The records that a stored text spells. -/
def recordsOf : Option String → Reading RecordMap
  | none => .ok .empty
  | some text => ofText text

theorem recordsIn_eq (table : HashTable) (key field : String) :
    recordsIn table key field = recordsOf (table.get? key field) := by
  rw [recordsIn]
  cases table.get? key field <;> rfl

/-- How a change ends that reads its records like this. -/
def verdict : Reading RecordMap → Except Error Unit
  | .error e => .error (.json e)
  | .ok _ => .ok ()

/-- A creation or a deletion in a zone. -/
inductive Change where
  | create (subdomain branch target : String)
  | delete (subdomain branch : String)
  deriving DecidableEq, Repr

namespace Change

def action (z : ZoneStore) : Change → StoreAction Unit
  | create subdomain branch target => z.createCname subdomain branch target
  | delete subdomain branch => z.deleteCname subdomain branch

/-- Key and field of the records that are changed. -/
def slot (z : ZoneStore) : Change → String × String
  | create subdomain branch _ => (z.hashKey branch, fieldName subdomain)
  | delete subdomain branch => (z.hashKey branch, fieldName subdomain)

/-- The target of a creation. -/
def target? : Change → Option String
  | create _ _ target => some target
  | delete _ _ => none

/-- The records after a change. -/
def apply (m : RecordMap) : Change → RecordMap
  | create _ _ target =>
    m.insert "cname" (toFront (cnameRecord target) ((m.get? "cname").getD []))
  | delete _ _ => m.erase "cname"

/-- What a field holds after a change: the same as before if its records cannot be read or
there is nothing to delete, and nothing if no records are left. -/
def rewrite (stored : Option String) (c : Change) : Option String :=
  match recordsOf stored with
  | .error _ => stored
  | .ok m => match c with
    | create _ _ _ => some (text (c.apply m))
    | delete _ _ =>
      if (m.get? "cname").isNone then stored
      else if (c.apply m).isEmpty then none
      else some (text (c.apply m))

end Change

variable {z : ZoneStore} {c : Change} {changes : List Change} {initial table : HashTable}
  {key field : String} {m : RecordMap}

theorem Change.rewrite_of_error {stored : Option String} {e : ReadError}
    (h : recordsOf stored = .error e) (c : Change) : c.rewrite stored = stored := by
  rw [rewrite, h]

theorem get?_withCname (records : recordsOf (table.get? key field) = .ok m)
    (subdomain branch target k f : String) :
    (withCname table key field m target).get? k f =
      if (key, field) = (k, f) then (Change.create subdomain branch target).rewrite (table.get? k f)
      else table.get? k f := by
  by_cases here : (key, field) = (k, f)
  · obtain ⟨rfl, rfl⟩ := Prod.mk.inj here
    rw [if_pos rfl, Change.rewrite, records, withCname, merge_singleton, HashTable.get?_set,
      if_pos ⟨rfl, rfl⟩]
    rfl
  · have other : ¬ (k = key ∧ f = field) := by
      rintro ⟨rfl, rfl⟩
      exact here rfl
    rw [if_neg here, withCname, HashTable.get?_set, if_neg other]

theorem get?_withoutCnames_eq (records : recordsOf (table.get? key field) = .ok m)
    (subdomain branch k f : String) :
    (withoutCnames table key field m).get? k f =
      if (key, field) = (k, f) then (Change.delete subdomain branch).rewrite (table.get? k f)
      else table.get? k f := by
  by_cases here : (key, field) = (k, f)
  · obtain ⟨rfl, rfl⟩ := Prod.mk.inj here
    rw [if_pos rfl, Change.rewrite, records, withoutCnames]
    change _ = if (m.get? "cname").isNone then table.get? key field
      else if (m.erase "cname").isEmpty then none else some (text (m.erase "cname"))
    by_cases none_there : (m.get? "cname").isNone = true
    · rw [if_pos none_there, if_pos none_there]
    · rw [if_neg none_there, if_neg none_there]
      by_cases nothing : (m.erase "cname").isEmpty = true
      · rw [if_pos nothing, if_pos nothing, HashTable.get?_delete, if_pos ⟨rfl, rfl⟩]
      · rw [if_neg nothing, if_neg nothing, HashTable.get?_set, if_pos ⟨rfl, rfl⟩]
  · rw [if_neg here]
    refine get?_withoutCnames m ?_
    rintro ⟨rfl, rfl⟩
    exact here rfl

/-- A change fails just when the records of its slot cannot be read, and it changes nothing
but its slot. -/
theorem onTable_change (z : ZoneStore) (c : Change) (table : HashTable) :
    (onTable (c.action z) table).1 = verdict (recordsIn table (c.slot z).1 (c.slot z).2) ∧
      ∀ key field, (onTable (c.action z) table).2.get? key field =
        if c.slot z = (key, field) then c.rewrite (table.get? key field)
        else table.get? key field := by
  have refused : ∀ e, recordsOf (table.get? (c.slot z).1 (c.slot z).2) = .error e →
      ∀ key field, table.get? key field =
        if c.slot z = (key, field) then c.rewrite (table.get? key field)
        else table.get? key field := by
    intro e unreadable key field
    by_cases here : c.slot z = (key, field)
    · rw [here] at unreadable
      rw [if_pos here, Change.rewrite_of_error unreadable]
    · rw [if_neg here]
  cases c with
  | create subdomain branch target =>
    rw [Change.action, onTable_createCname, Change.slot, recordsIn_eq]
    cases records : recordsOf (table.get? (z.hashKey branch) (fieldName subdomain)) with
    | error e => exact ⟨rfl, refused e records⟩
    | ok m => exact ⟨rfl, get?_withCname records subdomain branch target⟩
  | delete subdomain branch =>
    rw [Change.action, onTable_deleteCname, Change.slot, recordsIn_eq]
    cases records : recordsOf (table.get? (z.hashKey branch) (fieldName subdomain)) with
    | error e => exact ⟨rfl, refused e records⟩
    | ok m => exact ⟨rfl, get?_withoutCnames_eq records subdomain branch⟩

/-! ## Reading the records back -/

namespace Change

theorem storable_apply (h : Storable m) (c : Change) : Storable (c.apply m) := by
  cases c with
  | create subdomain branch target =>
    rw [apply, ← merge_singleton]
    exact h.merge (by simpa using ZoneStore.lasting_cnameRecord target)
  | delete subdomain branch => exact h.erase "cname"

/-- What is stored after a change spells the changed records. -/
theorem recordsOf_rewrite {stored : Option String} (records : recordsOf stored = .ok m)
    (storable : Storable m) (c : Change) : recordsOf (c.rewrite stored) = .ok (c.apply m) := by
  have readBack : recordsOf (some (text (c.apply m))) = .ok (c.apply m) :=
    ofText_text (storable_apply storable c)
  rw [rewrite, records]
  cases c with
  | create subdomain branch target => exact readBack
  | delete subdomain branch =>
    dsimp only
    split
    · next absent =>
      rw [records, apply, SortedMap.erase_of_get?_eq_none (Option.isNone_iff_eq_none.mp absent)]
    · split
      · next nothing => exact congrArg Except.ok (SortedMap.ext (List.isEmpty_iff.mp nothing).symm)
      · exact readBack

/-- Doing to the records what has just been done to them changes nothing. -/
theorem apply_apply (m : RecordMap) (c : Change) : c.apply (c.apply m) = c.apply m := by
  cases c with
  | create subdomain branch target => simp [apply, toFront_toFront]
  | delete subdomain branch => exact SortedMap.erase_of_get?_eq_none (by simp [apply])

theorem rewrite_rewrite {stored : Option String} (records : recordsOf stored = .ok m)
    (storable : Storable m) (c : Change) :
    c.rewrite (c.rewrite stored) = c.rewrite stored := by
  have again := recordsOf_rewrite records storable c
  cases c with
  | create subdomain branch target =>
    rw [rewrite, again, rewrite, records]
    dsimp only
    rw [apply_apply]
  | delete subdomain branch =>
    have gone : ((delete subdomain branch).apply m).get? "cname" = none := by simp [apply]
    rw [rewrite, again]
    dsimp only
    rw [if_pos (Option.isNone_iff_eq_none.mpr gone)]

/-- Records of other types stay as they are. -/
theorem get?_apply_of_ne {type : String} (other : type ≠ "cname") (m : RecordMap) (c : Change) :
    (c.apply m).get? type = m.get? type := by
  cases c <;> simp [apply, other]

end Change

/-! ## Many changes to one field -/

/-- What is stored in the end spells the records with all the changes. -/
theorem recordsOf_foldl {stored : Option String} (records : recordsOf stored = .ok m)
    (storable : Storable m) (changes : List Change) :
    recordsOf (changes.foldl Change.rewrite stored) = .ok (changes.foldl Change.apply m) ∧
      Storable (changes.foldl Change.apply m) := by
  induction changes generalizing stored m with
  | nil => exact ⟨records, storable⟩
  | cons c changes ih =>
    exact ih (Change.recordsOf_rewrite records storable c) (Change.storable_apply storable c)

theorem foldl_rewrite_of_error {stored : Option String} {e : ReadError}
    (h : recordsOf stored = .error e) (changes : List Change) :
    changes.foldl Change.rewrite stored = stored := by
  induction changes with
  | nil => rfl
  | cons c changes ih => rw [List.foldl_cons, Change.rewrite_of_error h, ih]

theorem get?_foldl_apply {type : String} (other : type ≠ "cname") (changes : List Change)
    (m : RecordMap) : (changes.foldl Change.apply m).get? type = m.get? type := by
  induction changes generalizing m with
  | nil => rfl
  | cons c changes ih => rw [List.foldl_cons, ih, Change.get?_apply_of_ne other]

/-- The CNAME records for targets, the first of them in front; none without any target. -/
def cnamesFor (targets : List String) : Option (List Value) :=
  if targets = [] then none else some ((distinct targets).map ZoneStore.cnameRecord)

theorem same_cnameRecord (target other : String) :
    (ZoneStore.cnameRecord target).same (ZoneStore.cnameRecord other) = decide (target = other) := by
  refine Bool.eq_iff_iff.mpr ?_
  simp [ZoneStore.cnameRecord_eq, Value.same, Value.sameMembers]

/-- Targets in front of others are records in front of theirs. -/
theorem toFront_cnamesFor (target : String) (targets : List String) :
    some (toFront (ZoneStore.cnameRecord target) ((cnamesFor targets).getD [])) =
      cnamesFor (target :: targets) := by
  have earlier : (cnamesFor targets).getD [] =
      (distinct targets).map ZoneStore.cnameRecord := by
    cases targets <;> rfl
  have different : Value.Different ((distinct targets).map ZoneStore.cnameRecord) := by
    refine List.pairwise_map.mpr ((nodup_distinct targets).imp fun ne => ?_)
    rw [same_cnameRecord, decide_eq_false ne]
  rw [earlier, toFront, Value.firsts_of_different different, List.filter_map, cnamesFor,
    if_neg (List.cons_ne_nil _ _), distinct, List.map_cons]
  refine congrArg (fun rest => some (ZoneStore.cnameRecord target ::
    rest.map ZoneStore.cnameRecord)) (List.filter_congr fun other _ => ?_)
  simp [same_cnameRecord, eq_comm]

/-- While records are only created, their targets move to the front one after the other. -/
theorem get?_foldl_creations {earlier : List String}
    (creations : ∀ c ∈ changes, c.target?.isSome = true)
    (bucket : m.get? "cname" = cnamesFor earlier) :
    (changes.foldl Change.apply m).get? "cname" =
      cnamesFor ((changes.filterMap Change.target?).reverse ++ earlier) := by
  -- each target joins `earlier`, so the induction is over all of these
  induction changes generalizing m earlier with
  | nil => exact bucket
  | cons c changes ih =>
    obtain ⟨first, others⟩ := List.forall_mem_cons.mp creations
    cases c with
    | delete subdomain branch => cases first
    | create subdomain branch target =>
      have front : ((Change.create subdomain branch target).apply m).get? "cname" =
          cnamesFor (target :: earlier) := by
        rw [Change.apply, SortedMap.get?_insert, if_pos rfl, bucket, toFront_cnamesFor]
      rw [List.foldl_cons, ih others front]
      simp [Change.target?]

/-! ## Many changes to a table -/

/-- What the changes end with one after the other, and the table after them. -/
def performAll (z : ZoneStore) : List Change → HashTable → List (Except Error Unit) × HashTable
  | [], table => ([], table)
  | c :: changes, table =>
    let (outcome, changed) := onTable (c.action z) table
    let (outcomes, final) := performAll z changes changed
    (outcome :: outcomes, final)

/-- The changes of one slot. -/
def changesAt (z : ZoneStore) (key field : String) (changes : List Change) : List Change :=
  changes.filter fun c => c.slot z = (key, field)

/-- Each slot goes through its own changes. -/
theorem get?_performAll (z : ZoneStore) (changes : List Change) (table : HashTable)
    (key field : String) :
    (performAll z changes table).2.get? key field =
      (changesAt z key field changes).foldl Change.rewrite (table.get? key field) := by
  induction changes generalizing table with
  | nil => rfl
  | cons c changes ih =>
    rw [performAll]
    dsimp only
    rw [ih, (onTable_change z c table).2]
    by_cases here : c.slot z = (key, field) <;> simp [changesAt, here]

/-- What is written is read back. -/
theorem Legible.change (h : Legible table) (z : ZoneStore) (c : Change) :
    Legible (onTable (c.action z) table).2 := by
  intro key field text m found read
  rw [(onTable_change z c table).2] at found
  by_cases here : c.slot z = (key, field)
  · rw [if_pos here] at found
    cases records : recordsOf (table.get? key field) with
    | error e =>
      rw [Change.rewrite_of_error records] at found
      exact h key field text m found read
    | ok first =>
      have storable := h.storable ((recordsIn_eq table key field).trans records)
      have after := Change.recordsOf_rewrite records storable c
      rw [found] at after
      obtain rfl := Except.ok.inj (read.symm.trans after)
      exact fun e he v hv x hx => (Change.storable_apply storable c e he v hv).2 _ hx
  · rw [if_neg here] at found
    exact h key field text m found read

/-- No change makes other ones succeed or fail. -/
theorem Legible.verdict_change (h : Legible table) (z : ZoneStore) (c : Change)
    (key field : String) :
    verdict (recordsIn (onTable (c.action z) table).2 key field) =
      verdict (recordsIn table key field) := by
  rw [recordsIn_eq, recordsIn_eq, (onTable_change z c table).2]
  by_cases here : c.slot z = (key, field)
  · rw [if_pos here]
    cases records : recordsOf (table.get? key field) with
    | error e => rw [Change.rewrite_of_error records, records]
    | ok m =>
      have storable := h.storable ((recordsIn_eq table key field).trans records)
      rw [Change.recordsOf_rewrite records storable c]
      rfl
  · rw [if_neg here]

theorem outcomes_performAll (h : Legible table) (z : ZoneStore) (changes : List Change) :
    (performAll z changes table).1 =
      changes.map fun c => verdict (recordsIn table (c.slot z).1 (c.slot z).2) := by
  induction changes generalizing table with
  | nil => rfl
  | cons c changes ih =>
    rw [performAll]
    dsimp only
    rw [ih (h.change z c), (onTable_change z c table).1, List.map_cons]
    simp only [h.verdict_change]

/-- The records of a slot go through its own changes. -/
theorem recordsIn_performAll (legible : Legible initial) (z : ZoneStore) (changes : List Change)
    (records : recordsIn initial key field = .ok m) :
    recordsIn (performAll z changes initial).2 key field =
      .ok ((changesAt z key field changes).foldl Change.apply m) := by
  have stored : recordsOf (initial.get? key field) = .ok m :=
    (recordsIn_eq initial key field).symm.trans records
  rw [recordsIn_eq, get?_performAll]
  exact (recordsOf_foldl stored (legible.storable records) _).1

/-- What has been done to a table can be done again without any effect. -/
theorem get?_performAll_twice (legible : Legible initial) (z : ZoneStore)
    (changes : List Change) (c : Change) (key field : String) :
    (performAll z (changes ++ [c, c]) initial).2.get? key field =
      (performAll z (changes ++ [c]) initial).2.get? key field := by
  simp only [get?_performAll, changesAt, List.filter_append, List.foldl_append]
  by_cases here : c.slot z = (key, field)
  · simp only [here, decide_true, List.filter_cons_of_pos, List.filter_nil, List.foldl_cons,
      List.foldl_nil]
    cases records : recordsOf (initial.get? key field) with
    | error e => simp only [foldl_rewrite_of_error records, Change.rewrite_of_error records]
    | ok m =>
      have storable := legible.storable ((recordsIn_eq initial key field).trans records)
      obtain ⟨before, lasting⟩ := recordsOf_foldl records storable (changesAt z key field changes)
      exact Change.rewrite_rewrite before lasting c
  · simp [here]

/-- What any number of creations and deletions comes to. -/
structure MovesToFront (z : ZoneStore) (initial : HashTable) (changes : List Change) : Prop where
  /-- A change fails just when the records that its slot held at first cannot be read. -/
  outcomes : (performAll z changes initial).1 =
    changes.map fun c => verdict (recordsIn initial (c.slot z).1 (c.slot z).2)
  /-- Each slot goes through its own changes, text by text, whatever those of the others. -/
  slots : ∀ key field, (performAll z changes initial).2.get? key field =
    (changesAt z key field changes).foldl Change.rewrite (initial.get? key field)
  /-- A text that cannot be read stays as it is. -/
  unreadable : ∀ key field e, recordsIn initial key field = .error e →
    (performAll z changes initial).2.get? key field = initial.get? key field
  /-- Records that can be read go through the changes of their slot. -/
  records : ∀ key field m, recordsIn initial key field = .ok m →
    recordsIn (performAll z changes initial).2 key field =
      .ok ((changesAt z key field changes).foldl Change.apply m)
  /-- Those of other types stay as they are. -/
  otherTypes : ∀ key field m m', recordsIn initial key field = .ok m →
    recordsIn (performAll z changes initial).2 key field = .ok m' →
    ∀ type, type ≠ "cname" → m'.get? type = m.get? type
  /-- After a deletion the targets are those created since, each of them once and the one
  that was created last in front. -/
  sinceDeletion : ∀ key field m, recordsIn initial key field = .ok m →
    ∀ before subdomain branch since,
      changesAt z key field changes = before ++ .delete subdomain branch :: since →
      (∀ c ∈ since, c.target?.isSome = true) →
      ∃ m', recordsIn (performAll z changes initial).2 key field = .ok m' ∧
        m'.get? "cname" = cnamesFor (since.filterMap Change.target?).reverse
  /-- Repeating a change changes nothing. -/
  repeated : ∀ c key field, (performAll z (changes ++ [c, c]) initial).2.get? key field =
    (performAll z (changes ++ [c]) initial).2.get? key field

/-- A zone in a hash store is a list with moves to the front for each slot. -/
theorem moves_to_front (legible : Legible initial) (z : ZoneStore) (changes : List Change) :
    MovesToFront z initial changes where
  outcomes := outcomes_performAll legible z changes
  slots := get?_performAll z changes initial
  unreadable key field e unreadable := by
    rw [get?_performAll, foldl_rewrite_of_error ((recordsIn_eq _ _ _).symm.trans unreadable)]
  records key field m records := recordsIn_performAll legible z changes records
  otherTypes key field m m' records after type other := by
    have final := recordsIn_performAll legible z changes records
    obtain rfl := Except.ok.inj (final.symm.trans after)
    exact get?_foldl_apply other _ m
  sinceDeletion key field m records before subdomain branch since split creations := by
    have final := recordsIn_performAll legible z changes records
    have emptied : ((Change.delete subdomain branch).apply
        (before.foldl Change.apply m)).get? "cname" = cnamesFor [] := by
      simp [Change.apply, cnamesFor]
    refine ⟨_, final, ?_⟩
    rw [split, List.foldl_append, List.foldl_cons, get?_foldl_creations creations emptied,
      List.append_nil]
  repeated := get?_performAll_twice legible z changes

/-- A field with CNAME records and others, and one that cannot be read. -/
def mixedTable : HashTable :=
  (HashTable.empty.set "a.org." "x"
    "\x7b\"cname\":[\x7b\"host\":\"old.net\"\x7d,7,7],\"txt\":[1]\x7d").set "org." "y" "free text"

theorem moves_to_front_mixedTable :
    Legible mixedTable ∧ ∃ m', recordsIn (performAll ⟨"org"⟩ [.create "X" "a" "ca.net",
        .delete "y" "", .delete "x" "A", .create "x" "a" "b.net", .create "x" "a" "ca.net",
        .create "X" "a" "b.net"] mixedTable).2 "a.org." "x" = .ok m' ∧
      m'.get? "cname" = some [ZoneStore.cnameRecord "b.net", ZoneStore.cnameRecord "ca.net"] := by
  have legible : Legible mixedTable :=
    (legible_empty.set _ _ (by decide +kernel)).set _ _ (by decide +kernel)
  have readable : (recordsIn mixedTable "a.org." "x").isOk = true := by decide +kernel
  cases records : recordsIn mixedTable "a.org." "x" with
  | error e =>
    rw [records] at readable
    cases readable
  | ok m =>
    exact ⟨legible, (moves_to_front legible ⟨"org"⟩ _).sinceDeletion "a.org." "x" m records
      [.create "X" "a" "ca.net"] "x" "A"
      [.create "x" "a" "b.net", .create "x" "a" "ca.net", .create "X" "a" "b.net"]
      (by decide +kernel) (by decide)⟩

end CertEnrollment.Dns
