import CertEnrollment.Proofs.Dns.MoveToFront
import CertEnrollment.Proofs.Store.Requests

/-!
# Changes at the same time

Any number of creations and deletions, each in a slot of its own, go on at the same time on one
table, and every single request of one of them may come between those of the others. A change
reads its field and then writes it, but the field is nobody else's, so all of it comes to the same
as if the changes were made one after the other, in any order. This is also so for fields of one
hash, which is removed with its last field.
-/
namespace CertEnrollment.Dns
open Data Interaction Store ZoneStore

/-- A creation or a deletion, and the zone that it takes place in. -/
structure ZoneChange where
  zone : ZoneStore
  change : Change
  deriving DecidableEq, Repr

namespace ZoneChange

/-- Key and field of the records that are changed. -/
def slot (c : ZoneChange) : String × String := c.change.slot c.zone

def action (c : ZoneChange) : StoreAction Unit := c.change.action c.zone

theorem asks_action (c : ZoneChange) : c.action.run.Asks fun a => a.slot = c.slot := by
  obtain ⟨zone, change⟩ := c
  cases change with
  | create subdomain branch target => exact (obeys_createCname (t := [])).asks
  | delete subdomain branch => exact (obeys_deleteCname (t := [])).asks

theorem atMost_records (key field : String) : (records key field).run.AtMost 1 := by
  have look : (getField key field).run.AtMost 1 := fun _ => trivial
  refine look.run_bind (n := 0) fun stored => ?_
  cases stored with
  | none => trivial
  | some text =>
    dsimp only
    split <;> trivial

/-- A change reads its field, and then writes it at most once. -/
theorem atMost_action (c : ZoneChange) : c.action.run.AtMost 2 := by
  obtain ⟨zone, change⟩ := c
  cases change with
  | create subdomain branch target =>
    exact (atMost_records _ _).run_bind (n := 1) fun m _ => trivial
  | delete subdomain branch =>
    refine (atMost_records _ _).run_bind (n := 1) fun m => ?_
    dsimp only
    split
    · trivial
    · split <;> exact fun _ => trivial

end ZoneChange

/-- What the changes end with one after the other, and the table after them. -/
def performEach : List ZoneChange → HashTable → List (Except Error Unit) × HashTable
  | [], table => ([], table)
  | c :: changes, table =>
    let (outcome, changed) := onTable c.action table
    let (outcomes, final) := performEach changes changed
    (outcome :: outcomes, final)

variable {ι : Type} [DecidableEq ι] {calls : ι → ZoneChange} {table : HashTable} {order : List ι}

/-- All of the changes are about to be made. -/
def together (calls : ι → ZoneChange) (table : HashTable) :
    Joint HashAsk HashAsk.Answer (Except Error Unit) HashTable ι :=
  ⟨fun i => (calls i).action.run, table⟩

omit [DecidableEq ι] in
theorem apart_together (apart : ∀ i j, i ≠ j → (calls i).slot ≠ (calls j).slot)
    (table : HashTable) :
    (together calls table).Apart byTable fun i a => a.slot = (calls i).slot := by
  refine ⟨fun i => (calls i).asks_action, fun i j other a b own theirs => ?_⟩
  exact HashAsk.independent_byTable (own ▸ theirs ▸ apart i j other)

/-- Changes that go on one after the other are made one after the other. -/
theorem inOrder_eq_performEach {s : Joint HashAsk HashAsk.Answer (Except Error Unit) HashTable ι}
    (once : order.Nodup) (begin : ∀ i ∈ order, s.parts i = (calls i).action.run) :
    (s.inOrder byTable order).shared = (performEach (order.map calls) s.shared).2 ∧
      order.map (s.inOrder byTable order).parts =
        (performEach (order.map calls) s.shared).1.map .done ∧
      ∀ j, j ∉ order → (s.inOrder byTable order).parts j = s.parts j := by
  induction order generalizing s with
  | nil => exact ⟨rfl, rfl, fun _ _ => rfl⟩
  | cons i order ih =>
    obtain ⟨notLater, once⟩ := List.nodup_cons.mp once
    have own : ((s.parts i).runWith byTable).run s.shared = onTable (calls i).action s.shared := by
      rw [begin i List.mem_cons_self]
      rfl
    have first : s.finish byTable i =
        s.advance i (.done (onTable (calls i).action s.shared).1)
          (onTable (calls i).action s.shared).2 := by
      rw [Joint.finish, own]
    obtain ⟨shared, results, others⟩ := @ih (s.finish byTable i) once fun j hj => by
      have other : j ≠ i := fun same => notLater (same ▸ hj)
      rw [first, Joint.parts_advance, if_neg other, begin j (List.mem_cons_of_mem _ hj)]
    have whole : s.inOrder byTable (i :: order) = (s.finish byTable i).inOrder byTable order := rfl
    rw [first] at shared results
    refine ⟨?_, ?_, fun j hj => ?_⟩
    · rw [whole, first, shared]
      rfl
    · have result : (s.inOrder byTable (i :: order)).parts i =
          .done (onTable (calls i).action s.shared).1 := by
        rw [whole, others i notLater, first, Joint.parts_advance, if_pos rfl]
      rw [List.map_cons, result, whole, first, results]
      rfl
    · obtain ⟨other, later⟩ := not_or.mp (mt List.mem_cons.mpr hj)
      rw [whole, others j later, first, Joint.parts_advance, if_neg other]

/-- What any number of changes at the same time come to. -/
structure OrderFree (calls : ι → ZoneChange) (table : HashTable) : Prop where
  /-- When all have returned, each with its result, results and table are those of changes that
  were made one after the other, in any order. -/
  serial : ∀ n s, Joint.Turns byTable (together calls table) n s → s.Done →
    ∀ order : List ι, order.Nodup → (∀ i, i ∈ order) →
      s.shared = (performEach (order.map calls) table).2 ∧
        order.map s.parts = (performEach (order.map calls) table).1.map .done
  /-- Whatever requests have been made, the changes come to an end after some more, -/
  ends : ∀ n s, Joint.Turns byTable (together calls table) n s →
    ∀ order : List ι, (∀ i, i ∈ order) → ∃ m s', Joint.Turns byTable s m s' ∧ s'.Done
  /-- and each of them makes two requests at most. -/
  bounded : ∀ n s, Joint.Turns byTable (together calls table) n s →
    ∀ order : List ι, (∀ i, i ∈ order) → n ≤ 2 * order.length
  /-- A change that has returned has the result that it has alone, and its slot holds what it has
  written, whatever the others are still doing. -/
  returned : ∀ n s, Joint.Turns byTable (together calls table) n s →
    ∀ i result, s.parts i = .done result →
      result = (onTable (calls i).action table).1 ∧
        s.shared.get? (calls i).slot.1 (calls i).slot.2 =
          (calls i).change.rewrite (table.get? (calls i).slot.1 (calls i).slot.2)
  /-- Slots that are not of one of the changes stay as they are all the time. -/
  others : ∀ n s, Joint.Turns byTable (together calls table) n s →
    ∀ key field, (∀ i, (calls i).slot ≠ (key, field)) →
      s.shared.get? key field = table.get? key field

/-- Changes of different slots do not depend on the order of their requests. -/
theorem order_free (apart : ∀ i j, i ≠ j → (calls i).slot ≠ (calls j).slot) (table : HashTable) :
    OrderFree calls table where
  serial n s turns done order once all := by
    obtain ⟨shared, results, -⟩ :=
      inOrder_eq_performEach (s := together calls table) once fun _ _ => rfl
    rw [turns.eq_inOrder (apart_together apart table) all done]
    exact ⟨shared, results⟩
  ends n s turns order all := by
    obtain ⟨m, more⟩ := turns.comes_to_end (apart_together apart table) all
    exact ⟨m, _, more, fun i => Joint.done_inOrder (.inl (all i))⟩
  bounded n s turns order all := by
    have most := turns.bounded (k := fun _ => 2) all fun i => (calls i).atMost_action
    rwa [Joint.budget_const] at most
  returned n s turns i result done := by
    obtain ⟨same, seen⟩ := turns.alone (fun t => t.get? (calls i).slot.1 (calls i).slot.2)
      (apart_together apart table) fun j other b own t =>
        b.get?_respond_of_ne t (own ▸ apart j i other)
    rw [done] at same seen
    refine ⟨same, seen.trans ?_⟩
    exact ((onTable_change (calls i).zone (calls i).change table).2 _ _).trans (if_pos rfl)
  others n s turns key field untouched :=
    turns.untouched (·.get? key field) (apart_together apart table) fun j b own t =>
      b.get?_respond_of_ne t (own ▸ untouched j)

/-- A hash with one field only, -/
def lastField : HashTable :=
  HashTable.empty.set "org." "y" "\x7b\"cname\":[\x7b\"host\":\"old.net\"\x7d]\x7d"

/-- the deletion of its records, and the creation of one for another field of the same hash. -/
def inOneHash (i : Fin 2) : ZoneChange :=
  if i = 0 then ⟨⟨"org"⟩, .delete "Y" ""⟩ else ⟨⟨"org"⟩, .create "x" "" "ca.net"⟩

/-- Also when the hash is removed between the two requests of the creation, the new record is
there in the end. -/
theorem order_free_inOneHash :
    (∀ i j, i ≠ j → (inOneHash i).slot ≠ (inOneHash j).slot) ∧
      (∃ n s, Joint.Turns byTable (together inOneHash lastField) n s ∧ s.Done) ∧
      ∀ n s, Joint.Turns byTable (together inOneHash lastField) n s → s.Done →
        s.shared.get? "org." "x" = some "\x7b\"cname\":[\x7b\"host\":\"ca.net\"\x7d]\x7d" ∧
          s.shared.get? "org." "y" = none := by
  have apart : ∀ i j, i ≠ j → (inOneHash i).slot ≠ (inOneHash j).slot := by decide +kernel
  refine ⟨apart, (order_free apart lastField).ends 0 _ .none [0, 1] (by decide),
    fun n s turns done => ?_⟩
  obtain ⟨shared, -⟩ :=
    (order_free apart lastField).serial n s turns done [0, 1] (by decide) (by decide)
  rw [shared]
  decide +kernel

end CertEnrollment.Dns
