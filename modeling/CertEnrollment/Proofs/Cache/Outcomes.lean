import CertEnrollment.Proofs.Cache.Entries

/-!
# What a cache in memory shows

All that anyone sees of a table are the texts that it is read as. Two tables that read alike,
except under a few keys, go on reading alike when both get the same request; and so they do
when only one of them gets a request that writes nothing or writes under one of those keys.
-/
namespace CertEnrollment.Cache

/-- What a lookup in this table comes to at this time. -/
def Prefetch.outcome (c : Prefetch) (table : Table) (now : Nat) (domains : DomainSet) :
    Except Enrollment.Error (Option Issued) :=
  let answer (a : Ask) : StateM Table a.Answer := fun t => t.respond now a
  (((c.get domains).run.runWith answer).run table).1

theorem Prefetch.outcome_eq (c : Prefetch) (table : Table) (now : Nat) (domains : DomainSet) :
    c.outcome table now domains = match (table.read now (entryKey domains)).1 with
      | none => .ok none
      | some text => (decodeEntry domains text).map some := by
  have responds : StateT.run (m := Id) (fun t : Table => t.respond now (.read (entryKey domains)))
      table = (.ok (table.read now (entryKey domains)).1, (table.read now (entryKey domains)).2) :=
    rfl
  unfold outcome get
  simp only [ExceptT.run_mk, Interaction.runWith, StateT.run_bind]
  rw [responds]
  cases (table.read now (entryKey domains)).1 <;> rfl

/-- The request writes under none but these keys. -/
def Ask.WritesWithin (keys : String → Prop) : Ask → Prop
  | read _ => True
  | write key _ _ => keys key

namespace Table
variable {keys : String → Prop} {a b : Table} {now later time : Nat} {key : String}

/-- From `now` on the tables are read alike, except under these keys. -/
def Alike (keys : String → Prop) (now : Nat) (a b : Table) : Prop :=
  ∀ later, now ≤ later → ∀ key, ¬ keys key → (a.read later key).1 = (b.read later key).1

theorem Alike.refl (a : Table) : Alike keys now a a := fun _ _ _ _ => rfl

theorem Alike.mono (h : Alike keys now a b) (order : now ≤ later) : Alike keys later a b :=
  fun time after => h time (Nat.le_trans order after)

/-- Both tables get a request. -/
theorem Alike.respond (h : Alike keys now a b) (order : now ≤ time) (q : Ask) :
    Alike keys time (a.respond time q).2 (b.respond time q).2 := by
  intro later after key apart
  cases q with
  | read k =>
    change (((a.read time k).2).read later key).1 = (((b.read time k).2).read later key).1
    rw [read_read a after, read_read b after]
    exact h later (Nat.le_trans order after) key apart
  | write k value ttl =>
    change ((a.write time k value ttl).read later key).1 =
      ((b.write time k value ttl).read later key).1
    rw [read_write, read_write, h later (Nat.le_trans order after) key apart]

/-- Only one of the tables gets a request. -/
theorem Alike.respond_left (h : Alike keys now a b) (order : now ≤ time) {q : Ask}
    (within : q.WritesWithin keys) : Alike keys time (a.respond time q).2 b := by
  intro later after key apart
  refine Eq.trans ?_ (h later (Nat.le_trans order after) key apart)
  cases q with
  | read k => exact read_read a after k key
  | write k value ttl =>
    have other : key ≠ k := fun same => apart (same ▸ within)
    change ((a.write time k value ttl).read later key).1 = _
    rw [read_write, if_neg other]

/-- Lookups come to the same in tables that are read alike. -/
theorem Alike.outcome (h : Alike keys now a b) (order : now ≤ later) {domains : DomainSet}
    (apart : ¬ keys (entryKey domains)) (c : Prefetch) :
    c.outcome a later domains = c.outcome b later domains := by
  rw [Prefetch.outcome_eq, Prefetch.outcome_eq, h later order _ apart]

/-- From `now` on the key is read as the text of this entry as long as that is live. -/
def Shows (key : String) (entry : Entry) (now : Nat) (table : Table) : Prop :=
  ∀ later, now ≤ later →
    (table.read later key).1 = if entry.isLive later then some entry.value else none

theorem shows_write (table : Table) (now : Nat) (key value : String) (ttl : Nat) :
    (table.write now key value ttl).Shows key ⟨value, expiry now ttl⟩ now := by
  intro later _
  rw [read_write, if_pos rfl]

theorem Shows.mono {entry : Entry} (h : a.Shows key entry now) (order : now ≤ later) :
    a.Shows key entry later :=
  fun time after => h time (Nat.le_trans order after)

/-- A key goes on being read as its entry as long as nothing is written under it. -/
theorem Shows.respond {entry : Entry} (h : a.Shows key entry now) (order : now ≤ time) {q : Ask}
    (unwritten : q.WritesWithin (· ≠ key)) : (a.respond time q).2.Shows key entry time := by
  intro later after
  refine Eq.trans ?_ (h later (Nat.le_trans order after))
  cases q with
  | read k => exact read_read a after k key
  | write k value ttl =>
    change ((a.write time k value ttl).read later key).1 = _
    rw [read_write, if_neg (Ne.symm unwritten)]

/-- A lookup gives the certificate of a live entry. -/
theorem Shows.outcome {issued : Issued} {expiresAt : Option Nat} {domains : DomainSet}
    (h : a.Shows (entryKey domains) ⟨issued.text, expiresAt⟩ now) (order : now ≤ later)
    (c : Prefetch) : c.outcome a later domains =
      .ok (if (⟨issued.text, expiresAt⟩ : Entry).isLive later then some issued else none) := by
  rw [Prefetch.outcome_eq, h later order]
  split
  · next live =>
    split at live
    · cases live
    · next dead => rw [if_neg dead]
  · next text live =>
    split at live
    · next alive =>
      obtain rfl := Option.some.inj live
      rw [if_pos alive, decodeEntry_text]
      rfl
    · cases live

end Table
end CertEnrollment.Cache
