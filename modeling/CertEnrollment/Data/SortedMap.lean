/-!
# Maps sorted by key

A finite map from texts is a list of entries in strictly increasing order of their
keys, compared by code points, which is also the order of their UTF-8 bytes. Since
the order is part of the type, two maps with the same entries are the same map.
-/
namespace CertEnrollment.Data

/-- The order of keys: by code points, a start before its continuations. -/
def Precedes (a b : String) : Prop := a.toList < b.toList

instance (a b : String) : Decidable (Precedes a b) :=
  inferInstanceAs (Decidable (a.toList < b.toList))

theorem Precedes.trans {a b c : String} (h : Precedes a b) (k : Precedes b c) : Precedes a c :=
  List.lt_trans h k

theorem Precedes.irrefl (a : String) : ¬ Precedes a a := List.lt_irrefl a.toList

/-- Two texts neither of which precedes the other are equal. -/
theorem eq_of_not_precedes {a b : String} (h : ¬ Precedes a b) (k : ¬ Precedes b a) : a = b := by
  have : a.toList = b.toList := List.le_antisymm (List.not_lt.mp k) (List.not_lt.mp h)
  rw [← String.ofList_toList (s := a), this, String.ofList_toList]

theorem nodup_of_increasing {names : List String} (h : names.Pairwise Precedes) : names.Nodup := by
  refine h.imp fun {a b} before same => ?_
  exact Precedes.irrefl b (same ▸ before)

/-- Puts an entry in its place, instead of one with the same key. -/
def insertEntry {β : Type} (key : String) (value : β) : List (String × β) → List (String × β)
  | [] => [(key, value)]
  | (k, v) :: rest =>
    if Precedes key k then (key, value) :: (k, v) :: rest
    else if key = k then (key, value) :: rest
    else (k, v) :: insertEntry key value rest

/-- The keys are strictly increasing. -/
def Increasing {β : Type} (entries : List (String × β)) : Prop :=
  entries.Pairwise fun a b => Precedes a.1 b.1

theorem Increasing.nodup_keys {β : Type} {entries : List (String × β)} (h : Increasing entries) :
    (entries.map (·.1)).Nodup :=
  nodup_of_increasing (List.pairwise_map.mpr h)

theorem mem_insertEntry {β : Type} {key : String} {value : β} {entries : List (String × β)}
    {e : String × β} (h : e ∈ insertEntry key value entries) : e = (key, value) ∨ e ∈ entries := by
  induction entries with
  | nil => simpa [insertEntry] using h
  | cons head rest ih =>
    obtain ⟨k, v⟩ := head
    simp only [insertEntry] at h
    split at h
    · simpa using h
    · split at h
      · rcases List.mem_cons.mp h with h | h
        · exact .inl h
        · exact .inr (List.mem_cons_of_mem _ h)
      · rcases List.mem_cons.mp h with h | h
        · exact .inr (h ▸ List.mem_cons_self)
        · exact (ih h).imp id (List.mem_cons_of_mem _)

theorem Increasing.insertEntry {β : Type} {entries : List (String × β)} (h : Increasing entries)
    (key : String) (value : β) : Increasing (insertEntry key value entries) := by
  induction entries with
  | nil => exact List.pairwise_cons.mpr ⟨by simp, .nil⟩
  | cons head rest ih =>
    obtain ⟨k, v⟩ := head
    obtain ⟨first, others⟩ := List.pairwise_cons.mp h
    simp only [Data.insertEntry]
    split
    · next before =>
      refine List.pairwise_cons.mpr ⟨fun e he => ?_, h⟩
      rcases List.mem_cons.mp he with rfl | he
      · exact before
      · exact before.trans (first e he)
    · split
      · next same => exact List.pairwise_cons.mpr ⟨fun e he => same ▸ first e he, others⟩
      · next notBefore different =>
        refine List.pairwise_cons.mpr ⟨fun e he => ?_, ih others⟩
        rcases mem_insertEntry he with rfl | he
        · exact Classical.not_not.mp fun notAfter =>
            different (eq_of_not_precedes notBefore notAfter)
        · exact first e he

/-- The first entry decides unless the key is another one. -/
theorem lookup_entry_cons {β : Type} (k key : String) (value : β) (entries : List (String × β)) :
    ((key, value) :: entries).lookup k = if k = key then some value else entries.lookup k := by
  by_cases same : k = key
  · rw [List.lookup_cons, if_pos same, beq_iff_eq.mpr same]
  · rw [List.lookup_cons, if_neg same, beq_false_of_ne same]

/-- Looking up after an entry was put in its place. -/
theorem lookup_insertEntry {β : Type} (key k : String) (value : β)
    (entries : List (String × β)) :
    (insertEntry key value entries).lookup k = if k = key then some value else entries.lookup k := by
  induction entries with
  | nil => exact lookup_entry_cons k key value []
  | cons head rest ih =>
    obtain ⟨k', v⟩ := head
    simp only [insertEntry]
    split
    · exact lookup_entry_cons k key value _
    · split
      · next same =>
        subst same
        rw [lookup_entry_cons, lookup_entry_cons]
        by_cases h : k = key <;> simp [h]
      · next different =>
        rw [lookup_entry_cons, lookup_entry_cons, ih]
        by_cases h : k = key
        · rw [if_pos h, if_pos h, if_neg (h ▸ different)]
        · rw [if_neg h, if_neg h]

/-- Looking up after the entries of a key were left out. -/
theorem lookup_filter_ne {β : Type} (key k : String) (entries : List (String × β)) :
    (entries.filter (·.1 ≠ key)).lookup k = if k = key then none else entries.lookup k := by
  induction entries with
  | nil => simp
  | cons head rest ih =>
    obtain ⟨k', v⟩ := head
    by_cases same : k' = key
    · rw [List.filter_cons_of_neg (by simpa using same), ih, lookup_entry_cons]
      by_cases h : k = key
      · rw [if_pos h, if_pos h]
      · rw [if_neg h, if_neg h, if_neg (same ▸ h)]
    · rw [List.filter_cons_of_pos (by simpa using same), lookup_entry_cons, lookup_entry_cons, ih]
      by_cases h : k = key
      · rw [if_pos h, if_pos h, if_neg (h ▸ Ne.symm same)]
      · rw [if_neg h, if_neg h]

/-- An entry behind all others is put at the end. -/
theorem insertEntry_last {β : Type} {key : String} {value : β} {entries : List (String × β)}
    (h : ∀ e ∈ entries, Precedes e.1 key) :
    insertEntry key value entries = entries ++ [(key, value)] := by
  induction entries with
  | nil => rfl
  | cons e entries ih =>
    obtain ⟨k, v⟩ := e
    have after : Precedes k key := h (k, v) List.mem_cons_self
    have notBefore : ¬ Precedes key k := fun before => Precedes.irrefl k (after.trans before)
    have different : key ≠ k := by
      rintro rfl
      exact Precedes.irrefl key after
    rw [insertEntry, if_neg notBefore, if_neg different,
      ih fun e he => h e (List.mem_cons_of_mem _ he)]
    rfl

/-- Putting entries that are in order into their places one after the other. -/
theorem foldl_insertEntry {β : Type} {entries : List (String × β)} (kept : List (String × β))
    (h : Increasing (kept ++ entries)) :
    entries.foldl (fun kept e => insertEntry e.1 e.2 kept) kept = kept ++ entries := by
  induction entries generalizing kept with
  | nil => simp
  | cons e entries ih =>
    have before : ∀ k ∈ kept, Precedes k.1 e.1 := fun k hk =>
      (List.pairwise_append.mp h).2.2 k hk e List.mem_cons_self
    rw [List.foldl_cons, insertEntry_last before, ih _ (by simpa using h)]
    simp

/-- Without the entries of a key it does not matter what was put there. -/
theorem filter_insertEntry {β : Type} (key : String) (value : β) (entries : List (String × β)) :
    (insertEntry key value entries).filter (·.1 ≠ key) = entries.filter (·.1 ≠ key) := by
  induction entries with
  | nil => simp [insertEntry]
  | cons head rest ih =>
    obtain ⟨k, v⟩ := head
    rw [insertEntry]
    split
    · simp
    · split
      · next same => simp [same]
      · rw [List.filter_cons, List.filter_cons, ih]

/-- Of two values put in the same place the later one stays. -/
theorem insertEntry_insertEntry {β : Type} (key : String) (v w : β)
    (entries : List (String × β)) :
    insertEntry key w (insertEntry key v entries) = insertEntry key w entries := by
  induction entries with
  | nil => simp [insertEntry, Precedes.irrefl]
  | cons head rest ih =>
    obtain ⟨k, u⟩ := head
    by_cases before : Precedes key k
    · simp [insertEntry, before, Precedes.irrefl]
    · by_cases same : key = k
      · simp [insertEntry, same, Precedes.irrefl]
      · simp [insertEntry, before, same, ih]

/-- A key before all others has no value. -/
theorem lookup_of_precedes {β : Type} {k : String} {entries : List (String × β)}
    (h : ∀ e ∈ entries, Precedes k e.1) : entries.lookup k = none := by
  refine List.lookup_eq_none_iff.mpr fun e he => bne_iff_ne.mpr fun same => ?_
  exact Precedes.irrefl k (same ▸ h e he)

/-- Two increasing lists of entries that give all keys the same values are the same. -/
theorem Increasing.eq_of_lookup {β : Type} {as bs : List (String × β)} (ha : Increasing as)
    (hb : Increasing bs) (same : ∀ k, as.lookup k = bs.lookup k) : as = bs := by
  induction as generalizing bs with
  | nil =>
    cases bs with
    | nil => rfl
    | cons b bs =>
      obtain ⟨k, v⟩ := b
      simpa [lookup_entry_cons] using same k
  | cons a as ih =>
    cases bs with
    | nil =>
      obtain ⟨k, v⟩ := a
      simpa [lookup_entry_cons] using same k
    | cons b bs =>
      obtain ⟨k, v⟩ := a
      obtain ⟨k', v'⟩ := b
      obtain ⟨firstA, laterA⟩ := List.pairwise_cons.mp ha
      obtain ⟨firstB, laterB⟩ := List.pairwise_cons.mp hb
      -- the smaller one of the first keys would have no value in the other list
      have notBefore : ¬ Precedes k k' := by
        intro before
        have absent : ((k', v') :: bs).lookup k = none :=
          lookup_of_precedes (List.forall_mem_cons.mpr
            ⟨before, fun e he => before.trans (firstB e he)⟩)
        simpa [lookup_entry_cons] using (same k).trans absent
      have notAfter : ¬ Precedes k' k := by
        intro after
        have absent : ((k, v) :: as).lookup k' = none :=
          lookup_of_precedes (List.forall_mem_cons.mpr
            ⟨after, fun e he => after.trans (firstA e he)⟩)
        simpa [lookup_entry_cons] using (same k').symm.trans absent
      obtain rfl := eq_of_not_precedes notBefore notAfter
      have value : v = v' := by simpa [lookup_entry_cons] using same k
      have rest : as = bs := by
        refine ih laterA laterB fun l => ?_
        by_cases here : l = k
        · rw [here, lookup_of_precedes firstA, lookup_of_precedes firstB]
        · simpa [lookup_entry_cons, here] using same l
      rw [value, rest]

/-- A finite map from texts. -/
structure SortedMap (β : Type) where
  entries : List (String × β)
  increasing : Increasing entries

namespace SortedMap
variable {β : Type}

@[ext] theorem ext {m n : SortedMap β} (h : m.entries = n.entries) : m = n := by
  cases m; cases n; cases h; rfl

def empty : SortedMap β := ⟨[], .nil⟩

instance : EmptyCollection (SortedMap β) := ⟨empty⟩
instance : Inhabited (SortedMap β) := ⟨empty⟩

def isEmpty (m : SortedMap β) : Bool := m.entries.isEmpty

def size (m : SortedMap β) : Nat := m.entries.length

def keys (m : SortedMap β) : List String := m.entries.map (·.1)

def get? (m : SortedMap β) (key : String) : Option β := m.entries.lookup key

/-- Maps `key` to `value`, whatever it was mapped to. -/
def insert (m : SortedMap β) (key : String) (value : β) : SortedMap β :=
  ⟨insertEntry key value m.entries, m.increasing.insertEntry key value⟩

/-- Leaves `key` without a value. -/
def erase (m : SortedMap β) (key : String) : SortedMap β :=
  ⟨m.entries.filter (·.1 ≠ key), m.increasing.filter _⟩

/-- Keeps the entries that satisfy `p`. -/
def filter (m : SortedMap β) (p : String → β → Bool) : SortedMap β :=
  ⟨m.entries.filter fun e => p e.1 e.2, m.increasing.filter _⟩

/-- The map of a list of entries; of two with the same key the later one counts. -/
def ofList (entries : List (String × β)) : SortedMap β :=
  entries.foldl (fun m e => m.insert e.1 e.2) empty

/-- Maps that give all keys the same values are the same. -/
theorem ext_get? {m n : SortedMap β} (h : ∀ key, m.get? key = n.get? key) : m = n :=
  ext (m.increasing.eq_of_lookup n.increasing h)

@[simp] theorem get?_empty (key : String) : (empty : SortedMap β).get? key = none := rfl

@[simp] theorem get?_insert (m : SortedMap β) (key k : String) (value : β) :
    (m.insert key value).get? k = if k = key then some value else m.get? k :=
  lookup_insertEntry key k value m.entries

@[simp] theorem get?_erase (m : SortedMap β) (key k : String) :
    (m.erase key).get? k = if k = key then none else m.get? k :=
  lookup_filter_ne key k m.entries

@[simp] theorem isEmpty_insert (m : SortedMap β) (key : String) (value : β) :
    (m.insert key value).isEmpty = false := by
  obtain ⟨entries, _⟩ := m
  cases entries with
  | nil => rfl
  | cons head rest =>
    simp only [isEmpty, insert, insertEntry]
    split
    · rfl
    · split <;> rfl

/-- A map without entries has no values. -/
theorem get?_of_isEmpty {m : SortedMap β} (h : m.isEmpty = true) (key : String) :
    m.get? key = none := by
  have none_there : m.entries = [] := List.isEmpty_iff.mp h
  rw [get?, none_there]
  rfl

theorem entries_foldl_insert (entries : List (String × β)) (m : SortedMap β) :
    (entries.foldl (fun m e => m.insert e.1 e.2) m).entries =
      entries.foldl (fun kept e => insertEntry e.1 e.2 kept) m.entries := by
  induction entries generalizing m with
  | nil => rfl
  | cons e entries ih => exact ih _

/-- A map is made of its entries. -/
theorem ofList_entries (m : SortedMap β) : ofList m.entries = m := by
  refine ext ?_
  rw [ofList, entries_foldl_insert]
  exact foldl_insertEntry [] m.increasing

theorem mem_entries_foldl {entries : List (String × β)} {e : String × β} {m : SortedMap β}
    (h : e ∈ (entries.foldl (fun m e => m.insert e.1 e.2) m).entries) :
    e ∈ m.entries ∨ e ∈ entries := by
  induction entries generalizing m with
  | nil => exact .inl h
  | cons head rest ih =>
    rcases ih h with h | h
    · rcases mem_insertEntry h with rfl | h
      · exact .inr List.mem_cons_self
      · exact .inl h
    · exact .inr (List.mem_cons_of_mem _ h)

/-- A map made of entries has no others. -/
theorem mem_entries_ofList {entries : List (String × β)} {e : String × β}
    (h : e ∈ (ofList entries).entries) : e ∈ entries :=
  (mem_entries_foldl h).resolve_left List.not_mem_nil

theorem mem_entries_of_get? {m : SortedMap β} {key : String} {value : β}
    (h : m.get? key = some value) : (key, value) ∈ m.entries := by
  obtain ⟨before, after, split, -⟩ := List.lookup_eq_some_iff.mp h
  simp [split]

theorem mem_keys {m : SortedMap β} {key : String} :
    key ∈ m.keys ↔ ∃ value, m.get? key = some value := by
  rw [keys, List.mem_map]
  constructor
  · rintro ⟨e, he, rfl⟩
    refine Option.ne_none_iff_exists'.mp fun absent => ?_
    have other := List.lookup_eq_none_iff.mp absent e he
    simp at other
  · rintro ⟨value, found⟩
    exact ⟨_, mem_entries_of_get? found, rfl⟩

@[simp] theorem erase_insert (m : SortedMap β) (key : String) (value : β) :
    (m.insert key value).erase key = m.erase key :=
  ext (filter_insertEntry key value m.entries)

@[simp] theorem insert_insert (m : SortedMap β) (key : String) (v w : β) :
    (m.insert key v).insert key w = m.insert key w :=
  ext (insertEntry_insertEntry key v w m.entries)

/-- Leaving out a key that has no value changes nothing. -/
theorem erase_of_get?_eq_none {m : SortedMap β} {key : String} (h : m.get? key = none) :
    m.erase key = m := by
  refine ext (List.filter_eq_self.mpr fun e he => ?_)
  have notHere := List.lookup_eq_none_iff.mp h e he
  exact decide_eq_true fun same => bne_iff_ne.mp notHere same.symm

end SortedMap
end CertEnrollment.Data
