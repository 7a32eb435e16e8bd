import CertEnrollment.Enrollment.Config
import CertEnrollment.Proofs.Dns.NormalForms

/-!
# Branches as they are configured

An entry of the configuration allows branches in a zone, and hosts in these branches are placed in
the zone as long as no zone with a longer name has them. Two things come in between. Entries go by
their names as they are written, zones by their normal forms: where several entries are for one
zone, the last one decides alone. And a name that ends in dots keeps the blanks before them, which
no host can end in.
-/
namespace CertEnrollment.Data

/-- Of the elements with a property there is a last one. -/
theorem exists_last {α : Type} {p : α → Prop} {xs : List α} (h : ∃ x ∈ xs, p x) :
    ∃ before x after, xs = before ++ x :: after ∧ p x ∧ ∀ y ∈ after, ¬ p y := by
  induction xs with
  | nil => simp at h
  | cons x xs ih =>
    by_cases later : ∃ y ∈ xs, p y
    · obtain ⟨before, y, after, rfl, found⟩ := ih later
      exact ⟨x :: before, y, after, rfl, found⟩
    · have none_later : ∀ y ∈ xs, ¬ p y := fun y hy found => later ⟨y, hy, found⟩
      obtain ⟨y, hy, found⟩ := h
      rcases List.mem_cons.mp hy with rfl | hy
      · exact ⟨[], y, xs, rfl, found, none_later⟩
      · exact absurd found (none_later y hy)

end CertEnrollment.Data

namespace CertEnrollment.Dns
open Data Text

/-! ## Hosts in a branch of a zone -/

/-- A label that is left as it is, wherever it stands in a name. -/
structure Label (s : String) : Prop where
  filled : s ≠ ""
  whole : '.' ∉ s.toList
  noBlank : ∀ c ∈ s.toList, isBlank c = false
  lower : ∀ c ∈ s.toList, c.toLower = c

theorem label_of_all {s : String} (filled : s ≠ "")
    (plain : (s.toList.all fun c => c != '.' && !isBlank c && c.toLower == c) = true) :
    Label s := by
  have free : ∀ c ∈ s.toList, (c ≠ '.' ∧ isBlank c = false) ∧ c.toLower = c := by
    simpa using plain
  exact ⟨filled, fun dot => (free '.' dot).1.1 rfl, fun c hc => (free c hc).1.2,
    fun c hc => (free c hc).2⟩

/-- The host with this first label in a branch of a zone, or in the zone itself. -/
def hostIn (first branch zone : String) : String :=
  first ++ (if branch = "" then "" else "." ++ branch) ++ "." ++ zone

/-- The host is placed in a zone of this name, with this first label and this branch. -/
def Decomposes (zones : List Zone) (host first branch zone : String) : Prop :=
  ∃ p, resolve zones host = .ok p ∧ p.subdomain = first ∧ p.branch = branch ∧ p.zone.name = zone

/-- The host lies below no zone with a longer name. -/
def Unrivalled (zones : List Zone) (zone host : String) : Prop :=
  ∀ other ∈ zones, zone.length < other.name.length →
    ∀ labels, ¬ other.Matches (normalize host) labels

/-- The branch is empty, or none of its labels is. -/
def Filled (branch : String) : Prop := branch = "" ∨ [] ∉ splitAt '.' branch.toList

theorem Filled.exists_labels {branch : String} (h : Filled branch) :
    ∃ more, (∀ l ∈ more, l ≠ "" ∧ '.' ∉ l.toList) ∧ join "." more = branch := by
  rcases h with rfl | filled
  · exact ⟨[], by simp, by simp [join]⟩
  · obtain ⟨labels, pieces⟩ := exists_map_toList (splitAt '.' branch.toList)
    refine ⟨labels, fun l hl => ?_, ?_⟩
    · have piece : l.toList ∈ splitAt '.' branch.toList := pieces ▸ List.mem_map_of_mem hl
      refine ⟨?_, not_mem_of_mem_splitAt piece⟩
      rintro rfl
      exact filled piece
    · refine String.toList_inj.mp ?_
      rw [toList_join, pieces]
      exact intercalate_splitAt '.' branch.toList

variable {zones : List Zone} {z : Zone} {s branch zone : String}

/-- Hosts in a branch of a zone lie below the zone, by the labels of the branch. -/
theorem matches_hostIn (label : Label s) (filled : Filled branch) :
    ∃ more, z.Matches (hostIn s branch z.name) (s :: more) ∧ join "." more = branch := by
  obtain ⟨more, whole, rfl⟩ := filled.exists_labels
  have above : z.Matches (join "." (s :: more) ++ "." ++ z.name) (s :: more) :=
    ⟨by simp, List.forall_mem_cons.mpr ⟨⟨label.filled, label.whole⟩, whole⟩, rfl⟩
  have same := above.spells_parts
  exact ⟨more, ⟨above.some_there, above.whole, same.symm⟩, rfl⟩

theorem mem_hostIn {c : Char} (h : c ∈ (hostIn s branch zone).toList) :
    c ∈ s.toList ∨ c ∈ branch.toList ∨ c ∈ zone.toList ∨ c = '.' := by
  rw [hostIn] at h
  split at h <;> simp at h <;> tauto

theorem getLast?_hostIn (some_there : zone ≠ "") :
    (hostIn s branch zone).toList.getLast? = zone.toList.getLast? := by
  cases last : zone.toList.getLast? with
  | none => simp_all
  | some c => simp [hostIn, List.getLast?_cons, last]

/-- A host in a branch is in normal form unless the name of the zone ends in a blank. -/
theorem normalize_hostIn (label : Label s) (lowerBranch : ∀ c ∈ branch.toList, c.toLower = c)
    (some_there : zone ≠ "") (noDot : zone.toList.getLast? ≠ some '.')
    (lowerZone : ∀ c ∈ zone.toList, c.toLower = c) (ends : ¬ EndsBlank zone) :
    normalize (hostIn s branch zone) = hostIn s branch zone := by
  have last : (hostIn s branch zone).toList.getLast? = zone.toList.getLast? :=
    getLast?_hostIn some_there
  refine normalize_eq_self ?_ ?_ (last ▸ noDot) ?_
  · cases first : s.toList with
    | nil => exact absurd (String.toList_eq_nil_iff.mp first) label.filled
    | cons c cs =>
      have noBlank := label.noBlank c (by simp [first])
      simpa [hostIn, first] using noBlank
  · rw [EndsBlank, last]
    exact ends
  · intro c hc
    rcases mem_hostIn hc with hc | hc | hc | rfl
    · exact label.lower c hc
    · exact lowerBranch c hc
    · exact lowerZone c hc
    · decide

/-- No host is placed in a zone whose name ends in a blank when it is given by its parts. -/
theorem not_decomposes_of_endsBlank (ends : EndsBlank zone) (host : String)
    (spelled : host = hostIn s branch zone) : ¬ Decomposes zones host s branch zone := by
  rintro ⟨p, placed, rfl, rfl, rfl⟩
  have same : normalize host = host := (spells_of_resolve placed).trans spelled.symm
  have some_there : p.zone.name ≠ "" := by
    intro empty
    obtain ⟨c, last, -⟩ := ends
    simp [empty] at last
  refine not_endsBlank_of_normalize same ?_
  rwa [EndsBlank, spelled, getLast?_hostIn some_there]

/-- Where no zone with a longer name has it, a host in a branch belongs to the last zone of the
name, and it is placed there if that allows the branch. -/
theorem resolve_hostIn (label : Label s) (filled : Filled branch)
    (normal : normalize (hostIn s branch z.name) = hostIn s branch z.name)
    (unrivalled : Unrivalled zones z.name (hostIn s branch z.name))
    (last : ∃ before after, zones = before ++ z :: after ∧ ∀ other ∈ after, other.name ≠ z.name) :
    resolve zones (hostIn s branch z.name) =
      if z.permits branch then .ok ⟨s, branch, z⟩
      else .error (.branchNotAllowed branch z.name) := by
  obtain ⟨more, above, rfl⟩ := matches_hostIn (z := z) label filled
  refine resolve_of_chosen ⟨normal.symm ▸ above, fun other ho labels' h => ?_, last⟩
  exact Nat.le_of_not_lt fun longer => unrivalled other ho longer labels' h

end CertEnrollment.Dns

namespace CertEnrollment.Enrollment
open Data Dns Text

/-! ## Entries of the configuration -/

namespace ZoneEntry

/-- What is written between the commas, in normal form. -/
def written (e : ZoneEntry) : List String :=
  (splitAt ',' e.text.toList).map fun b => normalize (String.ofList b)

/-- The branch may be used: there is none, it is written in the entry, or it stands after a dot at
the end of one that is. -/
def Grants (e : ZoneEntry) (branch : String) : Prop :=
  branch = "" ∨ branch ∈ e.written ∨ ∃ front, front ++ "." ++ branch ∈ e.written

/-- Blank branches are left out, and nothing else. -/
theorem mem_map_branches (e : ZoneEntry) {branch : String} (some_there : branch ≠ "") :
    branch ∈ e.branches.map normalize ↔ branch ∈ e.written := by
  simp only [branches, written, List.mem_map, List.mem_filter]
  constructor
  · rintro ⟨-, ⟨⟨b, piece, rfl⟩, -⟩, rfl⟩
    exact ⟨b, piece, (normalize_trim _).symm⟩
  · rintro ⟨b, piece, rfl⟩
    refine ⟨_, ⟨⟨b, piece, rfl⟩, decide_eq_true fun blank => some_there ?_⟩, normalize_trim _⟩
    rw [← normalize_trim, blank]
    rfl

/-- The zone of an entry allows what the entry grants. -/
theorem allows_iff (e : ZoneEntry) (name branch : String) :
    (Zone.make name e.branches e.backend).Allows branch ↔ e.Grants branch := by
  have listed : ∀ b : String, b ≠ "" →
      (b ∈ (Zone.make name e.branches e.backend).branches ↔ b ∈ e.written) :=
    fun b some_there => mem_distinct.trans (e.mem_map_branches some_there)
  rw [Zone.Allows, Grants]
  by_cases none_there : branch = ""
  · simp [none_there]
  · have ending : ∀ front : String, front ++ "." ++ branch ≠ "" := by simp
    simp only [listed _ none_there, listed _ (ending _)]

end ZoneEntry

/-- Of the entries for the zone this is the last one. -/
def Config.Decides (c : Config) (zone : String) (e : ZoneEntry) : Prop :=
  ∃ before name after, c.zoneEntries.entries = before ++ (name, e) :: after ∧
    normalize name = zone ∧ ∀ other ∈ after, normalize other.1 ≠ zone

/-- Some entry decides for every zone that there is an entry for. -/
theorem Config.exists_decides {c : Config} {name : String} {e : ZoneEntry}
    (listed : (name, e) ∈ c.zoneEntries.entries) :
    ∃ deciding, c.Decides (normalize name) deciding := by
  obtain ⟨before, ⟨last, deciding⟩, after, found⟩ :=
    exists_last (p := fun entry : String × ZoneEntry => normalize entry.1 = normalize name)
      ⟨_, listed, rfl⟩
  exact ⟨deciding, before, last, after, found⟩

/-- What comes of an entry for a zone. -/
structure Honoured (c : Config) (zone : String) (e : ZoneEntry) : Prop where
  /-- One of the entries for the zone decides. -/
  decided : ∃ deciding, c.Decides zone deciding
  /-- A host without a branch or in a branch of this entry is taken apart into what it was put
  together from just when the zone does not end in a blank and the entry that decides grants the
  branch. -/
  placed : ∀ s branch deciding, Label s → branch = "" ∨ branch ∈ e.written → Filled branch →
    Unrivalled c.zones zone (hostIn s branch zone) → c.Decides zone deciding →
    (Decomposes c.zones (hostIn s branch zone) s branch zone ↔
      ¬ EndsBlank zone ∧ deciding.Grants branch)
  /-- What this entry allows and the one that decides does not is refused. -/
  refused : ∀ s branch deciding, Label s → branch = "" ∨ branch ∈ e.written → Filled branch →
    Unrivalled c.zones zone (hostIn s branch zone) → c.Decides zone deciding →
    ¬ EndsBlank zone → ¬ deciding.Grants branch →
    resolve c.zones (hostIn s branch zone) = .error (.branchNotAllowed branch zone)
  /-- An entry that decides is honoured in all its branches. -/
  kept : c.Decides zone e → ¬ EndsBlank zone →
    ∀ s branch, Label s → branch = "" ∨ branch ∈ e.written → Filled branch →
      Unrivalled c.zones zone (hostIn s branch zone) →
      Decomposes c.zones (hostIn s branch zone) s branch zone

variable {c : Config} {name zone : String} {e deciding : ZoneEntry} {s branch : String}

theorem ZoneEntry.toLower_of_written (h : branch = "" ∨ branch ∈ e.written) :
    ∀ ch ∈ branch.toList, ch.toLower = ch := by
  rcases h with rfl | h
  · simp
  · obtain ⟨b, -, rfl⟩ := List.mem_map.mp h
    exact fun ch => toLower_of_mem_normalize _

/-- The entry that decides is asked, and no other. -/
theorem Config.Decides.resolve_eq (decides : c.Decides zone deciding) (named : zone ≠ "")
    (label : Label s) (lower : ∀ ch ∈ branch.toList, ch.toLower = ch) (filled : Filled branch)
    (unrivalled : Unrivalled c.zones zone (hostIn s branch zone)) (ends : ¬ EndsBlank zone) :
    ∃ z : Zone, z.name = zone ∧ (z.permits branch = true ↔ deciding.Grants branch) ∧
      resolve c.zones (hostIn s branch zone) =
        if z.permits branch then .ok ⟨s, branch, z⟩ else .error (.branchNotAllowed branch zone) := by
  obtain ⟨before, name, after, split, rfl, others⟩ := decides
  have normal := normalize_hostIn label lower named (getLast?_normalize name)
    (fun ch => toLower_of_mem_normalize name) ends
  have lowered : asciiLower branch = branch := by
    rw [asciiLower, List.map_congr_left lower, List.map_id', String.ofList_toList]
  let z : Zone := .make name deciding.branches deciding.backend
  have last : ∃ before after, c.zones = before ++ z :: after ∧
      ∀ other ∈ after, other.name ≠ z.name := by
    refine ⟨_, _, by rw [Config.zones, split, List.map_append, List.map_cons], ?_⟩
    intro other ho
    obtain ⟨entry, later, rfl⟩ := List.mem_map.mp ho
    exact others entry later
  exact ⟨z, rfl, (Zone.permits_iff lowered).trans (deciding.allows_iff name branch),
    resolve_hostIn (z := z) label filled normal unrivalled last⟩

theorem Config.Decides.decomposes_iff (decides : c.Decides zone deciding) (named : zone ≠ "")
    (label : Label s) (lower : ∀ ch ∈ branch.toList, ch.toLower = ch) (filled : Filled branch)
    (unrivalled : Unrivalled c.zones zone (hostIn s branch zone)) :
    Decomposes c.zones (hostIn s branch zone) s branch zone ↔
      ¬ EndsBlank zone ∧ deciding.Grants branch := by
  by_cases ends : EndsBlank zone
  · simp [ends, not_decomposes_of_endsBlank ends _ rfl]
  obtain ⟨z, rfl, permits, placed⟩ :=
    decides.resolve_eq named label lower filled unrivalled ends
  simp only [ends, not_false_eq_true, true_and, ← permits]
  constructor
  · rintro ⟨p, found, -⟩
    by_contra denied
    rw [placed, if_neg denied] at found
    cases found
  · intro permitted
    exact ⟨_, placed.trans (if_pos permitted), rfl, rfl, rfl⟩

/-- Every entry is honoured as far as it is the last one for its zone and the name of the zone does
not end in a blank. -/
theorem honoured_of_listed (listed : (name, e) ∈ c.zoneEntries.entries)
    (named : normalize name ≠ "") : Honoured c (normalize name) e where
  decided := Config.exists_decides listed
  placed _ _ _ label written filled unrivalled decides :=
    decides.decomposes_iff named label (ZoneEntry.toLower_of_written written) filled unrivalled
  refused s branch deciding label written filled unrivalled decides ends denied := by
    obtain ⟨z, -, permits, placed⟩ := decides.resolve_eq named label
      (ZoneEntry.toLower_of_written written) filled unrivalled ends
    rw [placed, if_neg (mt permits.mp denied)]
  kept decides ends s branch label written filled unrivalled := by
    refine (decides.decomposes_iff named label (ZoneEntry.toLower_of_written written) filled
      unrivalled).mpr ⟨ends, ?_⟩
    exact written.imp_right .inl

/-- What a document configures, without the reader that finds it. -/
theorem Config.exists_of_entries (text : String) (entries : List (String × ZoneEntry))
    (h : (Config.ofText text).toOption.map (·.zoneEntries.entries) = some entries) :
    ∃ c, Config.ofText text = .ok c ∧ c.zoneEntries.entries = entries := by
  cases read : Config.ofText text with
  | error e => simp [read, Except.toOption] at h
  | ok c => exact ⟨c, rfl, by simpa [read, Except.toOption] using h⟩

/-- A branch with two labels, in a zone whose name has capitals and a dot at its end. -/
theorem honoured_of_listed_grid :
    ∃ c, Config.ofText
        "[ca]\naccess_key = \"k\"\n[domains]\n\"Grid.tf.\" = \"Test, test.Devnet. ,\"\n" = .ok c ∧
      ("Grid.tf.", .plain "Test, test.Devnet. ,") ∈ c.zoneEntries.entries ∧
      normalize "Grid.tf." ≠ "" ∧
      Honoured c "grid.tf" (.plain "Test, test.Devnet. ,") ∧
      Decomposes c.zones "a.test.devnet.grid.tf" "a" "test.devnet" "grid.tf" := by
  obtain ⟨c, read, entries⟩ := Config.exists_of_entries
    "[ca]\naccess_key = \"k\"\n[domains]\n\"Grid.tf.\" = \"Test, test.Devnet. ,\"\n"
    [("Grid.tf.", .plain "Test, test.Devnet. ,")] (by decide +kernel)
  have listed : ("Grid.tf.", ZoneEntry.plain "Test, test.Devnet. ,") ∈ c.zoneEntries.entries := by
    simp [entries]
  have named : normalize "Grid.tf." = "grid.tf" := by decide +kernel
  have some_there : normalize "Grid.tf." ≠ "" := by decide +kernel
  have honoured : Honoured c "grid.tf" (.plain "Test, test.Devnet. ,") :=
    named ▸ honoured_of_listed listed some_there
  refine ⟨c, read, listed, some_there, honoured, ?_⟩
  refine honoured.kept ⟨[], _, [], entries, named, by simp⟩ (by decide +kernel) "a" "test.devnet"
    (label_of_all (by decide) (by decide)) (.inr (by decide +kernel)) (.inr (by decide)) ?_
  intro other ho longer
  rw [Config.zones, entries] at ho
  obtain rfl := List.mem_singleton.mp ho
  exact absurd longer (by decide +kernel)

/-- Of two entries for one zone the first one is not honoured. And in a zone whose name ends in a
blank there are no hosts. -/
theorem entries_not_honoured :
    ∃ c, Config.ofText ("[ca]\naccess_key = \"k\"\n[domains]\n" ++
        "\"Org\" = \"dev\"\n\"org\" = \"test\"\n\"a .\" = \"\"\n") = .ok c ∧
      ("Org", .plain "dev") ∈ c.zoneEntries.entries ∧ normalize "Org" = "org" ∧
      "dev" ∈ (ZoneEntry.plain "dev").written ∧ Filled "dev" ∧ Label "s" ∧
      Unrivalled c.zones "org" (hostIn "s" "dev" "org") ∧
      ¬ Decomposes c.zones (hostIn "s" "dev" "org") "s" "dev" "org" ∧
      resolve c.zones "s.dev.org" = .error (.branchNotAllowed "dev" "org") ∧
      ("a .", .plain "") ∈ c.zoneEntries.entries ∧ normalize "a ." = "a " ∧
      resolve c.zones "s.a " = .error (.zoneNotConfigured "s.a ") := by
  obtain ⟨c, read, entries⟩ := Config.exists_of_entries
    ("[ca]\naccess_key = \"k\"\n[domains]\n" ++
      "\"Org\" = \"dev\"\n\"org\" = \"test\"\n\"a .\" = \"\"\n")
    [("Org", .plain "dev"), ("a .", .plain ""), ("org", .plain "test")] (by decide +kernel)
  have zones : c.zones =
      [.make "Org" ["dev"] none, .make "a ." [] none, .make "org" ["test"] none] := by
    rw [Config.zones, entries]
    decide +kernel
  have refused : resolve c.zones "s.dev.org" = .error (.branchNotAllowed "dev" "org") := by
    rw [zones]
    decide +kernel
  refine ⟨c, read, by simp [entries], by decide +kernel, by decide +kernel, .inr (by decide),
    label_of_all (by decide) (by decide), ?_, ?_, refused, by simp [entries],
    by decide +kernel, ?_⟩
  · have short : ∀ other ∈ c.zones, ¬ "org".length < other.name.length := by
      rw [zones]
      decide +kernel
    exact fun other ho longer => absurd longer (short other ho)
  · rintro ⟨p, placed, -⟩
    cases refused.symm.trans placed
  · rw [zones]
    decide +kernel

end CertEnrollment.Enrollment
