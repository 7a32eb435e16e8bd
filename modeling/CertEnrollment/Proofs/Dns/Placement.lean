import CertEnrollment.Dns.Resolve
import CertEnrollment.Proofs.Text.Canonical
import CertEnrollment.Proofs.Text.Labels

/-!
# Where hosts are placed

A host lies below a zone when some labels, none of them empty, stand before the name of the
zone. It is placed in the zone with the longest name among those, in the last one of that
name, and in no other: a branch that this zone does not allow is refused.
-/
namespace CertEnrollment.Dns
open Text

/-! ## Labels before a zone -/

namespace Zone

/-- The host lies below the zone, with these labels before the name of the zone. -/
structure Matches (z : Zone) (host : String) (labels : List String) : Prop where
  some_there : labels ≠ []
  whole : ∀ l ∈ labels, l ≠ "" ∧ '.' ∉ l.toList
  spells : host = join "." labels ++ "." ++ z.name

variable {z : Zone} {host : String} {labels labels' : List String}

theorem matches_iff : z.Matches host labels ↔ ∃ rest, host.toList = rest ++ '.' :: z.name.toList ∧
    splitAt '.' rest = labels.map String.toList ∧ ∀ l ∈ labels, l ≠ "" := by
  constructor
  · rintro ⟨some_there, whole, rfl⟩
    refine ⟨_, by simp, splitAt_eq_iff.mpr ⟨by simpa using some_there, ?_, rfl⟩,
      fun l hl => (whole l hl).1⟩
    simpa using fun l hl => (whole l hl).2
  · rintro ⟨rest, spells, pieces, filled⟩
    obtain ⟨some_there, whole, rfl⟩ := splitAt_eq_iff.mp pieces
    refine ⟨by simpa using some_there, fun l hl => ⟨filled l hl, ?_⟩, ?_⟩
    · exact whole l.toList (List.mem_map_of_mem hl)
    · refine String.toList_inj.mp ?_
      simpa using spells

theorem Matches.toList (h : z.Matches host labels) :
    host.toList = ['.'].intercalate (labels.map String.toList) ++ '.' :: z.name.toList := by
  simp [h.spells]

/-- A host lies below a zone by its labels in one way only. -/
theorem Matches.unique (h : z.Matches host labels) (k : z.Matches host labels') :
    labels = labels' := by
  obtain ⟨rest, spells, pieces, -⟩ := matches_iff.mp h
  obtain ⟨rest', spells', pieces', -⟩ := matches_iff.mp k
  have same : rest = rest' := List.append_cancel_right (spells.symm.trans spells')
  rw [same, pieces'] at pieces
  exact (List.map_inj_right fun _ _ => String.toList_inj.mp).mp pieces.symm

/-- A host that is cut up lies below the zone by its first label and those of the branch. -/
theorem split?_eq_some_iff {first branch : String} :
    z.split? host = some (first, branch) ↔
      ∃ more, z.Matches host (first :: more) ∧ branch = join "." more := by
  simp only [matches_iff, split?]
  constructor
  · intro h
    cases found : beforeEnding? ('.' :: z.name.toList) host.toList with
    | none => simp [found] at h
    | some rest =>
      have spells := beforeEnding?_eq_some_iff.mp found
      obtain ⟨labels, pieces⟩ := exists_map_toList (splitAt '.' rest)
      cases labels with
      | nil => exact absurd pieces.symm (splitAt_ne_nil '.' rest)
      | cons label more =>
        obtain ⟨cut, others⟩ := cutAt_of_splitAt pieces.symm
        have parts : (label ≠ "" ∧ "" ∉ more) ∧ label = first ∧
            String.ofList (['.'].intercalate (more.map String.toList)) = branch := by
          simpa [found, ← pieces, cut, others] using h
        obtain ⟨⟨here, later⟩, rfl, rfl⟩ := parts
        have filled : ∀ l ∈ label :: more, l ≠ "" :=
          List.forall_mem_cons.mpr ⟨here, fun l hl empty => later (empty ▸ hl)⟩
        exact ⟨more, ⟨rest, spells, pieces.symm, filled⟩, by simp [join]⟩
  · rintro ⟨more, ⟨rest, spells, pieces, filled⟩, rfl⟩
    obtain ⟨cut, others⟩ := cutAt_of_splitAt pieces
    have parts : first ≠ "" ∧ "" ∉ more :=
      ⟨filled first List.mem_cons_self, fun empty => filled "" (List.mem_cons_of_mem _ empty) rfl⟩
    simpa [beforeEnding?_eq_some_iff.mpr spells, pieces, cut, others, join] using parts

/-- Of two zones above a host, those with equally long names have the same name. -/
theorem Matches.name_eq {other : Zone} (h : z.Matches host labels)
    (k : other.Matches host labels') (same : z.name.length = other.name.length) :
    z.name = other.name := by
  obtain ⟨rest, spells, -⟩ := matches_iff.mp h
  obtain ⟨rest', spells', -⟩ := matches_iff.mp k
  have lengths : ('.' :: z.name.toList).length = ('.' :: other.name.toList).length := by
    simp [String.length_toList, same]
  have ends := (List.append_inj' (spells.symm.trans spells') lengths).2
  exact String.toList_inj.mp (List.cons.inj ends).2

/-- The first label, the branch if there is one, and the name of the zone spell the host. -/
theorem Matches.spells_parts {first : String} {more : List String}
    (h : z.Matches host (first :: more)) :
    host = first ++ (if join "." more = "" then "" else "." ++ join "." more) ++ "." ++ z.name := by
  rw [h.spells]
  refine congrArg (· ++ "." ++ z.name) ?_
  cases more with
  | nil => simp [join]
  | cons second more =>
    have filled : second ≠ "" := (h.whole second (by simp)).1
    have branch : join "." (second :: more) ≠ "" := by
      intro empty
      have none_there := congrArg String.toList empty
      cases more <;> simp [filled, List.intercalate_cons_cons] at none_there
    rw [if_neg branch]
    refine String.toList_inj.mp ?_
    simp [List.intercalate_cons_cons]

/-! ## Allowed branches -/

/-- A zone allows hosts without a branch, the branches on its list, and those that stand
after a dot at the end of one. -/
def Allows (z : Zone) (branch : String) : Prop :=
  branch = "" ∨ branch ∈ z.branches ∨ ∃ front, front ++ "." ++ branch ∈ z.branches

theorem permits_iff {branch : String} (lower : asciiLower branch = branch) :
    z.permits branch = true ↔ z.Allows branch := by
  have ending : ∀ b : String, ('.' :: branch.toList).isSuffixOf b.toList = true ↔
      ∃ front, front ++ "." ++ branch = b := by
    intro b
    rw [List.isSuffixOf_iff_suffix]
    constructor
    · rintro ⟨front, same⟩
      refine ⟨String.ofList front, String.toList_inj.mp ?_⟩
      simpa using same
    · rintro ⟨front, rfl⟩
      exact ⟨front.toList, by simp⟩
  simp only [permits, lower, Allows, Bool.or_eq_true, String.isEmpty_iff, List.any_eq_true,
    beq_iff_eq, ending]
  grind

end Zone

/-! ## The zone of a host -/

/-- The zone that a host belongs to, with the labels of the host: of the zones above the
host it has the longest name, and it is the last one on the list with this name. -/
structure Chosen (zones : List Zone) (host : String) (z : Zone) (labels : List String) :
    Prop where
  above : z.Matches host labels
  longest : ∀ other ∈ zones, ∀ labels', other.Matches host labels' →
    other.name.length ≤ z.name.length
  last : ∃ before after, zones = before ++ z :: after ∧ ∀ other ∈ after, other.name ≠ z.name

variable {zones : List Zone} {host : String} {z z' : Zone} {labels labels' : List String}
  {p : HostParts}

theorem Chosen.mem (h : Chosen zones host z labels) : z ∈ zones := by
  obtain ⟨before, after, rfl, -⟩ := h.last
  simp

theorem Chosen.unique (h : Chosen zones host z labels) (k : Chosen zones host z' labels') :
    z = z' ∧ labels = labels' := by
  have lengths : z.name.length = z'.name.length :=
    Nat.le_antisymm (k.longest z h.mem labels h.above) (h.longest z' k.mem labels' k.above)
  have names : z.name = z'.name := h.above.name_eq k.above lengths
  obtain ⟨before, after, rfl, others⟩ := h.last
  obtain ⟨before', after', split, others'⟩ := k.last
  have same : z = z' := by
    rcases List.append_eq_append_iff.mp split with ⟨more, -, split⟩ | ⟨more, -, split⟩
    · cases more with
      | nil => exact (List.cons.inj split).1
      | cons first more =>
        have later : z' ∈ after := by simp [(List.cons.inj split).2]
        exact absurd names.symm (others z' later)
    · cases more with
      | nil => exact (List.cons.inj split).1.symm
      | cons first more =>
        have later : z ∈ after' := by simp [(List.cons.inj split).2]
        exact absurd names (others' z later)
  subst same
  exact ⟨rfl, h.above.unique k.above⟩

/-- Nothing is shorter than what is chosen so far, and of equally long parts the later ones
are chosen. -/
theorem longest_of_foldl {parts : List HostParts} {best : Option HostParts}
    (h : parts.foldl HostParts.longer best = some p) :
    (best = some p ∧ ∀ q ∈ parts, q.zone.name.length < p.zone.name.length) ∨
      ∃ before after, parts = before ++ p :: after ∧
        (∀ q, best = some q ∨ q ∈ before → q.zone.name.length ≤ p.zone.name.length) ∧
        ∀ q ∈ after, q.zone.name.length < p.zone.name.length := by
  induction parts generalizing best with
  | nil => exact .inl ⟨h, by simp⟩
  | cons r parts ih =>
    -- one step takes `r` unless something longer was chosen before
    have chosen : HostParts.longer best r = some r ∧
          (∀ q, best = some q → q.zone.name.length ≤ r.zone.name.length) ∨
        HostParts.longer best r = best ∧
          ∃ q, best = some q ∧ r.zone.name.length < q.zone.name.length := by
      cases best with
      | none => exact .inl ⟨rfl, by simp⟩
      | some b =>
        by_cases le : b.zone.name.length ≤ r.zone.name.length
        · exact .inl ⟨if_pos le, by simpa using le⟩
        · exact .inr ⟨if_neg le, b, rfl, Nat.lt_of_not_le le⟩
    rcases ih h with ⟨first, shorter⟩ | ⟨before, after, rfl, longer, shorter⟩
    · rcases chosen with ⟨here, le⟩ | ⟨kept, q, rfl, lt⟩
      · obtain rfl : r = p := Option.some.inj (here.symm.trans first)
        exact .inr ⟨[], parts, rfl, by simpa using le, shorter⟩
      · have same : some q = some p := kept.symm.trans first
        obtain rfl := Option.some.inj same
        exact .inl ⟨rfl, List.forall_mem_cons.mpr ⟨lt, shorter⟩⟩
    · refine .inr ⟨r :: before, after, rfl, fun q hq => ?_, shorter⟩
      rcases chosen with ⟨here, le⟩ | ⟨kept, b, rfl, lt⟩
      · have top := longer r (.inl here)
        rcases hq with hq | hq
        · exact Nat.le_trans (le q hq) top
        · rcases List.mem_cons.mp hq with rfl | hq
          · exact top
          · exact longer q (.inr hq)
      · have top := longer b (.inl kept)
        rcases hq with hq | hq
        · exact Option.some.inj hq ▸ top
        · rcases List.mem_cons.mp hq with rfl | hq
          · omega
          · exact longer q (.inr hq)

theorem foldl_longer_eq_none_iff {parts : List HostParts} {best : Option HostParts} :
    parts.foldl HostParts.longer best = none ↔ best = none ∧ parts = [] := by
  induction parts generalizing best with
  | nil => simp
  | cons r parts ih =>
    have some_there : HostParts.longer best r ≠ none := by
      cases best with
      | none => simp [HostParts.longer]
      | some b =>
        rw [HostParts.longer]
        split <;> simp
    simp [ih, some_there]

theorem parts?_eq_some_iff :
    z.parts? host = some p ↔
      ∃ more, z.Matches host (p.subdomain :: more) ∧ p.branch = join "." more ∧ p.zone = z := by
  simp only [Zone.parts?, Option.map_eq_some_iff]
  constructor
  · rintro ⟨⟨first, branch⟩, found, rfl⟩
    obtain ⟨more, above, same⟩ := Zone.split?_eq_some_iff.mp found
    exact ⟨more, above, same, rfl⟩
  · rintro ⟨more, above, same, rfl⟩
    exact ⟨(p.subdomain, p.branch), Zone.split?_eq_some_iff.mpr ⟨more, above, same⟩, rfl⟩

theorem Zone.Matches.exists_parts (h : z.Matches host labels) :
    ∃ q, z.parts? host = some q ∧ q.zone = z := by
  cases labels with
  | nil => exact absurd rfl h.some_there
  | cons first more =>
    exact ⟨⟨first, join "." more, z⟩, parts?_eq_some_iff.mpr ⟨more, h, rfl, rfl⟩, rfl⟩

/-- A host is placed in the zone that it belongs to. -/
theorem chosen_of_placement (h : placement? zones host = some p) :
    ∃ more, Chosen zones host p.zone (p.subdomain :: more) ∧ p.branch = join "." more := by
  obtain ⟨absurd, -⟩ | ⟨before, after, split, longer, shorter⟩ := longest_of_foldl h
  · cases absurd
  obtain ⟨zones₁, zones₂, rfl, matched, rest⟩ := List.filterMap_eq_append_iff.mp split
  obtain ⟨skipped, z, zones₃, rfl, -, here, later⟩ := List.filterMap_eq_cons_iff.mp rest
  obtain ⟨more, above, branch, rfl⟩ := parts?_eq_some_iff.mp here
  refine ⟨more, ⟨above, fun other ho labels' h => ?_, zones₁ ++ skipped, zones₃, ?_, ?_⟩, branch⟩
  · obtain ⟨q, found, rfl⟩ := h.exists_parts
    have listed : q ∈ before ++ p :: after := split ▸ List.mem_filterMap.mpr ⟨_, ho, found⟩
    rcases List.mem_append.mp listed with hq | hq
    · exact longer q (.inr hq)
    · rcases List.mem_cons.mp hq with rfl | hq
      · exact Nat.le_refl _
      · exact Nat.le_of_lt (shorter q hq)
  · simp
  · intro other ho same
    have h : other.Matches host (p.subdomain :: more) :=
      ⟨above.some_there, above.whole, same ▸ above.spells⟩
    obtain ⟨q, found, rfl⟩ := h.exists_parts
    have listed : q ∈ after := later ▸ List.mem_filterMap.mpr ⟨_, ho, found⟩
    exact absurd (congrArg String.length same) (Nat.ne_of_lt (shorter q listed))

theorem placement?_eq_none_iff :
    placement? zones host = none ↔ ∀ z ∈ zones, ∀ labels, ¬ z.Matches host labels := by
  rw [placement?, foldl_longer_eq_none_iff, List.filterMap_eq_nil_iff]
  constructor
  · rintro ⟨-, unmatched⟩ z hz labels h
    obtain ⟨q, found, -⟩ := h.exists_parts
    cases (unmatched z hz).symm.trans found
  · refine fun unmatched => ⟨rfl, fun z hz => Option.eq_none_iff_forall_ne_some.mpr ?_⟩
    intro q found
    obtain ⟨more, above, -⟩ := parts?_eq_some_iff.mp found
    exact unmatched z hz _ above

/-! ## Placing a host -/

/-- Normal forms are in lowercase. -/
theorem toLower_of_mem_normalize (name : String) {c : Char} (h : c ∈ (normalize name).toList) :
    c.toLower = c := by
  rw [normalize, String.toList_ofList, normalizeChars] at h
  obtain ⟨d, -, rfl⟩ := List.mem_map.mp h
  exact toLower_toLower d

/-- The branch of a host in normal form is in lowercase. -/
theorem Zone.Matches.lower {name first : String} {more : List String}
    (h : z.Matches (normalize name) (first :: more)) :
    asciiLower (join "." more) = join "." more := by
  have lower : ∀ c ∈ (join "." more).toList, c.toLower = c := by
    intro c hc
    refine toLower_of_mem_normalize name ?_
    rw [h.toList]
    cases more with
    | nil => simp [join] at hc
    | cons second more =>
      have later : c ∈ ['.'].intercalate ((second :: more).map String.toList) := by simpa using hc
      rw [List.map_cons, intercalate_cons_of_ne_nil (by simp)]
      exact List.mem_append_left _ (List.mem_append_right _ (List.mem_cons_of_mem _ later))
  refine String.toList_inj.mp ?_
  rw [asciiLower, String.toList_ofList]
  exact (List.map_congr_left lower).trans (List.map_id _)

/-- A host is placed in the zone that it belongs to, if that allows the branch. -/
theorem resolve_of_chosen {first : String} {more : List String}
    (h : Chosen zones (normalize host) z (first :: more)) :
    resolve zones host =
      if z.permits (join "." more) then .ok ⟨first, join "." more, z⟩
      else .error (.branchNotAllowed (join "." more) z.name) := by
  rw [resolve]
  cases placed : placement? zones (normalize host) with
  | none => exact absurd h.above (placement?_eq_none_iff.mp placed z h.mem _)
  | some p =>
    obtain ⟨more', chosen, branch⟩ := chosen_of_placement placed
    obtain ⟨zone, labels⟩ := chosen.unique h
    obtain ⟨subdomain, more⟩ := List.cons.inj labels
    obtain ⟨subdomain, branch, zone⟩ := p
    subst_vars
    rfl

theorem resolve_eq_zoneNotConfigured_iff :
    resolve zones host = .error (.zoneNotConfigured host) ↔
      ∀ z ∈ zones, ∀ labels, ¬ z.Matches (normalize host) labels := by
  rw [← placement?_eq_none_iff, resolve]
  cases placement? zones (normalize host) with
  | none => simp
  | some p =>
    by_cases permitted : p.zone.permits p.branch = true <;> simp [permitted]

/-- Where no host can lie in two zones of one name, the order of the zones does not matter. -/
theorem Chosen.perm {zones' : List Zone} (h : Chosen zones host z labels)
    (order : zones.Perm zones') (distinct : (zones.map (·.name)).Nodup) :
    Chosen zones' host z labels := by
  refine ⟨h.above, fun other ho => h.longest other (order.mem_iff.mpr ho), ?_⟩
  obtain ⟨before, after, split⟩ := List.append_of_mem (order.mem_iff.mp h.mem)
  refine ⟨before, after, split, fun other ho same => ?_⟩
  have distinct' : (zones'.map (·.name)).Nodup := (order.map _).nodup_iff.mp distinct
  rw [split, List.map_append, List.map_cons] at distinct'
  have once := (List.nodup_cons.mp (List.nodup_append.mp distinct').2.1).1
  exact once (same ▸ List.mem_map_of_mem ho)

theorem resolve_perm {zones' : List Zone} (order : zones.Perm zones')
    (distinct : (zones.map (·.name)).Nodup) (host : String) :
    resolve zones' host = resolve zones host := by
  cases placed : placement? zones (normalize host) with
  | none =>
    have unmatched := placement?_eq_none_iff.mp placed
    have unmatched' : ∀ z ∈ zones', ∀ labels, ¬ z.Matches (normalize host) labels :=
      fun z hz => unmatched z (order.mem_iff.mpr hz)
    rw [resolve_eq_zoneNotConfigured_iff.mpr unmatched,
      resolve_eq_zoneNotConfigured_iff.mpr unmatched']
  | some p =>
    obtain ⟨more, chosen, -⟩ := chosen_of_placement placed
    rw [resolve_of_chosen chosen, resolve_of_chosen (chosen.perm order distinct)]

/-- A host that is placed belongs to the zone of its parts, and the zone allows the branch. -/
theorem chosen_of_resolve (h : resolve zones host = .ok p) :
    ∃ more, Chosen zones (normalize host) p.zone (p.subdomain :: more) ∧
      p.branch = join "." more ∧ p.zone.Allows p.branch := by
  rw [resolve] at h
  cases placed : placement? zones (normalize host) with
  | none => simp [placed] at h
  | some q =>
    obtain ⟨more, chosen, branch⟩ := chosen_of_placement placed
    simp only [placed] at h
    split at h
    · next permitted =>
      obtain rfl := Except.ok.inj h
      refine ⟨more, chosen, branch, (Zone.permits_iff ?_).mp permitted⟩
      rw [branch]
      exact chosen.above.lower
    · cases h

/-- The parts of a host spell its normal form. -/
theorem spells_of_resolve (h : resolve zones host = .ok p) : normalize host =
    p.subdomain ++ (if p.branch = "" then "" else "." ++ p.branch) ++ "." ++ p.zone.name := by
  obtain ⟨more, chosen, branch, -⟩ := chosen_of_resolve h
  rw [branch]
  exact chosen.above.spells_parts

/-- What placing a host comes to, for all zones and all hosts. -/
structure Placed (zones : List Zone) (host : String) : Prop where
  /-- It fails with the host as it was given just when the host lies below no zone. -/
  unplaced : resolve zones host = .error (.zoneNotConfigured host) ↔
    ∀ z ∈ zones, ∀ labels, ¬ z.Matches (normalize host) labels
  /-- A host that lies below some zone belongs to one. -/
  belongs : (∃ z ∈ zones, ∃ labels, z.Matches (normalize host) labels) →
    ∃ z first more, Chosen zones (normalize host) z (first :: more)
  /-- It is placed in the zone that it belongs to just when that allows the branch. -/
  placed : ∀ z first more, Chosen zones (normalize host) z (first :: more) →
    (resolve zones host = .ok ⟨first, join "." more, z⟩ ↔ z.Allows (join "." more))
  /-- Otherwise it is refused there, whatever shorter zones would allow. -/
  refused : ∀ z first more, Chosen zones (normalize host) z (first :: more) →
    ¬ z.Allows (join "." more) →
    resolve zones host = .error (.branchNotAllowed (join "." more) z.name)
  /-- Its parts spell the host in normal form. -/
  spells : ∀ p, resolve zones host = .ok p → normalize host =
    p.subdomain ++ (if p.branch = "" then "" else "." ++ p.branch) ++ "." ++ p.zone.name
  /-- The order of zones with different names does not matter. -/
  anyOrder : (zones.map (·.name)).Nodup →
    ∀ zones', zones.Perm zones' → resolve zones' host = resolve zones host

/-- Every outcome of placing a host is decided by the names of the zones and the branches
on their lists alone. -/
theorem resolve_exact (zones : List Zone) (host : String) : Placed zones host where
  unplaced := resolve_eq_zoneNotConfigured_iff
  belongs := by
    rintro ⟨z, hz, labels, h⟩
    cases placed : placement? zones (normalize host) with
    | none => exact absurd h (placement?_eq_none_iff.mp placed z hz labels)
    | some p =>
      obtain ⟨more, chosen, -⟩ := chosen_of_placement placed
      exact ⟨p.zone, p.subdomain, more, chosen⟩
  placed z first more chosen := by
    rw [resolve_of_chosen chosen, ← Zone.permits_iff chosen.above.lower]
    by_cases permitted : z.permits (join "." more) = true <;> simp [permitted]
  refused z first more chosen notAllowed := by
    rw [← Zone.permits_iff chosen.above.lower] at notAllowed
    rw [resolve_of_chosen chosen, if_neg notAllowed]
  spells p h := spells_of_resolve h
  anyOrder distinct zones' order := resolve_perm order distinct host

end CertEnrollment.Dns
