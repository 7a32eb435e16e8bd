import CertEnrollment.Proofs.Dns.HostSlots
import CertEnrollment.Proofs.Text.Trimming

/-!
# Normal forms of names

A name is freed of the blanks around it, then of the dots at its end, and then brought into ASCII
lowercase. Lowercasing brings neither blanks nor dots to light, and dropping dots at the end does
nothing to the front. But it uncovers what stands before the dots, and if that is a blank, it stays
there: the name is not in normal form, a zone that is made again from its own name is another one,
and the backends, which trim the name once more, serve a zone of another name. Nothing else is ever
missing from a normal form, and these are the only names for which that is.
-/
namespace CertEnrollment.Dns
open Data Text
variable {name : String} {branches : List String} {backend : Option BackendKind}

/-! ## Names that stay as they are -/

/-- The name ends in a blank. -/
def EndsBlank (name : String) : Prop := ∃ c ∈ name.toList.getLast?, isBlank c = true

instance (name : String) : Decidable (EndsBlank name) :=
  decidable_of_iff (name.toList.getLast?.any isBlank = true) (Option.any_eq_true _ _)

theorem normalize_trim (name : String) : normalize (trim name) = normalize name := by
  rw [normalize, normalize, normalizeChars, normalizeChars, trim, String.toList_ofList,
    trimChars_trimChars]

theorem normalize_eq_self {name : String} (front : ∀ c ∈ name.toList.head?, isBlank c = false)
    (back : ¬ EndsBlank name) (noDot : name.toList.getLast? ≠ some '.')
    (lower : ∀ c ∈ name.toList, c.toLower = c) : normalize name = name := by
  have trimmed : trimChars name.toList = name.toList := by
    rw [trimChars, dropWhile_eq_self front, dropEndWhile_eq_self]
    exact fun c hc => by simpa using fun blank => back ⟨c, hc, blank⟩
  have undotted : dropEndWhile (· == '.') name.toList = name.toList := by
    refine dropEndWhile_eq_self fun c hc => ?_
    rw [beq_eq_false_iff_ne]
    rintro rfl
    exact noDot hc
  rw [normalize, normalizeChars, trimmed, undotted, List.map_congr_left lower, List.map_id',
    String.ofList_toList]

/-- Names that normalizing does not change do not end in a blank. -/
theorem not_endsBlank_of_normalize {name : String} (same : normalize name = name) :
    ¬ EndsBlank name := by
  rintro ⟨c, last, blank⟩
  have lengths := congrArg List.length (congrArg String.toList same)
  rw [normalize, String.toList_ofList, normalizeChars, List.length_map] at lengths
  have shorter := (dropEndWhile_sublist (· == '.') (trimChars name.toList)).length_le
  have trimmed : trimChars name.toList = name.toList :=
    (trimChars_sublist name.toList).eq_of_length_le (lengths ▸ shorter)
  rw [← trimmed] at last
  rw [getLast?_trimChars c last] at blank
  cases blank

/-- There are no blanks around the name, no dots at its end, and no ASCII capitals in it. -/
structure Normal (name : String) : Prop where
  front : ∀ c ∈ name.toList.head?, isBlank c = false
  back : ¬ EndsBlank name
  noDot : name.toList.getLast? ≠ some '.'
  noCapital : ∀ c ∈ name.toList, c.isUpper = false

theorem head?_normalize (name : String) :
    ∀ c ∈ (normalize name).toList.head?, isBlank c = false := by
  rw [normalize, String.toList_ofList]
  exact head?_of_dropWhile_eq_self (dropWhile_normalizeChars name.toList)

theorem isUpper_of_mem_normalize {c : Char} (h : c ∈ (normalize name).toList) :
    c.isUpper = false :=
  toLower_eq_self_iff.mp (toLower_of_mem_normalize name h)

/-- A blank at the end is all that can be left to do. -/
theorem normal_normalize_iff : Normal (normalize name) ↔ ¬ EndsBlank (normalize name) :=
  ⟨Normal.back, fun back => ⟨head?_normalize name, back, getLast?_normalize name,
    fun _ => isUpper_of_mem_normalize⟩⟩

theorem normalize_eq_self_iff : normalize name = name ↔ Normal name := by
  constructor
  · intro same
    have back := not_endsBlank_of_normalize same
    rw [← same] at back ⊢
    exact normal_normalize_iff.mpr back
  · intro h
    exact normalize_eq_self h.front h.back h.noDot fun c hc =>
      toLower_eq_self_iff.mpr (h.noCapital c hc)

/-- Trimming once more takes away what is left. -/
theorem trim_normalize_eq_iff :
    trim (normalize name) = normalize name ↔ ¬ EndsBlank (normalize name) := by
  rw [← String.toList_inj, trim, String.toList_ofList]
  constructor
  · rintro trimmed ⟨c, last, blank⟩
    have bare := (Bare.of_trimChars trimmed).back c last
    rw [bare] at blank
    cases blank
  · intro back
    refine Bare.trimChars_eq ⟨head?_normalize name, fun c last => ?_⟩
    exact Bool.eq_false_iff.mpr fun blank => back ⟨c, last, blank⟩

/-! ## Blanks before dots -/

/-- Up to the blanks around it, the name ends in a blank and then dots. -/
def BlankBeforeDots (name : String) : Prop :=
  ∃ front blank dots, trimChars name.toList = front ++ blank :: dots ∧ isBlank blank = true ∧
    ∀ c ∈ dots, c = '.'

theorem endsBlank_normalize_iff : EndsBlank (normalize name) ↔ BlankBeforeDots name := by
  have last : (normalize name).toList.getLast? =
      (dropEndWhile (· == '.') (trimChars name.toList)).getLast?.map Char.toLower := by
    rw [normalize, String.toList_ofList, normalizeChars, List.getLast?_map]
  rw [EndsBlank, last]
  constructor
  · rintro ⟨d, found, blank⟩
    obtain ⟨c, ends, rfl⟩ := Option.map_eq_some_iff.mp found
    obtain ⟨front, split⟩ := List.getLast?_eq_some_iff.mp ends
    obtain ⟨dots, whole, all⟩ := exists_dropEndWhile_append (· == '.') (trimChars name.toList)
    rw [isBlank_toLower] at blank
    refine ⟨front, c, dots, ?_, blank, fun d hd => beq_iff_eq.mp (all d hd)⟩
    rw [whole, split, List.append_assoc, List.singleton_append]
  · rintro ⟨front, blank, dots, whole, isBlank, all⟩
    have kept : (blank == '.') = false := by
      refine beq_eq_false_iff_ne.mpr ?_
      rintro rfl
      cases isBlank
    have gone : dropEndWhile (· == '.') dots = [] := by
      rw [← List.nil_append dots, dropEndWhile_append_of_all fun d hd => beq_iff_eq.mpr (all d hd)]
      rfl
    refine ⟨blank.toLower, ?_, by rwa [isBlank_toLower]⟩
    rw [whole, dropEndWhile_append_cons (p := (· == '.')) kept, gone, List.getLast?_concat]
    rfl

instance (name : String) : Decidable (BlankBeforeDots name) :=
  decidable_of_iff _ endsBlank_normalize_iff

theorem normalize_normalize_iff :
    normalize (normalize name) = normalize name ↔ ¬ BlankBeforeDots name := by
  rw [normalize_eq_self_iff, normal_normalize_iff, endsBlank_normalize_iff]

/-! ## Zones -/

/-- Making branches anew changes none of them just when normalizing none of them does. -/
theorem distinct_map_eq_self_iff {f : String → String} {names : List String} (h : names.Nodup) :
    distinct (names.map f) = names ↔ ∀ n ∈ names, f n = n := by
  constructor
  · intro same
    -- leaving repetitions out would make the list shorter
    have length : (distinct (names.map f)).length = (names.map f).length := by
      rw [same, List.length_map]
    have unchanged : names.map f = names :=
      ((distinct_sublist _).eq_of_length length).symm.trans same
    exact List.map_inj_left.mp (unchanged.trans names.map_id.symm)
  · intro same
    rw [List.map_congr_left same, List.map_id', distinct_eq_self h]

theorem Zone.forall_mem_branches {p : String → Prop} :
    (∀ b ∈ (make name branches backend).branches, p b) ↔ ∀ b ∈ branches, p (normalize b) := by
  simp [make, mem_distinct]

theorem Zone.make_eq_self_iff {z : Zone} (distinct : z.branches.Nodup) :
    make z.name z.branches z.backend = z ↔
      normalize z.name = z.name ∧ ∀ b ∈ z.branches, normalize b = b := by
  rw [← distinct_map_eq_self_iff distinct]
  obtain ⟨name, branches, backend⟩ := z
  simp [make]

/-- What a zone keeps of the name and of the branches that it is made from. -/
structure Zone.KeepsForms (name : String) (branches : List String) (z : Zone) : Prop where
  /-- Whatever was given, no blank comes first, no dot comes last, and there are no capitals. -/
  clean : ∀ n, n = z.name ∨ n ∈ z.branches → (∀ c ∈ n.toList.head?, isBlank c = false) ∧
    n.toList.getLast? ≠ some '.' ∧ ∀ c ∈ n.toList, c.isUpper = false
  distinct : z.branches.Nodup
  /-- The name is in normal form just when no blank stood before the dots at its end, -/
  nameNormal : Normal z.name ↔ ¬ BlankBeforeDots name
  /-- and so are the branches. -/
  branchesNormal : (∀ b ∈ z.branches, Normal b) ↔ ∀ b ∈ branches, ¬ BlankBeforeDots b
  /-- Just then, normalizing is done with when it was done once, -/
  once : ∀ n, n = name ∨ n ∈ branches →
    (normalize (normalize n) = normalize n ↔ ¬ BlankBeforeDots n)
  /-- the zone that is made from what the zone keeps has the same name, -/
  sameName : (make z.name z.branches z.backend).same z = true ↔ ¬ BlankBeforeDots name
  /-- and is the same in everything, if the branches are in order as well, -/
  again : make z.name z.branches z.backend = z ↔
    ¬ BlankBeforeDots name ∧ ∀ b ∈ branches, ¬ BlankBeforeDots b
  /-- and the name is the one that the zone has in the hash store, -/
  stored : (ZoneStore.ofZone z.name).zone = z.name ↔ ¬ BlankBeforeDots name
  /-- and at the provider. -/
  hosted : ∀ options p, Provider.ofOptions z.name options = .ok p →
    (p.zone = z.name ↔ ¬ BlankBeforeDots name)

/-- Zones keep their names and branches in normal form, but for blanks before dots at the end. -/
theorem zone_keeps_forms (name : String) (branches : List String)
    (backend : Option BackendKind) :
    (Zone.make name branches backend).KeepsForms name branches := by
  have distinct : (Zone.make name branches backend).branches.Nodup := nodup_distinct _
  have served : trim (normalize name) = normalize name ↔ ¬ BlankBeforeDots name := by
    rw [trim_normalize_eq_iff, endsBlank_normalize_iff]
  refine ⟨?_, distinct, ?_, ?_, fun n _ => normalize_normalize_iff, ?_, ?_, served, ?_⟩
  · rintro n (rfl | kept)
    · exact ⟨head?_normalize name, getLast?_normalize name, fun _ => isUpper_of_mem_normalize⟩
    · obtain ⟨b, -, rfl⟩ := List.mem_map.mp (mem_distinct.mp kept)
      exact ⟨head?_normalize b, getLast?_normalize b, fun _ => isUpper_of_mem_normalize⟩
  · exact normal_normalize_iff.trans endsBlank_normalize_iff.not
  · simp only [Zone.forall_mem_branches, normal_normalize_iff, endsBlank_normalize_iff]
  · exact beq_iff_eq.trans normalize_normalize_iff
  · rw [Zone.make_eq_self_iff distinct, Zone.forall_mem_branches]
    exact and_congr normalize_normalize_iff (by simp only [normalize_normalize_iff])
  · intro options p made
    rw [Router.ofOptions_zone made]
    exact served

/-- A zone with a blank before the dot of its name and of its branch. -/
def dottedZone : Zone := .make "a ." ["dev ."] none

/-- The blanks stay: the zone is not the one that is made from its own name, and both backends know
it under another name. -/
theorem blank_before_dot_stays :
    dottedZone.name = "a " ∧ dottedZone.branches = ["dev "] ∧ EndsBlank dottedZone.name ∧
      normalize (normalize "a .") ≠ normalize "a ." ∧
      Zone.make dottedZone.name dottedZone.branches dottedZone.backend = .make "a" ["dev"] none ∧
      Zone.make dottedZone.name dottedZone.branches dottedZone.backend ≠ dottedZone ∧
      (ZoneStore.ofZone dottedZone.name).zone = "a" ∧
      (Provider.ofOptions dottedZone.name ⟨some "user", some "token", false, none⟩).toOption.map
        (·.zone) = some "a" := by
  decide +kernel

end CertEnrollment.Dns
