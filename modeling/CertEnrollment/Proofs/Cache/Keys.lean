import CertEnrollment.Cache.Prefetch
import CertEnrollment.Proofs.Enrollment.SameHost

/-!
# The keys of cache entries

A key lists the names of a set with commas between them, and the first label of a name may
have commas of its own. But a name that is placed in a zone has a dot after its first label,
and where zones and branches are free of commas, so is all the rest. So the list can be read
back: a name begins up to the next dot, and it ends at the next comma after that.
-/
namespace CertEnrollment.Text
variable {sep : Char}

theorem intercalate_append (start first : List Char) (pieces : List (List Char)) :
    [sep].intercalate ((start ++ first) :: pieces) = start ++ [sep].intercalate (first :: pieces) := by
  cases pieces with
  | nil => simp
  | cons second more => simp [List.intercalate_cons_cons]

/-- Cutting at the first separator gives the first piece, and the others if there are any. -/
theorem cutAt_intercalate {first : List Char} {pieces : List (List Char)} (h : sep ∉ first) :
    cutAt sep ([sep].intercalate (first :: pieces)) =
      (first, if pieces = [] then none else some ([sep].intercalate pieces)) := by
  by_cases last : pieces = []
  · simp [last, cutAt_of_not_mem h]
  · rw [intercalate_cons_of_ne_nil last, cutAt_append h, if_neg last]

/-- There is a dot in the text, and commas stand before the first one only. -/
def CommasFirst (cs : List Char) : Prop :=
  ∃ first rest, cs = first ++ '.' :: rest ∧ '.' ∉ first ∧ ',' ∉ rest

/-- What stands before the first dot, and what stands after it. -/
theorem cutAt_dot {first rest : List Char} {more : List (List Char)} (noDot : '.' ∉ first) :
    cutAt '.' ([','].intercalate ((first ++ '.' :: rest) :: more)) =
      (first, some ([','].intercalate (rest :: more))) := by
  have whole : [','].intercalate ((first ++ '.' :: rest) :: more) =
      first ++ '.' :: [','].intercalate (rest :: more) := by
    rw [intercalate_append]
    exact congrArg (first ++ ·) (intercalate_append ['.'] rest more)
  rw [whole, cutAt_append noDot]

/-- Texts of this kind can be told apart when there are commas between them. -/
theorem eq_of_intercalate {as bs : List (List Char)} (ha : ∀ a ∈ as, CommasFirst a)
    (hb : ∀ b ∈ bs, CommasFirst b) (same : [','].intercalate as = [','].intercalate bs) :
    as = bs := by
  induction as generalizing bs with
  | nil =>
    cases bs with
    | nil => rfl
    | cons b bs =>
      obtain ⟨first, rest, rfl, -⟩ := hb b List.mem_cons_self
      simp [intercalate_append] at same
  | cons a as ih =>
    obtain ⟨⟨first, rest, rfl, noDot, noComma⟩, laterA⟩ := List.forall_mem_cons.mp ha
    cases bs with
    | nil => simp [intercalate_append] at same
    | cons b bs =>
      obtain ⟨⟨first', rest', rfl, noDot', noComma'⟩, laterB⟩ := List.forall_mem_cons.mp hb
      -- both are cut at the first dot, and what follows at its first comma
      have begins := congrArg (cutAt '.') same
      rw [cutAt_dot noDot, cutAt_dot noDot'] at begins
      obtain ⟨rfl, rests⟩ := Prod.mk.inj begins
      have ends := congrArg (cutAt ',') (Option.some.inj rests)
      rw [cutAt_intercalate noComma, cutAt_intercalate noComma'] at ends
      obtain ⟨rfl, others⟩ := Prod.mk.inj ends
      refine congrArg _ ?_
      split at others
      · next none_there =>
        split at others
        · next none_there' => rw [none_there, none_there']
        · cases others
      · split at others
        · cases others
        · exact ih laterA laterB (Option.some.inj others)

/-- If there are commas in it, what stands before the first one has no dot. -/
theorem CommasFirst.exists_piece {cs : List Char} (h : CommasFirst cs) (comma : ',' ∈ cs) :
    ∃ piece ∈ splitAt ',' cs, '.' ∉ piece := by
  obtain ⟨first, rest, rfl, noDot, noComma⟩ := h
  have inside : ',' ∈ first := by simpa [noComma] using comma
  obtain ⟨piece, more, rfl, free⟩ := List.eq_append_cons_of_mem inside
  have one : splitAt ',' piece = [piece] := splitAt_eq_iff.mpr (by simpa using free)
  refine ⟨piece, ?_, fun dot => noDot (List.mem_append_left _ dot)⟩
  rw [List.append_assoc, List.cons_append, splitAt_append, one]
  exact List.mem_append_left _ List.mem_cons_self

end CertEnrollment.Text

namespace CertEnrollment.Dns
open Cache Text
variable {zones : List Zone} {name : String} {p : HostParts}

/-- No zone and no branch on the list of one has a comma in it. -/
def CommaFree (zones : List Zone) : Prop :=
  ∀ z ∈ zones, ',' ∉ z.name.toList ∧ ∀ b ∈ z.branches, ',' ∉ b.toList

theorem Zone.Allows.commaFree {z : Zone} {branch : String} (h : z.Allows branch)
    (free : ∀ b ∈ z.branches, ',' ∉ b.toList) : ',' ∉ branch.toList := by
  rcases h with rfl | listed | ⟨front, listed⟩
  · simp
  · exact free branch listed
  · intro comma
    exact free _ listed (by simp [comma])

theorem mem_of_mem_normalize {d : Char} (sign : d.toNat < 65) (h : d ∈ (normalize name).toList) :
    d ∈ name.toList := by
  rw [normalize, String.toList_ofList, normalizeChars, mem_map_toLower sign] at h
  exact mem_of_mem_trimChars (mem_of_mem_dropEndWhile h)

/-- A name that is placed has a dot. -/
theorem dot_mem_of_resolve (h : resolve zones name = .ok p) : '.' ∈ name.toList := by
  refine mem_of_mem_normalize (by decide) ?_
  rw [spells_of_resolve h]
  simp

/-- The branches on a list are normal forms, without the commas of the names they are of. -/
theorem Zone.make_commaFree {branches : List String} {backend : Option BackendKind}
    (free : ∀ b ∈ branches, ',' ∉ b.toList) :
    ∀ b ∈ (Zone.make name branches backend).branches, ',' ∉ b.toList := by
  intro b hb comma
  obtain ⟨branch, listed, rfl⟩ := List.mem_map.mp (Data.mem_distinct.mp hb)
  exact free branch listed (mem_of_mem_normalize (by decide) comma)

/-- A name in canonical form is its normal form, maybe with dots at the end. -/
theorem exists_canonical_eq (name : String) :
    ∃ dots, (DomainSet.canonical name).toList = (normalize name).toList ++ dots ∧
      ∀ c ∈ dots, c = '.' := by
  obtain ⟨dots, same, all⟩ :=
    exists_dropEndWhile_append (· == '.') (DomainSet.canonical name).toList
  refine ⟨dots, ?_, fun c hc => by simpa using all c hc⟩
  rw [normalize_eq_withoutDots, withoutDots, String.toList_ofList, ← same]

/-- A name that is placed has commas in its first label only. -/
theorem commasFirst_of_resolve (free : CommaFree zones) (h : resolve zones name = .ok p) :
    CommasFirst (DomainSet.canonical name).toList := by
  obtain ⟨more, chosen, -, allowed⟩ := chosen_of_resolve h
  obtain ⟨zoneFree, branchesFree⟩ := free p.zone chosen.mem
  have noDot : '.' ∉ p.subdomain.toList := (chosen.above.whole _ List.mem_cons_self).2
  have branchFree := allowed.commaFree branchesFree
  obtain ⟨dots, whole, all⟩ := exists_canonical_eq name
  have dotsFree : ',' ∉ dots := fun comma => by cases all _ comma
  rw [whole, spells_of_resolve h]
  by_cases direct : p.branch = ""
  · refine ⟨p.subdomain.toList, p.zone.name.toList ++ dots, ?_, noDot, ?_⟩
    · simp [direct]
    · simp [zoneFree, dotsFree]
  · refine ⟨p.subdomain.toList, p.branch.toList ++ '.' :: p.zone.name.toList ++ dots, ?_, noDot, ?_⟩
    · simp [direct]
    · simp [branchFree, zoneFree, dotsFree]

end CertEnrollment.Dns

namespace CertEnrollment.Cache
open Dns Text
variable {zones : List Zone} {names names' : List String}

/-- All the names are placed in some zone. -/
def Placeable (zones : List Zone) (names : List String) : Prop :=
  ∀ n ∈ names, ∃ p, resolve zones n = .ok p

theorem placeable_of_all (h : (names.all fun n => (resolve zones n).toOption.isSome) = true) :
    Placeable zones names := by
  intro n hn
  obtain ⟨p, resolved⟩ := Option.isSome_iff_exists.mp (List.all_eq_true.mp h n hn)
  exact ⟨p, Data.eq_ok_of_toOption resolved⟩

theorem DomainSet.commasFirst (free : CommaFree zones) (placed : Placeable zones names) :
    ∀ n ∈ (DomainSet.ofNames names).names.map String.toList, CommasFirst n := by
  intro cs hcs
  obtain ⟨n, hn, rfl⟩ := List.mem_map.mp hcs
  obtain ⟨listed, -⟩ := List.mem_filter.mp (mem_sort.mp hn)
  obtain ⟨name, hname, rfl⟩ := List.mem_map.mp listed
  obtain ⟨p, resolved⟩ := placed name hname
  exact commasFirst_of_resolve free resolved

theorem text_eq_of_entryKey {a b : DomainSet} (same : entryKey a = entryKey b) :
    a.text = b.text := by
  have keys : "zerossl:prefetch:" ++ a.text = "zerossl:prefetch:" ++ b.text := same
  have texts := congrArg String.toList keys
  rw [String.toList_append, String.toList_append] at texts
  exact String.toList_inj.mp (List.append_cancel_left texts)

/-- The entries of different sets have different keys. -/
theorem entryKey_inj (free : CommaFree zones) (placed : Placeable zones names)
    (placed' : Placeable zones names')
    (same : entryKey (.ofNames names) = entryKey (.ofNames names')) :
    DomainSet.ofNames names = .ofNames names' := by
  have texts := congrArg String.toList (text_eq_of_entryKey same)
  simp only [DomainSet.text, toList_join] at texts
  have spelled := eq_of_intercalate (DomainSet.commasFirst free placed)
    (DomainSet.commasFirst free placed') texts
  exact DomainSet.ext ((List.map_inj_right fun _ _ => String.toList_inj.mp).mp spelled)

end CertEnrollment.Cache
