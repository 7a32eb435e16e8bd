import CertEnrollment.Proofs.Dns.Operations
import CertEnrollment.Proofs.Store.Requests
import CertEnrollment.Text.Lowercase

/-!
# Hosts and their slots

Which slot of the hash store the records of a host are in follows from its normal form alone: the
first label names the field, and what comes after it the hash, whichever of the zones the host is
placed in. So nested zones do not bring hosts together. But names in the store are in lowercase by
the Unicode rules and have no blanks at their ends, while the normal form of a name may have
capitals outside of ASCII and end in blanks, which stood before the dots that it was freed from.
Hosts that differ in nothing else share their records; all other ones never do.
-/
namespace CertEnrollment.Text

/-! ## Full lowercase -/

theorem lowercaseFrom_eq_self {before cs : List Char} (h : ∀ c ∈ cs, lowerChar c = [c]) :
    lowercaseFrom before cs = cs := by
  induction cs generalizing before with
  | nil => rfl
  | cons c cs ih =>
    obtain ⟨here, later⟩ := List.forall_mem_cons.mp h
    have small : c ≠ 'Σ' := by
      rintro rfl
      exact absurd here (by decide +kernel)
    rw [lowercaseFrom, if_neg (by simpa using small), here, ih later]
    rfl

/-- Of the characters of ASCII, lowercase concerns the capitals alone. -/
theorem lowerChar_of_ascii {c : Char} (ascii : c.toNat < 128) (small : c.toLower = c) :
    lowerChar c = [c] := by
  have runs : (lowercaseRuns.all fun r => (r.first == 65 && r.last == 90) || 128 ≤ r.first) =
      true := by decide +kernel
  have noCapital : ¬ (65 ≤ c.toNat ∧ c.toNat ≤ 90) := by
    intro capital
    have moved := congrArg Char.toNat small
    rw [toNat_toLower, if_pos capital] at moved
    omega
  have unmoved : lowercaseRuns.find? (·.holds c.toNat) = none := by
    refine List.find?_eq_none.mpr fun r hr holds => ?_
    have bounds := List.all_eq_true.mp runs r hr
    simp only [CaseRun.holds, Bool.and_eq_true, Bool.or_eq_true, decide_eq_true_eq,
      beq_iff_eq] at holds bounds
    omega
  have undotted : c ≠ 'İ' := by
    rintro rfl
    exact absurd ascii (by decide)
  rw [lowerChar, if_neg (by simpa using undotted), unmoved]

end CertEnrollment.Text

namespace CertEnrollment.Dns
open Data Interaction Store Text

/-! ## Normal forms -/

theorem dropWhile_normalizeChars (cs : List Char) :
    (normalizeChars cs).dropWhile isBlank = normalizeChars cs := by
  have front : (trimChars cs).dropWhile isBlank = trimChars cs :=
    dropWhile_dropEndWhile isBlank cs
  have same : isBlank ∘ Char.toLower = isBlank := funext isBlank_toLower
  rw [normalizeChars, List.dropWhile_map, same, dropWhile_dropEndWhile_of_eq front]

/-- The zone was made from a name and branches. -/
def Zone.Made (z : Zone) : Prop := ∃ name branches backend, z = .make name branches backend

/-- From the name of a zone, the store only drops the blanks at its end. -/
theorem Zone.Made.trim_name {z : Zone} (h : z.Made) :
    trim z.name = String.ofList (dropEndWhile isBlank z.name.toList) := by
  obtain ⟨name, branches, backend, rfl⟩ := h
  have whole : (Zone.make name branches backend).name.toList = normalizeChars name.toList := by
    simp [make, normalize]
  rw [trim, trimChars, whole, dropWhile_normalizeChars]

/-- There are no dots at the end of a normal form. -/
theorem getLast?_normalize (name : String) : (normalize name).toList.getLast? ≠ some '.' := by
  intro last
  have kept := List.head?_dropWhile_not (· == '.') (trimChars name.toList).reverse
  rw [normalize, String.toList_ofList, normalizeChars, dropEndWhile, List.map_reverse,
    List.getLast?_reverse, List.head?_map, Option.map_eq_some_iff] at last
  obtain ⟨c, first, lower⟩ := last
  rw [first, (toLower_eq_iff (by decide)).mp lower] at kept
  cases kept

/-! ## Slots -/

/-- A branch of a zone is in the hash that a zone with both names has. -/
theorem ZoneStore.hashKey_eq (z : ZoneStore) {branch : String} (h : branch ≠ "") :
    z.hashKey branch = hashKey ⟨branch ++ "." ++ z.zone⟩ "" := by
  simp [hashKey, h]

/-- The slot for a normal form. Its first label names the field, and the rest is the name of the
hash, without the blanks at its end. -/
def slotOf (name : String) : String × String :=
  let (first, rest) := cutAt '.' name.toList
  let below := String.ofList (dropEndWhile isBlank (rest.getD []))
  (ZoneStore.hashKey ⟨below⟩ "", ZoneStore.fieldName (String.ofList first))

theorem slotOf_eq {first rest : String} (noDot : '.' ∉ first.toList) :
    slotOf (first ++ "." ++ rest) =
      (ZoneStore.hashKey ⟨String.ofList (dropEndWhile isBlank rest.toList)⟩ "",
        ZoneStore.fieldName first) := by
  have cut : cutAt '.' (first ++ "." ++ rest).toList = (first.toList, some rest.toList) := by
    simpa using cutAt_append noDot rest.toList
  rw [slotOf, cut]
  simp

variable {r : Router} {a b host : String} {p q parts : HostParts}

/-- The branch and the zone of a host, or the zone alone. -/
def HostParts.below (p : HostParts) : String :=
  if p.branch = "" then p.zone.name else p.branch ++ "." ++ p.zone.name

theorem normalize_of_verify (placed : r.verify host = .ok parts) :
    normalize host = parts.subdomain ++ "." ++ parts.below ∧ '.' ∉ parts.subdomain.toList := by
  obtain ⟨more, chosen, -⟩ := chosen_of_resolve placed
  refine ⟨?_, (chosen.above.whole _ List.mem_cons_self).2⟩
  rw [spells_of_resolve placed, HostParts.below]
  split <;> simp [String.append_assoc]

/-- The slot of a host follows from its normal form, whichever zone it is placed in. -/
theorem slot?_eq (made : ∀ z ∈ r.zones, z.Made) (placed : r.verify host = .ok parts) :
    r.slot? host = some (slotOf (normalize host)) := by
  obtain ⟨spells, noDot⟩ := normalize_of_verify placed
  have trimmed := (made _ (Router.zone_mem_of_verify placed)).trim_name
  have hash : (ZoneStore.ofZone parts.zone.name).hashKey parts.branch =
      ZoneStore.hashKey ⟨String.ofList (dropEndWhile isBlank parts.below.toList)⟩ "" := by
    rw [ZoneStore.ofZone, trimmed, HostParts.below]
    by_cases direct : parts.branch = ""
    · rw [if_pos direct, direct]
    · have ends : dropEndWhile isBlank (parts.branch ++ "." ++ parts.zone.name).toList =
          parts.branch.toList ++ '.' :: dropEndWhile isBlank parts.zone.name.toList := by
        simpa using dropEndWhile_append_cons (by decide) parts.branch.toList parts.zone.name.toList
      rw [if_neg direct, ends, ZoneStore.hashKey_eq _ direct]
      simp [String.ofList_append, String.append_assoc]
  rw [Router.slot?, placed, spells, slotOf_eq noDot, ← hash]

/-! ## Names that the store does not change -/

/-- The characters are in lowercase by the Unicode rules, and there is no blank at the end. -/
structure Plain (name : String) : Prop where
  small : ∀ c ∈ name.toList, lowerChar c = [c]
  ends : ∀ c ∈ name.toList.getLast?, isBlank c = false

/-- In ASCII, only blanks at the end can be in the way. -/
theorem plain_of_ascii (ascii : (host.toList.all (·.toNat < 128)) = true)
    (ends : ((normalize host).toList.getLast?.any isBlank) = false) : Plain (normalize host) := by
  refine ⟨fun c hc => lowerChar_of_ascii ?_ (toLower_of_mem_normalize host hc), fun c hc => ?_⟩
  · rw [normalize, String.toList_ofList, normalizeChars] at hc
    obtain ⟨d, hd, rfl⟩ := List.mem_map.mp hc
    have bound : d.toNat < 128 := of_decide_eq_true
      (List.all_eq_true.mp ascii d (mem_of_mem_trimChars (mem_of_mem_dropEndWhile hd)))
    rw [toNat_toLower]
    split <;> omega
  · rw [Option.mem_def.mp hc] at ends
    exact ends

theorem lowercase_eq_self {name : String} (h : ∀ c ∈ name.toList, lowerChar c = [c]) :
    lowercase name = name := by
  rw [lowercase, lowercaseFrom_eq_self h, String.ofList_toList]

/-- A plain name is spelled out by its slot. -/
theorem slotOf_of_plain {first rest : String} (noDot : '.' ∉ first.toList)
    (plain : Plain (first ++ "." ++ rest))
    (noDots : (first ++ "." ++ rest).toList.getLast? ≠ some '.') :
    slotOf (first ++ "." ++ rest) = (rest ++ ".", first) := by
  obtain ⟨small, ends⟩ := plain
  obtain ⟨smallFirst, smallDot, smallRest⟩ : (∀ c ∈ first.toList, lowerChar c = [c]) ∧
      lowerChar '.' = ['.'] ∧ ∀ c ∈ rest.toList, lowerChar c = [c] := by
    simpa [or_imp, forall_and] using small
  have last : (first ++ "." ++ rest).toList.getLast? =
      some (rest.toList.getLast?.getD '.') := by
    simp [List.getLast?_cons]
  rw [last] at ends noDots
  have kept : dropEndWhile isBlank rest.toList = rest.toList :=
    dropEndWhile_eq_self fun c hc => ends c (by simp [Option.mem_def.mp hc])
  have undotted : rest.toList.getLast? ≠ some '.' := fun dot => noDots (by simp [dot])
  have smallKey : ∀ c ∈ (rest ++ ".").toList, lowerChar c = [c] := by
    simpa [or_imp, forall_and] using ⟨smallRest, smallDot⟩
  rw [slotOf_eq noDot, kept, String.ofList_toList, ZoneStore.fieldName,
    lowercase_eq_self smallFirst]
  simp [ZoneStore.hashKey, undotted, lowercase_eq_self smallKey]

/-- Hosts with plain names have slots of their own. -/
theorem normalize_eq_of_slotOf (placedA : r.verify a = .ok p) (placedB : r.verify b = .ok q)
    (plainA : Plain (normalize a)) (plainB : Plain (normalize b))
    (same : slotOf (normalize a) = slotOf (normalize b)) : normalize a = normalize b := by
  have spelled : ∀ {host parts}, r.verify host = .ok parts → Plain (normalize host) →
      slotOf (normalize host) = (parts.below ++ ".", parts.subdomain) := by
    intro host parts placed plain
    obtain ⟨spells, noDot⟩ := normalize_of_verify placed
    have noDots := getLast?_normalize host
    rw [spells] at plain noDots ⊢
    exact slotOf_of_plain noDot plain noDots
  rw [spelled placedA plainA, spelled placedB plainB] at same
  obtain ⟨rests, firsts⟩ := Prod.mk.inj same
  rw [(normalize_of_verify placedA).1, (normalize_of_verify placedB).1, firsts,
    (String.append_left_inj _).mp rests]

/-! ## What is done to a host -/

/-- Whatever is answered, an operation asks the hash store for the slot of its host alone. -/
theorem Operation.asks_slot {memory : Router.Memory} (reached : r.Reached memory)
    (op : Operation) : ((op.action r).run.run memory).Asks
      fun request => ∀ x, request = .store x → r.slot? op.host = some x.slot := by
  cases fault : r.fault? op.host with
  | some e =>
    rw [Operation.run_of_fault reached.sound fault]
    trivial
  | none =>
    refine (Operation.obeys_of_faultless (t := []) reached.sound fault).asks.imp ?_
    rintro _ ⟨parts, placed, permitted⟩ x rfl
    obtain ⟨s, served, slot⟩ := permitted
    have zone : s = .ofZone parts.zone.name :=
      congrArg ZoneStore.mk (Router.kind_of_backendOf served).2
    rw [Router.slot?, placed, slot, zone]

/-- The site after some operations, whatever their outcomes. -/
def Site.performAll (r : Router) (ops : List Operation) (site : Site) : Site :=
  ops.foldl (fun site op => (site.perform (op.action r)).2) site

theorem reached_perform {site : Site} (reached : r.Reached site.memory) (op : Operation) :
    r.Reached (site.perform (op.action r)).2.memory := by
  obtain ⟨t, run⟩ := exists_runs answerFrom ((op.action r).run.run site.memory) site.table
  exact reached.after run

/-- Operations on other slots leave a slot as it is. -/
theorem get?_performAll_of_ne {key field : String} {ops : List Operation} {site : Site}
    (reached : r.Reached site.memory)
    (others : ∀ op ∈ ops, r.slot? op.host ≠ some (key, field)) :
    (site.performAll r ops).table.get? key field = site.table.get? key field := by
  induction ops generalizing site with
  | nil => rfl
  | cons op ops ih =>
    obtain ⟨other, others⟩ := List.forall_mem_cons.mp others
    have step : (site.perform (op.action r)).2.table.get? key field =
        site.table.get? key field := by
      refine (op.asks_slot reached).untouched (·.get? key field) ?_ site.table
      intro request own table
      cases request with
      | connect options => rfl
      | store x => exact x.get?_respond_of_ne table fun same => other (same ▸ own x rfl)
      | exchange request => rfl
    exact (ih (reached_perform reached op) others).trans step

/-- What two hosts that are placed have to do with each other in the hash store. -/
structure OwnSlots (r : Router) (a b : String) : Prop where
  /-- The slot of each is that of its normal form, -/
  first : r.slot? a = some (slotOf (normalize a))
  second : r.slot? b = some (slotOf (normalize b))
  /-- and these are different for different normal forms that the store does not change. -/
  apart : Plain (normalize a) → Plain (normalize b) → normalize a ≠ normalize b →
    r.slot? a ≠ r.slot? b
  /-- Whatever is answered to it, no operation on the one asks for another slot than its own. -/
  requests : ∀ op : Operation, op.host = a → ∀ memory, r.Reached memory →
    ∀ u y, Becomes ((op.action r).run.run memory) u y →
      ∀ e ∈ u, ∀ x, e.request = .store x → x.slot = slotOf (normalize a)
  /-- So if the slots are different, nothing that is done to the one changes the records of the
  other. -/
  unchanged : r.slot? a ≠ r.slot? b → ∀ ops : List Operation, (∀ op ∈ ops, op.host = a) →
    ∀ site : Site, r.Reached site.memory → ∀ key field, r.slot? b = some (key, field) →
      (site.performAll r ops).table.get? key field = site.table.get? key field

/-- Hosts of all zones, nested or not, share records just when their normal forms have one slot. -/
theorem own_slots (made : ∀ z ∈ r.zones, z.Made) (placedA : r.verify a = .ok p)
    (placedB : r.verify b = .ok q) : OwnSlots r a b where
  first := slot?_eq made placedA
  second := slot?_eq made placedB
  apart plainA plainB different shared := by
    rw [slot?_eq made placedA, slot?_eq made placedB] at shared
    exact different
      (normalize_eq_of_slotOf placedA placedB plainA plainB (Option.some.inj shared))
  requests op host memory reached u y going e he x asked := by
    have own := (going.asks (op.asks_slot reached)).1 e he x asked
    rw [host, slot?_eq made placedA] at own
    exact (Option.some.inj own).symm
  unchanged different ops all site reached key field slot :=
    get?_performAll_of_ne reached fun op hop => by
      rw [all op hop, ← slot]
      exact different

/-- A router over zones in a hash store. -/
def inHashes (names : List String) : Router where
  zones := names.map fun name => .make name [] none
  options := Options.empty.withCoredns .default
  defaultKind := .coredns

theorem made_inHashes (names : List String) : ∀ z ∈ (inHashes names).zones, z.Made := by
  intro z hz
  obtain ⟨name, -, rfl⟩ := List.mem_map.mp hz
  exact ⟨name, [], none, rfl⟩

/-- A host and a host below a nested zone of its name. -/
theorem own_slots_nested :
    (∀ z ∈ (inHashes ["org", "a.org"]).zones, z.Made) ∧
      ((inHashes ["org", "a.org"]).verify "A.org.").isOk = true ∧
      ((inHashes ["org", "a.org"]).verify "a.a.org").isOk = true ∧
      OwnSlots (inHashes ["org", "a.org"]) "A.org." "a.a.org" ∧
      (inHashes ["org", "a.org"]).slot? "A.org." ≠ (inHashes ["org", "a.org"]).slot? "a.a.org" := by
  have accepted : ((inHashes ["org", "a.org"]).verify "A.org.").isOk = true := by decide +kernel
  have accepted' : ((inHashes ["org", "a.org"]).verify "a.a.org").isOk = true := by decide +kernel
  refine ⟨made_inHashes _, accepted, accepted', ?_⟩
  cases placed : (inHashes ["org", "a.org"]).verify "A.org." with
  | error e =>
    rw [placed] at accepted
    cases accepted
  | ok p =>
    cases placed' : (inHashes ["org", "a.org"]).verify "a.a.org" with
    | error e =>
      rw [placed'] at accepted'
      cases accepted'
    | ok q =>
      have own := own_slots (made_inHashes _) placed placed'
      refine ⟨own, own.apart ?_ ?_ (by decide +kernel)⟩
      · exact plain_of_ascii (by decide +kernel) (by decide +kernel)
      · exact plain_of_ascii (by decide +kernel) (by decide +kernel)

/-- The Kelvin sign is no capital of ASCII, but its lowercase form is a `k`: a deletion for the host
with the sign removes the record that was created for the host with the letter. -/
theorem kelvin_sign_shared :
    ((inHashes ["org"]).verify "k.org").isOk = true ∧
      ((inHashes ["org"]).verify "\u212a.org").isOk = true ∧
      normalize "k.org" ≠ normalize "\u212a.org" ∧
      (inHashes ["org"]).slot? "k.org" = some ("org.", "k") ∧
      (inHashes ["org"]).slot? "\u212a.org" = some ("org.", "k") ∧
      ((⟨.fresh, .empty⟩ : Site).performAll (inHashes ["org"])
        [.create "k.org" "t.ca"]).table.get? "org." "k" =
          some "\x7b\"cname\":[\x7b\"host\":\"t.ca\"\x7d]\x7d" ∧
      ((⟨.fresh, .empty⟩ : Site).performAll (inHashes ["org"])
        [.create "k.org" "t.ca", .delete "\u212a.org"]).table.get? "org." "k" = none := by
  decide +kernel

/-- A zone whose name keeps a blank before a dot has its hosts in the hash of another zone. -/
example : normalize "x.a ." = "x.a " ∧
    (inHashes ["a .", "a"]).slot? "x.a ." = (inHashes ["a .", "a"]).slot? "x.a" := by
  decide +kernel

end CertEnrollment.Dns
