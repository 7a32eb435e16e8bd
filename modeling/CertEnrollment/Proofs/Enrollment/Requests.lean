import CertEnrollment.Enrollment.Request
import CertEnrollment.Proofs.Data.Results
import CertEnrollment.Proofs.Text.Canonical

/-!
# The names of a request

A request that is accepted names at least one domain, and its names are in the form in
which locks and cache entries are named.
-/
namespace CertEnrollment.Enrollment.SigningRequest
open Cache

theorem canonical_of_mem {names : List String} {n : String} (h : n ∈ canonicalNames names) :
    DomainSet.canonical n = n ∧ n ≠ "" := by
  obtain ⟨mapped, some_there⟩ := List.mem_filter.mp (Data.mem_distinct.mp h)
  obtain ⟨name, -, rfl⟩ := List.mem_map.mp mapped
  exact ⟨DomainSet.canonical_canonical name, by simpa using some_there⟩

theorem names_of_parse {input : List UInt8} {r : SigningRequest} (h : parse input = .ok r) :
    r.names ≠ [] ∧ ∀ n ∈ r.names, DomainSet.canonical n = n ∧ n ≠ "" := by
  unfold parse at h
  split at h
  · cases h
  · next der _ =>
    cases accepted : ofDer der with
    | error e =>
      rw [accepted] at h
      cases h
    | ok r' =>
      rw [accepted] at h
      obtain rfl : r' = r := Except.ok.inj h
      unfold ofDer at accepted
      split at accepted
      · cases accepted
      · next request _ =>
        split at accepted
        · cases accepted
        · next some_there =>
          obtain rfl := Except.ok.inj accepted
          exact ⟨fun none_there => some_there none_there, fun n => canonical_of_mem⟩

/-- There is a name to lock for every request. -/
theorem ofNames_ne_nil {input : List UInt8} {r : SigningRequest} (h : parse input = .ok r) :
    (DomainSet.ofNames r.names).names ≠ [] := by
  obtain ⟨some_there, canonical⟩ := names_of_parse h
  obtain ⟨n, hn⟩ := List.exists_mem_of_ne_nil _ some_there
  obtain ⟨same, notEmpty⟩ := canonical n hn
  refine List.ne_nil_of_mem (a := n) (DomainSet.mem_sort.mpr (List.mem_filter.mpr ⟨?_, ?_⟩))
  · exact List.mem_map.mpr ⟨n, hn, same⟩
  · simpa using notEmpty

theorem exists_of_names {input : List UInt8} {names : List String}
    (h : (parse input).toOption.map (·.names) = some names) :
    ∃ r, parse input = .ok r ∧ r.names = names := by
  obtain ⟨r, parsed, same⟩ := Option.map_eq_some_iff.mp h
  exact ⟨r, Data.eq_ok_of_toOption parsed, same⟩

/-- A request for the domain `a.org`. -/
def oneDomain : List UInt8 :=
  [0x30, 0x2B, 0x30, 0x21, 0x02, 0x01, 0x00, 0x30, 0x10, 0x31, 0x0E, 0x30, 0x0C, 0x06, 0x03,
    0x55, 0x04, 0x03, 0x0C, 0x05, 0x61, 0x2E, 0x6F, 0x72, 0x67, 0x30, 0x08, 0x30, 0x03, 0x06,
    0x01, 0x2A, 0x03, 0x01, 0x00, 0xA0, 0x00, 0x30, 0x03, 0x06, 0x01, 0x2A, 0x03, 0x01, 0x00]

theorem parse_oneDomain : ∃ r, parse oneDomain = .ok r ∧ r.names = ["a.org"] :=
  exists_of_names (by decide +kernel)

end CertEnrollment.Enrollment.SigningRequest
