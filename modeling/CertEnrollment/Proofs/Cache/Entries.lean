import CertEnrollment.Cache.Prefetch
import CertEnrollment.Proofs.Json.RoundTrip

/-!
# Cache entries

An entry is read as the certificate that was written to it.
-/
namespace CertEnrollment.Cache
open Data Json

theorem Issued.value_eq (c : Issued) :
    c.value = .object [("bundle", .text c.bundle), ("raw", .text c.raw)] := by
  have order : Precedes "bundle" "raw" := by decide
  exact ofMembers_increasing (List.pairwise_pair.mpr order)

theorem Issued.read_tree (c : Issued) : Issued.read c.value.tree = .ok c := by
  rw [value_eq]
  rfl

/-- What is cached is given out again unchanged. -/
theorem decodeEntry_text (domains : DomainSet) (c : Issued) :
    decodeEntry domains c.text = .ok c := by
  have noNumbers : ∀ n ∈ numbers c.value, Exact n := by
    rw [Issued.value_eq]
    simp [numbers, numbersUnder]
  rw [decodeEntry, Issued.text, readText_write noNumbers, Issued.read_tree]
  rfl

end CertEnrollment.Cache
