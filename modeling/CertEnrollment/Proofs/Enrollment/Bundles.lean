import CertEnrollment.Enrollment.Bundle
import CertEnrollment.Proofs.Encoding.Base64
import CertEnrollment.Proofs.Encoding.LeadingBlock

/-!
# Bundles and their leaves

The bundle and the bytes of a certificate are made in two ways: the one appends texts, the other
reads a block. Both are about the same certificate, since a text leads with the same block however
it goes on, and so the authority's certificates behind it have no say in what the leaf is.
-/
namespace CertEnrollment.Enrollment
open Authority

variable {certificate : String} {bytes : List UInt8} {d : Download} {issued : Cache.Issued}

/-- A text has a leaf when it leads with a block that is tagged as a certificate and is one. -/
theorem leaf_eq_ok_iff : leaf certificate = .ok bytes ↔
    (Pem.Block.mk certificateTag bytes).Leads certificate.toList ∧
      X509.isCertificate bytes = true := by
  rw [leaf, ← Pem.first?_eq_some_iff]
  cases Pem.Block.first? certificate.toList with
  | none => simp
  | some b =>
    obtain ⟨tag, content⟩ := b
    by_cases tagged : tag = certificateTag
    · by_cases fits : X509.isCertificate content = true <;> simp [tagged, fits]
      · exact fun same => same ▸ fits
      · exact fun same => same ▸ by simpa using fits
    · simp [tagged]

theorem error_of_leaf {e : Error} (h : leaf certificate = .error e) :
    ∃ reason, e = .certificate reason := by
  rw [leaf] at h
  split at h
  · exact ⟨_, (Except.error.inj h).symm⟩
  · split at h
    · exact ⟨_, (Except.error.inj h).symm⟩
    · split at h
      · cases h
      · exact ⟨_, (Except.error.inj h).symm⟩

theorem bundle_eq_ok_iff : bundle d = .ok issued ↔ ∃ bytes, leaf d.certificate = .ok bytes ∧
    issued = ⟨d.certificate ++ "\n" ++ d.caBundle ++ "\n" ++ d.caBundle, Base64.encode bytes⟩ := by
  have joined : Text.join "\n" [d.certificate, d.caBundle, d.caBundle] =
      d.certificate ++ "\n" ++ d.caBundle ++ "\n" ++ d.caBundle :=
    String.toList_inj.mp (by simp [Text.join, List.intercalate_cons_cons])
  rw [bundle, joined]
  cases leaf d.certificate <;> simp [Except.map, eq_comm]

/-- What the bundle of a download tells about its leaf. -/
structure DescribesLeaf (d : Download) : Prop where
  /-- There is one just when the text of the certificate leads with a certificate. -/
  made : (∃ issued, bundle d = .ok issued) ↔
    ∃ bytes, (Pem.Block.mk certificateTag bytes).Leads d.certificate.toList ∧
      X509.isCertificate bytes = true
  /-- Otherwise it is refused, whatever certificates are above it. -/
  refused : (∀ b : Pem.Block, b.Leads d.certificate.toList → b.tag = certificateTag →
      X509.isCertificate b.bytes = false) →
    ∀ caBundle, ∃ reason, bundle ⟨d.certificate, caBundle⟩ = .error (.certificate reason)
  /-- The bundle is the three texts on their own lines. It leads with the certificate of which
  the bytes are given, and these bytes are one. -/
  agrees : ∀ issued, bundle d = .ok issued →
    issued.bundle = d.certificate ++ "\n" ++ d.caBundle ++ "\n" ++ d.caBundle ∧
      ∃ bytes, (Pem.Block.mk certificateTag bytes).Leads issued.bundle.toList ∧
        Base64.decode? issued.raw.toList = some bytes ∧ X509.isCertificate bytes = true

/-- The bundle of every download and the bytes that come with it describe one certificate. -/
theorem bundle_leads_with_leaf (d : Download) : DescribesLeaf d where
  made := by
    simp only [bundle_eq_ok_iff, leaf_eq_ok_iff]
    exact ⟨fun ⟨_, bytes, leads, _⟩ => ⟨bytes, leads⟩, fun ⟨bytes, leads⟩ => ⟨_, bytes, leads, rfl⟩⟩
  refused none_there caBundle := by
    cases found : leaf d.certificate with
    | ok bytes =>
      obtain ⟨leads, fits⟩ := leaf_eq_ok_iff.mp found
      exact absurd (none_there _ leads rfl) (by simp [fits])
    | error e =>
      obtain ⟨reason, rfl⟩ := error_of_leaf found
      exact ⟨reason, by simp [bundle, found, Except.map]⟩
  agrees issued made := by
    obtain ⟨bytes, found, rfl⟩ := bundle_eq_ok_iff.mp made
    obtain ⟨leads, fits⟩ := leaf_eq_ok_iff.mp found
    refine ⟨rfl, bytes, ?_, ?_, fits⟩
    · simp only [String.toList_append, List.append_assoc]
      exact leads.append _
    · rw [Base64.encode, String.toList_ofList]
      exact Base64.decode?_encodeBytes bytes

end CertEnrollment.Enrollment
