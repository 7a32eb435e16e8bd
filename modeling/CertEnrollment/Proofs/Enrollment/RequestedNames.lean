import CertEnrollment.Proofs.Enrollment.Protocol

/-!
# The names of a request on their way

A request names domains in its subject and in its extensions. Brought into canonical form, each of
them once, they are the names that hosts are placed by, that locks are taken for, that the cache is
asked by, and that the certificate is ordered for. The set of domains brings names into canonical
form as well, and sorts them; as they are canonical and all different already, it neither drops one
nor makes two the same.
-/
namespace CertEnrollment.Cache.DomainSet
open Data

theorem perm_sort {names : List String} (distinct : names.Nodup) : (sort names).Perm names :=
  (List.perm_ext_iff_of_nodup (nodup_of_increasing (pairwise_sort names)) distinct).mpr
    fun _ => mem_sort

/-- The set of names that are canonical and all different has these names, in order. -/
theorem perm_ofNames {names : List String} (distinct : names.Nodup)
    (canonical : ∀ n ∈ names, DomainSet.canonical n = n ∧ n ≠ "") :
    (ofNames names).names.Perm names := by
  have same : names.map DomainSet.canonical = names :=
    (List.map_congr_left fun n hn => (canonical n hn).1).trans names.map_id'
  have filled : names.filter (· ≠ "") = names :=
    List.filter_eq_self.mpr fun n hn => by simpa using (canonical n hn).2
  change (sort ((names.map DomainSet.canonical).filter (· ≠ ""))).Perm names
  rw [same, filled]
  exact perm_sort distinct

end CertEnrollment.Cache.DomainSet

namespace CertEnrollment.Enrollment
open Authority Cache Interaction

variable {s : Setup} {input : List UInt8} {r : SigningRequest} {t : Transcript}

/-! ## Names that are asked for -/

/-- All these hosts were placed, one after the other. -/
def accepted (hosts : List String) : Transcript :=
  hosts.map fun host => ⟨.call (.place host), .ok ()⟩

/-- Requests with names in them are about the names of the signing request, and made in turn: each
host is placed when those before it are, and the rest waits until all of them are. -/
def NamesDue (r : SigningRequest) (t : Transcript) : Ask → Prop
  | .call (.place host) => ∃ before after, r.names = before ++ host :: after ∧ t = accepted before
  | .lock domains => domains = .ofNames r.names ∧ t = accepted r.names
  | .call (.cache (.read key)) => key = entryKey (.ofNames r.names) ∧ accepted r.names <+: t
  | .call (.cache (.write key _ _)) => key = entryKey (.ofNames r.names) ∧ accepted r.names <+: t
  | .call (.create names _ _) => names = r.names ∧ accepted r.names <+: t
  | _ => True

theorem namesDue_placeAll {before hosts : List String} (split : r.names = before ++ hosts) :
    (placeAll hosts).run.Obeys (NamesDue r)
      (fun u result => result = .ok () → u = accepted r.names) (accepted before) := by
  induction hosts generalizing before with
  | nil =>
    intro _
    rw [split, List.append_nil]
  | cons host hosts ih =>
    rw [placeAll]
    have placing : (Call.orFail (Call.place host).make ""
        fun e => configurationError e.message).run.Obeys (NamesDue r)
          (fun u result => result = .ok () → u = accepted (before ++ [host])) (accepted before) := by
      refine (Obeys.call ⟨before, hosts, split, rfl⟩).bind ?_
      rintro _ answer rfl
      cases answer with
      | error e =>
        intro failed
        cases failed
      | ok _ =>
        intro _
        simp [accepted]
    refine placing.run_bind (fun _ _ _ failed => ?_) fun u _ placed => ?_
    · cases failed
    rw [placed rfl]
    exact ih (by simp [split])

/-- Once all hosts are placed, the work on a certificate names them all. -/
theorem namesDue_run (placed : accepted r.names <+: t) :
    (run s r).run.Obeys (NamesDue r) (fun u _ => accepted r.names <+: u) t := by
  have asks : (run s r).run.Asks fun q => ∀ u, NamesDue r (t ++ u) q := by
    have later : ∀ u, accepted r.names <+: t ++ u := fun u => placed.trans (List.prefix_append t u)
    refine asks_run_of s r (fun u => ⟨rfl, later u⟩) (fun q changes u => ?_)
      (fun _ _ => trivial) (fun id q polls u => ?_) (fun _ _ => trivial)
    · obtain ⟨host, target, rfl⟩ | ⟨host, rfl⟩ := changes <;> trivial
    · cases q with
      | call c =>
        cases polls
        trivial
      | lock domains => exact polls.elim
      | _ => trivial
  refine (asks.obeys fun u q _ due => due u).imp ?_
  rintro _ _ ⟨u, rfl, -⟩
  exact placed.trans (List.prefix_append t u)

theorem namesDue_issueLocked (placed : accepted r.names <+: t) :
    (issueLocked s r (.ofNames r.names)).run.Obeys (NamesDue r) (fun _ _ => True) t := by
  rw [issueLocked_eq]
  refine ⟨⟨rfl, placed⟩, fun answer => ?_⟩
  dsimp only
  cases found (.ofNames r.names) answer with
  | some c => trivial
  | none =>
    refine (namesDue_run (placed.trans (List.prefix_append t _))).bind fun u result placed => ?_
    cases result with
    | error e => trivial
    | ok c => exact ⟨⟨rfl, placed⟩, fun _ => trivial⟩

/-- An enrollment names nothing but what its signing request names. -/
theorem namesDue_issue (parsed : SigningRequest.parse input = .ok r) :
    (issue s input).run.Obeys (NamesDue r) (fun _ _ => True) [] := by
  rw [issue_eq parsed]
  refine (namesDue_placeAll (List.nil_append r.names).symm).bind fun u result placed => ?_
  cases result with
  | error e => trivial
  | ok _ =>
    have all := placed rfl
    refine ⟨⟨rfl, all⟩, fun _ => ?_⟩
    refine (namesDue_issueLocked ?_).bind fun _ _ _ => ⟨trivial, fun _ => trivial⟩
    rw [all]
    exact List.prefix_append _ _

/-! ## Names of a request -/

namespace SigningRequest

/-- What was accepted are the bytes of a request, and its names in canonical form. -/
theorem exists_of_parse (parsed : parse input = .ok r) :
    ∃ der q, decode input = .ok der ∧ X509.Request.ofDer? der = some q ∧
      r.names = canonicalNames q.names := by
  unfold parse at parsed
  split at parsed
  · cases parsed
  · next der decoded =>
    have accepted := Data.mapError_eq_ok.mp parsed
    unfold ofDer at accepted
    split at accepted
    · cases accepted
    · next q found =>
      split at accepted
      · cases accepted
      · obtain rfl := Except.ok.inj accepted
        exact ⟨der, q, decoded, found, rfl⟩

/-- What becomes of the names of a request in these bytes. -/
structure KeepsNames (input : List UInt8) (r : SigningRequest) : Prop where
  /-- They are the common names that can be read and then the alternative ones that are domains,
  trimmed and in lowercase. Empty ones are left out, and so is each one that came before. -/
  listed : ∃ der q, decode input = .ok der ∧ X509.Request.ofDer? der = some q ∧
    r.names = (((X509.commonNames q.subject ++
      (q.extensionLists.headD []).flatMap X509.Extension.domains).map
        fun n => Text.asciiLower (Text.trim n)).filter (· ≠ "")).eraseDups
  some_there : r.names ≠ []
  distinct : r.names.Nodup
  canonical : ∀ n ∈ r.names, Text.asciiLower (Text.trim n) = n ∧ n ≠ ""
  /-- The set of domains has exactly these names, in order. -/
  sorted : (DomainSet.ofNames r.names).names.Perm r.names ∧
    (DomainSet.ofNames r.names).names.Pairwise Data.Precedes
  /-- At every moment of every run, the enrollment places these hosts, takes the locks of their
  set, asks the cache for the entry of that set, and orders a certificate for them all. -/
  throughout : ∀ s t y, Becomes (issue s input).run t y → ∀ before e after,
    t = before ++ e :: after → NamesDue r before e.request

/-- No name of a request is lost on the way, and none is added. -/
theorem names_throughout (parsed : parse input = .ok r) : KeepsNames input r := by
  obtain ⟨some_there, canonical⟩ := names_of_parse parsed
  obtain ⟨der, q, decoded, found, names⟩ := exists_of_parse parsed
  have distinct : r.names.Nodup := names ▸ Data.nodup_distinct _
  refine ⟨⟨der, q, decoded, found, ?_⟩, some_there, distinct, canonical,
    ⟨DomainSet.perm_ofNames distinct canonical, (DomainSet.ofNames r.names).increasing⟩, ?_⟩
  · rw [names, canonicalNames, Data.distinct_eq_eraseDups]
    rfl
  · intro s t y run before e after split
    simpa using (namesDue_issue parsed).due_of_becomes run split

/-- A request with the common name `C.org` and the alternative names `b.org` with a blank behind it,
`a.org`, and `B.ORG`. -/
def repeatedDomain : List UInt8 :=
  [0x30, 0x5D, 0x30, 0x53, 0x02, 0x01, 0x00, 0x30, 0x10, 0x31, 0x0E, 0x30, 0x0C, 0x06, 0x03,
    0x55, 0x04, 0x03, 0x0C, 0x05, 0x43, 0x2E, 0x6F, 0x72, 0x67, 0x30, 0x08, 0x30, 0x03, 0x06,
    0x01, 0x2A, 0x03, 0x01, 0x00, 0xA0, 0x32, 0x30, 0x30, 0x06, 0x09, 0x2A, 0x86, 0x48, 0x86,
    0xF7, 0x0D, 0x01, 0x09, 0x0E, 0x31, 0x23, 0x30, 0x21, 0x30, 0x1F, 0x06, 0x03, 0x55, 0x1D,
    0x11, 0x04, 0x18, 0x30, 0x16, 0x82, 0x06, 0x62, 0x2E, 0x6F, 0x72, 0x67, 0x20, 0x82, 0x05,
    0x61, 0x2E, 0x6F, 0x72, 0x67, 0x82, 0x05, 0x42, 0x2E, 0x4F, 0x52, 0x47, 0x30, 0x03, 0x06,
    0x01, 0x2A, 0x03, 0x01, 0x00]

/-- The common name comes first, two spellings of an alternative one are one, and the set is
sorted. -/
theorem names_throughout_repeated :
    ∃ r, parse repeatedDomain = .ok r ∧ r.names = ["c.org", "b.org", "a.org"] ∧
      (DomainSet.ofNames r.names).names = ["a.org", "b.org", "c.org"] ∧
      KeepsNames repeatedDomain r := by
  obtain ⟨r, parsed, names⟩ :
      ∃ r, parse repeatedDomain = .ok r ∧ r.names = ["c.org", "b.org", "a.org"] :=
    exists_of_names (by decide +kernel)
  refine ⟨r, parsed, names, ?_, names_throughout parsed⟩
  rw [names]
  decide +kernel

end SigningRequest
end CertEnrollment.Enrollment
