import CertEnrollment.Dns.ZoneStore
import CertEnrollment.Dns.Provider
import CertEnrollment.Proofs.Obedience

/-!
# What backends ask for

In the hash store a backend asks for one field only, that of the host. At the hosted provider it
makes records of its zone and removes them, and everything else that it asks for is reading. When
it fails, it is not because of the configuration.
-/
namespace CertEnrollment.Store

/-- Key and field that a request is about. -/
def HashAsk.slot : HashAsk → String × String
  | get key field => (key, field)
  | set key field _ => (key, field)
  | delete key field => (key, field)

end CertEnrollment.Store

namespace CertEnrollment.Dns
open Data Interaction Store

/-- If there is an error, the configuration is not at fault. -/
def Blameless {α : Type} (result : Except Error α) : Prop :=
  ∀ e, result = .error e → e.isConfigError = false

@[simp] theorem blameless_ok {α : Type} (a : α) : Blameless (.ok a) := by simp [Blameless]

@[simp] theorem blameless_error {α : Type} {e : Error} :
    Blameless (.error e : Except Error α) ↔ e.isConfigError = false := by
  simp [Blameless]

theorem Blameless.of_error {α β : Type} {e : Error} (h : Blameless (.error e : Except Error α)) :
    Blameless (.error e : Except Error β) :=
  blameless_error.mpr (blameless_error.mp h)

theorem blameless_mapError {ε α : Type} {result : Except ε α} {f : ε → Error}
    (h : ∀ e, (f e).isConfigError = false) : Blameless (result.mapError f) := by
  cases result with
  | ok a => exact blameless_ok a
  | error e => exact blameless_error.mpr (h e)

/-! ## Fields of the hash store -/

namespace ZoneStore
variable {t : List (Event HashAsk HashAsk.Answer)} {key field value : String}

theorem obeys_getField : (getField key field).run.Obeys (fun _ a => a.slot = (key, field))
    (fun _ => Blameless) t :=
  ⟨rfl, fun _ => blameless_mapError fun _ => rfl⟩

theorem obeys_setField : (setField key field value).run.Obeys (fun _ a => a.slot = (key, field))
    (fun _ => Blameless) t :=
  ⟨rfl, fun _ => blameless_mapError fun _ => rfl⟩

theorem obeys_deleteField : (deleteField key field).run.Obeys (fun _ a => a.slot = (key, field))
    (fun _ => Blameless) t :=
  ⟨rfl, fun _ => blameless_mapError fun _ => rfl⟩

theorem obeys_records : (records key field).run.Obeys (fun _ a => a.slot = (key, field))
    (fun _ => Blameless) t := by
  rw [records]
  refine obeys_getField.run_bind (fun _ _ => Blameless.of_error) fun u stored _ => ?_
  cases stored with
  | none => exact blameless_ok _
  | some text =>
    dsimp only
    split
    · exact blameless_ok _
    · exact blameless_error.mpr rfl

variable {s : ZoneStore} {subdomain branch target : String}

theorem obeys_createCname : (s.createCname subdomain branch target).run.Obeys
    (fun _ a => a.slot = (s.hashKey branch, fieldName subdomain)) (fun _ => Blameless) t :=
  obeys_records.run_bind (fun _ _ => Blameless.of_error) fun _ _ _ => obeys_setField

theorem obeys_deleteCname : (s.deleteCname subdomain branch).run.Obeys
    (fun _ a => a.slot = (s.hashKey branch, fieldName subdomain)) (fun _ => Blameless) t := by
  refine obeys_records.run_bind (fun _ _ => Blameless.of_error) fun _ m _ => ?_
  dsimp only
  split
  · exact blameless_ok _
  · split
    · exact obeys_deleteField
    · exact obeys_setField

end ZoneStore

/-! ## Requests to the hosted provider -/

namespace Provider

/-- The request goes to this address; name and password in it are not part of the request. -/
def SentTo (address : String) (request : Http.Request) : Prop :=
  ∃ url, Url.parse? address = some url ∧ request.url = { url with username := "", password := "" }

/-- Records are created only at the address of the zone's records, and with this content, and
they are deleted only below that address. -/
structure Confines (p : Provider) (new : Option Value) (request : Http.Request) : Prop where
  posts : request.method = .post → SentTo (p.recordsAddress none) request ∧
    ∃ v, new = some v ∧ request.body = Json.write v
  deletes : request.method = .delete → ∃ id, SentTo (p.recordsAddress (some id)) request

variable {p : Provider} {t : List (Event Http.Request ExchangeAnswer)} {new : Option Value}
  {subdomain branch target host : String}

theorem prepare_eq_ok {request ready : Http.Request} (h : request.prepare = .ok ready) :
    ready.method = request.method ∧ ready.body = request.body ∧
      ready.url = { request.url with username := "", password := "" } := by
  rw [Http.Request.prepare] at h
  dsimp only at h
  split at h
  · cases h
    exact ⟨rfl, rfl, rfl⟩
  · cases h

/-- A request that is sent has this method and this content, and without a query it goes to
this address. -/
theorem obeys_send {method : Http.Method} {address : String} {query : List (String × String)}
    {json : Option Value} : (p.send method address query json).run.Obeys
      (fun _ request => request.method = method ∧ request.body = (json.map Json.write).getD "" ∧
        (query = [] → SentTo address request)) (fun _ => Blameless) t := by
  rw [send]
  cases parsed : Url.parse? address with
  | none => exact blameless_error.mpr rfl
  | some url =>
    dsimp only
    split
    · exact blameless_error.mpr rfl
    · next ready =>
      obtain ⟨method, body, sent⟩ := prepare_eq_ok ready
      refine ⟨⟨method, body, fun plain => ⟨url, parsed, ?_⟩⟩, fun _ => ?_⟩
      · rw [sent, plain]
        rfl
      · exact blameless_mapError fun _ => rfl

theorem blameless_check (r : Http.Response) : Blameless (check r) := by
  rw [check]
  split
  · exact blameless_ok r
  · exact blameless_error.mpr rfl

theorem blameless_decode {α : Type} (read : Tree → Reading α) (r : Http.Response) :
    Blameless (decode read r) := by
  have checked := blameless_check r
  rw [decode]
  cases outcome : check r with
  | error e =>
    rw [outcome] at checked
    exact checked.of_error
  | ok r => exact blameless_mapError fun _ => rfl

theorem obeys_settled {α : Type} {result : Except Error α} {allowed : Http.Request → Prop}
    (h : Blameless result) :
    (settled result).run.Obeys (fun _ => allowed) (fun _ => Blameless) t :=
  h

-- To unfold what is obeyed would be to read the address of the provider.
attribute [local irreducible] Interaction.Obeys

theorem obeys_listPage (page : Nat) :
    (p.listPage page).run.Obeys (fun _ => p.Confines new) (fun _ => Blameless) t := by
  have listing (query : List (String × String)) :
      (p.send .get (p.recordsAddress none) query none).run.Obeys (fun _ => p.Confines new)
        (fun _ => Blameless) t :=
    obeys_send.weaken fun _ request sent =>
      ⟨fun post => (by cases sent.1.symm.trans post),
        fun delete => (by cases sent.1.symm.trans delete)⟩
  rw [listPage]
  exact (listing _).run_bind (fun _ _ => Blameless.of_error) fun _ response _ =>
    obeys_settled (blameless_decode _ response)

theorem obeys_findFrom (pagesLeft page : Nat) : (p.findFrom host pagesLeft page).run.Obeys
    (fun _ => p.Confines new) (fun _ => Blameless) t := by
  induction pagesLeft generalizing page t with
  | zero =>
    rw [findFrom]
    exact obeys_pure.mpr (blameless_ok _)
  | succ pagesLeft ih =>
    rw [findFrom]
    refine (obeys_listPage page).run_bind (fun _ _ => Blameless.of_error) fun _ listing _ => ?_
    dsimp only
    split
    · split
      · exact (ih _).run_bind (fun _ _ => Blameless.of_error) fun _ _ _ =>
          obeys_pure.mpr (blameless_ok _)
      · exact obeys_pure.mpr (blameless_ok _)
    · exact obeys_pure.mpr (blameless_ok _)

theorem obeys_findRecords :
    (p.findRecords host).run.Obeys (fun _ => p.Confines new) (fun _ => Blameless) t := by
  rw [findRecords]
  exact obeys_findFrom maxPage 1

theorem obeys_createCname : (p.createCname subdomain branch target).run.Obeys
    (fun _ => p.Confines (some (newRecord (composeHost subdomain branch) target)))
    (fun _ => Blameless) t := by
  have creation (u : List (Event Http.Request ExchangeAnswer)) (v : Value) :
      (p.send .post (p.recordsAddress none) [] (some v)).run.Obeys (fun _ => p.Confines (some v))
        (fun _ => Blameless) u :=
    obeys_send.weaken fun _ request sent =>
      ⟨fun _ => ⟨sent.2.2 rfl, v, rfl, sent.2.1⟩, fun delete => (by cases sent.1.symm.trans delete)⟩
  rw [createCname]
  refine obeys_findRecords.run_bind (fun _ _ => Blameless.of_error) fun u records _ => ?_
  split
  · exact obeys_pure.mpr (blameless_ok _)
  · refine (creation u _).run_bind (fun _ _ => Blameless.of_error) fun _ response _ => ?_
    exact (obeys_settled (blameless_decode _ response)).run_bind
      (fun _ _ => Blameless.of_error) fun _ _ _ => obeys_pure.mpr (blameless_ok _)

theorem obeys_deleteAll (records : List ListedRecord) :
    (p.deleteAll records).run.Obeys (fun _ => p.Confines new) (fun _ => Blameless) t := by
  induction records generalizing t with
  | nil => exact obeys_pure.mpr (blameless_ok _)
  | cons r records ih =>
    have removal : (p.send .delete (p.recordsAddress (some r.id)) [] none).run.Obeys
        (fun _ => p.Confines new) (fun _ => Blameless) t :=
      obeys_send.weaken fun _ request sent =>
        ⟨fun post => (by cases sent.1.symm.trans post), fun _ => ⟨r.id, sent.2.2 rfl⟩⟩
    rw [deleteAll]
    refine removal.run_bind (fun _ _ => Blameless.of_error) fun _ response _ => ?_
    split
    · exact (obeys_settled (blameless_check response)).run_bind
        (fun _ _ => Blameless.of_error) fun _ _ _ => ih
    · exact ih

theorem obeys_deleteCname : (p.deleteCname subdomain branch).run.Obeys
    (fun _ => p.Confines none) (fun _ => Blameless) t := by
  rw [deleteCname]
  exact obeys_findRecords.run_bind (fun _ _ => Blameless.of_error) fun _ records _ =>
    obeys_deleteAll records

end Provider

end CertEnrollment.Dns
