import CertEnrollment.Authority.Error
import CertEnrollment.Proofs.Json.Cells

/-!
# What a refusal states

A body is a refusal by its `success` alone. The code and the kind of the refusal are found under
`error`, which need not be there; an envelope of another form states nothing.
-/
namespace CertEnrollment.Authority
open Data

/-- The body is an object whose `success` is the boolean false. -/
def Refuses (body : Value) : Prop := body.member? "success" = some (.bool false)

theorem refuses_iff {body : Value} :
    (body.member? "success").bind Value.bool? = some false ↔ Refuses body := by
  constructor
  · intro h
    obtain ⟨v, there, same⟩ := Option.bind_eq_some_iff.mp h
    cases v <;> cases same
    exact there
  · intro h
    rw [h]
    rfl

/-! ## The envelope -/

/-- The code is an integer of 64 bits with a sign, and zero when it is absent. -/
def StatesCode (cell : Option Value) (code : Int) : Prop :=
  cell = none ∧ code = 0 ∨
    cell = some (.number (.int code)) ∧ leastInt ≤ code ∧ code ≤ greatestInt

/-- The kind is a text, and empty when it is absent. -/
def StatesKind (cell : Option Value) (kind : String) : Prop :=
  cell = none ∧ kind = "" ∨ cell = some (.text kind)

/-- What an envelope with this `error` states: nothing, or a code and a kind. -/
inductive States : Option Value → Int → String → Prop
  | absent : States none 0 ""
  | null : States (some .null) 0 ""
  | reason {reason : Value} {code : Int} {kind : String} (form : reason.IsRow 2)
      (coded : StatesCode (reason.cell? "code" 0) code)
      (typed : StatesKind (reason.cell? "type" 1) kind) : States (some reason) code kind

/-- The code and the kind that a refusal is rejected with. Without a kind that says anything the
error is an unknown one, and an envelope that states nothing readable has the code zero. -/
inductive RejectedWith (body : Value) : Int → String → Prop
  | named {code : Int} {kind : String} (states : States (body.member? "error") code kind)
      (nonempty : kind ≠ "") : RejectedWith body code kind
  | unnamed {code : Int} (states : States (body.member? "error") code "") :
      RejectedWith body code "unknown_error"
  | unreadable (states : ∀ code kind, ¬ States (body.member? "error") code kind) :
      RejectedWith body 0 "unknown_error"

/-! ## Reading it -/

theorem statesCode_iff {v : Value} {code : Int} :
    v.tree.Allows "code" 0 readCode 0 code ↔ StatesCode (v.cell? "code" 0) code := by
  rw [Tree.Allows, Tree.Requires, Value.cell?_tree, StatesCode]
  cases v.cell? "code" 0 with
  | none => simp
  | some c => simpa [readCode] using Value.asInt_tree

theorem statesKind_iff {v : Value} {kind : String} :
    v.tree.Allows "type" 1 Tree.asText "" kind ↔ StatesKind (v.cell? "type" 1) kind := by
  rw [Tree.Allows, Tree.Requires, Value.cell?_tree, StatesKind]
  cases v.cell? "type" 1 with
  | none => simp
  | some c => simpa using Value.asText_tree

theorem FailureReason.read_tree {v : Value} (named : v.tree.Named) {r : FailureReason} :
    FailureReason.read v.tree = .ok r ↔ v.IsRow 2 ∧
      StatesCode (v.cell? "code" 0) r.code ∧ StatesKind (v.cell? "type" 1) r.kind := by
  rw [← statesCode_iff, ← statesKind_iff, ← Value.isRow_tree, FailureReason.read]
  constructor
  · intro h
    obtain ⟨row, found, h⟩ := bind_eq_ok.mp h
    obtain ⟨code, codeRead, h⟩ := bind_eq_ok.mp h
    obtain ⟨kind, kindRead, same⟩ := bind_eq_ok.mp h
    cases same
    exact ⟨Row.isRow_of_read found, (Row.optional_iff found (by decide) rfl).mp codeRead,
      (Row.optional_iff found (by decide) rfl).mp kindRead⟩
  · rintro ⟨form, code, kind⟩
    have fits : v.tree.Fits 0 [field "code" readCode, field "type" Tree.asText] :=
      ⟨code.check, kind.check, trivial⟩
    obtain ⟨row, found⟩ := Row.exists_read fits form named
    refine bind_eq_ok.mpr ⟨row, found, ?_⟩
    refine bind_eq_ok.mpr ⟨_, (Row.optional_iff found (by decide) rfl).mpr code, ?_⟩
    exact bind_eq_ok.mpr ⟨_, (Row.optional_iff found (by decide) rfl).mpr kind, rfl⟩

/-- The reason is that of an envelope whose `error` states it. -/
theorem reason_iff {cell : Option Value} {code : Int} {kind : String}
    (named : ∀ v, cell = some v → v.tree.Named) :
    (∃ reason, (cell = none ∧ reason = none ∨
        ∃ v, cell = some v ∧ v.tree.asOption FailureReason.read = .ok reason) ∧
      reason.getD ⟨0, ""⟩ = ⟨code, kind⟩) ↔ States cell code kind := by
  constructor
  · rintro ⟨reason, ⟨rfl, rfl⟩ | ⟨v, rfl, read⟩, same⟩
    · cases same
      exact .absent
    · obtain ⟨null, rfl⟩ | ⟨-, r, reads, rfl⟩ := Tree.asOption_eq_ok.mp read
      · cases same
        cases v <;> cases null
        exact .null
      · obtain rfl : r = ⟨code, kind⟩ := same
        obtain ⟨form, coded, typed⟩ := (FailureReason.read_tree (named v rfl)).mp reads
        exact .reason form coded typed
  · intro h
    cases h with
    | absent => exact ⟨none, .inl ⟨rfl, rfl⟩, rfl⟩
    | null => exact ⟨none, .inr ⟨.null, rfl, rfl⟩, rfl⟩
    | @reason v _ _ form coded typed =>
      have reads : FailureReason.read v.tree = .ok ⟨code, kind⟩ :=
        (FailureReason.read_tree (named v rfl)).mpr ⟨form, coded, typed⟩
      have notNull : v.tree ≠ .null := by
        cases v <;> simp [Value.tree, Value.IsRow] at form ⊢
      exact ⟨some ⟨code, kind⟩,
        .inr ⟨v, rfl, Tree.asOption_eq_ok.mpr (.inr ⟨notNull, _, reads, rfl⟩)⟩, rfl⟩

theorem Failure.read_tree {members : List (String × Value)}
    (named : (Value.object members).tree.Named) (refuses : Refuses (.object members))
    {reason : Option FailureReason} :
    (∃ success, Failure.read (Value.object members).tree = .ok ⟨success, reason⟩) ↔
      members.lookup "error" = none ∧ reason = none ∨
        ∃ v, members.lookup "error" = some v ∧ v.tree.asOption FailureReason.read = .ok reason := by
  have cell : ∀ name place, (Value.object members).tree.cell? name place =
      (members.lookup name).map Value.tree := Value.cell?_tree _
  have success : (Value.object members).tree.Requires "success" 0 Tree.asBool false :=
    ⟨.bool false, by rw [cell, show members.lookup "success" = _ from refuses]; rfl, rfl⟩
  have error : (Value.object members).tree.Allows "error" 1 (Tree.asOption FailureReason.read) none
      reason ↔ members.lookup "error" = none ∧ reason = none ∨
        ∃ v, members.lookup "error" = some v ∧ v.tree.asOption FailureReason.read = .ok reason := by
    rw [Tree.Allows, Tree.Requires, cell]
    cases members.lookup "error" <;> simp
  rw [← error, Failure.read]
  constructor
  · rintro ⟨successful, h⟩
    obtain ⟨row, found, h⟩ := bind_eq_ok.mp h
    obtain ⟨_, -, h⟩ := bind_eq_ok.mp h
    obtain ⟨r, reasonRead, same⟩ := bind_eq_ok.mp h
    cases same
    exact (Row.optional_iff found (by decide) rfl).mp reasonRead
  · intro stated
    have fits : (Value.object members).tree.Fits 0
        [field "success" Tree.asBool, field "error" (Tree.asOption FailureReason.read)] :=
      ⟨success.check, stated.check, trivial⟩
    obtain ⟨row, found⟩ := Row.exists_read fits trivial named
    refine ⟨false, bind_eq_ok.mpr ⟨row, found, ?_⟩⟩
    refine bind_eq_ok.mpr ⟨_, (Row.required_iff found (by decide) rfl).mpr success, ?_⟩
    exact bind_eq_ok.mpr ⟨_, (Row.optional_iff found (by decide) rfl).mpr stated, rfl⟩

/-- A body that does not refuse is no failure envelope. -/
theorem detect_of_not_refuses {body : Value} (accepts : ¬ Refuses body) :
    Failure.detect body = none :=
  if_neg (refuses_iff.not.mpr accepts)

/-- Every refusal is rejected with what it states. -/
theorem detect_of_refuses {room : Nat} {body : Value} (regular : Json.Regular room body)
    (refuses : Refuses body) :
    ∃ f code kind, Failure.detect body = some f ∧ f.error = .rejected code kind ∧
      RejectedWith body code kind := by
  cases body with
  | object members =>
    have inner : ∀ v, members.lookup "error" = some v → v.tree.Named := fun v there =>
      (regular.member (v := .object members) there).named
    rw [Failure.detect, if_pos (refuses_iff.mpr refuses)]
    cases read : Failure.read (Value.object members).tree with
    | error e =>
      refine ⟨_, _, _, rfl, rfl, .unreadable fun code kind states => ?_⟩
      obtain ⟨reason, stated, -⟩ := (reason_iff inner).mpr states
      obtain ⟨success, reads⟩ := (Failure.read_tree regular.named refuses).mpr stated
      rw [reads] at read
      cases read
    | ok f =>
      have stated := (Failure.read_tree regular.named refuses).mp ⟨f.success, read⟩
      obtain ⟨⟨code, kind⟩, same⟩ : ∃ reason, f.reason.getD ⟨0, ""⟩ = reason := ⟨_, rfl⟩
      have states := (reason_iff inner).mp ⟨f.reason, stated, same⟩
      refine ⟨f, code, if kind = "" then "unknown_error" else kind, rfl, ?_, ?_⟩
      · rw [Failure.error, same]
      · split
        · next empty =>
          subst empty
          exact .unnamed states
        · next nonempty => exact .named states nonempty
  | _ => cases refuses

end CertEnrollment.Authority
