import Mathlib.Data.List.Forall2

/-!
# Results that are not errors

When a computation that may fail comes to a value: each of its parts does, and the value is made
of theirs.
-/
namespace CertEnrollment.Data
variable {ε ε' α β : Type}

theorem eq_ok_of_toOption {x : Except ε α} {a : α} (h : x.toOption = some a) : x = .ok a := by
  cases x with
  | error e => cases h
  | ok b => exact congrArg Except.ok (Option.some.inj h)

theorem bind_eq_ok {x : Except ε α} {f : α → Except ε β} {b : β} :
    (x >>= f) = .ok b ↔ ∃ a, x = .ok a ∧ f a = .ok b := by
  cases x with
  | error e => simp [bind, Except.bind]
  | ok a => simp [bind, Except.bind]

theorem map_eq_ok {x : Except ε α} {f : α → β} {b : β} :
    x.map f = .ok b ↔ ∃ a, x = .ok a ∧ f a = b := by
  cases x <;> simp [Except.map]

theorem mapError_eq_ok {x : Except ε α} {f : ε → ε'} {a : α} :
    x.mapError f = .ok a ↔ x = .ok a := by
  constructor
  · intro mapped
    cases x with
    | error e => cases mapped
    | ok b => exact congrArg Except.ok (Except.ok.inj mapped)
  · rintro rfl
    rfl

/-! ## Lists -/

/-- A list is gone through without an error if there is none for any element. -/
theorem mapM_eq_ok {f : α → Except ε β} {xs : List α} {ys : List β} :
    xs.mapM f = .ok ys ↔ List.Forall₂ (fun x y => f x = .ok y) xs ys := by
  induction xs generalizing ys with
  | nil =>
    rw [List.forall₂_nil_left_iff]
    exact ⟨fun same => (Except.ok.inj same).symm, fun none => congrArg Except.ok none.symm⟩
  | cons x xs ih =>
    rw [List.mapM_cons, bind_eq_ok, List.forall₂_cons_left_iff]
    constructor
    · rintro ⟨y, first, rest⟩
      obtain ⟨ys, others, same⟩ := bind_eq_ok.mp rest
      exact ⟨y, ys, first, ih.mp others, (Except.ok.inj same).symm⟩
    · rintro ⟨y, ys, first, others, rfl⟩
      exact ⟨y, first, bind_eq_ok.mpr ⟨ys, ih.mpr others, rfl⟩⟩

theorem mem_of_mapM {f : α → Except ε β} {xs : List α} {ys : List β} (h : xs.mapM f = .ok ys) :
    ∀ y ∈ ys, ∃ x ∈ xs, f x = .ok y := by
  intro y hy
  obtain ⟨n, hn, rfl⟩ := List.getElem_of_mem hy
  have each := mapM_eq_ok.mp h
  have there : n < xs.length := each.length_eq ▸ hn
  exact ⟨xs[n], List.getElem_mem there, each.get there hn⟩

/-- A list is read from what is written for its elements. -/
theorem mapM_map_eq_ok {write : α → β} {read : β → Except ε α} {xs : List α}
    (each : ∀ x ∈ xs, read (write x) = .ok x) : (xs.map write).mapM read = .ok xs := by
  rw [mapM_eq_ok, List.forall₂_map_left_iff, List.forall₂_same]
  exact each

theorem forM_eq_ok {f : α → Except ε Unit} {xs : List α} :
    forM xs f = .ok () ↔ ∀ x ∈ xs, f x = .ok () := by
  induction xs with
  | nil => simp [pure, Except.pure]
  | cons x xs ih =>
    rw [List.forM_cons, bind_eq_ok, List.forall_mem_cons, ih]
    exact ⟨fun ⟨_, both⟩ => both, fun both => ⟨(), both⟩⟩

end CertEnrollment.Data
