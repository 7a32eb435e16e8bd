/-!
# Lists without repetition

`distinct` keeps the first of several equal elements and so the order of the rest.
-/
namespace CertEnrollment.Data
variable {α : Type} [DecidableEq α]

/-- The list with every later repetition of an element left out. -/
def distinct : List α → List α
  | [] => []
  | x :: xs => x :: (distinct xs).filter (· ≠ x)

@[simp] theorem mem_distinct {xs : List α} {x : α} : x ∈ distinct xs ↔ x ∈ xs := by
  induction xs with
  | nil => simp [distinct]
  | cons y ys ih => by_cases h : x = y <;> simp [distinct, ih, h]

theorem nodup_distinct (xs : List α) : (distinct xs).Nodup := by
  induction xs with
  | nil => exact .nil
  | cons y ys ih => exact List.nodup_cons.mpr ⟨by simp, ih.filter _⟩

theorem distinct_sublist (xs : List α) : (distinct xs).Sublist xs := by
  induction xs with
  | nil => exact .slnil
  | cons x xs ih => exact (List.filter_sublist.trans ih).cons_cons x

theorem distinct_eq_self {xs : List α} (h : xs.Nodup) : distinct xs = xs := by
  induction xs with
  | nil => rfl
  | cons x xs ih =>
    obtain ⟨new, others⟩ := List.nodup_cons.mp h
    rw [distinct, ih others, List.filter_eq_self.mpr]
    exact fun y hy => decide_eq_true fun same => new (same ▸ hy)

theorem distinct_filter (p : α → Bool) (xs : List α) :
    distinct (xs.filter p) = (distinct xs).filter p := by
  induction xs with
  | nil => rfl
  | cons y ys ih =>
    rw [distinct, List.filter_cons, List.filter_cons]
    by_cases kept : p y = true
    · simp only [kept, if_true, distinct, ih, List.filter_filter, Bool.and_comm]
    · rw [if_neg kept, if_neg kept, ih, List.filter_filter]
      refine List.filter_congr fun z _ => ?_
      by_cases same : z = y <;> simp [same, kept]

/-- Of equal elements the first one is kept, as in the library's function. -/
theorem distinct_eq_eraseDups (xs : List α) : distinct xs = xs.eraseDups := by
  induction size : xs.length using Nat.strongRecOn generalizing xs with
  | _ n ih =>
    cases xs with
    | nil => rfl
    | cons y ys =>
      have shorter : (ys.filter (· ≠ y)).length < n :=
        size ▸ Nat.lt_succ_of_le (List.length_filter_le _ ys)
      rw [distinct, ← distinct_filter, ih _ shorter _ rfl, List.eraseDups_cons]
      congr 3
      funext z
      by_cases same : z = y <;> simp [same]

end CertEnrollment.Data
