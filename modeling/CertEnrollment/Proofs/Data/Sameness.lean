import CertEnrollment.Data.Value

/-!
# Values that are the same

Sameness of values is not equality, since the two zeros among the doubles are the same. But
every value is the same as itself, and what is the same as something is the same as whatever
that is the same as. So it does not matter which of the same values stands for the others, and
it is the first one of them.
-/
namespace CertEnrollment.Data

theorem Number.same_refl (n : Number) : n.same n = true := by
  cases n <;> simp [same, Decimal.Double.same]

theorem Number.same_trans : {a b c : Number} → a.same b = true → b.same c = true →
    a.same c = true
  | .int _, .int _, .int _, h, k => by simp_all [same]
  | .double a, .double b, .double c, h, k => by
    simp only [same, Decimal.Double.same, Bool.and_eq_true, Bool.or_eq_true, beq_iff_eq] at h k ⊢
    refine ⟨h.1.trans k.1, ?_⟩
    rcases h.2 with first | zero
    · exact k.2.imp first.trans h.1.trans
    · exact .inr zero

namespace Value

mutual
theorem same_refl : (v : Value) → v.same v = true
  | null => rfl
  | bool a => by simp [same]
  | number a => by simp [same, a.same_refl]
  | text a => by simp [same]
  | array xs => by rw [same]; exact sameItems_refl xs
  | object xs => by rw [same]; exact sameMembers_refl xs

theorem sameItems_refl : (xs : List Value) → sameItems xs xs = true
  | [] => rfl
  | x :: xs => by rw [sameItems, same_refl x, sameItems_refl xs]; rfl

theorem sameMembers_refl : (xs : List (String × Value)) → sameMembers xs xs = true
  | [] => rfl
  | (k, x) :: xs => by rw [sameMembers, same_refl x, sameMembers_refl xs]; simp
end

mutual
theorem same_trans : {a b c : Value} → a.same b = true → b.same c = true → a.same c = true
  | null, b, c, h, k => by cases b <;> cases c <;> simp [same] at h k ⊢
  | bool _, b, c, h, k => by cases b <;> cases c <;> simp_all [same]
  | number _, b, c, h, k => by
    cases b <;> cases c <;> simp only [same, Bool.false_eq_true] at h k ⊢
    exact Number.same_trans h k
  | text _, b, c, h, k => by cases b <;> cases c <;> simp_all [same]
  | array xs, b, c, h, k => by
    cases b <;> cases c <;> simp only [same, Bool.false_eq_true] at h k ⊢
    exact sameItems_trans h k
  | object xs, b, c, h, k => by
    cases b <;> cases c <;> simp only [same, Bool.false_eq_true] at h k ⊢
    exact sameMembers_trans h k

theorem sameItems_trans : {as bs cs : List Value} → sameItems as bs = true →
    sameItems bs cs = true → sameItems as cs = true
  | [], bs, cs, h, k => by cases bs <;> cases cs <;> simp [sameItems] at h k ⊢
  | a :: as, bs, cs, h, k => by
    cases bs <;> cases cs <;>
      simp only [sameItems, Bool.and_eq_true, Bool.false_eq_true] at h k ⊢
    exact ⟨same_trans h.1 k.1, sameItems_trans h.2 k.2⟩

theorem sameMembers_trans : {as bs cs : List (String × Value)} → sameMembers as bs = true →
    sameMembers bs cs = true → sameMembers as cs = true
  | [], bs, cs, h, k => by cases bs <;> cases cs <;> simp [sameMembers] at h k ⊢
  | (_, a) :: as, bs, cs, h, k => by
    cases bs <;> cases cs <;>
      simp only [sameMembers, Bool.and_eq_true, beq_iff_eq, Bool.false_eq_true] at h k ⊢
    exact ⟨⟨h.1.1.trans k.1.1, same_trans h.1.2 k.1.2⟩, sameMembers_trans h.2 k.2⟩
end

/-! ## The first ones of the same values -/

/-- The list with every later value left out that is the same as an earlier one. -/
def firsts : List Value → List Value
  | [] => []
  | v :: vs => v :: (firsts vs).filter fun w => !v.same w

/-- No later value is the same as an earlier one. -/
def Different (vs : List Value) : Prop := vs.Pairwise fun v w => v.same w = false

theorem different_firsts (vs : List Value) : Different (firsts vs) := by
  induction vs with
  | nil => exact .nil
  | cons v vs ih =>
    refine List.pairwise_cons.mpr ⟨fun w hw => ?_, ih.filter _⟩
    simpa using (List.mem_filter.mp hw).2

theorem firsts_of_different {vs : List Value} (h : Different vs) : firsts vs = vs := by
  induction vs with
  | nil => rfl
  | cons v vs ih =>
    obtain ⟨first, others⟩ := List.pairwise_cons.mp h
    rw [firsts, ih others, List.filter_eq_self.mpr fun w hw => by simp [first w hw]]

end Value
end CertEnrollment.Data
