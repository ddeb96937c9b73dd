import EdgeQuery.Store.Key
import Mathlib.Order.Defs.LinearOrder
/-! # Key order

`Key.compare` compares rows, families, qualifiers and visibilities bytewise and then
timestamps from the newest down. This module shows that it is a lawful comparison: it is
the lexicographic combination of five comparisons that are each transitive, so it is
transitive itself, and it answers `eq` only for equal keys. Keys therefore form a linear
order, with `a < b` meaning `a.compare b = .lt`, and the range and scan proofs reason with
`<` and `≤` instead of with `Ordering` values. -/

namespace EdgeQuery.Store

namespace Key

/-- Key order is the lexicographic combination of its components' orders, the timestamp
order reversed. -/
theorem compare_eq_lex : Key.compare =
    compareLex (compareOn Key.row) (compareLex (compareOn Key.family)
      (compareLex (compareOn Key.qualifier) (compareLex (compareOn Key.visibility)
        (fun a b => compareOn Key.timestamp b a)))) := rfl

instance : Std.TransCmp Key.compare := by
  rw [compare_eq_lex]
  infer_instance

instance : Std.LawfulEqCmp Key.compare where
  eq_of_compare {a b} h := by
    rw [compare_eq_lex] at h
    simp only [compareLex_eq_eq, compareOn] at h
    obtain ⟨hrow, hfam, hqual, hvis, hts⟩ := h
    cases a
    cases b
    simp_all

instance : LT Key := ⟨fun a b => a.compare b = .lt⟩

instance : LE Key := ⟨fun a b => (a.compare b).isLE⟩

theorem lt_iff_compare {a b : Key} : a < b ↔ a.compare b = .lt := Iff.rfl

theorem le_iff_compare {a b : Key} : a ≤ b ↔ (a.compare b).isLE := Iff.rfl

/-- Keys are linearly ordered by `Key.compare`. -/
instance : LinearOrder Key where
  le_refl _ := Std.ReflCmp.isLE_rfl
  le_trans _ _ _ := Std.TransCmp.isLE_trans
  le_antisymm _ _ hab hba := Std.LawfulEqCmp.eq_of_compare (Std.OrientedCmp.isLE_antisymm hab hba)
  le_total a b := by
    show (a.compare b).isLE ∨ (b.compare a).isLE
    rw [show b.compare a = (a.compare b).swap from Std.OrientedCmp.eq_swap]
    cases a.compare b <;> decide
  lt_iff_le_not_ge a b := by
    show a.compare b = .lt ↔ (a.compare b).isLE ∧ ¬(b.compare a).isLE
    rw [show b.compare a = (a.compare b).swap from Std.OrientedCmp.eq_swap]
    cases a.compare b <;> decide
  toDecidableLE a b := inferInstanceAs (Decidable ((a.compare b).isLE = true))

/-! ## Reading comparisons as order -/

@[simp] theorem compare_eq_lt {a b : Key} : a.compare b = .lt ↔ a < b := Iff.rfl

@[simp] theorem compare_eq_eq {a b : Key} : a.compare b = .eq ↔ a = b :=
  Std.LawfulEqCmp.compare_eq_iff_eq

@[simp] theorem compare_eq_gt {a b : Key} : a.compare b = .gt ↔ b < a :=
  Std.OrientedCmp.gt_iff_lt

@[simp] theorem lt_eq_true {a b : Key} : a.lt b = true ↔ a < b := by
  simp [Key.lt]

end Key

end EdgeQuery.Store
