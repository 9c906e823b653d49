import Mathlib.Algebra.Order.Field.Rat
import Mathlib.Order.WithBot
import Mathlib.Tactic.FieldSimp
import SdkCatalog.Number.Basic
import SdkCatalog.Proofs.Number.Double

/-! The exact values of numbers. Whole and floating point numbers are compared as what they are, and
never as what one of them would be rounded to. -/

namespace SdkCatalog

/-- The value of a double. -/
def Double.toRat (d : Double) : ℚ :=
  d.signedUnits / Double.unitsPerOne

theorem Double.unitsPerOne_ne_zero : (Double.unitsPerOne : ℚ) ≠ 0 :=
  Nat.cast_ne_zero.mpr unitsPerOne_pos.ne'

namespace Number

/-- The exact value of a number, between the two infinities. What is no number has none. -/
def exactValue? : Number → Option (WithBot (WithTop ℚ))
  | .int value => some ((value : ℚ) : WithTop ℚ)
  | .float (.finite value) => some ((value.toRat : ℚ) : WithTop ℚ)
  | .float (.infinite true) => some ⊥
  | .float (.infinite false) => some ⊤
  | .float .nan => none

/-- The value at a place on the line of all numbers. -/
def Place.value : Place → WithBot (WithTop ℚ)
  | .below => ⊥
  | .at units => ((units / Double.unitsPerOne : ℚ) : WithTop ℚ)
  | .above => ⊤

theorem Place.before_iff (p q : Place) : p.before q = true ↔ p.value < q.value := by
  have hunits : (0 : ℚ) < Double.unitsPerOne := Nat.cast_pos.mpr Double.unitsPerOne_pos
  cases p with
  | below => cases q <;> simp [before, value]
  | above => cases q <;> simp [before, value]
  | «at» a =>
    cases q with
    | below => simp [before, value]
    | above =>
      simp only [before, value, true_iff]
      exact WithBot.coe_lt_coe.mpr (WithTop.coe_lt_top _)
    | «at» b =>
      simp only [before, value, decide_eq_true_eq, WithBot.coe_lt_coe, WithTop.coe_lt_coe]
      rw [div_lt_div_iff_of_pos_right hunits, Int.cast_lt]

theorem exactValue?_eq (n : Number) : n.exactValue? = n.place?.map Place.value := by
  cases n with
  | int value =>
    have hvalue : ((value * Double.unitsPerOne : ℤ) : ℚ) / Double.unitsPerOne = value := by
      rw [Int.cast_mul, Int.cast_natCast, mul_div_cancel_right₀ _ Double.unitsPerOne_ne_zero]
    simp only [exactValue?, place?, Option.map_some, Place.value, hvalue]
  | float x =>
    cases x with
    | finite d => rfl
    | infinite negative => cases negative <;> rfl
    | nan => rfl

/-- The exact value, with zero for what has none. -/
def exactValue (n : Number) : WithBot (WithTop ℚ) :=
  n.exactValue?.getD 0

theorem exactValue?_eq_some {n : Number} (h : n.exactValue? ≠ none) :
    n.exactValue? = some n.exactValue := by
  obtain ⟨v, hv⟩ := Option.ne_none_iff_exists'.mp h
  rw [exactValue, hv, Option.getD_some]

theorem less_iff {a b : Number} (ha : a.exactValue? ≠ none) (hb : b.exactValue? ≠ none) :
    a.less b = true ↔ a.exactValue < b.exactValue := by
  unfold less exactValue
  rw [exactValue?_eq, ne_eq, Option.map_eq_none_iff, ← ne_eq, Option.ne_none_iff_exists'] at ha hb
  obtain ⟨p, hp⟩ := ha
  obtain ⟨q, hq⟩ := hb
  rw [exactValue?_eq, exactValue?_eq, hp, hq]
  exact p.before_iff q

end Number

end SdkCatalog
