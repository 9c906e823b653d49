import Mathlib.Algebra.Order.Archimedean.Basic
import Mathlib.Algebra.Order.Field.Rat
import Mathlib.Tactic.FieldSimp
import Mathlib.Tactic.Linarith
import SdkCatalog.Proofs.Number.Double

/-! Rounding among the magnitudes. From each power of two to the next the magnitudes are equal steps
apart, so rounding to the nearest whole number of steps is rounding to the nearest magnitude, with
ties to the even rank. -/

namespace SdkCatalog.Double

/-! ### Rounding to a whole number -/

/-- A quotient lies within a half of the whole number it is rounded to, and exactly a half away only
from an even one. -/
theorem abs_sub_roundHalfEven {p q : Nat} (hq : 0 < q) :
    |(p / q : ℚ) - roundHalfEven p q| ≤ 1 / 2 ∧
      (|(p / q : ℚ) - roundHalfEven p q| = 1 / 2 → Even (roundHalfEven p q)) := by
  have hqpos : (0 : ℚ) < q := Nat.cast_pos.mpr hq
  have hsplit : (p / q : ℚ) = (p / q : ℕ) + (p % q : ℕ) / q := by
    rw [eq_comm, ← eq_sub_iff_add_eq', div_eq_iff hqpos.ne', sub_mul, div_mul_cancel₀ _ hqpos.ne',
      eq_sub_iff_add_eq]
    exact_mod_cast Nat.mod_add_div' p q
  have hrest : (0 : ℚ) ≤ (p % q : ℕ) / q := by positivity
  rw [hsplit]
  generalize hfloor : p / q = floor
  unfold roundHalfEven
  simp only [hfloor]
  split
  · next hbelow =>
    have hlt : ((p % q : ℕ) : ℚ) / q < 1 / 2 := by
      rw [div_lt_div_iff₀ hqpos two_pos]
      exact_mod_cast (by omega : p % q * 2 < 1 * q)
    rw [add_sub_cancel_left, abs_of_nonneg hrest]
    exact ⟨hlt.le, fun h => absurd h hlt.ne⟩
  · split
    · next habove =>
      have hlt : 1 / 2 < ((p % q : ℕ) : ℚ) / q := by
        rw [div_lt_div_iff₀ two_pos hqpos]
        exact_mod_cast (by omega : 1 * q < p % q * 2)
      have hle : ((p % q : ℕ) : ℚ) / q ≤ 1 := by
        rw [div_le_one hqpos]
        exact_mod_cast (Nat.mod_lt p hq).le
      rw [Nat.cast_succ, add_sub_add_left_eq_sub, abs_of_nonpos (by linarith)]
      exact ⟨by linarith, fun h => absurd h (by linarith)⟩
    · next hbelow habove =>
      have hhalf : ((p % q : ℕ) : ℚ) / q = 1 / 2 := by
        rw [div_eq_div_iff hqpos.ne' two_ne_zero]
        exact_mod_cast (by omega : p % q * 2 = 1 * q)
      rw [hhalf, Nat.cast_add, add_sub_add_left_eq_sub]
      rcases Nat.mod_two_eq_zero_or_one floor with heven | hodd
      · rw [heven]
        exact ⟨by norm_num, fun _ => by simpa [Nat.even_iff] using heven⟩
      · rw [hodd]
        exact ⟨by norm_num, fun _ => by rw [Nat.even_iff]; omega⟩

/-- No whole number is nearer, and one as near is met only by an even one. -/
theorem abs_sub_roundHalfEven_le {p q : Nat} (hq : 0 < q) (k : Nat) :
    |(p / q : ℚ) - roundHalfEven p q| ≤ |(p / q : ℚ) - k| ∧
      (|(p / q : ℚ) - roundHalfEven p q| = |(p / q : ℚ) - k| → k ≠ roundHalfEven p q →
        Even (roundHalfEven p q)) := by
  obtain ⟨hhalf, heven⟩ := abs_sub_roundHalfEven (p := p) hq
  generalize roundHalfEven p q = n at *
  generalize (p / q : ℚ) = x at *
  by_cases hk : k = n
  · subst hk
    exact ⟨le_rfl, fun _ hne => absurd rfl hne⟩
  · have hone : (1 : ℚ) ≤ |(k : ℚ) - n| := by
      have hne : (k : ℤ) - n ≠ 0 := by omega
      exact_mod_cast Int.one_le_abs hne
    have htriangle : |(k : ℚ) - n| ≤ |x - k| + |x - n| := by
      rw [abs_sub_comm x k]
      exact abs_sub_le (k : ℚ) x n
    exact ⟨by linarith, fun htie _ => heven (by linarith)⟩

theorem div_le_roundHalfEven (p q : Nat) : p / q ≤ roundHalfEven p q := by
  unfold roundHalfEven
  simp only
  split
  · exact le_rfl
  · split <;> omega

theorem roundHalfEven_le (p q : Nat) : roundHalfEven p q ≤ p / q + 1 := by
  unfold roundHalfEven
  simp only
  split
  · omega
  · split <;> omega

/-! ### Magnitudes -/

/-- Counted in steps, a magnitude is a whole number below 2⁵³. -/
def significand (rank : Nat) : Nat :=
  if rank < stretch then rank else stretch + rank % stretch

theorem unitsOfRank_eq (rank : Nat) :
    unitsOfRank rank = significand rank * 2 ^ (rank / stretch - 1) := by
  unfold unitsOfRank significand
  split
  · next hsmall => rw [Nat.div_eq_of_lt hsmall, Nat.zero_sub, Nat.pow_zero, Nat.mul_one]
  · rw [Nat.shiftLeft_eq]

theorem even_significand_iff (rank : Nat) : Even (significand rank) ↔ Even rank := by
  have heven : Even stretch := by decide
  unfold significand
  split
  · rfl
  · rw [Nat.even_add, iff_true_left heven, Nat.even_iff, Nat.even_iff,
      Nat.mod_mod_of_dvd _ heven.two_dvd]

theorem significand_lt (rank : Nat) : significand rank < 2 * stretch := by
  have hmod := Nat.mod_lt rank stretch_pos
  unfold significand
  split <;> omega

/-- The rank is told by the steps to its power of two and those from there on. -/
theorem rank_eq (rank : Nat) : (rank / stretch - 1) * stretch + significand rank = rank := by
  have hsplit := Nat.div_add_mod rank stretch
  unfold significand
  split
  · next hsmall =>
    rw [Nat.div_eq_of_lt hsmall]
    omega
  · next hlarge =>
    obtain ⟨k, hk⟩ : ∃ k, rank / stretch = k + 1 :=
      Nat.exists_eq_add_one.mpr (Nat.div_pos (Nat.le_of_not_lt hlarge) stretch_pos)
    rw [hk] at hsplit ⊢
    rw [Nat.add_sub_cancel, ← Nat.add_assoc, ← Nat.succ_mul, Nat.mul_comm]
    exact hsplit

theorem step_eq_zero_or (rank : Nat) : rank / stretch - 1 = 0 ∨ stretch ≤ significand rank := by
  unfold significand
  split
  · next hsmall => exact .inl (by rw [Nat.div_eq_of_lt hsmall])
  · exact .inr (Nat.le_add_right _ _)

theorem unitsOfRank_power {k offset : Nat} (h : offset < stretch) :
    unitsOfRank ((k + 1) * stretch + offset) = (stretch + offset) * 2 ^ k := by
  have hlarge : ¬(k + 1) * stretch + offset < stretch := by
    rw [Nat.succ_mul]
    omega
  have hmod : ((k + 1) * stretch + offset) % stretch = offset := by
    rw [Nat.mul_add_mod', Nat.mod_eq_of_lt h]
  have hdiv : ((k + 1) * stretch + offset) / stretch = k + 1 := by
    rw [Nat.mul_comm, Nat.mul_add_div stretch_pos, Nat.div_eq_of_lt h, Nat.add_zero]
  rw [unitsOfRank, if_neg hlarge, hmod, hdiv, Nat.shiftLeft_eq, Nat.add_sub_cancel]

/-- A whole number of steps is the magnitude of a rank, if the step is the unit or the number is
not below 2⁵². -/
theorem unitsOfRank_step {step n : Nat} (hn : n ≤ 2 * stretch) (hstep : step = 0 ∨ stretch ≤ n) :
    unitsOfRank (step * stretch + n) = n * 2 ^ step := by
  rcases Nat.lt_or_ge n stretch with hsmall | hlarge
  · obtain rfl : step = 0 := hstep.resolve_right (Nat.not_le.mpr hsmall)
    rw [Nat.zero_mul, Nat.zero_add, Nat.pow_zero, Nat.mul_one, unitsOfRank, if_pos hsmall]
  · rcases Nat.lt_or_eq_of_le hn with hlt | heq
    · obtain ⟨offset, rfl⟩ := Nat.exists_eq_add_of_le hlarge
      rw [← Nat.add_assoc, ← Nat.succ_mul, unitsOfRank_power (by omega)]
    · have hrank : step * stretch + n = (step + 1 + 1) * stretch + 0 := by
        rw [heq, Nat.add_mul, Nat.add_mul]
        omega
      rw [hrank, unitsOfRank_power stretch_pos, heq, Nat.pow_succ]
      ring

theorem unitsOfRank_succ (rank : Nat) :
    unitsOfRank (rank + 1) = unitsOfRank rank + 2 ^ (rank / stretch - 1) := by
  have hsucc : rank + 1 = (rank / stretch - 1) * stretch + (significand rank + 1) := by
    rw [← Nat.add_assoc, rank_eq]
  rw [hsucc, unitsOfRank_step (significand_lt rank)
    ((step_eq_zero_or rank).imp_right fun h => Nat.le_succ_of_le h), Nat.succ_mul,
    ← unitsOfRank_eq]

theorem unitsOfRank_strictMono : StrictMono unitsOfRank :=
  strictMono_nat_of_lt_succ fun rank => by
    rw [unitsOfRank_succ]
    exact Nat.lt_add_of_pos_right (Nat.two_pow_pos _)

/-- Every number below 2⁵³ of steps of any power of two is a magnitude. -/
theorem exists_unitsOfRank {n : Nat} (hn : n ≤ 2 * stretch) (step : Nat) :
    ∃ rank, unitsOfRank rank = n * 2 ^ step := by
  induction step generalizing n with
  | zero => exact ⟨_, unitsOfRank_step hn (.inl rfl)⟩
  | succ step ih =>
    rcases Nat.lt_or_ge n stretch with hsmall | hlarge
    · obtain ⟨rank, hrank⟩ := ih (n := 2 * n) (by omega)
      exact ⟨rank, by rw [hrank, Nat.pow_succ]; ring⟩
    · exact ⟨_, unitsOfRank_step hn (.inr hlarge)⟩

/-- A magnitude is a whole number of steps, or lies below the power of two from which on the step
is taken. -/
theorem dvd_or_unitsOfRank_lt (rank step : Nat) :
    2 ^ step ∣ unitsOfRank rank ∨ unitsOfRank rank < stretch * 2 ^ step := by
  rcases Nat.lt_or_ge (rank / stretch - 1) step with hlt | hge
  · have hrank : rank < step * stretch + stretch := by
      rw [← Nat.succ_mul, ← Nat.div_lt_iff_lt_mul stretch_pos]
      omega
    rw [← unitsOfRank_step (n := stretch) (by omega) (.inr le_rfl)]
    exact .inr (unitsOfRank_strictMono hrank)
  · rw [unitsOfRank_eq]
    exact .inl (Dvd.dvd.mul_left (Nat.pow_dvd_pow 2 hge) _)

/-! ### The nearest rank -/

/-- The nearest rank counts steps from a power of two, which are so wide that the quotient is below
2⁵³ of them and so narrow that it is not below 2⁵², or a unit each. -/
theorem exists_nearestRank_eq (p q : Nat) : ∃ step,
    nearestRank p q = step * stretch + roundHalfEven (p * unitsPerOne) (q * 2 ^ step) ∧
      p * unitsPerOne / (q * 2 ^ step) < 2 * stretch ∧
      (step = 0 ∨ stretch ≤ p * unitsPerOne / (q * 2 ^ step)) := by
  have hstretch : stretch = 2 ^ 52 := by decide
  refine ⟨(p * unitsPerOne / q).log2 - 52, by rw [nearestRank, Nat.shiftLeft_eq], ?_⟩
  rw [← Nat.div_div_eq_div_mul, hstretch, ← Nat.pow_succ']
  generalize p * unitsPerOne / q = whole
  rw [Nat.div_lt_iff_lt_mul (Nat.two_pow_pos _), ← Nat.pow_add,
    Nat.le_div_iff_mul_le (Nat.two_pow_pos _), ← Nat.pow_add]
  refine ⟨?_, ?_⟩
  · exact Nat.lt_of_lt_of_le Nat.lt_log2_self (Nat.pow_le_pow_right two_pos (by omega))
  · by_cases hzero : whole.log2 - 52 = 0
    · exact .inl hzero
    · have hne : whole ≠ 0 := by
        rintro rfl
        exact hzero (by decide)
      refine .inr ?_
      rw [Nat.add_sub_cancel' (by omega)]
      exact Nat.log2_self_le hne

/-- Counted in steps, the quotient is rounded to the nearest whole number of them. -/
theorem exists_steps {p q : Nat} (hq : 0 < q) : ∃ (step n : Nat) (y : ℚ),
    nearestRank p q = step * stretch + n ∧ unitsOfRank (nearestRank p q) = n * 2 ^ step ∧
    (p * unitsPerOne / q : ℚ) = y * 2 ^ step ∧ (step = 0 ∨ (stretch : ℚ) ≤ y) ∧
    ∀ k : Nat, |y - n| ≤ |y - k| ∧ (|y - n| = |y - k| → k ≠ n → Even n) := by
  obtain ⟨step, hrank, hbelow, hstep⟩ := exists_nearestRank_eq p q
  have hwidth : 0 < q * 2 ^ step := Nat.mul_pos hq (Nat.two_pow_pos step)
  have hlow := div_le_roundHalfEven (p * unitsPerOne) (q * 2 ^ step)
  have hhigh := roundHalfEven_le (p * unitsPerOne) (q * 2 ^ step)
  refine ⟨step, roundHalfEven (p * unitsPerOne) (q * 2 ^ step),
    ((p * unitsPerOne : ℕ) : ℚ) / (q * 2 ^ step : ℕ), hrank, ?_, ?_, ?_,
    abs_sub_roundHalfEven_le hwidth⟩
  · rw [hrank]
    exact unitsOfRank_step (by omega) (hstep.imp_right fun h => h.trans hlow)
  · push_cast
    field_simp
  · refine hstep.imp_right fun hle => ?_
    rw [le_div_iff₀ (Nat.cast_pos.mpr hwidth)]
    exact_mod_cast (Nat.le_div_iff_mul_le hwidth).mp hle

/-- No magnitude is nearer than that of the nearest rank, and another as near is met only if that
rank is even. -/
theorem abs_sub_nearestRank_le {p q : Nat} (hq : 0 < q) (rank : Nat) :
    |(p * unitsPerOne / q : ℚ) - unitsOfRank (nearestRank p q)| ≤
      |(p * unitsPerOne / q : ℚ) - unitsOfRank rank| ∧
    (|(p * unitsPerOne / q : ℚ) - unitsOfRank (nearestRank p q)| =
        |(p * unitsPerOne / q : ℚ) - unitsOfRank rank| → rank ≠ nearestRank p q →
      Even (nearestRank p q)) := by
  obtain ⟨step, n, y, hrank, hunits, hquotient, hstep, hnearest⟩ := exists_steps (p := p) hq
  have hstepPos : (0 : ℚ) < 2 ^ step := pow_pos two_pos step
  have hscale : ∀ k : ℕ, |y * 2 ^ step - (k * 2 ^ step : ℕ)| = |y - k| * 2 ^ step := by
    intro k
    push_cast
    rw [← sub_mul, abs_mul, abs_of_pos hstepPos]
  rw [hquotient, hunits]
  by_cases hdvd : 2 ^ step ∣ unitsOfRank rank
  · obtain ⟨k, hk⟩ := hdvd
    rw [Nat.mul_comm] at hk
    rw [hk, hscale, hscale]
    refine ⟨mul_le_mul_of_nonneg_right (hnearest k).1 hstepPos.le, fun htie hne => ?_⟩
    have hkn : k ≠ n := by
      rintro rfl
      exact hne (unitsOfRank_strictMono.injective (hk.trans hunits.symm))
    rw [hrank]
    exact (Even.mul_left (by decide) step).add
      ((hnearest k).2 (mul_right_cancel₀ hstepPos.ne' htie) hkn)
  · have hbelow := (dvd_or_unitsOfRank_lt rank step).resolve_left hdvd
    have hwide : step ≠ 0 := by
      rintro rfl
      exact hdvd (one_dvd _)
    have hpower := hstep.resolve_left hwide
    have hlt : (unitsOfRank rank : ℚ) < stretch * 2 ^ step := by exact_mod_cast hbelow
    have hfar : |y * 2 ^ step - (n * 2 ^ step : ℕ)| < |y * 2 ^ step - unitsOfRank rank| := by
      calc |y * 2 ^ step - (n * 2 ^ step : ℕ)|
          ≤ |y * 2 ^ step - (stretch * 2 ^ step : ℕ)| := by
            rw [hscale, hscale]
            exact mul_le_mul_of_nonneg_right (hnearest stretch).1 hstepPos.le
        _ = (y - stretch) * 2 ^ step := by
            rw [hscale, abs_of_nonneg (sub_nonneg.mpr hpower)]
        _ < y * 2 ^ step - unitsOfRank rank := by
            rw [sub_mul]
            linarith
        _ ≤ |y * 2 ^ step - unitsOfRank rank| := le_abs_self _
    exact ⟨hfar.le, fun htie => absurd htie hfar.ne⟩

end SdkCatalog.Double
