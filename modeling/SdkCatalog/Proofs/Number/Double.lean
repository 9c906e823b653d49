import Mathlib.Tactic.Ring
import SdkCatalog.Number.Double

/-! Rounding to doubles. The nearest magnitude depends on the quotient alone, and the magnitude of
a double is nearest to itself; so every decimal that stands for a double's shortest text, however
it is scaled, rounds to that double. -/

namespace SdkCatalog.Double

/-! ### The nearest rank -/

theorem roundHalfEven_mul {k : Nat} (hk : 0 < k) (p q : Nat) :
    roundHalfEven (k * p) (k * q) = roundHalfEven p q := by
  have hlt : ∀ a b, k * a < k * b ↔ a < b := fun a b => Nat.mul_lt_mul_left hk
  simp only [roundHalfEven, Nat.mul_div_mul_left _ _ hk, Nat.mul_mod_mul_left,
    Nat.mul_left_comm 2 k, hlt]

theorem nearestRank_mul {k : Nat} (hk : 0 < k) (p q : Nat) :
    nearestRank (k * p) (k * q) = nearestRank p q := by
  simp only [nearestRank, Nat.mul_assoc, Nat.mul_div_mul_left _ _ hk, Nat.shiftLeft_eq,
    roundHalfEven_mul hk]

theorem nearestRank_congr {p q p' q' : Nat} (hq : 0 < q) (hq' : 0 < q') (h : p * q' = p' * q) :
    nearestRank p q = nearestRank p' q' := by
  rw [← nearestRank_mul hq' p q, ← nearestRank_mul hq p' q', Nat.mul_comm q' p, h,
    Nat.mul_comm p' q, Nat.mul_comm q' q]

theorem unitsPerOne_pos : 0 < unitsPerOne := by decide

theorem stretch_pos : 0 < stretch := by decide

theorem unitsPerOne_eq {bits : Nat} (h : 1074 = bits) : unitsPerOne = 2 ^ bits := by
  rw [unitsPerOne, h, Nat.one_shiftLeft]

theorem two_pow_le_ten_pow (m : Nat) : 2 ^ (13 * m) ≤ 10 ^ (4 * m) := by
  rw [Nat.pow_mul, Nat.pow_mul]
  exact Nat.pow_le_pow_left (by decide) m

/-- The rank nearest to a whole number of units, for a step that divides it. -/
theorem nearestRank_units_of_step {units step : Nat} (quotient : Nat)
    (hstep : units.log2 - 52 = step)
    (hunits : units = quotient * 2 ^ step) :
    nearestRank units unitsPerOne = step * stretch + quotient := by
  have hpow : 0 < unitsPerOne * 2 ^ step := Nat.mul_pos unitsPerOne_pos (Nat.two_pow_pos step)
  have hscaled : units * unitsPerOne = quotient * (unitsPerOne * 2 ^ step) := by
    rw [hunits]
    ring
  simp only [nearestRank, Nat.mul_div_cancel _ unitsPerOne_pos, hstep, Nat.shiftLeft_eq]
  rw [hscaled]
  simp only [roundHalfEven, Nat.mul_div_cancel _ hpow, Nat.mul_mod_left, Nat.mul_zero, hpow,
    if_true]

theorem log2_mul_two_pow {offset step : Nat} (h : offset < stretch) :
    ((stretch + offset) * 2 ^ step).log2 = 52 + step := by
  have hstretch : stretch = 2 ^ 52 := by decide
  rw [hstretch] at h ⊢
  have hlow := Nat.mul_le_mul_right (2 ^ step) (show 2 ^ 52 ≤ 2 ^ 52 + offset by omega)
  have hhigh := Nat.mul_lt_mul_of_pos_right (show 2 ^ 52 + offset < 2 ^ 53 by omega)
    (Nat.two_pow_pos step)
  rw [← Nat.pow_add] at hlow hhigh
  have hne : (2 ^ 52 + offset) * 2 ^ step ≠ 0 := by
    have := Nat.two_pow_pos (52 + step)
    omega
  exact (Nat.log2_eq_iff hne).mpr ⟨hlow, by rwa [show 52 + step + 1 = 53 + step by omega]⟩

theorem nearestRank_unitsOfRank (rank : Nat) :
    nearestRank (unitsOfRank rank) unitsPerOne = rank := by
  by_cases hsmall : rank < stretch
  · have hlog : rank.log2 - 52 = 0 := by
      have : rank.log2 < 53 := by
        by_cases h0 : rank = 0
        · simp [h0]
        · exact (Nat.log2_lt h0).mpr (Nat.lt_trans hsmall (by decide))
      omega
    rw [unitsOfRank, if_pos hsmall, nearestRank_units_of_step rank hlog (by simp)]
    simp
  · have hdiv : 1 ≤ rank / stretch := (Nat.one_le_div_iff stretch_pos).mpr (by omega)
    have hmod : rank % stretch < stretch := Nat.mod_lt _ stretch_pos
    have hsplit := Nat.div_add_mod rank stretch
    rw [unitsOfRank, if_neg hsmall, Nat.shiftLeft_eq]
    have hlog : ((stretch + rank % stretch) * 2 ^ (rank / stretch - 1)).log2 - 52 =
        rank / stretch - 1 := by
      rw [log2_mul_two_pow hmod]
      omega
    rw [nearestRank_units_of_step _ hlog rfl]
    obtain ⟨k, hk⟩ : ∃ k, rank / stretch = k + 1 := ⟨rank / stretch - 1, by omega⟩
    rw [hk] at hsplit ⊢
    rw [Nat.add_sub_cancel]
    calc k * stretch + (stretch + rank % stretch)
        = stretch * (k + 1) + rank % stretch := by ring
      _ = rank := hsplit

/-- From `10 ^ 400` on, numbers lie beyond the finite magnitudes. -/
theorem rankLimit_le_nearestRank {p up : Nat} (hup : 400 ≤ up) (h : 10 ^ up ≤ p) :
    rankLimit ≤ nearestRank p 1 := by
  obtain ⟨quarter, hquarter⟩ : ∃ quarter, quarter = 100 := ⟨_, rfl⟩
  obtain ⟨bits, hbits⟩ : ∃ bits, 1074 = bits := ⟨_, rfl⟩
  obtain ⟨high, hhigh⟩ : ∃ high, high = 2099 := ⟨_, rfl⟩
  have hbig : 2 ^ high ≤ 10 ^ (4 * quarter) * unitsPerOne := by
    calc 2 ^ high ≤ 2 ^ (13 * quarter + bits) := Nat.pow_le_pow_right (by decide) (by omega)
      _ = 2 ^ (13 * quarter) * unitsPerOne := by rw [Nat.pow_add, unitsPerOne_eq hbits]
      _ ≤ 10 ^ (4 * quarter) * unitsPerOne :=
        Nat.mul_le_mul_right _ (two_pow_le_ten_pow quarter)
  have hpow : 10 ^ (4 * quarter) ≤ 10 ^ up := Nat.pow_le_pow_right (by decide) (by omega)
  have hscaled : 2 ^ high ≤ p * unitsPerOne :=
    Nat.le_trans hbig (Nat.mul_le_mul_right _ (Nat.le_trans hpow h))
  have hne : p * unitsPerOne ≠ 0 := by
    have := Nat.two_pow_pos high
    omega
  have hlog : high ≤ (p * unitsPerOne).log2 := (Nat.le_log2 hne).mpr hscaled
  have hlimit : rankLimit = 2047 * stretch := by decide
  have hstep := Nat.mul_le_mul_right stretch (show 2047 ≤ (p * unitsPerOne).log2 - 52 by omega)
  simp only [nearestRank, Nat.div_one]
  omega

theorem nearestRank_eq_zero {p q : Nat} (h : 2 * (p * unitsPerOne) < q) : nearestRank p q = 0 := by
  have hdiv : p * unitsPerOne / q = 0 := Nat.div_eq_of_lt (by omega)
  have hmod : p * unitsPerOne % q = p * unitsPerOne := Nat.mod_eq_of_lt (by omega)
  have hlog : Nat.log2 0 = 0 := by decide
  simp [nearestRank, hdiv, hlog, roundHalfEven, hmod, h]

/-! ### Decimals -/

theorem ofRatio?_congr (negative : Bool) {p q p' q' : Nat} (hq : 0 < q) (hq' : 0 < q')
    (h : p * q' = p' * q) : ofRatio? negative p q = ofRatio? negative p' q' := by
  rw [ofRatio?, ofRatio?, nearestRank_congr hq hq' h]

theorem ofRank?_zero (negative : Bool) : ofRank? negative 0 = some (ofSign negative) := rfl

/-- A decimal so small that its power of ten is not computed lies below half a unit. -/
theorem lt_of_guard {significand down : Nat} (h : significand.log2 / 3 + 340 < down) :
    2 * (significand * unitsPerOne) < 10 ^ (down + 1) := by
  obtain ⟨m, rfl⟩ : ∃ m, down = m + 340 := ⟨down - 340, by omega⟩
  have hlt : significand < 8 ^ m := by
    calc significand < 2 ^ (significand.log2 + 1) := Nat.lt_log2_self
      _ ≤ 2 ^ (3 * m) := Nat.pow_le_pow_right (by decide) (by omega)
      _ = 8 ^ m := by rw [Nat.pow_mul]
  obtain ⟨bits, hbits⟩ : ∃ bits, 1074 = bits := ⟨_, rfl⟩
  obtain ⟨quarter, hquarter⟩ : ∃ quarter, quarter = 85 := ⟨_, rfl⟩
  have hunits : 2 * unitsPerOne ≤ 10 ^ (4 * quarter) := by
    calc 2 * unitsPerOne = 2 ^ (bits + 1) := by rw [unitsPerOne_eq hbits, Nat.pow_succ']
      _ ≤ 2 ^ (13 * quarter) := Nat.pow_le_pow_right (by decide) (by omega)
      _ ≤ 10 ^ (4 * quarter) := two_pow_le_ten_pow quarter
  calc 2 * (significand * unitsPerOne) = significand * (2 * unitsPerOne) := by ring
    _ < 8 ^ m * (2 * unitsPerOne) :=
      Nat.mul_lt_mul_of_pos_right hlt (Nat.mul_pos (by decide) unitsPerOne_pos)
    _ ≤ 10 ^ m * 10 ^ (4 * quarter) := Nat.mul_le_mul (Nat.pow_le_pow_left (by decide) m) hunits
    _ = 10 ^ (m + 4 * quarter) := by rw [← Nat.pow_add]
    _ ≤ 10 ^ (m + 340 + 1) := Nat.pow_le_pow_right (by decide) (by omega)

/-- The double of a decimal is the one nearest to the quotient that the decimal is; the powers of
ten that are not computed change nothing. -/
theorem ofDecimal?_eq_ofRatio? (negative : Bool) (significand : Nat) (exponent : Int) :
    ofDecimal? negative significand exponent =
      ofRatio? negative (significand * 10 ^ exponent.toNat) (10 ^ (-exponent).toNat) := by
  cases exponent with
  | ofNat up =>
    have hneg : (-(Int.ofNat up)).toNat = 0 := by simp
    have hpos : (Int.ofNat up).toNat = up := rfl
    simp only [ofDecimal?, hneg, hpos, Nat.pow_zero, Nat.pow_eq]
    by_cases hzero : significand = 0
    · rw [if_pos hzero, hzero, Nat.zero_mul, ofRatio?, nearestRank_eq_zero (by decide),
        ofRank?_zero]
    · rw [if_neg hzero]
      by_cases hup : 400 < up
      · have hrank := rankLimit_le_nearestRank (p := significand * 10 ^ up) (Nat.le_of_lt hup)
          (Nat.le_mul_of_pos_left _ (by omega))
        rw [if_pos hup, ofRatio?, ofRank?, dif_neg (by omega)]
      · rw [if_neg hup]
  | negSucc down =>
    have hneg : (-(Int.negSucc down)).toNat = down + 1 := rfl
    have hpos : (Int.negSucc down).toNat = 0 := rfl
    simp only [ofDecimal?, hneg, hpos, Nat.pow_zero, Nat.mul_one, Nat.pow_eq]
    by_cases hguard : significand.log2 / 3 + 340 < down
    · rw [if_pos hguard, ofRatio?, nearestRank_eq_zero (lt_of_guard hguard), ofRank?_zero]
    · rw [if_neg hguard]

/-- Zeros at the end of the digits, taken back by the exponent, change nothing. -/
theorem ofDecimal?_scale (negative : Bool) (significand k : Nat) (exponent : Int) :
    ofDecimal? negative (significand * 10 ^ k) (exponent - k) =
      ofDecimal? negative significand exponent := by
  rw [ofDecimal?_eq_ofRatio?, ofDecimal?_eq_ofRatio?]
  refine ofRatio?_congr negative (Nat.pow_pos (by decide)) (Nat.pow_pos (by decide)) ?_
  have hsum : k + ((exponent - k).toNat + (-exponent).toNat) =
      exponent.toNat + (-(exponent - k)).toNat := by omega
  calc significand * 10 ^ k * 10 ^ (exponent - k).toNat * 10 ^ (-exponent).toNat
      = significand * 10 ^ (k + ((exponent - k).toNat + (-exponent).toNat)) := by
        rw [Nat.pow_add, Nat.pow_add]
        ring
    _ = significand * 10 ^ exponent.toNat * 10 ^ (-(exponent - k)).toNat := by
        rw [hsum, Nat.pow_add]
        ring

/-! ### The shortest decimal -/

theorem ofRank?_rank (d : Double) : ofRank? d.negative d.rank = some d := by
  rw [ofRank?, dif_pos d.rank_lt]

theorem ofDecimal?_neg (negative : Bool) (significand down : Nat) :
    ofDecimal? negative significand (-(down : Int)) =
      ofRatio? negative significand (10 ^ down) := by
  rw [ofDecimal?_eq_ofRatio?, show (-(down : Int)).toNat = 0 by omega,
    show (-(-(down : Int))).toNat = down by omega, Nat.pow_zero, Nat.mul_one]

theorem ofDecimal?_exactDecimal (d : Double) :
    ofDecimal? d.negative d.exactDecimal.1 d.exactDecimal.2 = some d := by
  obtain ⟨down, hdown⟩ : ∃ down, 1074 = down := ⟨_, rfl⟩
  have hpow : 10 ^ down = Nat.pow 5 1074 * unitsPerOne := by
    rw [unitsPerOne_eq hdown, hdown]
    exact Nat.mul_pow 5 2 down
  have hexact : d.exactDecimal = (d.units * Nat.pow 5 1074, -(down : Int)) := by
    subst hdown
    rfl
  rw [hexact, ofDecimal?_neg, ofRatio?_congr d.negative (Nat.pow_pos (by decide)) unitsPerOne_pos
    (show d.units * Nat.pow 5 1074 * unitsPerOne = d.units * 10 ^ down by rw [hpow, Nat.mul_assoc]),
    ofRatio?, units, nearestRank_unitsOfRank, ofRank?_rank]

theorem ofDecimal?_of_decimalOfWidth? {d : Double} {point : Int} {width : Nat}
    {found : Nat × Int} (h : d.decimalOfWidth? point width = some found) :
    ofDecimal? d.negative found.1 found.2 = some d := by
  simp only [decimalOfWidth?, Option.map_eq_some_iff] at h
  obtain ⟨significand, hfind, rfl⟩ := h
  simpa using List.find?_some hfind

/-- The shortest decimal of a double rounds to it. -/
theorem ofDecimal?_shortest (d : Double) :
    ofDecimal? d.negative d.shortest.1 d.shortest.2 = some d := by
  simp only [shortest]
  cases hfound : (List.range 17).findSome? fun n =>
      d.decimalOfWidth? (decimalPoint d.units unitsPerOne) (n + 1) with
  | none => exact ofDecimal?_exactDecimal d
  | some found =>
    obtain ⟨n, -, hn⟩ := List.exists_of_findSome?_eq_some hfound
    exact ofDecimal?_of_decimalOfWidth? hn

theorem shortest_ne_zero {d : Double} (h : d.rank ≠ 0) : d.shortest.1 ≠ 0 := by
  intro hzero
  have hround := ofDecimal?_shortest d
  rw [hzero, ofDecimal?_eq_ofRatio?, Nat.zero_mul, ofRatio?,
    nearestRank_eq_zero (by rw [Nat.zero_mul]; exact Nat.pow_pos (by decide)),
      ofRank?_zero] at hround
  injection hround with hround
  exact h (by rw [← hround]; rfl)

end SdkCatalog.Double
