import Mathlib
import SdkCatalog.Proofs.Number.Exact
import SdkCatalog.Proofs.Number.Rounding

/-! Rounding is correct. The double of a quotient is the one whose value is nearest to it and,
halfway between two, the one with the even significand; there is none exactly from halfway above the
largest one on. -/

namespace SdkCatalog.Double

/-! ### Values -/

/-- The rank of a double with its sign. -/
def signedRank (d : Double) : ℤ :=
  if d.negative then -(d.rank : ℤ) else d.rank

/-- The value in units at a signed rank. -/
def unitsAt (z : ℤ) : ℤ :=
  z.sign * unitsOfRank z.natAbs

theorem unitsAt_natCast (rank : Nat) : unitsAt rank = unitsOfRank rank := by
  cases rank with
  | zero => rfl
  | succ rank =>
    rw [unitsAt, Int.sign_natCast_of_ne_zero (Nat.succ_ne_zero rank), one_mul, Int.natAbs_natCast]

theorem unitsAt_neg (z : ℤ) : unitsAt (-z) = -unitsAt z := by
  rw [unitsAt, unitsAt, Int.sign_neg, Int.natAbs_neg, neg_mul]

theorem unitsAt_strictMono : StrictMono unitsAt := by
  have hsucc : ∀ n : ℕ, unitsAt n < unitsAt (n + 1) := by
    intro n
    have hnat := unitsOfRank_strictMono n.lt_succ_self
    rw [show (n : ℤ) + 1 = (n + 1 : ℕ) from rfl, unitsAt_natCast, unitsAt_natCast]
    exact_mod_cast hnat
  refine strictMono_int_of_lt_succ fun z => ?_
  cases z with
  | ofNat n => exact hsucc n
  | negSucc n =>
    rw [Int.negSucc_eq, show -((n : ℤ) + 1) + 1 = -n by omega, unitsAt_neg, unitsAt_neg]
    exact neg_lt_neg (hsucc n)

theorem signedUnits_eq (d : Double) : d.signedUnits = unitsAt d.signedRank := by
  unfold signedUnits signedRank units
  split
  · rw [unitsAt_neg, unitsAt_natCast]
  · rw [unitsAt_natCast]

theorem toRat_eq (d : Double) : d.toRat = unitsAt d.signedRank / unitsPerOne := by
  rw [toRat, signedUnits_eq]

theorem toRat_lt_iff {d e : Double} : d.toRat < e.toRat ↔ d.signedRank < e.signedRank := by
  rw [toRat_eq, toRat_eq, div_lt_div_iff_of_pos_right (Nat.cast_pos.mpr unitsPerOne_pos),
    Int.cast_lt, unitsAt_strictMono.lt_iff_lt]

theorem toRat_eq_iff {d e : Double} : d.toRat = e.toRat ↔ d.signedRank = e.signedRank := by
  rw [toRat_eq, toRat_eq, div_left_inj' unitsPerOne_ne_zero, Int.cast_inj,
    unitsAt_strictMono.injective.eq_iff]

/-- Only the zeros are two doubles of one value. -/
theorem eq_of_toRat_eq {d e : Double} (h : d.toRat = e.toRat) (hzero : d.toRat ≠ 0) : d = e := by
  have hrank : d.signedRank ≠ 0 := by
    intro hrank
    rw [toRat_eq, hrank] at hzero
    simp [unitsAt] at hzero
  rw [toRat_eq_iff] at h
  obtain ⟨negative, rank, hlt⟩ := d
  obtain ⟨negative', rank', hlt'⟩ := e
  cases negative <;> cases negative' <;> simp [signedRank] at h hrank ⊢ <;> omega

theorem exists_signedRank {z : ℤ} (h : z.natAbs < rankLimit) : ∃ d : Double, d.signedRank = z := by
  refine ⟨⟨decide (z < 0), z.natAbs, h⟩, ?_⟩
  unfold signedRank
  by_cases hz : z < 0
  · simp only [hz, decide_true, if_true]
    omega
  · simp only [hz, decide_false, Bool.false_eq_true, if_false]
    omega

theorem natAbs_signedRank (d : Double) : d.signedRank.natAbs = d.rank := by
  unfold signedRank
  split <;> omega

theorem even_signedRank_iff (d : Double) : Even d.signedRank ↔ Even (significand d.rank) := by
  rw [even_significand_iff, ← natAbs_signedRank, Int.natAbs_even]

/-! ### The nearest double -/

/-- A double is nearest to a value if none is nearer. Where another value is as near, its
significand is even. -/
structure IsNearest (v : ℚ) (d : Double) : Prop where
  nearest : ∀ e : Double, |v - d.toRat| ≤ |v - e.toRat|
  even : ∀ e : Double, e.toRat ≠ d.toRat → |v - d.toRat| = |v - e.toRat| →
    Even (significand d.rank)

variable {v : ℚ} {d e : Double}

/-- Of two neighbours one has an odd significand, so at most one value is nearest. -/
theorem IsNearest.toRat_le (hd : IsNearest v d) (he : IsNearest v e) : e.toRat ≤ d.toRat := by
  by_contra hle
  have hlt : d.toRat < e.toRat := not_le.mp hle
  have hdist := le_antisymm (hd.nearest e) (he.nearest d)
  have hd' := (even_signedRank_iff d).mpr (hd.even e hlt.ne' hdist)
  have he' := (even_signedRank_iff e).mpr (he.even d hlt.ne hdist.symm)
  have hrank := toRat_lt_iff.mp hlt
  have hbetween : (d.signedRank + 1).natAbs < rankLimit := by
    have hdlt := d.rank_lt
    have helt := e.rank_lt
    rw [← natAbs_signedRank] at hdlt helt
    omega
  obtain ⟨f, hf⟩ := exists_signedRank hbetween
  have hne : f.signedRank ≠ e.signedRank := by
    rw [hf]
    intro heq
    rw [← heq] at he'
    exact Int.not_even_iff_odd.mpr hd'.add_one he'
  have hdf : d.toRat < f.toRat := toRat_lt_iff.mpr (by omega)
  have hfe : f.toRat < e.toRat := toRat_lt_iff.mpr (by omega)
  have hnear := hd.nearest f
  have hmiddle : v = (d.toRat + e.toRat) / 2 := by
    rcases abs_eq_abs.mp hdist with heq | heq <;> linarith
  rw [hmiddle, abs_of_nonneg (by linarith), le_abs] at hnear
  rcases hnear with hnear | hnear <;> linarith

theorem IsNearest.toRat_unique (hd : IsNearest v d) (he : IsNearest v e) : d.toRat = e.toRat :=
  le_antisymm (he.toRat_le hd) (hd.toRat_le he)

/-- A value that some double has is the value of the nearest one. -/
theorem IsNearest.toRat_eq_of_exists (hd : IsNearest v d) (h : ∃ e : Double, e.toRat = v) :
    d.toRat = v := by
  obtain ⟨e, rfl⟩ := h
  have hnear := hd.nearest e
  rw [sub_self, abs_zero] at hnear
  exact (sub_eq_zero.mp (abs_nonpos_iff.mp hnear)).symm

theorem IsNearest.of_toRat_eq (h : d.toRat = v) : IsNearest v d := by
  subst h
  refine ⟨fun e => ?_, fun e hne htie => ?_⟩
  · rw [sub_self, abs_zero]
    exact abs_nonneg _
  · rw [sub_self, abs_zero, eq_comm, abs_eq_zero, sub_eq_zero] at htie
    exact absurd htie.symm hne

/-- The quotient with a sign. -/
def signedRatio (negative : Bool) (p q : Nat) : ℚ :=
  if negative then -(p / q : ℚ) else p / q

theorem abs_signedRatio (negative : Bool) (p q : Nat) : |signedRatio negative p q| = p / q := by
  have hnonneg : (0 : ℚ) ≤ p / q := by positivity
  cases negative
  · exact abs_of_nonneg hnonneg
  · exact (abs_neg _).trans (abs_of_nonneg hnonneg)

/-- The distance of a quotient from a double is that of the quotient without its sign from the
double with its sign turned as well. -/
theorem abs_signedRatio_sub (negative : Bool) (p q : Nat) (d : Double) :
    |signedRatio negative p q - d.toRat| =
      |(p * unitsPerOne / q : ℚ) - unitsAt (if negative then -d.signedRank else d.signedRank)| /
        unitsPerOne := by
  have hpos : (0 : ℚ) < unitsPerOne := Nat.cast_pos.mpr unitsPerOne_pos
  rw [toRat_eq, eq_div_iff hpos.ne', ← abs_of_pos hpos, ← abs_mul, abs_of_pos hpos, sub_mul,
    div_mul_cancel₀ _ hpos.ne']
  cases negative
  · simp only [signedRatio, Bool.false_eq_true, if_false]
    congr 1
    ring
  · simp only [signedRatio, if_true, unitsAt_neg]
    rw [← abs_neg]
    congr 1
    push_cast
    ring

/-- The nearest rank is the nearest one among those of both signs. -/
theorem abs_sub_unitsAt_le {p q : Nat} (hq : 0 < q) (z : ℤ) :
    |(p * unitsPerOne / q : ℚ) - unitsAt (nearestRank p q)| ≤
      |(p * unitsPerOne / q : ℚ) - unitsAt z| ∧
    (|(p * unitsPerOne / q : ℚ) - unitsAt (nearestRank p q)| =
        |(p * unitsPerOne / q : ℚ) - unitsAt z| → z ≠ nearestRank p q →
      Even (nearestRank p q)) := by
  cases z with
  | ofNat rank =>
    have hrank := abs_sub_nearestRank_le hq rank (p := p)
    rw [Int.ofNat_eq_natCast, unitsAt_natCast, unitsAt_natCast, Int.cast_natCast, Int.cast_natCast]
    exact ⟨hrank.1, fun htie hne => hrank.2 htie fun heq => hne (by rw [heq])⟩
  | negSucc n =>
    have hzero := (abs_sub_nearestRank_le hq 0 (p := p)).1
    have hnonneg : (0 : ℚ) ≤ p * unitsPerOne / q :=
      div_nonneg (mul_nonneg p.cast_nonneg (Nat.cast_nonneg _)) q.cast_nonneg
    have hnegative : (unitsAt (Int.negSucc n) : ℚ) < 0 := by
      exact_mod_cast unitsAt_strictMono (Int.negSucc_lt_zero n)
    have hfar : |(p * unitsPerOne / q : ℚ) - unitsAt (nearestRank p q)| <
        |(p * unitsPerOne / q : ℚ) - unitsAt (Int.negSucc n)| := by
      rw [unitsAt_natCast, Int.cast_natCast, abs_of_pos (a := _ - (unitsAt _ : ℚ)) (by linarith)]
      refine hzero.trans_lt ?_
      rw [show unitsOfRank 0 = 0 from rfl, Nat.cast_zero, sub_zero, abs_of_nonneg hnonneg]
      linarith
    exact ⟨hfar.le, fun htie => absurd htie hfar.ne⟩

/-- A quotient is rounded to a nearest double, if to any. -/
theorem isNearest_of_ofRatio? {negative : Bool} {p q : Nat} (hq : 0 < q)
    (h : ofRatio? negative p q = some d) : IsNearest (signedRatio negative p q) d := by
  obtain ⟨hnegative, hrank⟩ : d.negative = negative ∧ d.rank = nearestRank p q := by
    unfold ofRatio? ofRank? at h
    split at h
    · injection h with h
      subst h
      exact ⟨rfl, rfl⟩
    · contradiction
  have hself : (if negative then -d.signedRank else d.signedRank) = nearestRank p q := by
    rw [signedRank, hnegative, hrank]
    cases negative <;> simp
  refine ⟨fun e => ?_, fun e hne htie => ?_⟩
  · rw [abs_signedRatio_sub, abs_signedRatio_sub, hself]
    exact div_le_div_of_nonneg_right (abs_sub_unitsAt_le hq _).1 (Nat.cast_nonneg _)
  · rw [abs_signedRatio_sub, abs_signedRatio_sub, hself, div_left_inj' unitsPerOne_ne_zero] at htie
    rw [even_significand_iff, hrank]
    refine (abs_sub_unitsAt_le hq _).2 htie fun heq => hne (toRat_eq_iff.mpr ?_)
    rw [← hself] at heq
    cases negative
    · simpa using heq
    · simpa using heq

/-! ### Overflow -/

theorem unitsOfRank_rankLimit : unitsOfRank rankLimit = 2 ^ 1024 * unitsPerOne := by
  obtain ⟨bits, hbits⟩ : ∃ bits, 1074 = bits := ⟨_, rfl⟩
  obtain ⟨high, hhigh⟩ : ∃ high, 1024 = high := ⟨_, rfl⟩
  have hrank : rankLimit = (2046 + 1) * stretch + 0 := by decide
  have hstretch : stretch = 2 ^ 52 := by decide
  rw [hrank, unitsOfRank_power stretch_pos, unitsPerOne_eq hbits, hhigh, Nat.add_zero, hstretch,
    ← Nat.pow_add, ← Nat.pow_add]
  congr 1
  omega

theorem unitsOfRank_largest :
    unitsOfRank (rankLimit - 1) + 2 ^ 971 * unitsPerOne = 2 ^ 1024 * unitsPerOne := by
  obtain ⟨bits, hbits⟩ : ∃ bits, 1074 = bits := ⟨_, rfl⟩
  obtain ⟨low, hlow⟩ : ∃ low, 971 = low := ⟨_, rfl⟩
  have hsucc := unitsOfRank_succ (rankLimit - 1)
  have hstep : (rankLimit - 1) / stretch - 1 = low + bits := by
    rw [← hbits, ← hlow]
    decide
  rw [show rankLimit - 1 + 1 = rankLimit by decide, unitsOfRank_rankLimit, hstep, Nat.pow_add,
    ← unitsPerOne_eq hbits] at hsucc
  rw [hsucc, hlow]

theorem rankLimit_le_nearestRank_iff {p q : Nat} (hq : 0 < q) :
    rankLimit ≤ nearestRank p q ↔
      (unitsOfRank (rankLimit - 1) + unitsOfRank rankLimit : ℚ) / 2 ≤ p * unitsPerOne / q := by
  have hnearest := abs_sub_nearestRank_le hq (p := p)
  have hlargest : (unitsOfRank (rankLimit - 1) : ℚ) < unitsOfRank rankLimit := by
    exact_mod_cast unitsOfRank_strictMono (show rankLimit - 1 < rankLimit by decide)
  generalize (p * unitsPerOne / q : ℚ) = x at *
  generalize nearestRank p q = rank at *
  constructor
  · intro hrank
    by_contra hbelow
    have hle : (unitsOfRank rankLimit : ℚ) ≤ unitsOfRank rank := by
      exact_mod_cast unitsOfRank_strictMono.monotone hrank
    have hnear := (hnearest (rankLimit - 1)).1
    rw [abs_of_nonpos (by linarith)] at hnear
    rcases le_abs.mp hnear with h | h <;> linarith
  · intro hhalf
    by_contra hrank
    have hle : (unitsOfRank rank : ℚ) ≤ unitsOfRank (rankLimit - 1) := by
      exact_mod_cast unitsOfRank_strictMono.monotone (show rank ≤ rankLimit - 1 by omega)
    obtain ⟨hnear, htie⟩ := hnearest rankLimit
    have hlimit : |x - unitsOfRank rankLimit| ≤ x - unitsOfRank (rankLimit - 1) :=
      abs_le.mpr ⟨by linarith, by linarith⟩
    rw [abs_of_nonneg (by linarith)] at hnear htie
    have heq : unitsOfRank rank = unitsOfRank (rankLimit - 1) := by
      exact_mod_cast le_antisymm hle (by linarith)
    rw [unitsOfRank_strictMono.injective.eq_iff] at heq
    -- The largest double is odd, so halfway above it the even power of two is taken.
    have heven := htie (by rw [heq] at hnear ⊢; linarith) (by omega)
    rw [heq] at heven
    exact absurd heven (by decide)

/-- A quotient overflows from halfway between the largest double and the next power of two on. -/
theorem ofRatio?_eq_none_iff {negative : Bool} {p q : Nat} (hq : 0 < q) :
    ofRatio? negative p q = none ↔ (2 : ℚ) ^ 1024 - 2 ^ 970 ≤ p / q := by
  have hpos : (0 : ℚ) < unitsPerOne := Nat.cast_pos.mpr unitsPerOne_pos
  have hnone : ofRatio? negative p q = none ↔ rankLimit ≤ nearestRank p q := by
    simp [ofRatio?, ofRank?]
  have hlimit : (unitsOfRank rankLimit : ℚ) = 2 ^ 1024 * unitsPerOne := by
    rw [unitsOfRank_rankLimit, Nat.cast_mul, Nat.cast_pow, Nat.cast_two]
  have hlargest : (unitsOfRank (rankLimit - 1) : ℚ) + 2 ^ 971 * unitsPerOne =
      2 ^ 1024 * unitsPerOne := by
    rw [← hlimit, unitsOfRank_rankLimit, ← unitsOfRank_largest, Nat.cast_add, Nat.cast_mul,
      Nat.cast_pow, Nat.cast_two]
  have hdouble : (2 : ℚ) ^ 971 = 2 * 2 ^ 970 := pow_succ' 2 970
  have hquotient : (p * unitsPerOne / q : ℚ) = p / q * unitsPerOne := mul_div_right_comm _ _ _
  rw [hnone, rankLimit_le_nearestRank_iff hq, hquotient, hlimit]
  rw [hdouble] at hlargest
  generalize (2 : ℚ) ^ 1024 = limit at *
  generalize (2 : ℚ) ^ 970 = half at *
  generalize (unitsOfRank (rankLimit - 1) : ℚ) = largest at *
  rw [show (largest + limit * unitsPerOne) / 2 = (limit - half) * unitsPerOne by linarith]
  exact mul_le_mul_iff_of_pos_right hpos

/-! ### Whole numbers -/

theorem toRat_eq_intCast_iff {n : ℤ} : d.toRat = n ↔ d.signedUnits = n * unitsPerOne := by
  rw [toRat, div_eq_iff unitsPerOne_ne_zero]
  exact_mod_cast Iff.rfl

/-- The whole numbers up to 2⁵³ are doubles. -/
theorem exists_toRat_eq {n : ℤ} (h : |n| ≤ 2 ^ 53) : ∃ e : Double, e.toRat = n := by
  obtain ⟨bits, hbits⟩ : ∃ bits, 1074 = bits := ⟨_, rfl⟩
  obtain ⟨high, hhigh⟩ : ∃ high, 1024 = high := ⟨_, rfl⟩
  have hstretch : 2 * stretch = 2 ^ 53 := by decide
  have hsmall : n.natAbs ≤ 2 * stretch := by
    rw [hstretch]
    exact_mod_cast n.abs_eq_natAbs ▸ h
  obtain ⟨rank, hrank⟩ := exists_unitsOfRank hsmall bits
  rw [← unitsPerOne_eq hbits] at hrank
  have hlt : rank < rankLimit := by
    rw [← unitsOfRank_strictMono.lt_iff_lt, hrank, unitsOfRank_rankLimit, hhigh]
    refine Nat.mul_lt_mul_of_pos_right (hsmall.trans_lt ?_) unitsPerOne_pos
    rw [hstretch]
    exact Nat.pow_lt_pow_right one_lt_two (by omega)
  refine ⟨⟨decide (n < 0), rank, hlt⟩, toRat_eq_intCast_iff.mpr ?_⟩
  simp only [signedUnits, units, hrank, decide_eq_true_eq, Nat.cast_mul, ← neg_mul]
  split
  · next hneg => rw [Int.ofNat_natAbs_of_nonpos hneg.le, neg_neg]
  · next hnonneg => rw [Int.natAbs_of_nonneg (not_lt.mp hnonneg)]

theorem toInt?_eq_some_iff {n : ℤ} : d.toInt? = some n ↔ d.toRat = n := by
  have hpos : (unitsPerOne : ℤ) ≠ 0 := Nat.cast_ne_zero.mpr unitsPerOne_pos.ne'
  have hdvd : d.units % unitsPerOne = 0 ↔ (unitsPerOne : ℤ) ∣ d.signedUnits := by
    rw [← Nat.dvd_iff_mod_eq_zero]
    unfold signedUnits
    split
    · rw [dvd_neg, Int.natCast_dvd_natCast]
    · rw [Int.natCast_dvd_natCast]
  rw [toRat_eq_intCast_iff, toInt?]
  constructor
  · intro hint
    split at hint
    · next hmod =>
      injection hint with hint
      rw [← hint, Int.ediv_mul_cancel (hdvd.mp hmod)]
    · contradiction
  · intro hunits
    rw [if_pos (hdvd.mpr ⟨n, by rw [hunits, mul_comm]⟩), hunits, Int.mul_ediv_cancel _ hpos]

end SdkCatalog.Double
