import SdkCatalog.Proofs.Number.Nearest
import SdkCatalog.Proofs.Number.Numeral

/-! Decimals are rounded and then normalised. A decimal is read as the double nearest to its exact
value, which becomes a whole number if it is one, and is not read if it is beyond the doubles; so a
whole number that the doubles reach is read as the same in every notation. -/

namespace SdkCatalog.Numeral

open Text

variable {cs : List Char} {v : ℚ} {d : Double}

/-! ### Rounding -/

section Rounding

variable {negative : Bool} {whole decimals : List Nat} {exponent : ℤ}

theorem zpow_eq_div (exponent : ℤ) :
    (10 : ℚ) ^ exponent = (10 ^ exponent.toNat : ℕ) / (10 ^ (-exponent).toNat : ℕ) := by
  have hsplit : exponent = exponent.toNat - (-exponent).toNat := by omega
  conv_lhs => rw [hsplit]
  rw [zpow_sub₀ (by norm_num), zpow_natCast, zpow_natCast]
  push_cast
  rfl

/-- The value of a decimal is the quotient that is rounded. -/
theorem decimalValue_eq (negative : Bool) (whole decimals : List Nat) (exponent : ℤ) :
    decimalValue negative whole decimals exponent = Double.signedRatio negative
      (ofDigits 10 (whole ++ decimals) * 10 ^ (exponent - decimals.length).toNat)
      (10 ^ (-(exponent - decimals.length)).toNat) := by
  rw [decimalValue, zpow_eq_div]
  generalize ofDigits 10 (whole ++ decimals) = m
  cases negative
  · simp only [signed, Double.signedRatio, Bool.false_eq_true, if_false, Nat.cast_mul]
    rw [mul_div_assoc]
    rfl
  · simp only [signed, Double.signedRatio, if_true, Nat.cast_mul, Int.cast_neg, Int.cast_natCast]
    rw [neg_mul, mul_div_assoc]

theorem isNearest_of_nearest? (h : nearest? negative whole decimals exponent = some d) :
    Double.IsNearest (decimalValue negative whole decimals exponent) d := by
  rw [nearest?, Double.ofDecimal?_eq_ofRatio?] at h
  rw [decimalValue_eq]
  exact Double.isNearest_of_ofRatio? (Nat.pow_pos (by decide)) h

theorem nearest?_eq_none_iff : nearest? negative whole decimals exponent = none ↔
    2 ^ 1024 - 2 ^ 970 ≤ |decimalValue negative whole decimals exponent| := by
  rw [nearest?, Double.ofDecimal?_eq_ofRatio?, decimalValue_eq, Double.abs_signedRatio]
  exact Double.ofRatio?_eq_none_iff (Nat.pow_pos (by decide))

end Rounding

/-! ### Reading -/

/-- A decimal is read as a double nearest to it, if there is one. -/
theorem parse_eq_none_or (h : IsDecimal (trim cs) v) :
    (2 ^ 1024 - 2 ^ 970 ≤ |v| ∧ parse cs = .ok none) ∨
      |v| < 2 ^ 1024 - 2 ^ 970 ∧ ∃ d, Double.IsNearest v d ∧
        parse cs = .ok (some (d.toInt?.elim (.float (.finite d)) .int)) := by
  obtain ⟨negative, whole, decimals, exponent, rfl, hparse⟩ := parse_of_isDecimal h
  cases hnearest : nearest? negative whole decimals exponent with
  | none =>
    rw [hnearest] at hparse
    exact .inl ⟨nearest?_eq_none_iff.mp hnearest, hparse⟩
  | some d =>
    rw [hnearest] at hparse
    refine .inr ⟨not_le.mp fun hle => ?_, d, isNearest_of_nearest? hnearest, hparse⟩
    rw [nearest?_eq_none_iff.mpr hle] at hnearest
    contradiction

theorem parse_eq_none_iff (h : IsDecimal (trim cs) v) :
    parse cs = .ok none ↔ 2 ^ 1024 - 2 ^ 970 ≤ |v| := by
  rcases parse_eq_none_or h with ⟨hle, hparse⟩ | ⟨hlt, d, -, hparse⟩
  · exact iff_of_true hparse hle
  · refine iff_of_false ?_ (not_le.mpr hlt)
    rw [hparse]
    simp

theorem exists_isNearest (h : IsDecimal (trim cs) v) (hv : |v| < 2 ^ 1024 - 2 ^ 970) :
    ∃ d, Double.IsNearest v d ∧
      parse cs = .ok (some (d.toInt?.elim (.float (.finite d)) .int)) :=
  (parse_eq_none_or h).elim (fun hnone => absurd hv (not_lt.mpr hnone.1)) And.right

theorem parse_of_toRat_eq (h : IsDecimal (trim cs) v) (hv : |v| < 2 ^ 1024 - 2 ^ 970)
    (hd : Double.IsNearest v d) {n : ℤ} (hn : d.toRat = n) : parse cs = .ok (some (.int n)) := by
  obtain ⟨e, he, hparse⟩ := exists_isNearest h hv
  rw [hparse, Double.toInt?_eq_some_iff.mpr ((he.toRat_unique hd).trans hn)]
  rfl

theorem toInt?_eq_none_iff : d.toInt? = none ↔ ∀ n : ℤ, d.toRat ≠ n := by
  rw [Option.eq_none_iff_forall_ne_some]
  simp only [ne_eq, Double.toInt?_eq_some_iff]

theorem parse_of_toRat_ne (h : IsDecimal (trim cs) v) (hv : |v| < 2 ^ 1024 - 2 ^ 970)
    (hd : Double.IsNearest v d) (hn : ∀ n : ℤ, d.toRat ≠ n) :
    parse cs = .ok (some (.float (.finite d))) := by
  obtain ⟨e, he, hparse⟩ := exists_isNearest h hv
  have hzero : d.toRat ≠ 0 := by exact_mod_cast hn 0
  obtain rfl : d = e := Double.eq_of_toRat_eq (hd.toRat_unique he) hzero
  rw [hparse, toInt?_eq_none_iff.mpr hn]
  rfl

theorem finite_of_parse {x : FloatingPoint} (h : parse cs = .ok (some (.float x))) :
    ∃ d, x = .finite d ∧ ∀ n : ℤ, d.toRat ≠ n := by
  unfold parse at h
  split at h
  · next numeral _ =>
    cases numeral with
    | based base digits =>
      rw [value] at h
      injections
    | integer negative digits =>
      rw [value] at h
      split at h <;> injections
    | decimal negative whole decimals exponent =>
      rw [value] at h
      injection h with h
      obtain ⟨d, -, hd⟩ := Option.map_eq_some_iff.mp h
      cases hint : d.toInt? with
      | some n =>
        rw [hint] at hd
        injections
      | none =>
        rw [hint] at hd
        injection hd with hd
        exact ⟨d, hd.symm, toInt?_eq_none_iff.mp hint⟩
  · injections

theorem two_pow_53_lt : (2 : ℚ) ^ 53 < 2 ^ 1024 - 2 ^ 970 := by
  have hhalf : (2 : ℚ) ^ 970 * 2 ≤ 2 ^ 1024 := by
    rw [← pow_succ]
    exact pow_le_pow_right₀ one_le_two (by decide)
  calc (2 : ℚ) ^ 53 < 2 ^ 970 := pow_lt_pow_right₀ one_lt_two (by decide)
    _ ≤ 2 ^ 1024 - 2 ^ 970 := le_sub_iff_add_le.mpr (by rwa [← mul_two])

theorem parse_of_isDecimal_intCast {n : ℤ} (h : IsDecimal (trim cs) n) (hn : |n| ≤ 2 ^ 53) :
    parse cs = .ok (some (.int n)) := by
  have hv : |(n : ℚ)| < 2 ^ 1024 - 2 ^ 970 := by
    refine lt_of_le_of_lt ?_ two_pow_53_lt
    exact_mod_cast hn
  obtain ⟨d, hd, -⟩ := exists_isNearest h hv
  exact parse_of_toRat_eq h hv hd (hd.toRat_eq_of_exists (Double.exists_toRat_eq hn))

/-- Decimals are rounded to the nearest double and then normalised. A decimal is no number exactly
when it lies halfway above the largest double or beyond; otherwise it is the whole number that the
nearest double is, or that double if it is none. So nothing is read as a floating point number that
is whole, infinite or not a number, and a whole number of a magnitude up to 2⁵³ is read as such in
every notation. -/
theorem reads_decimals :
    (∀ cs v, IsDecimal (trim cs) v → (parse cs = .ok none ↔ 2 ^ 1024 - 2 ^ 970 ≤ |v|) ∧
      (|v| < 2 ^ 1024 - 2 ^ 970 → (∃ d, Double.IsNearest v d) ∧ ∀ d, Double.IsNearest v d →
        (∀ n : ℤ, d.toRat = n → parse cs = .ok (some (.int n))) ∧
        ((∀ n : ℤ, d.toRat ≠ n) → parse cs = .ok (some (.float (.finite d)))))) ∧
    (∀ cs x, parse cs = .ok (some (.float x)) → ∃ d, x = .finite d ∧ ∀ n : ℤ, d.toRat ≠ n) ∧
    ∀ n : ℤ, |n| ≤ 2 ^ 53 → ∀ cs, (∃ m : ℕ, n = m ∧ IsBased (trim cs) m) ∨
      (∃ count ≤ digitLimit, IsWhole (trim cs) count n) ∨ IsDecimal (trim cs) n →
      parse cs = .ok (some (.int n)) := by
  refine ⟨fun cs v h => ⟨parse_eq_none_iff h, fun hv => ⟨?_, fun d hd => ⟨?_, ?_⟩⟩⟩,
    fun cs x => finite_of_parse, ?_⟩
  · obtain ⟨d, hd, -⟩ := exists_isNearest h hv
    exact ⟨d, hd⟩
  · exact fun n => parse_of_toRat_eq h hv hd
  · exact parse_of_toRat_ne h hv hd
  · rintro n hn cs (⟨m, rfl, h⟩ | ⟨count, hcount, h⟩ | h)
    · exact parse_of_isBased h
    · exact parse_of_isWhole h hcount
    · exact parse_of_isDecimal_intCast h hn

theorem le_ten_pow : (2 : ℚ) ^ 1024 - 2 ^ 970 ≤ 10 ^ 400 := by
  have hnonneg : (0 : ℚ) ≤ 2 ^ 970 := pow_nonneg zero_le_two 970
  calc (2 : ℚ) ^ 1024 - 2 ^ 970 ≤ 2 ^ 1024 := sub_le_self _ hnonneg
    _ ≤ 2 ^ (13 * 100) := pow_le_pow_right₀ one_le_two (by decide)
    _ = (2 ^ 13) ^ 100 := pow_mul 2 13 100
    _ ≤ (10 ^ 4) ^ 100 := pow_le_pow_left₀ (by norm_num) (by norm_num) 100
    _ = 10 ^ 400 := (pow_mul 10 4 100).symm

theorem reads_decimals_samples :
    parse ['1', 'e', '4', '0', '0'] = .ok none ∧
    (∃ d : Double, d.toRat = 1 / 2 ∧ parse ['.', '5'] = .ok (some (.float (.finite d)))) ∧
    parse [' ', '-', '1', '.', '5', 'E', '1'] = .ok (some (.int (-15))) := by
  obtain ⟨hread, -, hwhole⟩ := reads_decimals
  have hhuge : IsDecimal ['1', 'e', '4', '0', '0'] (10 ^ 400) := by
    have hexponent : IsExponent ['e', '4', '0', '0'] (400 : ℕ) :=
      .some (.inl rfl) (.intro .none (List.cons_ne_nil _ _) ⟨[4, 0, 0], by decide, by decide⟩)
    have h : IsDecimal ([] ++ (['1'] ++ ['e', '4', '0', '0']))
        (signed false 1 * 10 ^ ((400 : ℕ) : ℤ)) :=
      .plain .none (List.cons_ne_nil _ _) ⟨[1], by decide, by decide⟩ hexponent
        (List.cons_ne_nil _ _)
    rwa [zpow_natCast, show signed false 1 = 1 from rfl, Int.cast_one, one_mul] at h
  have hhalf : IsDecimal ['.', '5'] (1 / 2) := by
    have h : IsDecimal ([] ++ ([] ++ '.' :: (['5'] ++ []))) (signed false 5 * 10 ^ (0 - 1 : ℤ)) :=
      .pointed .none (List.cons_ne_nil _ _) ⟨[5], by decide, by decide⟩ .none
    norm_num [signed] at h
    exact h
  have hfifteen : IsDecimal ['-', '1', '.', '5', 'E', '1'] (-15 : ℤ) := by
    have hexponent : IsExponent ['E', '1'] (1 : ℕ) :=
      .some (.inr rfl) (.intro .none (List.cons_ne_nil _ _) ⟨[1], by decide, by decide⟩)
    have h : IsDecimal (['-'] ++ (['1'] ++ '.' :: (['5'] ++ ['E', '1'])))
        (signed true 15 * 10 ^ (1 - 1 : ℤ)) :=
      .pointed .minus (List.cons_ne_nil _ _) ⟨[1, 5], by decide, by decide⟩ hexponent
    norm_num [signed] at h
    exact_mod_cast h
  obtain ⟨d, hd⟩ : ∃ d : Double, d.toRat = 1 / 2 := by
    have hunits : Double.signedUnits ⟨false, 1022 <<< 52, by decide⟩ * 2 =
        1 * Double.unitsPerOne := by decide +kernel
    refine ⟨⟨false, 1022 <<< 52, by decide⟩, ?_⟩
    rw [Double.toRat, div_eq_div_iff Double.unitsPerOne_ne_zero two_ne_zero]
    exact_mod_cast hunits
  refine ⟨(hread ['1', 'e', '4', '0', '0'] _ hhuge).1.mpr (le_ten_pow.trans (le_abs_self _)),
    ⟨d, hd, (((hread ['.', '5'] _ hhalf).2 ?_).2 d (.of_toRat_eq hd)).2 ?_⟩,
    hwhole (-15) (by decide) _ (.inr (.inr hfifteen))⟩
  · refine lt_of_lt_of_le ?_ two_pow_53_lt.le
    norm_num
  · intro n hn
    rw [hd, div_eq_iff two_ne_zero] at hn
    have hodd : 1 = n * 2 := by exact_mod_cast hn
    omega

end SdkCatalog.Numeral
