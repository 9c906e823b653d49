import SdkCatalog.Proofs.Number.Grammar

/-! Reading numerals. A text is read in the one way in which it can be taken apart, and cannot be
read exactly when it is a whole number in base ten with too many digits. -/

namespace SdkCatalog.Numeral

open Text

variable {cs rest mark u : List Char} {base n count : Nat} {z : ℤ} {v : ℚ} {numeral : Numeral}

/-- A text spells a whole number in base ten with the given count of digits, which is more than can
be read: a sign or none before digits of any script, and blanks around them at most. -/
def Overlong (cs : List Char) (count : Nat) : Prop :=
  ∃ sign ds : List Char, trim cs = sign ++ ds ∧ sign ∈ [[], ['+'], ['-']] ∧
    (∀ c ∈ ds, isDigit c = true) ∧ ds.length = count ∧ digitLimit < count

/-! ### One way to take a text apart -/

theorem isDigit_or_of_integer? (h : integer? u = some numeral) :
    ∀ c ∈ u, isDigit c = true ∨ c = '+' ∨ c = '-' := by
  obtain ⟨negative, mark, ds, values, hmark, rfl, -, hmap, -⟩ := integer?_eq_some_iff.mp h
  intro c hc
  rcases List.mem_append.mp hc with hc | hc
  · cases hmark with
    | none => contradiction
    | plus => exact .inr (.inl (List.mem_singleton.mp hc))
    | minus => exact .inr (.inr (List.mem_singleton.mp hc))
  · exact .inl (isDigit_of_map_digit? hmap c hc)

theorem integer?_eq_none_of_mem {c : Char} (hc : c ∈ u) (hdigit : isDigit c = false)
    (hsign : c ≠ '+' ∧ c ≠ '-') : integer? u = none := by
  rw [Option.eq_none_iff_forall_ne_some]
  intro numeral h
  rcases isDigit_or_of_integer? h c hc with h | h | h
  · exact absurd h (by rw [hdigit]; decide)
  · exact hsign.1 h
  · exact hsign.2 h

theorem integer?_of_isDecimal (h : IsDecimal u v) : integer? u = none := by
  cases h with
  | pointed =>
    exact integer?_eq_none_of_mem (c := '.') (by simp) (by decide) (by decide)
  | plain hmark hne hspells htail htailNe =>
    cases htail with
    | none => contradiction
    | @some c _ _ _ hc =>
      refine integer?_eq_none_of_mem (c := c) (by simp) ?_ ?_
      · rcases hc with rfl | rfl <;> decide
      · rcases hc with rfl | rfl <;> decide

theorem NamesBase.exists_letter (h : NamesBase mark base) :
    ∃ c, mark = ['0', c] ∧ isDigit c = false ∧ c ∉ ['+', '-', '.', 'e', 'E'] := by
  cases h with
  | hexadecimal hc => exact ⟨_, rfl, by rcases hc with rfl | rfl <;> decide⟩
  | octal hc => exact ⟨_, rfl, by rcases hc with rfl | rfl <;> decide⟩
  | binary hc => exact ⟨_, rfl, by rcases hc with rfl | rfl <;> decide⟩

/-- After a zero and the letter of a base nothing goes on in base ten. -/
theorem eq_none_of_base? (h : base? u = some (base, rest)) :
    integer? u = none ∧ decimal? u = none := by
  obtain ⟨mark, hmark, rfl⟩ := base?_eq_some_iff.mp h
  obtain ⟨c, rfl, hdigit, hc⟩ := hmark.exists_letter
  simp only [List.mem_cons, List.not_mem_nil, or_false, not_or] at hc
  obtain ⟨hplus, hminus, hpoint, hlower, hupper⟩ := hc
  have hsign : sign ('0' :: c :: rest) = (false, '0' :: c :: rest) := rfl
  have hdigits : digits ('0' :: c :: rest) = ([0], c :: rest) := by
    show digits (['0'] ++ c :: rest) = _
    exact digits_run (by decide) (stopsAt_cons hdigit rest)
  have hfraction : fraction (c :: rest) = ([], c :: rest) := by
    unfold fraction
    split
    · next heq => exact absurd (List.cons.inj heq).1 hpoint
    · rfl
  have hexponent : exponent? (c :: rest) = none := if_neg (not_or.mpr ⟨hlower, hupper⟩)
  refine ⟨integer?_eq_none_of_mem (c := c) (by simp) hdigit ⟨hplus, hminus⟩, ?_⟩
  show decimal? ('0' :: c :: rest) = none
  unfold decimal?
  simp only [hsign, hdigits, hfraction, hexponent]
  rfl

theorem ofText?_of_based? (h : based? (trim cs) = some numeral) : ofText? cs = some numeral := by
  rw [ofText?, h, Option.some_or]

theorem ofText?_of_not_based (h : integer? (trim cs) ≠ none ∨ decimal? (trim cs) ≠ none) :
    ofText? cs = (integer? (trim cs)).or (decimal? (trim cs)) := by
  have hbased : based? (trim cs) = none := by
    cases hbase : base? (trim cs) with
    | none =>
      rw [based?, hbase]
      rfl
    | some pair =>
      obtain ⟨hinteger, hdecimal⟩ := eq_none_of_base? hbase
      rw [hinteger, hdecimal] at h
      rcases h with h | h <;> contradiction
  rw [ofText?, hbased, Option.none_or]

theorem ofText?_of_integer? (h : integer? (trim cs) = some numeral) :
    ofText? cs = some numeral := by
  rw [ofText?_of_not_based (.inl (by simp [h])), h, Option.some_or]

theorem ofText?_of_decimal? (hinteger : integer? (trim cs) = none)
    (h : decimal? (trim cs) = some numeral) : ofText? cs = some numeral := by
  rw [ofText?_of_not_based (.inr (by simp [h])), hinteger, h, Option.none_or]

theorem ofText?_eq_integer_iff {negative : Bool} {values : List Nat} :
    ofText? cs = some (.integer negative values) ↔
      integer? (trim cs) = some (.integer negative values) := by
  refine ⟨fun h => ?_, ofText?_of_integer?⟩
  rw [ofText?, Option.or_eq_some_iff, Option.or_eq_some_iff] at h
  rcases h with h | ⟨-, h | ⟨-, h⟩⟩
  · obtain ⟨_, _, _, _, -, -, -, -, h⟩ := based?_eq_some_iff.mp h
    contradiction
  · exact h
  · obtain ⟨_, _, _, _, _, _, _, _, -, -, -, -, -, -, h⟩ := exists_of_decimal? h
    contradiction

/-! ### Reading -/

theorem parse_of_isBased (h : IsBased (trim cs) n) : parse cs = .ok (some (.int n)) := by
  obtain ⟨base, values, hbased, rfl⟩ := isBased_iff.mp h
  rw [parse, ofText?_of_based? hbased]
  rfl

theorem parse_of_isWhole (h : IsWhole (trim cs) count z) (hcount : count ≤ digitLimit) :
    parse cs = .ok (some (.int z)) := by
  obtain ⟨negative, values, hinteger, rfl, rfl⟩ := isWhole_iff.mp h
  rw [parse, ofText?_of_integer? hinteger]
  show value _ = _
  rw [value, if_neg (Nat.not_lt.mpr hcount)]

/-- A decimal is read as the double that its exact value is rounded to. -/
theorem parse_of_isDecimal (h : IsDecimal (trim cs) v) :
    ∃ negative whole decimals exponent, decimalValue negative whole decimals exponent = v ∧
      parse cs = .ok ((nearest? negative whole decimals exponent).map fun d =>
        d.toInt?.elim (.float (.finite d)) .int) := by
  obtain ⟨negative, whole, decimals, exponent, hdecimal, hv⟩ := decimal?_of_isDecimal h
  refine ⟨negative, whole, decimals, exponent, hv, ?_⟩
  rw [parse, ofText?_of_decimal? (integer?_of_isDecimal h) hdecimal]
  rfl

/-- What is read is spelled by the grammar. -/
theorem spelled_of_ofText? (h : ofText? cs = some numeral) : (∃ n, IsBased (trim cs) n) ∨
    (∃ count z, IsWhole (trim cs) count z) ∨ ∃ v, IsDecimal (trim cs) v := by
  rw [ofText?, Option.or_eq_some_iff, Option.or_eq_some_iff] at h
  rcases h with h | ⟨-, h | ⟨-, h⟩⟩
  · obtain ⟨base, _, _, values, -, -, -, -, rfl⟩ := based?_eq_some_iff.mp h
    exact .inl ⟨_, isBased_iff.mpr ⟨base, values, h, rfl⟩⟩
  · obtain ⟨negative, _, _, values, -, -, -, -, rfl⟩ := integer?_eq_some_iff.mp h
    exact .inr (.inl ⟨_, _, isWhole_iff.mpr ⟨negative, values, h, rfl, rfl⟩⟩)
  · exact .inr (isDecimal_or_isWhole h).symm

/-! ### Numerals that are too long -/

/-- A numeral has no value exactly when it is a whole number in base ten with too many digits. -/
theorem value_eq_error_iff {numeral : Numeral} {fault : TooLong} :
    numeral.value = .error fault ↔ ∃ negative values, numeral = .integer negative values ∧
      digitLimit < values.length ∧ fault = ⟨values.length⟩ := by
  cases numeral with
  | based => simp [value]
  | decimal => simp [value]
  | integer negative values =>
    rw [value]
    split
    · next h =>
      constructor
      · intro hfault
        injection hfault with hfault
        exact ⟨negative, values, rfl, h, hfault.symm⟩
      · rintro ⟨_, _, hvalues, -, rfl⟩
        injection hvalues with _ hvalues
        rw [hvalues]
    · next h => simp [h]

theorem overlong_iff : Overlong cs count ↔ digitLimit < count ∧ ∃ negative values,
    integer? (trim cs) = some (.integer negative values) ∧ values.length = count := by
  simp only [integer?_eq_some_iff]
  constructor
  · rintro ⟨mark, ds, htrim, hmark, hall, rfl, hlong⟩
    obtain ⟨negative, hsign⟩ : ∃ negative, IsSign mark negative := by
      simp only [List.mem_cons, List.not_mem_nil, or_false] at hmark
      rcases hmark with rfl | rfl | rfl
      · exact ⟨false, .none⟩
      · exact ⟨false, .plus⟩
      · exact ⟨true, .minus⟩
    have hmap := map_digit?_of_all hall
    refine ⟨hlong, negative, _, ⟨negative, mark, ds, _, hsign, htrim, ?_, hmap, rfl⟩,
      (length_of_map_eq hmap).symm⟩
    rintro rfl
    exact absurd hlong (Nat.not_lt_zero _)
  · rintro ⟨hlong, negative, values, ⟨_, mark, ds, _, hmark, htrim, -, hmap, hnumeral⟩, rfl⟩
    obtain ⟨rfl, rfl⟩ := Numeral.integer.inj hnumeral
    refine ⟨mark, ds, htrim, ?_, isDigit_of_map_digit? hmap, length_of_map_eq hmap, hlong⟩
    cases hmark <;> simp

/-- A text cannot be read exactly when it spells a whole number with too many digits. -/
theorem parse_eq_error_iff {fault : TooLong} :
    parse cs = .error fault ↔ Overlong cs fault.digits := by
  have hparse : parse cs = .error fault ↔
      ∃ negative values, ofText? cs = some (.integer negative values) ∧
        digitLimit < values.length ∧ fault = ⟨values.length⟩ := by
    rw [parse]
    cases ofText? cs with
    | none => simp
    | some numeral => simp [value_eq_error_iff]
  rw [hparse, overlong_iff]
  simp only [ofText?_eq_integer_iff]
  constructor
  · rintro ⟨negative, values, hinteger, hlong, rfl⟩
    exact ⟨hlong, negative, values, hinteger, rfl⟩
  · rintro ⟨hlong, negative, values, hinteger, hlength⟩
    exact ⟨negative, values, hinteger, hlength ▸ hlong, by rw [hlength]⟩

end SdkCatalog.Numeral
