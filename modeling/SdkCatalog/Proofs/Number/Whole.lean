import SdkCatalog.Proofs.Number.Numeral
import SdkCatalog.Proofs.Text.Trim

/-! Whole numbers are read exactly, in any of the four bases and of any size that can be read, and
what is spelled in no way is no numeral. So a number that is printed is read back. -/

namespace SdkCatalog.Numeral

open Text

variable {mark : List Char} {base : Nat}

/-! ### Printed numbers -/

/-- The digits that print a number are below the base and spell it. -/
theorem exists_toDigits (hbase : 1 < base) (n : Nat) :
    ∃ values : List Nat, Nat.toDigits base n = values.map Nat.digitChar ∧ values ≠ [] ∧
      (∀ value ∈ values, value < base) ∧ Nat.ofDigits base values.reverse = n := by
  induction n using Nat.strong_induction_on with
  | _ n ih =>
    by_cases hsmall : n < base
    · refine ⟨[n], Nat.toDigits_of_lt_base hsmall, List.cons_ne_nil _ _, ?_, ?_⟩
      · intro value hvalue
        rwa [List.mem_singleton.mp hvalue]
      · exact Nat.ofDigits_singleton
    · obtain ⟨values, hdigits, -, hlt, hvalue⟩ :=
        ih (n / base) (Nat.div_lt_self (by omega) hbase)
      refine ⟨values ++ [n % base], ?_, by simp, ?_, ?_⟩
      · rw [Nat.toDigits_of_base_le hbase (Nat.le_of_not_lt hsmall), hdigits, List.map_append]
        rfl
      · intro value hmem
        rcases List.mem_append.mp hmem with hmem | hmem
        · exact hlt value hmem
        · rw [List.mem_singleton.mp hmem]
          exact Nat.mod_lt n (by omega)
      · rw [List.reverse_concat, Nat.ofDigits_cons, hvalue]
        exact Nat.mod_add_div n base

theorem spellsNat_toDigits {digit? : Char → Option Nat} (hbase : 1 < base)
    (hdigit : ∀ value < base, digit? (Nat.digitChar value) = some value) (n : Nat) :
    SpellsNat digit? base (Nat.toDigits base n) n := by
  obtain ⟨values, hdigits, -, hlt, hvalue⟩ := exists_toDigits hbase n
  refine ⟨values, ?_, hvalue⟩
  rw [hdigits, List.map_map]
  exact List.map_congr_left fun value hmem => hdigit value (hlt value hmem)

theorem not_isBlank_toDigits (hbase : 1 < base) (hsmall : base ≤ 16) (n : Nat) :
    ∀ c ∈ Nat.toDigits base n, isBlank c = false := by
  have hdigit : ∀ value < 16, isBlank (Nat.digitChar value) = false := by decide
  obtain ⟨values, hdigits, -, hlt, -⟩ := exists_toDigits hbase n
  rw [hdigits]
  intro c hc
  obtain ⟨value, hmem, rfl⟩ := List.mem_map.mp hc
  exact hdigit value ((hlt value hmem).trans_le hsmall)

theorem IsSign.not_isBlank {negative : Bool} (h : IsSign mark negative) :
    ∀ c ∈ mark, isBlank c = false := by
  cases h with
  | none => exact List.forall_mem_nil _
  | plus => exact List.forall_mem_singleton.mpr (by decide)
  | minus => exact List.forall_mem_singleton.mpr (by decide)

theorem exists_intText (z : ℤ) : ∃ mark negative, IsSign mark negative ∧
    intText z = mark ++ Nat.toDigits 10 z.natAbs ∧ signed negative z.natAbs = z := by
  unfold intText signed
  by_cases hz : z < 0
  · exact ⟨['-'], true, .minus, if_pos hz, by rw [if_pos rfl]; omega⟩
  · exact ⟨[], false, .none, if_neg hz, by rw [if_neg (by decide)]; omega⟩

theorem isWhole_intText (z : ℤ) : IsWhole (intText z) (Nat.toDigits 10 z.natAbs).length z := by
  obtain ⟨mark, negative, hmark, htext, hz⟩ := exists_intText z
  have hwhole := IsWhole.intro hmark Nat.toDigits_ne_nil
    (spellsNat_toDigits (by decide) (by decide) z.natAbs)
  rwa [← htext, hz] at hwhole

theorem trim_intText (z : ℤ) : trim (intText z) = intText z := by
  obtain ⟨mark, negative, hmark, htext, -⟩ := exists_intText z
  have hdigits := not_isBlank_toDigits (by decide : 1 < 10) (by decide) z.natAbs
  rw [htext]
  apply trim_eq_self
  intro c hc
  exact (List.mem_append.mp hc).elim (hmark.not_isBlank c) (hdigits c)

theorem NamesBase.range (h : NamesBase mark base) : 1 < base ∧ base ≤ 16 := by
  cases h <;> decide

theorem NamesBase.not_isBlank (h : NamesBase mark base) : ∀ c ∈ mark, isBlank c = false := by
  have hpair : ∀ c, isBlank c = false → ∀ d ∈ ['0', c], isBlank d = false := fun c hc =>
    List.forall_mem_cons.mpr ⟨by decide, List.forall_mem_singleton.mpr hc⟩
  cases h with
  | hexadecimal hc => exact hpair _ (by rcases hc with rfl | rfl <;> decide)
  | octal hc => exact hpair _ (by rcases hc with rfl | rfl <;> decide)
  | binary hc => exact hpair _ (by rcases hc with rfl | rfl <;> decide)

theorem isBased_toDigits (h : NamesBase mark base) (n : Nat) :
    IsBased (mark ++ Nat.toDigits base n) n := by
  refine .intro h Nat.toDigits_ne_nil (spellsNat_toDigits h.range.1 ?_ n)
  cases h <;> decide

theorem trim_toDigits (h : NamesBase mark base) (n : Nat) :
    trim (mark ++ Nat.toDigits base n) = mark ++ Nat.toDigits base n := by
  have hdigits := not_isBlank_toDigits h.range.1 h.range.2 n
  apply trim_eq_self
  intro c hc
  exact (List.mem_append.mp hc).elim (h.not_isBlank c) (hdigits c)

/-! ### Reading -/

/-- Whole numbers are read exactly, and nothing else is let in: what is spelled in a named base, of
any length, and what is spelled in base ten with no more digits than can be read, is read as the
number it spells; what is spelled in no way, nor as a decimal, is no number. So printed numbers are
read back, in base ten with a sign and in each named base. -/
theorem reads_whole_numbers :
    (∀ cs n, IsBased (trim cs) n → parse cs = .ok (some (.int n))) ∧
    (∀ cs count z, IsWhole (trim cs) count z → count ≤ digitLimit →
      parse cs = .ok (some (.int z))) ∧
    (∀ cs, (∀ n, ¬IsBased (trim cs) n) → (∀ count z, ¬IsWhole (trim cs) count z) →
      (∀ v, ¬IsDecimal (trim cs) v) → parse cs = .ok none) ∧
    (∀ z : ℤ, z.natAbs < 10 ^ digitLimit → parse (intText z) = .ok (some (.int z))) ∧
    ∀ mark base, NamesBase mark base → ∀ n : ℕ,
      parse (mark ++ Nat.toDigits base n) = .ok (some (.int n)) := by
  refine ⟨fun cs n => parse_of_isBased, fun cs count z => parse_of_isWhole, ?_, ?_, ?_⟩
  · intro cs hbased hwhole hdecimal
    have hnone : ofText? cs = none := by
      rw [Option.eq_none_iff_forall_ne_some]
      intro numeral h
      rcases spelled_of_ofText? h with ⟨n, h⟩ | ⟨count, z, h⟩ | ⟨v, h⟩
      · exact hbased n h
      · exact hwhole count z h
      · exact hdecimal v h
    rw [parse, hnone]
  · intro z hz
    have hlength : (Nat.toDigits 10 z.natAbs).length ≤ digitLimit :=
      (Nat.length_toDigits_le_iff (by decide) (by decide)).mpr hz
    exact parse_of_isWhole ((trim_intText z).symm ▸ isWhole_intText z) hlength
  · intro mark base hmark n
    exact parse_of_isBased ((trim_toDigits hmark n).symm ▸ isBased_toDigits hmark n)

theorem reads_whole_numbers_samples :
    parse [' ', '0', 'x', 'f', 'F'] = .ok (some (.int 255)) ∧
    parse ['-', '٠', '1', '2', '\t'] = .ok (some (.int (-12))) ∧
    parse ['1', '_', '0'] = .ok none ∧ parse (intText (-45)) = .ok (some (.int (-45))) ∧
    parse ('0' :: 'o' :: Nat.toDigits 8 65) = .ok (some (.int 65)) := by
  obtain ⟨hbased, hwhole, hnone, hprinted, hmarked⟩ := reads_whole_numbers
  refine ⟨hbased _ 255 ?_, hwhole _ 3 (-12) ?_ (by decide), hnone _ ?_ ?_ ?_,
    hprinted (-45) ?_, hmarked ['0', 'o'] 8 (.octal (.inl rfl)) 65⟩
  · show IsBased (['0', 'x'] ++ ['f', 'F']) 255
    exact .intro (.hexadecimal (.inl rfl)) (List.cons_ne_nil _ _) ⟨[15, 15], by decide, by decide⟩
  · show IsWhole (['-'] ++ ['٠', '1', '2']) 3 (signed true 12)
    exact .intro .minus (List.cons_ne_nil _ _) ⟨[0, 1, 2], by decide, by decide⟩
  · intro n h
    obtain ⟨base, values, h, -⟩ := isBased_iff.mp h
    rw [show based? (trim ['1', '_', '0']) = none by decide] at h
    contradiction
  · intro count z h
    obtain ⟨negative, values, h, -⟩ := isWhole_iff.mp h
    rw [show integer? (trim ['1', '_', '0']) = none by decide] at h
    contradiction
  · intro v h
    obtain ⟨negative, whole, decimals, exponent, h, -⟩ := decimal?_of_isDecimal h
    rw [show decimal? (trim ['1', '_', '0']) = none by decide] at h
    contradiction
  · exact Nat.lt_of_lt_of_le (by decide : 45 < 10 ^ 2)
      (Nat.pow_le_pow_right (by decide) (by decide))

end SdkCatalog.Numeral
