import Mathlib.Algebra.Order.Field.Rat
import Mathlib.Data.Nat.Digits.Defs
import SdkCatalog.Number.Basic
import SdkCatalog.Proofs.Text.Word

/-! The grammar of numerals. A whole number is spelled in a base that its first two characters name,
or in base ten with a sign or none; a decimal has a point or an exponent or both. Each is taken
apart into the digits it is made of, and nothing else is. -/

namespace SdkCatalog.Numeral

open Text

/-- Digits that spell a number in a base, the last of them counting once. -/
def SpellsNat (digit? : Char → Option Nat) (base : Nat) (ds : List Char) (n : Nat) : Prop :=
  ∃ values : List Nat, ds.map digit? = values.map some ∧ Nat.ofDigits base values.reverse = n

/-- The two characters in front of a whole number that name its base. -/
inductive NamesBase : List Char → Nat → Prop
  | hexadecimal {c : Char} : c = 'x' ∨ c = 'X' → NamesBase ['0', c] 16
  | octal {c : Char} : c = 'o' ∨ c = 'O' → NamesBase ['0', c] 8
  | binary {c : Char} : c = 'b' ∨ c = 'B' → NamesBase ['0', c] 2

/-- A sign, or none, and whether it is a minus. -/
inductive IsSign : List Char → Bool → Prop
  | none : IsSign [] false
  | plus : IsSign ['+'] false
  | minus : IsSign ['-'] true

/-- A whole number in a base that is named. -/
inductive IsBased : List Char → Nat → Prop
  | intro {mark ds : List Char} {base n : Nat} : NamesBase mark base → ds ≠ [] →
    SpellsNat (digitIn? base) base ds n → IsBased (mark ++ ds) n

/-- A whole number in base ten of a count of digits, of any script. -/
inductive IsWhole : List Char → Nat → ℤ → Prop
  | intro {mark ds : List Char} {negative : Bool} {n : Nat} : IsSign mark negative → ds ≠ [] →
    SpellsNat digit? 10 ds n → IsWhole (mark ++ ds) ds.length (signed negative n)

/-- The end of a decimal, and the power of ten by which it is multiplied. -/
inductive IsExponent : List Char → ℤ → Prop
  | none : IsExponent [] 0
  | some {c : Char} {cs : List Char} {count : Nat} {power : ℤ} : c = 'e' ∨ c = 'E' →
    IsWhole cs count power → IsExponent (c :: cs) power

/-- A decimal with a point, an exponent, or both, and its exact value. -/
inductive IsDecimal : List Char → ℚ → Prop
  | pointed {mark whole decimals tail : List Char} {negative : Bool} {n : Nat} {power : ℤ} :
    IsSign mark negative → whole ++ decimals ≠ [] → SpellsNat digit? 10 (whole ++ decimals) n →
    IsExponent tail power →
    IsDecimal (mark ++ (whole ++ '.' :: (decimals ++ tail)))
      (signed negative n * 10 ^ (power - decimals.length))
  | plain {mark whole tail : List Char} {negative : Bool} {n : Nat} {power : ℤ} :
    IsSign mark negative → whole ≠ [] → SpellsNat digit? 10 whole n → IsExponent tail power →
    tail ≠ [] → IsDecimal (mark ++ (whole ++ tail)) (signed negative n * 10 ^ power)

variable {cs ds rest mark whole decimals tail u : List Char} {values : List Nat}
  {base n count : Nat} {negative : Bool} {power : ℤ} {numeral : Numeral} {v : ℚ}

/-! ### Digits -/

theorem ofDigits_eq (base : Nat) (values : List Nat) :
    ofDigits base values = Nat.ofDigits base values.reverse := by
  induction values using List.reverseRecOn with
  | nil => rfl
  | append_singleton values value ih =>
    rw [ofDigits_concat, ih, List.reverse_concat, Nat.ofDigits_cons, Nat.mul_comm, Nat.add_comm]

theorem spellsNat_iff {digit? : Char → Option Nat} : SpellsNat digit? base ds n ↔
    ∃ values, ds.map digit? = values.map some ∧ ofDigits base values = n := by
  simp only [SpellsNat, ofDigits_eq]

theorem map_digit?_of_all (h : ∀ c ∈ ds, isDigit c = true) :
    ds.map digit? = (ds.filterMap digit?).map some := by
  induction ds with
  | nil => rfl
  | cons c ds ih =>
    obtain ⟨value, hvalue⟩ := Option.isSome_iff_exists.mp (h c List.mem_cons_self)
    rw [List.map_cons, List.filterMap_cons_some hvalue, List.map_cons, hvalue,
      ih fun d hd => h d (List.mem_cons_of_mem _ hd)]

theorem isDigit_of_map_digit? (h : ds.map digit? = values.map some) :
    ∀ c ∈ ds, isDigit c = true := by
  intro c hc
  have hmem : digit? c ∈ values.map some := h ▸ List.mem_map_of_mem hc
  obtain ⟨value, -, hvalue⟩ := List.mem_map.mp hmem
  rw [isDigit, ← hvalue, Option.isSome_some]

theorem length_of_map_eq {digit? : Char → Option Nat} (h : ds.map digit? = values.map some) :
    ds.length = values.length := by
  rw [← List.length_map, h, List.length_map]

theorem eq_nil_iff_of_map_eq {digit? : Char → Option Nat} (h : ds.map digit? = values.map some) :
    ds = [] ↔ values = [] := by
  rw [← List.length_eq_zero_iff, length_of_map_eq h, List.length_eq_zero_iff]

theorem digits_run (h : ds.map digit? = values.map some) (hrest : StopsAt isDigit rest) :
    digits (ds ++ rest) = (values, rest) := by
  have hall := isDigit_of_map_digit? h
  have hvalues : ds.filterMap digit? = values :=
    List.map_injective_iff.mpr (Option.some_injective Nat) ((map_digit?_of_all hall).symm.trans h)
  rw [digits, takeWhile_run hall hrest, dropWhile_run hall hrest, hvalues]

theorem exists_digits (cs : List Char) : ∃ ds, cs = ds ++ (digits cs).2 ∧
    ds.map digit? = (digits cs).1.map some ∧ StopsAt isDigit (digits cs).2 :=
  ⟨cs.takeWhile isDigit, List.takeWhile_append_dropWhile.symm, map_digit?_of_all mem_takeWhile,
    stopsAt_dropWhile isDigit cs⟩

theorem digits_eq_iff : digits cs = (values, rest) ↔
    ∃ ds, cs = ds ++ rest ∧ ds.map digit? = values.map some ∧ StopsAt isDigit rest := by
  constructor
  · intro h
    obtain ⟨ds, hds⟩ := exists_digits cs
    rw [h] at hds
    exact ⟨ds, hds⟩
  · rintro ⟨ds, rfl, hmap, hrest⟩
    exact digits_run hmap hrest

/-! ### Signs -/

theorem sign_run (hmark : IsSign mark negative)
    (hrest : ∀ c, rest.head? = some c → c ≠ '+' ∧ c ≠ '-') :
    sign (mark ++ rest) = (negative, rest) := by
  cases hmark with
  | plus => rfl
  | minus => rfl
  | none =>
    cases rest with
    | nil => rfl
    | cons c rest =>
      obtain ⟨hplus, hminus⟩ := hrest c rfl
      rw [List.nil_append]
      unfold sign
      split <;> simp_all

theorem exists_isSign (cs : List Char) :
    ∃ mark, IsSign mark (sign cs).1 ∧ cs = mark ++ (sign cs).2 := by
  fun_cases sign cs with
  | case1 => exact ⟨['+'], .plus, rfl⟩
  | case2 => exact ⟨['-'], .minus, rfl⟩
  | case3 => exact ⟨[], .none, rfl⟩

/-- A digit is no sign, and neither is a point. -/
theorem not_sign_of_digits (h : ds.map digit? = values.map some)
    (hrest : ds = [] → ∀ c, rest.head? = some c → c ≠ '+' ∧ c ≠ '-') :
    ∀ c, (ds ++ rest).head? = some c → c ≠ '+' ∧ c ≠ '-' := by
  cases ds with
  | nil => exact hrest rfl
  | cons d ds =>
    intro c hc
    have hdigit := isDigit_of_map_digit? h d List.mem_cons_self
    injection hc with hc
    subst hc
    refine ⟨?_, ?_⟩
    · rintro rfl
      exact absurd hdigit (by decide)
    · rintro rfl
      exact absurd hdigit (by decide)

/-! ### Whole numbers -/

theorem integer?_eq_some_iff : integer? u = some numeral ↔
    ∃ negative mark ds values, IsSign mark negative ∧ u = mark ++ ds ∧ ds ≠ [] ∧
      ds.map digit? = values.map some ∧ numeral = .integer negative values := by
  constructor
  · intro h
    obtain ⟨mark, hmark, hu⟩ := exists_isSign u
    obtain ⟨ds, hds, hmap, -⟩ := exists_digits (sign u).2
    unfold integer? at h
    simp only at h
    split at h
    · next value values hdigits =>
      rw [hdigits, List.append_nil] at hds
      rw [hdigits] at hmap
      injection h with h
      refine ⟨_, mark, ds, _, hmark, hds ▸ hu, ?_, hmap, h.symm⟩
      rw [ne_eq, eq_nil_iff_of_map_eq hmap]
      exact List.cons_ne_nil value values
    · contradiction
  · rintro ⟨negative, mark, ds, values, hmark, rfl, hne, hmap, rfl⟩
    have hsign : sign (mark ++ ds) = (negative, ds) := by
      refine sign_run hmark ?_
      rw [← List.append_nil ds]
      exact not_sign_of_digits hmap fun hnil => absurd hnil hne
    have hdigits : digits ds = (values, []) :=
      digits_eq_iff.mpr ⟨ds, (List.append_nil ds).symm, hmap, fun _ hc => nomatch hc⟩
    rw [ne_eq, eq_nil_iff_of_map_eq hmap] at hne
    obtain ⟨value, values, rfl⟩ := List.exists_cons_of_ne_nil hne
    unfold integer?
    simp only [hsign, hdigits]

theorem isWhole_iff {z : ℤ} : IsWhole u count z ↔ ∃ negative values,
    integer? u = some (.integer negative values) ∧ values.length = count ∧
      signed negative (ofDigits 10 values) = z := by
  simp only [integer?_eq_some_iff]
  constructor
  · rintro ⟨hmark, hne, hspells⟩
    obtain ⟨values, hmap, rfl⟩ := spellsNat_iff.mp hspells
    exact ⟨_, values, ⟨_, _, _, _, hmark, rfl, hne, hmap, rfl⟩, (length_of_map_eq hmap).symm, rfl⟩
  · rintro ⟨negative, values, ⟨_, mark, ds, _, hmark, rfl, hne, hmap, hnumeral⟩, rfl, rfl⟩
    obtain ⟨rfl, rfl⟩ := Numeral.integer.inj hnumeral
    rw [← length_of_map_eq hmap]
    exact .intro hmark hne (spellsNat_iff.mpr ⟨values, hmap, rfl⟩)

/-! ### Named bases -/

theorem base?_eq_some_iff : base? u = some (base, rest) ↔
    ∃ mark, NamesBase mark base ∧ u = mark ++ rest := by
  constructor
  · intro h
    unfold base? at h
    split at h
    · next c tail =>
      split at h
      · next hc =>
        obtain ⟨rfl, rfl⟩ := Prod.mk.inj (Option.some.inj h)
        exact ⟨_, .hexadecimal hc, rfl⟩
      · split at h
        · next hc =>
          obtain ⟨rfl, rfl⟩ := Prod.mk.inj (Option.some.inj h)
          exact ⟨_, .octal hc, rfl⟩
        · split at h
          · next hc =>
            obtain ⟨rfl, rfl⟩ := Prod.mk.inj (Option.some.inj h)
            exact ⟨_, .binary hc, rfl⟩
          · contradiction
    · contradiction
  · rintro ⟨mark, hmark, rfl⟩
    cases hmark with
    | hexadecimal hc => rcases hc with rfl | rfl <;> rfl
    | octal hc => rcases hc with rfl | rfl <;> rfl
    | binary hc => rcases hc with rfl | rfl <;> rfl

theorem mapM_eq_some_iff {f : Char → Option Nat} :
    ds.mapM f = some values ↔ ds.map f = values.map some := by
  induction ds generalizing values with
  | nil => cases values <;> simp
  | cons d ds ih =>
    rw [List.mapM_cons]
    cases values with
    | nil => simp [Option.bind_eq_some_iff]
    | cons value values => simp [Option.bind_eq_some_iff, ih]

theorem based?_eq_some_iff : based? u = some numeral ↔
    ∃ base mark ds values, NamesBase mark base ∧ u = mark ++ ds ∧ ds ≠ [] ∧
      ds.map (digitIn? base) = values.map some ∧ numeral = .based base values := by
  unfold based?
  simp only [Option.bind_eq_bind, Option.bind_eq_some_iff, Prod.exists, base?_eq_some_iff,
    mapM_eq_some_iff]
  constructor
  · rintro ⟨base, ds, ⟨mark, hmark, rfl⟩, values, hmap, h⟩
    split at h
    · contradiction
    · next hempty =>
      injection h with h
      refine ⟨base, mark, ds, values, hmark, rfl, ?_, hmap, h.symm⟩
      rwa [ne_eq, eq_nil_iff_of_map_eq hmap, ← List.isEmpty_iff]
  · rintro ⟨base, mark, ds, values, hmark, rfl, hne, hmap, rfl⟩
    refine ⟨base, ds, ⟨mark, hmark, rfl⟩, values, hmap, if_neg ?_⟩
    rwa [List.isEmpty_iff, ← eq_nil_iff_of_map_eq hmap]

theorem isBased_iff : IsBased u n ↔
    ∃ base values, based? u = some (.based base values) ∧ ofDigits base values = n := by
  simp only [based?_eq_some_iff]
  constructor
  · rintro ⟨hmark, hne, hspells⟩
    obtain ⟨values, hmap, rfl⟩ := spellsNat_iff.mp hspells
    exact ⟨_, values, ⟨_, _, _, _, hmark, rfl, hne, hmap, rfl⟩, rfl⟩
  · rintro ⟨base, values, ⟨_, mark, ds, _, hmark, rfl, hne, hmap, hnumeral⟩, rfl⟩
    obtain ⟨rfl, rfl⟩ := Numeral.based.inj hnumeral
    exact .intro hmark hne (spellsNat_iff.mpr ⟨values, hmap, rfl⟩)

/-! ### Decimals -/

theorem isExponent_iff : IsExponent tail power ↔ exponent? tail = some power := by
  constructor
  · rintro (_ | ⟨hc, hwhole⟩)
    · rfl
    · obtain ⟨negative, values, hinteger, -, rfl⟩ := isWhole_iff.mp hwhole
      simp only [exponent?, if_pos hc, hinteger, signed]
  · intro h
    unfold exponent? at h
    split at h
    · injection h with h
      subst h
      exact .none
    · split at h
      · next hc =>
        split at h
        · next negative values hinteger =>
          injection h with h
          exact .some hc (isWhole_iff.mpr ⟨negative, values, hinteger, rfl, h⟩)
        · contradiction
      · contradiction

theorem stopsAt_of_exponent? (h : exponent? tail = some power) : StopsAt isDigit tail := by
  intro c hc
  cases tail with
  | nil => contradiction
  | cons d tail =>
    injection hc with hc
    subst hc
    simp only [exponent?] at h
    split at h
    · next hd => rcases hd with rfl | rfl <;> decide
    · contradiction

theorem decimal?_run {after : List Char} {values' : List Nat} (hmark : IsSign mark negative)
    (hwhole : whole.map digit? = values.map some) (hafter : StopsAt isDigit after)
    (hsign : whole = [] → ∀ c, after.head? = some c → c ≠ '+' ∧ c ≠ '-')
    (hfraction : fraction after = (values', tail)) (hne : values ++ values' ≠ [])
    (hpower : exponent? tail = some power) :
    decimal? (mark ++ (whole ++ after)) = some (.decimal negative values values' power) := by
  have hempty : ¬(values.isEmpty && values'.isEmpty) = true := by
    rw [Bool.and_eq_true, List.isEmpty_iff, List.isEmpty_iff]
    rintro ⟨rfl, rfl⟩
    contradiction
  unfold decimal?
  simp only [sign_run hmark (not_sign_of_digits hwhole hsign), digits_run hwhole hafter, hfraction,
    if_neg hempty, hpower]
  rfl

theorem exists_of_decimal? (h : decimal? u = some numeral) :
    ∃ negative mark whole after values values' tail power, IsSign mark negative ∧
      u = mark ++ (whole ++ after) ∧ whole.map digit? = values.map some ∧
      fraction after = (values', tail) ∧ values ++ values' ≠ [] ∧ exponent? tail = some power ∧
      numeral = .decimal negative values values' power := by
  obtain ⟨mark, hmark, hu⟩ := exists_isSign u
  obtain ⟨whole, hwhole, hmap, -⟩ := exists_digits (sign u).2
  unfold decimal? at h
  simp only at h
  split at h
  · contradiction
  · next hempty =>
    obtain ⟨power, hpower, h⟩ := Option.bind_eq_some_iff.mp h
    generalize hfraction : fraction (digits (sign u).2).2 = pair at *
    refine ⟨_, mark, whole, _, _, _, _, power, hmark, hwhole ▸ hu, hmap, hfraction, ?_, hpower,
      (Option.some.inj h).symm⟩
    intro hnil
    obtain ⟨hleft, hright⟩ := List.append_eq_nil_iff.mp hnil
    exact hempty (by rw [hleft, hright]; rfl)

/-- The exact value of a decimal that is taken apart. -/
def decimalValue (negative : Bool) (whole decimals : List Nat) (exponent : ℤ) : ℚ :=
  signed negative (ofDigits 10 (whole ++ decimals)) * 10 ^ (exponent - decimals.length)

theorem decimal?_of_isDecimal (h : IsDecimal u v) : ∃ negative whole decimals exponent,
    decimal? u = some (.decimal negative whole decimals exponent) ∧
      decimalValue negative whole decimals exponent = v := by
  cases h with
  | @pointed mark whole decimals tail negative n power hmark hne hspells htail =>
    obtain ⟨values, hmap, rfl⟩ := spellsNat_iff.mp hspells
    obtain ⟨left, right, rfl, hleft, hright⟩ := List.map_eq_append_iff.mp
      (show values.map some = whole.map digit? ++ decimals.map digit? by
        rw [← hmap, List.map_append])
    have hpower := isExponent_iff.mp htail
    refine ⟨negative, left, right, power, decimal?_run hmark hleft.symm
      (stopsAt_cons (by decide) _) ?_ (digits_run hright.symm (stopsAt_of_exponent? hpower)) ?_
      hpower, ?_⟩
    · rintro - c hc
      injection hc with hc
      subst hc
      decide
    · rwa [ne_eq, ← eq_nil_iff_of_map_eq hmap]
    · rw [decimalValue, length_of_map_eq hright.symm]
  | @plain mark whole tail negative n power hmark hne hspells htail htailNe =>
    obtain ⟨values, hmap, rfl⟩ := spellsNat_iff.mp hspells
    have hpower := isExponent_iff.mp htail
    refine ⟨negative, values, [], power, decimal?_run hmark hmap (stopsAt_of_exponent? hpower)
      (fun hnil => absurd hnil hne) ?_ ?_ hpower, ?_⟩
    · cases htail with
      | none => contradiction
      | some hc => rcases hc with rfl | rfl <;> rfl
    · rwa [List.append_nil, ne_eq, ← eq_nil_iff_of_map_eq hmap]
    · rw [decimalValue, List.append_nil, List.length_nil, Nat.cast_zero, sub_zero]

/-- What is taken apart as a decimal is one, or a whole number. -/
theorem isDecimal_or_isWhole (h : decimal? u = some numeral) :
    (∃ v, IsDecimal u v) ∨ ∃ count z, IsWhole u count z := by
  obtain ⟨negative, mark, whole, after, values, values', tail, power, hmark, rfl, hwhole, hfraction,
    hne, hpower, -⟩ := exists_of_decimal? h
  have htail := isExponent_iff.mpr hpower
  unfold fraction at hfraction
  split at hfraction
  · next rest =>
    obtain ⟨decimals, rfl, hdecimals, -⟩ := digits_eq_iff.mp hfraction
    have hmap : (whole ++ decimals).map digit? = (values ++ values').map some := by
      rw [List.map_append, List.map_append, hwhole, hdecimals]
    rw [ne_eq, ← eq_nil_iff_of_map_eq hmap] at hne
    exact .inl ⟨_, .pointed hmark hne (spellsNat_iff.mpr ⟨_, hmap, rfl⟩) htail⟩
  · next rest =>
    obtain ⟨rfl, rfl⟩ := Prod.mk.inj hfraction
    have hspells : SpellsNat digit? 10 whole (ofDigits 10 values) :=
      spellsNat_iff.mpr ⟨values, hwhole, rfl⟩
    rw [List.append_nil, ne_eq, ← eq_nil_iff_of_map_eq hwhole] at hne
    by_cases hnil : after = []
    · subst hnil
      rw [List.append_nil]
      exact .inr ⟨_, _, .intro hmark hne hspells⟩
    · exact .inl ⟨_, .plain hmark hne hspells htail hnil⟩

end SdkCatalog.Numeral
