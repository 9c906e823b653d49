import SdkCatalog.Json.Reader
import SdkCatalog.Json.Writer
import SdkCatalog.Proofs.Number.Double

/-! Reading back the text of a number. The digits of a double's shortest text and the point or the
exponent among them stand for one decimal, and that decimal rounds to the double. -/

namespace SdkCatalog.Json

/-! ### Runs of digits -/

/-- The value of an ASCII digit. -/
def digitValue (c : Char) : Nat :=
  c.toNat - '0'.toNat

/-- A text that no numeral goes on into: it is empty, or goes on with the next item or line. -/
def Ends (rest : List Char) : Prop :=
  ∀ c ∈ rest.head?, c = ',' ∨ c = '\n'

theorem ends_nil : Ends [] := by
  simp [Ends]

theorem ends_comma (rest : List Char) : Ends (',' :: rest) := by
  simp [Ends]

theorem ends_newline (level : Nat) (rest : List Char) : Ends (newline level ++ rest) := by
  simp [Ends, newline]

theorem digitIn?_digit {c : Char} (h : c.isDigit = true) :
    Text.digitIn? 10 c = some (digitValue c) := by
  simp only [Char.isDigit, Bool.and_eq_true, decide_eq_true_eq] at h
  have hle : '0' ≤ c ∧ c ≤ '9' := ⟨h.1, h.2⟩
  have hhigh : c.toNat ≤ 57 := by simpa [UInt32.le_iff_toNat_le] using h.2
  simp only [Text.digitIn?, if_pos hle]
  simp [digitValue]
  omega

theorem filterMap_digitIn? {ds : List Char} (h : ∀ c ∈ ds, c.isDigit = true) :
    ds.filterMap (Text.digitIn? 10) = ds.map digitValue := by
  induction ds with
  | nil => rfl
  | cons c ds ih =>
    rw [List.filterMap_cons, digitIn?_digit (h c (by simp)), List.map_cons,
      ih fun d hd => h d (by simp [hd])]

theorem digits_append {ds rest : List Char} (hds : ∀ c ∈ ds, c.isDigit = true)
    (hrest : ∀ c ∈ rest.head?, c.isDigit = false) :
    digits (ds ++ rest) = (ds.map digitValue, rest) := by
  have hstop : rest.takeWhile Char.isDigit = [] ∧ rest.dropWhile Char.isDigit = rest := by
    cases rest with
    | nil => simp
    | cons c rest => simp [hrest c (by simp)]
  rw [digits, List.takeWhile_append_of_pos hds, List.dropWhile_append_of_pos hds, hstop.1, hstop.2,
    List.append_nil, filterMap_digitIn? hds]

theorem ofDigits_map_digitValue (ds : List Char) :
    Text.ofDigits 10 (ds.map digitValue) = Nat.ofDigitChars 10 ds 0 := by
  have hfold : ∀ init, (ds.map digitValue).foldl (fun total value => total * 10 + value) init =
      Nat.ofDigitChars 10 ds init := by
    induction ds with
    | nil => simp
    | cons c ds ih =>
      intro init
      rw [List.map_cons, List.foldl_cons, ih, Nat.ofDigitChars_cons, Nat.mul_comm 10 init,
        digitValue]
  exact hfold 0

theorem ofDigitChars_zeros (n : Nat) (ds : List Char) :
    Nat.ofDigitChars 10 (List.replicate n '0' ++ ds) 0 = Nat.ofDigitChars 10 ds 0 := by
  rw [Nat.ofDigitChars_append, Nat.ofDigitChars_replicate_zero, Nat.mul_zero]

theorem ofDigitChars_append_zeros (n : Nat) (ds : List Char) :
    Nat.ofDigitChars 10 (ds ++ List.replicate n '0') 0 = Nat.ofDigitChars 10 ds 0 * 10 ^ n := by
  rw [Nat.ofDigitChars_append, Nat.ofDigitChars_replicate_zero, Nat.mul_comm]

/-- Digits that may stand before a point: a zero alone, or no zero in front. -/
structure Whole (ds : List Char) : Prop where
  digit : ∀ c ∈ ds, c.isDigit = true
  nonempty : ds ≠ []
  noZero : ds = ['0'] ∨ ∀ c ∈ ds.head?, c ≠ '0'

theorem isDigit_zero : ∀ c ∈ ['0'], c.isDigit = true := by
  intro c hc
  rw [List.mem_singleton.mp hc]
  rfl

theorem whole_zero : Whole ['0'] :=
  ⟨isDigit_zero, List.cons_ne_nil _ _, .inl rfl⟩

theorem wholeDigits_append {whole : List Char} (rest : List Char) (hwhole : Whole whole)
    (hrest : ∀ c ∈ rest.head?, c.isDigit = false) :
    wholeDigits (whole ++ rest) = (whole.map digitValue, rest) := by
  rcases hwhole.noZero with rfl | hhead
  · rfl
  · obtain ⟨c, ds, rfl⟩ := List.exists_cons_of_ne_nil hwhole.nonempty
    have hc : c ≠ '0' := hhead c (by simp)
    have heq : wholeDigits (c :: ds ++ rest) = digits (c :: ds ++ rest) := by
      simp only [List.cons_append]
      rw [wholeDigits]
      intro tail h
      injection h with h
      exact hc h
    rw [heq, digits_append hwhole.digit hrest]

theorem head?_toDigits {n : Nat} (hn : 0 < n) : ∀ c ∈ (Nat.toDigits 10 n).head?, c ≠ '0' := by
  induction n using Nat.strong_induction_on with
  | _ n ih =>
    by_cases hlt : n < 10
    · rw [Nat.toDigits_of_lt_base hlt]
      intro c hc
      simp only [List.head?_cons, Option.mem_def, Option.some.injEq] at hc
      rw [← hc, ne_eq, Nat.digitChar_eq_zero]
      omega
    · have hhead := ih (n / 10) (by omega) (by omega)
      obtain ⟨c, ds, hds⟩ :=
        List.exists_cons_of_ne_nil (Nat.toDigits_ne_nil (n := n / 10) (b := 10))
      rw [Nat.toDigits_of_base_le (by decide) (by omega), hds]
      rwa [hds] at hhead

theorem isDigit_toDigits (n : Nat) : ∀ c ∈ Nat.toDigits 10 n, c.isDigit = true :=
  fun _ hc => Nat.isDigit_of_mem_toDigits (by decide) (by decide) hc

theorem whole_toDigits (n : Nat) : Whole (Nat.toDigits 10 n) := by
  refine ⟨isDigit_toDigits n, Nat.toDigits_ne_nil, ?_⟩
  rcases Nat.eq_zero_or_pos n with rfl | hn
  · exact .inl rfl
  · exact .inr (head?_toDigits hn)

/-! ### Numerals -/

theorem ends_isDigit {rest : List Char} (h : Ends rest) : ∀ c ∈ rest.head?, c.isDigit = false := by
  intro c hc
  rcases h c hc with rfl | rfl <;> rfl

theorem fractionDigits_of_ends {rest : List Char} (h : Ends rest) :
    fractionDigits rest = ([], rest) := by
  cases rest with
  | nil => rfl
  | cons c rest =>
    rcases h c (by simp) with rfl | rfl <;> rfl

theorem exponent?_of_ends {rest : List Char} (h : Ends rest) : exponent? rest = none := by
  cases rest with
  | nil => rfl
  | cons c rest =>
    rcases h c (by simp) with rfl | rfl <;> rfl

theorem fractionDigits_append {decimals : List Char} (rest : List Char)
    (hdigit : ∀ c ∈ decimals, c.isDigit = true) (hne : decimals ≠ [])
    (hrest : ∀ c ∈ rest.head?, c.isDigit = false) :
    fractionDigits ('.' :: (decimals ++ rest)) = (decimals.map digitValue, rest) := by
  obtain ⟨c, ds, rfl⟩ := List.exists_cons_of_ne_nil hne
  rw [fractionDigits, digits_append hdigit hrest]
  rfl

/-- A whole number short enough is read as it is. -/
theorem number_whole {negative : Bool} {here whole rest : List Char} (hwhole : Whole whole)
    (hshort : whole.length ≤ digitLimit) (hrest : Ends rest) :
    number negative here (whole ++ rest) =
      .ok (.number (.int (Numeral.signed negative (Nat.ofDigitChars 10 whole 0))), rest) := by
  obtain ⟨c, ds, rfl⟩ := List.exists_cons_of_ne_nil hwhole.nonempty
  rw [number, wholeDigits_append rest hwhole (ends_isDigit hrest), ← ofDigits_map_digitValue]
  simp only [List.map_cons, fractionDigits_of_ends hrest, exponent?_of_ends hrest, List.isEmpty_nil,
    if_true, List.length_cons, List.length_map]
  rw [if_neg (by simpa using hshort)]

/-- Digits around a point are read as the double of the decimal that they spell. -/
theorem number_point {negative : Bool} {here whole decimals rest : List Char}
    (hwhole : Whole whole) (hdigit : ∀ c ∈ decimals, c.isDigit = true) (hne : decimals ≠ [])
    (hrest : Ends rest) :
    number negative here (whole ++ '.' :: (decimals ++ rest)) =
      .ok (.number (.float (.ofDecimal negative (Nat.ofDigitChars 10 (whole ++ decimals) 0)
        (-(decimals.length : Int)))), rest) := by
  obtain ⟨c, ds, rfl⟩ := List.exists_cons_of_ne_nil hwhole.nonempty
  obtain ⟨d, es, rfl⟩ := List.exists_cons_of_ne_nil hne
  rw [number, wholeDigits_append _ hwhole (by simp), ← ofDigits_map_digitValue]
  simp only [List.map_cons, fractionDigits_append rest hdigit hne (ends_isDigit hrest),
    exponent?_of_ends hrest, List.isEmpty_cons, List.map_append, List.length_cons, List.length_map]
  rfl

/-- The sign of an exponent as it is written. -/
def signChar (negative : Bool) : Char :=
  if negative then '-' else '+'

theorem exponent?_append {negative : Bool} {size rest : List Char}
    (hdigit : ∀ c ∈ size, c.isDigit = true) (hne : size ≠ []) (hrest : Ends rest) :
    exponent? ('e' :: signChar negative :: (size ++ rest)) =
      some (Numeral.signed negative (Nat.ofDigitChars 10 size 0), rest) := by
  have hsign : Numeral.sign (signChar negative :: (size ++ rest)) = (negative, size ++ rest) := by
    cases negative <;> rfl
  obtain ⟨c, ds, rfl⟩ := List.exists_cons_of_ne_nil hne
  rw [exponent?, if_pos (.inl rfl), hsign, ← ofDigits_map_digitValue]
  simp only [digits_append hdigit (ends_isDigit hrest), List.map_cons]

/-- The first digit of a number with the others behind a point, if there are others. -/
def mantissa (decimals : List Char) : List Char :=
  if decimals = [] then [] else '.' :: decimals

/-- A digit, further digits behind a point, and an exponent are read as the double of the decimal
that they spell. -/
theorem number_exponent {negative negativePower : Bool} {here decimals size rest : List Char}
    {first : Char} (hfirst : first.isDigit = true) (hdigit : ∀ c ∈ decimals, c.isDigit = true)
    (hsize : ∀ c ∈ size, c.isDigit = true) (hne : size ≠ []) (hrest : Ends rest) :
    number negative here (first :: (mantissa decimals ++
        'e' :: signChar negativePower :: (size ++ rest))) =
      .ok (.number (.float (.ofDecimal negative (Nat.ofDigitChars 10 (first :: decimals) 0)
        (Numeral.signed negativePower (Nat.ofDigitChars 10 size 0) - decimals.length))), rest) := by
  have hwhole : Whole [first] := by
    refine ⟨by simpa using hfirst, by simp, ?_⟩
    by_cases h : first = '0'
    · exact .inl (by rw [h])
    · exact .inr (by simpa using h)
  have hpower : ∀ c ∈ ('e' :: signChar negativePower :: (size ++ rest)).head?,
      c.isDigit = false := by
    simp
  by_cases hd : decimals = []
  · have hnone : fractionDigits ('e' :: signChar negativePower :: (size ++ rest)) =
        ([], 'e' :: signChar negativePower :: (size ++ rest)) := rfl
    rw [number, hd, mantissa, if_pos rfl, List.nil_append, ← List.singleton_append,
      wholeDigits_append _ hwhole hpower, ← ofDigits_map_digitValue]
    simp only [List.map_cons, List.map_nil, hnone, exponent?_append hsize hne hrest,
      List.length_nil, List.append_nil]
  · rw [number, mantissa, if_neg hd, List.cons_append, ← List.singleton_append,
      wholeDigits_append _ hwhole (by simp), ← ofDigits_map_digitValue]
    simp only [List.map_cons, List.map_nil, fractionDigits_append _ hdigit hd hpower,
      exponent?_append hsize hne hrest, List.length_map, List.cons_append, List.nil_append]

/-! ### Doubles -/

/-- Digits that spell a number above zero, without a zero in front. -/
structure Leading (ds : List Char) : Prop where
  digit : ∀ c ∈ ds, c.isDigit = true
  nonempty : ds ≠ []
  head : ∀ c ∈ ds.head?, c ≠ '0'

theorem Leading.whole {ds : List Char} (h : Leading ds) : Whole ds :=
  ⟨h.digit, h.nonempty, .inr h.head⟩

/-- The front of leading digits, with zeros behind, has no zero in front either. -/
theorem Leading.take {ds : List Char} (h : Leading ds) {n : Nat} (hn : 0 < n) (zeros : Nat) :
    Leading (ds.take n ++ List.replicate zeros '0') := by
  obtain ⟨c, tail, rfl⟩ := List.exists_cons_of_ne_nil h.nonempty
  obtain ⟨m, rfl⟩ : ∃ m, n = m + 1 := ⟨n - 1, by omega⟩
  refine ⟨fun b hb => ?_, by simp, by simpa using h.head⟩
  rcases List.mem_append.mp hb with hb | hb
  · exact h.digit b (List.mem_of_mem_take hb)
  · rw [List.eq_of_mem_replicate hb]
    rfl

theorem ofDecimal_of_eq_some {negative : Bool} {significand : Nat} {exponent : Int} {d : Double}
    (h : Double.ofDecimal? negative significand exponent = some d) :
    FloatingPoint.ofDecimal negative significand exponent = .finite d := by
  rw [FloatingPoint.ofDecimal, h]
  rfl

variable {negative : Bool} {here ds rest : List Char} {point : Int} {d : Double}

/-- Digits behind the point, after the zeros that stand between. -/
theorem number_plainText_of_nonpos (hds : Leading ds) (hrest : Ends rest) (hpoint : point ≤ 0)
    (hround : Double.ofDecimal? negative (Nat.ofDigitChars 10 ds 0) (point - ds.length) = some d) :
    number negative here (Double.plainText ds point ++ rest) =
      .ok (.number (.float (.finite d)), rest) := by
  have hdigit : ∀ c ∈ List.replicate (-point).toNat '0' ++ ds, c.isDigit = true := by
    intro c hc
    rcases List.mem_append.mp hc with hc | hc
    · rw [List.eq_of_mem_replicate hc]
      rfl
    · exact hds.digit c hc
  have hzeros := ofDigitChars_zeros ((-point).toNat + 1) ds
  rw [List.replicate_succ, List.cons_append] at hzeros
  have hlength : -(((List.replicate (-point).toNat '0' ++ ds).length : Nat) : Int) =
      point - ds.length := by
    simp only [List.length_append, List.length_replicate]
    omega
  have hread := @number_point negative here _ _ _ whole_zero hdigit (by simp [hds.nonempty]) hrest
  rw [List.singleton_append, List.singleton_append, hzeros, hlength,
    ofDecimal_of_eq_some hround] at hread
  rw [Double.plainText, if_pos hpoint]
  exact hread

/-- Digits before the point, then zeros up to it and one behind it. -/
theorem number_plainText_of_le (hds : Leading ds) (hrest : Ends rest) {n : Nat} (hn : 0 < n)
    (hlong : ds.length ≤ n)
    (hround : Double.ofDecimal? negative (Nat.ofDigitChars 10 ds 0) (n - ds.length) = some d) :
    number negative here (Double.plainText ds n ++ rest) =
      .ok (.number (.float (.finite d)), rest) := by
  have hwhole := (hds.take hn (n - ds.length)).whole
  have hzeros : ds.take n ++ List.replicate (n - ds.length) '0' ++ ['0'] =
      ds ++ List.replicate (n - ds.length + 1) '0' := by
    rw [List.take_of_length_le hlong, List.append_assoc, ← List.replicate_succ']
  have hscale := Double.ofDecimal?_scale negative (Nat.ofDigitChars 10 ds 0) (n - ds.length + 1)
    ((n : Int) - ds.length)
  have hexponent : (n : Int) - ds.length - ((n - ds.length + 1 : Nat) : Int) = -1 := by omega
  rw [hexponent, hround] at hscale
  rw [Double.plainText, if_neg (by omega), Int.toNat_natCast, List.append_assoc, List.cons_append,
    List.drop_eq_nil_of_le hlong, List.isEmpty_nil, if_pos rfl,
    @number_point _ _ _ ['0'] _ hwhole isDigit_zero (by decide) hrest, hzeros,
    ofDigitChars_append_zeros]
  exact congrArg (fun value => Except.ok (Value.number (.float value), rest))
    (ofDecimal_of_eq_some hscale)

/-- Digits on both sides of the point. -/
theorem number_plainText_of_lt (hds : Leading ds) (hrest : Ends rest) {n : Nat} (hn : 0 < n)
    (hshort : n < ds.length)
    (hround : Double.ofDecimal? negative (Nat.ofDigitChars 10 ds 0) (n - ds.length) = some d) :
    number negative here (Double.plainText ds n ++ rest) =
      .ok (.number (.float (.finite d)), rest) := by
  have hwhole := (hds.take hn (n - ds.length)).whole
  have hzero : n - ds.length = 0 := by omega
  have hne : ds.drop n ≠ [] := by
    intro h
    have := List.drop_eq_nil_iff.mp h
    omega
  have hdigit : ∀ c ∈ ds.drop n, c.isDigit = true :=
    fun c hc => hds.digit c (List.mem_of_mem_drop hc)
  have hlength : -(((ds.drop n).length : Nat) : Int) = (n : Int) - ds.length := by
    rw [List.length_drop]
    omega
  have hempty : (ds.drop n).isEmpty = false := by simpa using hne
  rw [Double.plainText, if_neg (by omega), Int.toNat_natCast, List.append_assoc, List.cons_append,
    hempty, if_neg (by decide), number_point hwhole hdigit hne hrest, hzero, List.replicate_zero,
    List.append_nil, List.take_append_drop, hlength, ofDecimal_of_eq_some hround]

/-- The plain text of digits reads back as the double that the digits, with the point behind the
given number of them, round to. -/
theorem number_plainText (hds : Leading ds) (hrest : Ends rest)
    (hround : Double.ofDecimal? negative (Nat.ofDigitChars 10 ds 0) (point - ds.length) = some d) :
    number negative here (Double.plainText ds point ++ rest) =
      .ok (.number (.float (.finite d)), rest) := by
  by_cases hpoint : point ≤ 0
  · exact number_plainText_of_nonpos hds hrest hpoint hround
  · obtain ⟨n, rfl⟩ : ∃ n : Nat, point = n := ⟨point.toNat, by omega⟩
    have hn : 0 < n := by omega
    rcases Nat.lt_or_ge n ds.length with hshort | hlong
    · exact number_plainText_of_lt hds hrest hn hshort hround
    · exact number_plainText_of_le hds hrest hn hlong hround

/-- The size of an exponent in at least two digits. -/
theorem size_digits (n : Nat) :
    let size := Nat.toDigits 10 n
    let written := if size.length < 2 then '0' :: size else size
    (∀ c ∈ written, c.isDigit = true) ∧ written ≠ [] ∧ Nat.ofDigitChars 10 written 0 = n := by
  intro size written
  have hsize : Nat.ofDigitChars 10 size 0 = n := Nat.ofDigitChars_ten_toDigits
  by_cases hshort : size.length < 2
  · have hwritten : written = '0' :: size := if_pos hshort
    rw [hwritten]
    refine ⟨fun c hc => ?_, by simp, ?_⟩
    · rcases List.mem_cons.mp hc with rfl | hc
      · rfl
      · exact isDigit_toDigits n c hc
    · have hzeros := ofDigitChars_zeros 1 size
      rwa [hsize] at hzeros
  · have hwritten : written = size := if_neg hshort
    rw [hwritten]
    exact ⟨isDigit_toDigits n, Nat.toDigits_ne_nil, hsize⟩

theorem number_exponentText (hds : Leading ds) (hrest : Ends rest)
    (hround : Double.ofDecimal? negative (Nat.ofDigitChars 10 ds 0) (point - ds.length) = some d) :
    number negative here (Double.exponentText ds point ++ rest) =
      .ok (.number (.float (.finite d)), rest) := by
  obtain ⟨first, decimals, rfl⟩ := List.exists_cons_of_ne_nil hds.nonempty
  obtain ⟨hdigit, hne, hvalue⟩ := size_digits (point - 1).natAbs
  have hmantissa : Double.exponentText (first :: decimals) point =
      first :: (mantissa decimals ++ 'e' :: signChar (point - 1 < 0) ::
        (if (Nat.toDigits 10 (point - 1).natAbs).length < 2
          then '0' :: Nat.toDigits 10 (point - 1).natAbs
          else Nat.toDigits 10 (point - 1).natAbs)) := by
    cases decimals <;> simp [Double.exponentText, mantissa, signChar]
  have hexponent : Numeral.signed (point - 1 < 0) (point - 1).natAbs - (decimals.length : Int) =
      point - ((first :: decimals).length : Nat) := by
    rw [List.length_cons, Numeral.signed]
    by_cases hneg : point - 1 < 0
    · rw [decide_eq_true hneg, if_pos rfl]
      omega
    · rw [decide_eq_false hneg, if_neg (by decide)]
      omega
  have hdecimals : ∀ c ∈ decimals, c.isDigit = true :=
    fun c hc => hds.digit c (List.mem_cons_of_mem _ hc)
  have hread := @number_exponent negative (point - 1 < 0) here _ _ _ _ (hds.digit first (by simp))
    hdecimals hdigit hne hrest
  rw [hvalue, hexponent, ofDecimal_of_eq_some hround] at hread
  rw [hmantissa]
  simpa only [List.cons_append, List.append_assoc] using hread

/-- Digits without the zeros at their end. -/
theorem exists_stripped (ds : List Char) :
    ∃ k, ds = (ds.reverse.dropWhile (· == '0')).reverse ++ List.replicate k '0' := by
  have hzeros : ∀ c ∈ ds.reverse.takeWhile (· == '0'), c = '0' := by
    intro c hc
    simpa using List.all_eq_true.mp List.all_takeWhile c hc
  refine ⟨(ds.reverse.takeWhile (· == '0')).length, ?_⟩
  rw [← List.reverse_replicate, ← List.eq_replicate_of_mem hzeros, ← List.reverse_append,
    List.takeWhile_append_dropWhile, List.reverse_reverse]

/-- The shortest digits that round to a double lead a number, and without the zeros at their end
they still round to it when the point stays where it is. -/
theorem leading_stripped {written stripped : List Char} {k : Nat} (hrank : d.rank ≠ 0)
    (hwritten : written = Nat.toDigits 10 d.shortest.1)
    (hk : written = stripped ++ List.replicate k '0') :
    Leading stripped ∧ Double.ofDecimal? d.negative (Nat.ofDigitChars 10 stripped 0)
      (written.length + d.shortest.2 - stripped.length) = some d := by
  have hpos : 0 < d.shortest.1 := Nat.pos_of_ne_zero (Double.shortest_ne_zero hrank)
  have hhead := head?_toDigits hpos
  have hdigit := isDigit_toDigits d.shortest.1
  have hvalue : Nat.ofDigitChars 10 (Nat.toDigits 10 d.shortest.1) 0 = d.shortest.1 :=
    Nat.ofDigitChars_ten_toDigits
  rw [← hwritten, hk] at hhead hdigit hvalue
  constructor
  · refine ⟨fun c hc => hdigit c (List.mem_append_left _ hc), ?_, fun c hc => hhead c ?_⟩
    · rintro rfl
      rw [List.nil_append, ← List.append_nil (List.replicate k '0'), ofDigitChars_zeros,
        Nat.ofDigitChars_nil] at hvalue
      omega
    · rw [List.head?_append, Option.mem_def.mp hc]
      rfl
  · have hround := Double.ofDecimal?_shortest d
    rw [ofDigitChars_append_zeros] at hvalue
    have hexponent : d.shortest.2 =
        (written.length : Int) + d.shortest.2 - stripped.length - (k : Int) := by
      rw [hk, List.length_append, List.length_replicate]
      omega
    rwa [← hvalue, hexponent, Double.ofDecimal?_scale] at hround

/-- The text of a magnitude reads back as the double. -/
theorem number_magnitudeText (d : Double) (hrest : Ends rest) :
    number d.negative here (d.magnitudeText ++ rest) =
      .ok (.number (.float (.finite d)), rest) := by
  rw [Double.magnitudeText]
  by_cases hrank : d.rank = 0
  · have hzero : Double.ofDecimal? d.negative 0 (-1) = some d := by
      rw [Double.ofDecimal?_eq_ofRatio?, Double.ofRatio?, Nat.zero_mul,
        Double.nearestRank_eq_zero (by decide), ← hrank, Double.ofRank?_rank]
    have hread := @number_point d.negative here _ ['0'] _ whole_zero isDigit_zero (by decide) hrest
    rw [if_pos hrank]
    exact hread.trans (congrArg (fun value => Except.ok (Value.number (.float value), rest))
      (ofDecimal_of_eq_some hzero))
  · obtain ⟨k, hk⟩ := exists_stripped (Nat.toDigits 10 d.shortest.1)
    obtain ⟨hds, hround⟩ := leading_stripped hrank rfl hk
    rw [if_neg hrank]
    simp only
    split
    · exact number_plainText hds hrest hround
    · exact number_exponentText hds hrest hround

end SdkCatalog.Json
