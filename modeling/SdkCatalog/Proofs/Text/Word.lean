import Mathlib
import SdkCatalog.Text.Basic

/-! What the steps at the head of a text find: each is told by how the text is put together, so that
the scanners made of them can be told so too. -/

namespace SdkCatalog.Text

variable {p : Char → Bool} {cs word rest : List Char}

theorem takeWhile_run (hword : ∀ c ∈ word, p c = true)
    (hrest : ∀ c, rest.head? = some c → p c = false) : (word ++ rest).takeWhile p = word := by
  rw [List.takeWhile_append_of_pos hword]
  cases rest with
  | nil => simp
  | cons c rest => simp [hrest c rfl]

theorem dropWhile_run (hword : ∀ c ∈ word, p c = true)
    (hrest : ∀ c, rest.head? = some c → p c = false) : (word ++ rest).dropWhile p = rest := by
  rw [List.dropWhile_append_of_pos hword]
  cases rest with
  | nil => rfl
  | cons c rest => simp [hrest c rfl]

theorem mem_takeWhile {cs : List Char} : ∀ c ∈ cs.takeWhile p, p c = true :=
  List.all_eq_true.mp List.all_takeWhile

theorem takeWhile_append_trimStart (cs : List Char) : cs.takeWhile isBlank ++ trimStart cs = cs :=
  List.takeWhile_append_dropWhile

theorem range_of_isBlank {c : Char} (h : isBlank c = true) : c.toNat ≤ 32 ∨ 127 ≤ c.toNat := by
  simp only [isBlank, Bool.or_eq_true, Bool.and_eq_true, decide_eq_true_eq, beq_iff_eq] at h
  omega

theorem range_of_isIdentifierChar {c : Char} (h : isIdentifierChar c = true) :
    32 < c.toNat ∧ c.toNat < 127 := by
  simp only [isIdentifierChar, Char.isAlphanum, Char.isAlpha, Char.isUpper, Char.isLower,
    Char.isDigit, UInt32.le_iff_toNat_le, ge_iff_le, Bool.or_eq_true, Bool.and_eq_true,
    decide_eq_true_eq, beq_iff_eq] at h
  have hrange : ∀ low high : Nat, 32 < low → high < 127 → low ≤ c.toNat ∧ c.toNat ≤ high →
      32 < c.toNat ∧ c.toNat < 127 := by
    intro low high hlow hhigh hc
    omega
  rcases h with (((hupper | hlower) | hdigit) | rfl) | rfl
  · exact hrange _ _ (by decide) (by decide) hupper
  · exact hrange _ _ (by decide) (by decide) hlower
  · exact hrange _ _ (by decide) (by decide) hdigit
  · decide
  · decide

/-- No blank stands inside an identifier: the blanks lie around its range of characters. -/
theorem isIdentifierChar_of_isBlank {c : Char} (h : isBlank c = true) :
    isIdentifierChar c = false := by
  cases hchar : isIdentifierChar c with
  | false => rfl
  | true =>
    have hblank := range_of_isBlank h
    have hrange := range_of_isIdentifierChar hchar
    omega

theorem isIdentifierChar_of_isIdentifierStart {c : Char} (h : isIdentifierStart c = true) :
    isIdentifierChar c = true := by
  simp only [isIdentifierStart, isIdentifierChar, Char.isAlphanum, Bool.or_eq_true] at h ⊢
  rcases h with (h | h) | h
  · exact .inl (.inl (.inl h))
  · exact .inl (.inr h)
  · exact .inr h

theorem isWordChar_of_isBlank {c : Char} (h : isBlank c = true) : isWordChar c = false := by
  have hnot := isIdentifierChar_of_isBlank h
  simp only [isIdentifierChar, Bool.or_eq_false_iff] at hnot
  rw [isWordChar, Bool.or_eq_false_iff]
  exact hnot.1

theorem isBlank_of_isWordChar {c : Char} (h : isWordChar c = true) : isBlank c = false := by
  cases hblank : isBlank c with
  | false => rfl
  | true => simp [isWordChar_of_isBlank hblank] at h

/-! ### Steps -/

def Blank (gap : List Char) : Prop :=
  ∀ c ∈ gap, isBlank c = true

/-- A text does not go on with a character of a class. -/
def StopsAt (p : Char → Bool) (rest : List Char) : Prop :=
  ∀ c, rest.head? = some c → p c = false

def IsIdentifier (word : List Char) : Prop :=
  (∀ c ∈ word, isIdentifierChar c = true) ∧ ∃ c, word.head? = some c ∧ isIdentifierStart c = true

theorem stopsAt_dropWhile (p : Char → Bool) (cs : List Char) : StopsAt p (cs.dropWhile p) := by
  intro c hc
  have h := List.head?_dropWhile_not p cs
  rwa [hc] at h

theorem stopsAt_cons {c : Char} (h : p c = false) (rest : List Char) : StopsAt p (c :: rest) := by
  intro d hd
  injection hd with hd
  exact hd ▸ h

theorem StopsAt.append {more : List Char} (h : StopsAt p rest) (hmore : StopsAt p more) :
    StopsAt p (rest ++ more) := by
  cases rest with
  | nil => exact hmore
  | cons c rest => exact h

theorem StopsAt.of_append {more : List Char} (h : StopsAt p (rest ++ more)) : StopsAt p rest :=
  fun c hc => h c (by rw [List.head?_append, hc, Option.some_or])

theorem Blank.stopsAt {gap : List Char} (hgap : Blank gap)
    (hp : ∀ c, isBlank c = true → p c = false) (h : StopsAt p rest) : StopsAt p (gap ++ rest) := by
  cases gap with
  | nil => exact h
  | cons c gap => exact stopsAt_cons (hp c (hgap c List.mem_cons_self)) _

theorem isBlank_of_isIdentifierChar {c : Char} (h : isIdentifierChar c = true) :
    isBlank c = false := by
  cases hblank : isBlank c with
  | false => rfl
  | true => simp [isIdentifierChar_of_isBlank hblank] at h

theorem IsIdentifier.stopsAt (h : IsIdentifier word) (rest : List Char) :
    StopsAt isBlank (word ++ rest) := by
  obtain ⟨hword, c, hc, -⟩ := h
  obtain ⟨more, rfl⟩ := List.head?_eq_some_iff.mp hc
  exact stopsAt_cons (isBlank_of_isIdentifierChar (hword c List.mem_cons_self)) _

theorem stopsAt_of_word (hne : word ≠ []) (hword : ∀ c ∈ word, isWordChar c = true)
    (rest : List Char) : StopsAt isBlank (word ++ rest) := by
  obtain ⟨c, more, rfl⟩ := List.exists_cons_of_ne_nil hne
  exact stopsAt_cons (isBlank_of_isWordChar (hword c List.mem_cons_self)) _

theorem trimStart_eq_iff : trimStart cs = rest ↔
    ∃ gap, Blank gap ∧ cs = gap ++ rest ∧ StopsAt isBlank rest := by
  constructor
  · rintro rfl
    exact ⟨_, mem_takeWhile, (takeWhile_append_trimStart cs).symm, stopsAt_dropWhile isBlank cs⟩
  · rintro ⟨gap, hgap, rfl, hrest⟩
    exact dropWhile_run hgap hrest

/-- A fixed text after blanks, of which its own first character is none. -/
theorem after?_trimStart_eq_some_iff {c : Char} {es : List Char} (h : isBlank c = false) :
    after? (c :: es) (trimStart cs) = some rest ↔
      ∃ gap, Blank gap ∧ cs = gap ++ (c :: es ++ rest) := by
  rw [after?_eq_some_iff, trimStart_eq_iff]
  constructor
  · rintro ⟨gap, hgap, hcs, -⟩
    exact ⟨gap, hgap, hcs⟩
  · rintro ⟨gap, hgap, hcs⟩
    exact ⟨gap, hgap, hcs, stopsAt_cons h _⟩

theorem afterString?_eq_some_iff {expected : String} :
    afterString? expected cs = some rest ↔ cs = expected.toList ++ rest :=
  after?_eq_some_iff

theorem afterBlanks?_eq_some_iff : afterBlanks? cs = some rest ↔
    ∃ gap, gap ≠ [] ∧ Blank gap ∧ cs = gap ++ rest ∧ StopsAt isBlank rest := by
  cases cs with
  | nil => simp [afterBlanks?, Blank]
  | cons c cs =>
    rw [afterBlanks?]
    split
    · next hc =>
      rw [Option.some_inj, trimStart_eq_iff]
      constructor
      · rintro ⟨gap, hgap, rfl, hrest⟩
        exact ⟨c :: gap, List.cons_ne_nil _ _, List.forall_mem_cons.mpr ⟨hc, hgap⟩, rfl, hrest⟩
      · rintro ⟨gap, hne, hgap, hcs, hrest⟩
        obtain ⟨first, gap, rfl⟩ := List.exists_cons_of_ne_nil hne
        injection hcs with _ hcs
        exact ⟨gap, fun d hd => hgap d (List.mem_cons_of_mem _ hd), hcs, hrest⟩
    · next hc =>
      simp only [reduceCtorEq, false_iff]
      rintro ⟨gap, hne, hgap, hcs, -⟩
      obtain ⟨first, gap, rfl⟩ := List.exists_cons_of_ne_nil hne
      injection hcs with hfirst
      exact hc (hfirst ▸ hgap first List.mem_cons_self)

theorem run?_eq_some_iff : run? p cs = some (word, rest) ↔
    word ≠ [] ∧ (∀ c ∈ word, p c = true) ∧ cs = word ++ rest ∧ StopsAt p rest := by
  rw [run?]
  constructor
  · intro h
    split at h
    · simp at h
    · next c tail hword =>
      injection h with h
      injection h with h hrest
      subst h hrest
      exact ⟨List.cons_ne_nil _ _, fun d hd => mem_takeWhile d (hword ▸ hd),
        by rw [← hword, List.takeWhile_append_dropWhile], stopsAt_dropWhile p cs⟩
  · rintro ⟨hne, hword, rfl, hrest⟩
    rw [takeWhile_run hword hrest, dropWhile_run hword hrest]
    cases word with
    | nil => exact absurd rfl hne
    | cons c word => rfl

theorem identifier?_eq_some_iff : identifier? cs = some (word, rest) ↔
    IsIdentifier word ∧ cs = word ++ rest ∧ StopsAt isIdentifierChar rest := by
  cases cs with
  | nil =>
    simp only [identifier?, reduceCtorEq, false_iff, not_and]
    rintro ⟨-, c, hc, -⟩ heq
    simp [List.nil_eq_append_iff.mp heq] at hc
  | cons c cs =>
    rw [identifier?]
    constructor
    · intro h
      split at h
      · next hstart =>
        injection h with h
        injection h with h hrest
        subst h hrest
        refine ⟨⟨?_, c, rfl, hstart⟩, ?_, stopsAt_dropWhile _ cs⟩
        · exact List.forall_mem_cons.mpr
            ⟨isIdentifierChar_of_isIdentifierStart hstart, mem_takeWhile⟩
        · rw [List.cons_append, List.takeWhile_append_dropWhile]
      · simp at h
    · rintro ⟨⟨hword, first, hfirst, hstart⟩, hcs, hrest⟩
      obtain ⟨more, rfl⟩ := List.head?_eq_some_iff.mp hfirst
      rw [List.cons_append] at hcs
      injection hcs with hc hcs
      subst hc hcs
      have hmore : ∀ d ∈ more, isIdentifierChar d = true :=
        fun d hd => hword d (List.mem_cons_of_mem _ hd)
      rw [if_pos hstart, takeWhile_run hmore hrest, dropWhile_run hmore hrest]

end SdkCatalog.Text
