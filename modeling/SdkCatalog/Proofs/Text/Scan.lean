import Mathlib
import SdkCatalog.Text.Basic

/-! Scans of a whole text, and what they find once text is appended: what they found before and then
possibly more, as long as no answer that the appended text completes reaches over one that was
there. -/

namespace SdkCatalog.Text

variable {α : Type} {step : List Char → Option (α × List Char)} {cs more : List Char}

theorem scan_eq_nil (h : ∀ ending, ending <:+ cs → step ending = none) : scan step 0 cs = [] := by
  induction cs with
  | nil => rfl
  | cons c cs ih =>
    rw [scan, h _ (List.suffix_refl _)]
    exact ih fun ending hending => h ending (hending.trans (List.suffix_cons c cs))

/-- A scan finds in a longer text what it found before, and then possibly more. An answer that ends
in the text before must not change, and one that does not must not begin before another that
does. -/
theorem scan_append (hstable : ∀ cs answer rest, step cs = some (answer, rest) →
      step (cs ++ more) = some (answer, rest ++ more))
    (hlast : ∀ c cs, step (c :: cs) = none → step (c :: cs ++ more) ≠ none →
      ∀ ending, ending <:+ cs → step ending = none)
    (read : Nat) (cs : List Char) : scan step read cs <+: scan step read (cs ++ more) := by
  induction cs generalizing read with
  | nil => exact List.nil_prefix
  | cons c cs ih =>
    cases read with
    | succ read => exact ih read
    | zero =>
      rw [List.cons_append, scan, scan]
      cases hstep : step (c :: cs) with
      | some found =>
        obtain ⟨answer, rest⟩ := found
        have hlength : (cs ++ more).length - (rest ++ more).length = cs.length - rest.length := by
          simp only [List.length_append]
          omega
        rw [← List.cons_append, hstable _ _ _ hstep]
        simp only [hlength, List.cons_prefix_cons, true_and]
        exact ih _
      | none =>
        cases hlater : step (c :: (cs ++ more)) with
        | none => exact ih 0
        | some found =>
          rw [scan_eq_nil (hlast c cs hstep (by simp [hlater]))]
          exact List.nil_prefix

/-! ### Texts that are put together in two ways -/

variable {β : Type} {a b c d : List β} {x y : β}

/-- A text that ends before a character of another, or with it, or after it. -/
theorem prefix_or_of_append_eq (h : a ++ b = c ++ x :: d) :
    a <+: c ∨ ∃ between, a = c ++ x :: between ∧ d = between ++ b := by
  rcases List.append_eq_append_iff.mp h with ⟨between, rfl, -⟩ | ⟨between, rfl, hd⟩
  · exact .inl (List.prefix_append a between)
  · cases between with
    | nil => exact .inl (by simp)
    | cons first between =>
      injection hd with hfirst hd
      exact .inr ⟨between, by rw [hfirst], hd⟩

/-- A scan for texts that each begin with a body and a character to close it finds in a longer text
what it found before, and then possibly more, if no such text stands inside the body of another
one, but at its beginning. -/
theorem scan_append_of_apart {σ : Type} {body : σ → List Char} {closing : σ → Char}
    (hfound : ∀ cs, step cs ≠ none ↔
      ∃ spelling tail, cs = body spelling ++ closing spelling :: tail)
    (hstable : ∀ cs answer rest, step cs = some (answer, rest) →
      step (cs ++ more) = some (answer, rest ++ more))
    (hapart : ∀ spelling inner first before tail,
      ¬first :: before ++ (body inner ++ closing inner :: tail) <+: body spelling)
    (read : Nat) (cs : List Char) : scan step read cs <+: scan step read (cs ++ more) := by
  refine scan_append hstable (fun c cs hnone hlater => ?_) read cs
  obtain ⟨spelling, tail, hcs⟩ := (hfound _).mp hlater
  have hprefix : c :: cs <+: body spelling := by
    rcases prefix_or_of_append_eq hcs with hprefix | ⟨between, hbetween, -⟩
    · exact hprefix
    · exact absurd hnone ((hfound _).mpr ⟨spelling, between, hbetween⟩)
  rintro ending ⟨before, rfl⟩
  by_contra hending
  obtain ⟨inner, tail, rfl⟩ := (hfound _).mp hending
  exact hapart spelling inner c before tail hprefix

/-- A text that has, before some occurrence of a character, as many of them as its head has, reaches
over the head there. -/
theorem exists_append_of_count_le [DecidableEq β] (h : a ++ x :: b = c ++ d)
    (hcount : c.count x ≤ a.count x) : ∃ between, a = c ++ between ∧ d = between ++ x :: b := by
  rcases List.append_eq_append_iff.mp h with ⟨between, rfl, hbetween⟩ | ⟨between, rfl, hbetween⟩
  · cases between with
    | nil => exact ⟨[], by simp, by simpa using hbetween.symm⟩
    | cons first between =>
      injection hbetween with hfirst
      rw [List.count_append, ← hfirst, List.count_cons_self] at hcount
      omega
  · exact ⟨between, rfl, hbetween⟩

/-- What a text ends in is the end of its second part, if its first part does not end in it. -/
theorem exists_of_concat_eq (h : a ++ [x] = c ++ d) (hne : d = [] → c.getLast? ≠ some x) :
    ∃ between, d = between ++ [x] ∧ a = c ++ between := by
  rcases List.eq_nil_or_concat' d with rfl | ⟨between, y, rfl⟩
  · rw [List.append_nil] at h
    exact absurd (h ▸ List.getLast?_concat) (hne rfl)
  · rw [← List.append_assoc] at h
    obtain ⟨ha, hxy⟩ := List.append_inj' h rfl
    injection hxy with hxy
    exact ⟨between, by rw [hxy], ha⟩

/-- What a text ends in and no word has stands after the last word. -/
theorem exists_of_concat_eq_word {p : β → Bool} {word : List β} (h : a ++ [x] = c ++ (word ++ d))
    (hne : word ≠ []) (hword : ∀ y ∈ word, p y = true) (hx : p x = false) :
    ∃ between, d = between ++ [x] ∧ a = c ++ (word ++ between) := by
  rw [← List.append_assoc] at h
  obtain ⟨between, hd, ha⟩ := exists_of_concat_eq h fun _ hlast => by
    rw [List.getLast?_append_of_ne_nil _ hne] at hlast
    simp [hword x (List.mem_of_getLast? hlast)] at hx
  exact ⟨between, hd, by rw [ha, List.append_assoc]⟩

/-! ### Leftmost answers -/

variable {find : List Char → Option β}

theorem leftmost?_eq_none (h : ∀ ending, ending <:+ cs → find ending = none) :
    leftmost? find cs = none := by
  induction cs with
  | nil => exact h [] (List.suffix_refl _)
  | cons c cs ih =>
    rw [leftmost?, h _ (List.suffix_refl _), Option.none_or]
    exact ih fun ending hending => h ending (hending.trans (List.suffix_cons c cs))

theorem leftmost?_eq_some_iff {answer : β} : leftmost? find cs = some answer ↔
    ∃ start, find (cs.drop start) = some answer ∧
      ∀ earlier < start, find (cs.drop earlier) = none := by
  induction cs with
  | nil =>
    rw [leftmost?]
    constructor
    · exact fun h => ⟨0, h, fun _ hearlier => absurd hearlier (Nat.not_lt_zero _)⟩
    · rintro ⟨start, hstart, -⟩
      rwa [List.drop_nil] at hstart
  | cons c cs ih =>
    rw [leftmost?, Option.or_eq_some_iff, ih]
    constructor
    · rintro (hhere | ⟨hnone, start, hstart, hearlier⟩)
      · exact ⟨0, hhere, fun _ hearlier => absurd hearlier (Nat.not_lt_zero _)⟩
      · refine ⟨start + 1, hstart, fun earlier hlt => ?_⟩
        cases earlier with
        | zero => exact hnone
        | succ earlier => exact hearlier earlier (Nat.lt_of_succ_lt_succ hlt)
    · rintro ⟨start, hstart, hearlier⟩
      cases start with
      | zero => exact .inl hstart
      | succ start =>
        exact .inr ⟨hearlier 0 (Nat.succ_pos start), start, hstart,
          fun earlier hlt => hearlier (earlier + 1) (Nat.succ_lt_succ hlt)⟩

theorem leftmost?_eq_none_iff :
    leftmost? find cs = none ↔ ∀ start, find (cs.drop start) = none := by
  induction cs with
  | nil => simp [leftmost?]
  | cons c cs ih =>
    rw [leftmost?, Option.or_eq_none_iff, ih]
    constructor
    · rintro ⟨hhere, hlater⟩ start
      cases start with
      | zero => exact hhere
      | succ start => exact hlater start
    · exact fun h => ⟨h 0, fun start => h (start + 1)⟩

/-- A step that does not look at the last character of a text is first answered the same without
it. -/
theorem leftmost?_concat {c : Char} {γ : Type} {key : β → γ}
    (h : ∀ cs, (find (cs ++ [c])).map key = (find cs).map key) (cs : List Char) :
    (leftmost? find (cs ++ [c])).map key = (leftmost? find cs).map key := by
  induction cs with
  | nil =>
    have hnil : (find [c]).map key = (find []).map key := h []
    simp only [List.nil_append, leftmost?, Option.map_or, hnil, Option.or_self]
  | cons d cs ih =>
    rw [List.cons_append, leftmost?, leftmost?, Option.map_or, Option.map_or, ih,
      ← List.cons_append, h]

end SdkCatalog.Text
