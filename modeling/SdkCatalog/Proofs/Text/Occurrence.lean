import SdkCatalog.Proofs.Text.Scan

/-! Scans told by positions. A form says which words are of it and what each of them says, and it
occurs in a text wherever the text goes on with one of its words. If a step reads a form, then a
scan with that step finds occurrences that lie one after the other, and any other occurrence begins
strictly inside one that is found. Text between words costs nothing if it cannot begin a word. -/

namespace SdkCatalog.Text

/-- The positions between which a word of a text lies, with what the word says. -/
structure Occurrence (α : Type) where
  start : Nat
  stop : Nat
  answer : α

variable {α : Type} {form : List Char → α → Prop} {cs : List Char} {c : Char} {least : Nat}
  {places : List (Occurrence α)} {place other : Occurrence α}

/-- The text goes on from the start with a word of the form, which reaches to the stop. -/
def Occurs (form : List Char → α → Prop) (cs : List Char) (place : Occurrence α) : Prop :=
  ∃ word rest, cs.drop place.start = word ++ rest ∧ place.stop = place.start + word.length ∧
    form word place.answer

/-- Of the occurrences from a position on, the places are some that lie one after the other, and
any other begins strictly inside one of them. -/
structure Covers (form : List Char → α → Prop) (cs : List Char) (least : Nat)
    (places : List (Occurrence α)) : Prop where
  occurs : ∀ place ∈ places, Occurs form cs place ∧ least ≤ place.start
  apart : places.Pairwise fun a b => a.start < b.start ∧ a.stop ≤ b.start
  complete : ∀ other, Occurs form cs other → least ≤ other.start →
    other ∈ places ∨ ∃ place ∈ places, place.start < other.start ∧ other.start < place.stop

/-- The answers are those of places that cover all occurrences of the form in the text, where at
most one occurrence begins at each position. -/
structure Scans (form : List Char → α → Prop) (cs : List Char) (answers : List α) : Prop where
  unique : ∀ a b, Occurs form cs a → Occurs form cs b → a.start = b.start → a = b
  covered : ∃ places : List (Occurrence α), places.map (·.answer) = answers ∧
    Covers form cs 0 places

/-! ### Positions in a longer text -/

/-- The place of the same word in a text with one more character in front. -/
def Occurrence.shift (place : Occurrence α) : Occurrence α :=
  ⟨place.start + 1, place.stop + 1, place.answer⟩

theorem Occurs.shift (h : Occurs form cs place) (c : Char) : Occurs form (c :: cs) place.shift := by
  obtain ⟨word, rest, hdrop, hstop, hform⟩ := h
  refine ⟨word, rest, hdrop, ?_, hform⟩
  simp only [Occurrence.shift, hstop]
  omega

theorem occurs_head {word : List Char} {answer : α} (hword : form word answer)
    (rest : List Char) : Occurs form (word ++ rest) ⟨0, word.length, answer⟩ :=
  ⟨word, rest, rfl, by simp, hword⟩

theorem Occurs.of_cons (h : Occurs form (c :: cs) other) (hstart : 0 < other.start) :
    ∃ place, Occurs form cs place ∧ other = place.shift := by
  obtain ⟨word, rest, hdrop, hstop, hform⟩ := h
  obtain ⟨start, stop, answer⟩ := other
  obtain ⟨start, rfl⟩ : ∃ n, start = n + 1 := ⟨start - 1, by simp only at hstart; omega⟩
  refine ⟨⟨start, start + word.length, answer⟩, ⟨word, rest, hdrop, rfl, hform⟩, ?_⟩
  simp only [Occurrence.shift, Occurrence.mk.injEq, true_and, and_true]
  simp only at hstop
  omega

theorem Covers.shift (h : Covers form cs least places) (c : Char) :
    Covers form (c :: cs) (least + 1) (places.map Occurrence.shift) where
  occurs := by
    intro place hplace
    obtain ⟨before, hbefore, rfl⟩ := List.mem_map.mp hplace
    obtain ⟨hoccurs, hleast⟩ := h.occurs before hbefore
    exact ⟨hoccurs.shift c, Nat.succ_le_succ hleast⟩
  apart := by
    refine List.pairwise_map.mpr (h.apart.imp fun hab => ?_)
    simp only [Occurrence.shift]
    omega
  complete := by
    intro other hother hleast
    obtain ⟨before, hbefore, rfl⟩ := hother.of_cons (by omega)
    rcases h.complete before hbefore (Nat.le_of_succ_le_succ hleast) with
      hmem | ⟨place, hplace, hstart, hstop⟩
    · exact .inl (List.mem_map_of_mem hmem)
    · exact .inr ⟨place.shift, List.mem_map_of_mem hplace, Nat.succ_lt_succ hstart,
        Nat.succ_lt_succ hstop⟩

/-- Nothing is left out at the head of a text where no occurrence begins. -/
theorem Covers.zero (h : Covers form cs 1 places)
    (hnone : ∀ other, Occurs form cs other → other.start ≠ 0) : Covers form cs 0 places where
  occurs place hplace := ⟨(h.occurs place hplace).1, Nat.zero_le _⟩
  apart := h.apart
  complete other hother _ := h.complete other hother (Nat.pos_of_ne_zero (hnone other hother))

/-! ### Steps that read a form -/

/-- A step reads a form: it answers the word at the head of a text and then may skip some of the
text. The words all begin with one character, which nothing skipped has, and none of them is the
beginning of another. -/
structure Reads (step : List Char → Option (α × List Char)) (form : List Char → α → Prop)
    (skip : List Char → List Char) (first : Char) : Prop where
  step_iff : ∀ cs answer rest, step cs = some (answer, rest) ↔
    ∃ word tail, cs = word ++ tail ∧ form word answer ∧ rest = skip tail
  head_word : ∀ word answer, form word answer → word.head? = some first
  word_eq : ∀ word word' answer answer', form word answer → form word' answer' →
    word <+: word' → word = word'
  skipped : ∀ tail, ∃ gap, tail = gap ++ skip tail ∧ first ∉ gap

namespace Reads

variable {step : List Char → Option (α × List Char)} {skip : List Char → List Char} {first : Char}

theorem length_pos (h : Reads step form skip first) {word : List Char} {answer : α}
    (hword : form word answer) : 0 < word.length := by
  have hhead := h.head_word word answer hword
  cases word with
  | nil => simp at hhead
  | cons c word => exact Nat.succ_pos _

theorem unique (h : Reads step form skip first) {a b : Occurrence α} (ha : Occurs form cs a)
    (hb : Occurs form cs b) (hstart : a.start = b.start) : a = b := by
  obtain ⟨word, rest, hdrop, hstop, hform⟩ := ha
  obtain ⟨word', rest', hdrop', hstop', hform'⟩ := hb
  rw [hstart, hdrop'] at hdrop
  have hword : word = word' := by
    rcases List.prefix_or_prefix_of_prefix (List.prefix_append word rest)
      (hdrop ▸ List.prefix_append word' rest') with hbegin | hbegin
    · exact h.word_eq _ _ _ _ hform hform' hbegin
    · exact (h.word_eq _ _ _ _ hform' hform hbegin).symm
  subst hword
  have hanswer : some (a.answer, skip []) = some (b.answer, skip []) := by
    rw [← (h.step_iff word _ _).mpr ⟨word, [], by simp, hform, rfl⟩,
      (h.step_iff word _ _).mpr ⟨word, [], by simp, hform', rfl⟩]
  injection hanswer with hanswer
  injection hanswer with hanswer
  obtain ⟨start, stop, answer⟩ := a
  simp only at hstart hstop hanswer
  rw [hstart, hstop, hanswer, hstart, ← hstop']

/-- No word begins in text without its first character. -/
theorem not_occurs (h : Reads step form skip first) {before gap after : List Char}
    (hgap : first ∉ gap) (hlow : before.length ≤ other.start)
    (hhigh : other.start < before.length + gap.length) :
    ¬Occurs form (before ++ (gap ++ after)) other := by
  rintro ⟨word, rest, hdrop, -, hform⟩
  have hhead := congrArg List.head? hdrop
  obtain ⟨start, hsplit⟩ : ∃ n, other.start = before.length + n :=
    ⟨other.start - before.length, by omega⟩
  have hstart : start < gap.length := by omega
  have hthere : (before ++ (gap ++ after))[before.length + start]? = some gap[start] := by
    rw [List.getElem?_append_right (by omega), Nat.add_sub_cancel_left,
      List.getElem?_append_left hstart, List.getElem?_eq_getElem hstart]
  rw [List.head?_drop, hsplit, hthere, List.head?_append, h.head_word word _ hform, Option.some_or,
    Option.some_inj] at hhead
  exact hgap (hhead ▸ List.getElem_mem hstart)

/-- A word at the head of a text covers what begins in it, and nothing begins in what is skipped
after it. -/
theorem covers_cons (h : Reads step form skip first) {word gap rest : List Char} {answer : α}
    (hword : form word answer) (hgap : first ∉ gap)
    (hcovers : Covers form (word ++ (gap ++ rest)) (word.length + gap.length) places) :
    Covers form (word ++ (gap ++ rest)) 0 (⟨0, word.length, answer⟩ :: places) where
  occurs := List.forall_mem_cons.mpr ⟨⟨occurs_head hword _, Nat.zero_le _⟩,
    fun place hplace => ⟨(hcovers.occurs place hplace).1, Nat.zero_le _⟩⟩
  apart := by
    refine List.pairwise_cons.mpr ⟨fun place hplace => ?_, hcovers.apart⟩
    have hlater := (hcovers.occurs place hplace).2
    have hpos := h.length_pos hword
    exact ⟨by simp only; omega, by simp only; omega⟩
  complete := by
    intro other hother _
    by_cases hlater : word.length + gap.length ≤ other.start
    · rcases hcovers.complete other hother hlater with hmem | ⟨place, hplace, hinside⟩
      · exact .inl (List.mem_cons_of_mem _ hmem)
      · exact .inr ⟨place, List.mem_cons_of_mem _ hplace, hinside⟩
    · have hinside : other.start < word.length := by
        by_contra hbeyond
        exact h.not_occurs hgap (by omega) (by omega) hother
      rcases Nat.eq_zero_or_pos other.start with hzero | hpos
      · exact .inl (h.unique hother (occurs_head hword _) hzero ▸ List.mem_cons_self)
      · exact .inr ⟨_, List.mem_cons_self, hpos, hinside⟩

/-- The scan finds what covers the occurrences behind the text already read. -/
theorem exists_covers (h : Reads step form skip first) (read : Nat) (cs : List Char) :
    ∃ places : List (Occurrence α), places.map (·.answer) = scan step read cs ∧
      Covers form cs read places := by
  induction cs generalizing read with
  | nil =>
    refine ⟨[], by cases read <;> rfl, by simp, List.Pairwise.nil, fun other hother _ => ?_⟩
    obtain ⟨word, rest, hdrop, -, hform⟩ := hother
    have hpos := h.length_pos hform
    rw [List.drop_nil] at hdrop
    simp [(List.nil_eq_append_iff.mp hdrop).1] at hpos
  | cons c cs ih =>
    have hshift : ∀ places : List (Occurrence α),
        (places.map Occurrence.shift).map (·.answer) = places.map (·.answer) :=
      fun places => by rw [List.map_map]; rfl
    cases read with
    | succ read =>
      obtain ⟨places, hanswers, hcovers⟩ := ih read
      exact ⟨_, (hshift places).trans hanswers, hcovers.shift c⟩
    | zero =>
      cases hstep : step (c :: cs) with
      | none =>
        obtain ⟨places, hanswers, hcovers⟩ := ih 0
        refine ⟨_, (hshift places).trans (by rw [hanswers, scan, hstep]), (hcovers.shift c).zero ?_⟩
        rintro other ⟨word, rest, hdrop, -, hform⟩ hzero
        rw [hzero, List.drop_zero] at hdrop
        rw [(h.step_iff _ _ _).mpr ⟨word, rest, hdrop, hform, rfl⟩] at hstep
        simp at hstep
      | some found =>
        obtain ⟨answer, rest⟩ := found
        obtain ⟨word, tail, hcs, hword, rfl⟩ := (h.step_iff _ _ _).mp hstep
        obtain ⟨gap, htail, hgap⟩ := h.skipped tail
        obtain ⟨places, hanswers, hcovers⟩ := ih (cs.length - (skip tail).length)
        have hpos := h.length_pos hword
        have hlength : cs.length - (skip tail).length + 1 = word.length + gap.length := by
          have hwhole := congrArg List.length (hcs.trans (congrArg (word ++ ·) htail))
          simp only [List.length_cons, List.length_append] at hwhole
          omega
        have hlater := hcovers.shift c
        rw [hlength, hcs, htail] at hlater
        refine ⟨⟨0, word.length, answer⟩ :: places.map Occurrence.shift, ?_, ?_⟩
        · rw [List.map_cons, hshift, hanswers, scan, hstep]
        · rw [hcs, htail]
          exact h.covers_cons hword hgap hlater

theorem scans (h : Reads step form skip first) (cs : List Char) :
    Scans form cs (scan step 0 cs) :=
  ⟨fun _ _ ha hb hstart => h.unique ha hb hstart, h.exists_covers 0 cs⟩

/-! ### Texts put together from words -/

theorem scan_eq_scan_drop (step : List Char → Option (α × List Char)) (read : Nat)
    (cs : List Char) : scan step read cs = scan step 0 (cs.drop read) := by
  induction cs generalizing read with
  | nil => cases read <;> rfl
  | cons c cs ih =>
    cases read with
    | zero => rfl
    | succ read => exact ih read

theorem scan_word (h : Reads step form skip first) {word : List Char} {answer : α}
    (hword : form word answer) (tail : List Char) :
    scan step 0 (word ++ tail) = answer :: scan step 0 (skip tail) := by
  have hstep := (h.step_iff (word ++ tail) answer _).mpr ⟨word, tail, rfl, hword, rfl⟩
  obtain ⟨gap, htail, -⟩ := h.skipped tail
  obtain ⟨c, word, rfl⟩ := List.exists_cons_of_length_pos (h.length_pos hword)
  have hread : (word ++ tail).length - (skip tail).length = (word ++ gap).length := by
    have hlength := congrArg List.length htail
    simp only [List.length_append] at hlength ⊢
    omega
  have hdrop : (word ++ tail).drop (word ++ gap).length = skip tail := by
    conv_lhs => rw [htail, ← List.append_assoc]
    exact List.drop_left
  rw [List.cons_append] at hstep ⊢
  rw [scan, hstep]
  simp only [scan_eq_scan_drop step _ (word ++ tail), hread, hdrop]

theorem scan_free (h : Reads step form skip first) {before : List Char} (hbefore : first ∉ before)
    (tail : List Char) : scan step 0 (before ++ tail) = scan step 0 tail := by
  induction before with
  | nil => rfl
  | cons c before ih =>
    rw [List.mem_cons, not_or] at hbefore
    have hnone : step (c :: (before ++ tail)) = none := by
      rw [Option.eq_none_iff_forall_ne_some]
      rintro ⟨answer, rest⟩ hstep
      obtain ⟨word, tail', hcs, hword, -⟩ := (h.step_iff _ _ _).mp hstep
      have hhead := congrArg List.head? hcs
      rw [List.head?_append, h.head_word word answer hword, Option.some_or] at hhead
      injection hhead with hc
      exact hbefore.1 hc.symm
    rw [List.cons_append, scan, hnone]
    exact ih hbefore.2

end Reads

end SdkCatalog.Text
