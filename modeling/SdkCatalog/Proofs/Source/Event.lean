import SdkCatalog.Proofs.Text.Occurrence
import SdkCatalog.Proofs.Text.Word
import SdkCatalog.Source.Scan

/-! Event declarations: how a text that begins with one is put together, where in a source the
declarations lie that it gives, and what it keeps of them when text is appended. -/

namespace SdkCatalog.Event

open Text

variable {cs rest : List Char} {event : Event}

theorem afterQuote?_eq_some_iff : afterQuote? cs = some rest ↔
    ∃ quote, isQuote quote = true ∧ cs = quote :: rest := by
  cases cs with
  | nil => simp [afterQuote?]
  | cons c cs =>
    rw [afterQuote?]
    constructor
    · intro h
      split at h
      · next hc =>
        injection h with h
        exact ⟨c, hc, by rw [h]⟩
      · simp at h
    · rintro ⟨quote, hquote, hcs⟩
      injection hcs with hc hcs
      rw [hc, if_pos hquote, hcs]

theorem isBlank_of_isQuote {c : Char} (h : isQuote c = true) : isBlank c = false := by
  simp only [isQuote, Bool.or_eq_true, beq_iff_eq] at h
  rcases h with rfl | rfl <;> decide

theorem isQuote_of_isBlank {c : Char} (h : isBlank c = true) : isQuote c = false := by
  cases hquote : isQuote c with
  | false => rfl
  | true => simp [isBlank_of_isQuote hquote] at h

theorem isQuote_of_isIdentifierChar {c : Char} (h : isIdentifierChar c = true) :
    isQuote c = false := by
  cases hquote : isQuote c with
  | false => rfl
  | true =>
    simp only [isQuote, Bool.or_eq_true, beq_iff_eq] at hquote
    rcases hquote with rfl | rfl <;> simp [isIdentifierChar] at h

/-- The parts of an event's declaration as a text spells it. -/
structure Spelling where
  gap : List Char
  name : List Char
  gap' : List Char
  gap'' : List Char
  opening : Char
  value : List Char
  closing : Char
  gap_ne : gap ≠ []
  blank : Blank gap
  name_identifier : IsIdentifier name
  blank' : Blank gap'
  blank'' : Blank gap''
  quote_opening : isQuote opening = true
  value_ne : value ≠ []
  value_free : ∀ c ∈ value, isQuote c = false
  quote_closing : isQuote closing = true

namespace Spelling

/-- The text of a declaration but for its closing quote. -/
def body (spelling : Spelling) : List Char :=
  "static".toList ++ (spelling.gap ++ (spelling.name ++ (spelling.gap' ++ '=' ::
    (spelling.gap'' ++ spelling.opening :: spelling.value))))

def entry (spelling : Spelling) : Event :=
  ⟨String.ofList spelling.name, String.ofList spelling.value⟩

theorem body_append (spelling : Spelling) (rest : List Char) : spelling.body ++ rest =
    "static".toList ++ (spelling.gap ++ (spelling.name ++ (spelling.gap' ++ '=' ::
      (spelling.gap'' ++ spelling.opening :: (spelling.value ++ rest))))) := by
  obtain ⟨gap, name, gap', gap'', opening, value, closing⟩ := spelling
  have hbody : ∀ word : List Char, word ++ (gap ++ (name ++ (gap' ++ '=' ::
      (gap'' ++ opening :: value)))) ++ rest = word ++ (gap ++ (name ++ (gap' ++ '=' ::
      (gap'' ++ opening :: (value ++ rest))))) := by simp
  exact hbody "static".toList

end Spelling

/-- An event is found exactly where a text begins with a declaration. A semicolon after it is taken
along. -/
theorem step_eq_some_iff : step cs = some (event, rest) ↔
    ∃ (spelling : Spelling) (tail : List Char), cs = spelling.body ++ spelling.closing :: tail ∧
      event = spelling.entry ∧ rest = dropSemicolon tail := by
  simp only [step, Option.bind_eq_bind, Option.bind_eq_some_iff, Prod.exists,
    afterString?_eq_some_iff, afterBlanks?_eq_some_iff, identifier?_eq_some_iff,
    after?_trimStart_eq_some_iff (show isBlank '=' = false by decide), afterQuote?_eq_some_iff,
    run?_eq_some_iff, trimStart_eq_iff]
  constructor
  · rintro ⟨_, rfl, _, ⟨gap, hne, hgap, rfl, -⟩, name, _, ⟨hname, rfl, -⟩, _, ⟨gap', hgap', rfl⟩, _,
      ⟨opening, hopening, gap'', hgap'', rfl, -⟩, value, _, ⟨hvalue, hinside, rfl, -⟩, tail,
      ⟨closing, hclosing, rfl⟩, h⟩
    injection h with h
    injection h with hevent hrest
    refine ⟨⟨gap, name, gap', gap'', opening, value, closing, hne, hgap, hname, hgap', hgap'',
      hopening, hvalue, by simpa using hinside, hclosing⟩, tail, ?_, hevent.symm, hrest.symm⟩
    rw [Spelling.body_append]
    rfl
  · rintro ⟨spelling, tail, rfl, rfl, rfl⟩
    obtain ⟨gap, name, gap', gap'', opening, value, closing, hne, hgap, hname, hgap', hgap'',
      hopening, hvalue, hinside, hclosing⟩ := spelling
    have hafterName : StopsAt isIdentifierChar
        (gap' ++ '=' :: (gap'' ++ opening :: (value ++ closing :: tail))) :=
      hgap'.stopsAt (fun _ => isIdentifierChar_of_isBlank) (stopsAt_cons (by decide) _)
    rw [Spelling.body_append]
    exact ⟨_, rfl, _, ⟨gap, hne, hgap, rfl, hname.stopsAt _⟩, name, _, ⟨hname, rfl, hafterName⟩, _,
      ⟨gap', hgap', rfl⟩, _,
      ⟨opening, hopening, gap'', hgap'', rfl, stopsAt_cons (isBlank_of_isQuote hopening) _⟩, value,
      _, ⟨hvalue, by simpa using hinside, rfl, stopsAt_cons (by simpa using hclosing) _⟩, tail,
      ⟨closing, hclosing, rfl⟩, rfl⟩

theorem step_ne_none_iff : step cs ≠ none ↔ ∃ (spelling : Spelling) (tail : List Char),
    cs = spelling.body ++ spelling.closing :: tail := by
  rw [Option.ne_none_iff_exists']
  constructor
  · rintro ⟨⟨event, rest⟩, hstep⟩
    obtain ⟨spelling, tail, hcs, -, -⟩ := step_eq_some_iff.mp hstep
    exact ⟨spelling, tail, hcs⟩
  · rintro ⟨spelling, tail, hcs⟩
    exact ⟨_, step_eq_some_iff.mpr ⟨spelling, tail, hcs, rfl, rfl⟩⟩

/-! ### Quotes -/

theorem Spelling.countP_body (spelling : Spelling) : spelling.body.countP isQuote = 1 := by
  have hblank : ∀ {gap : List Char}, Blank gap → gap.countP isQuote = 0 := fun hgap =>
    List.countP_eq_zero.mpr fun c hc => by simp [isQuote_of_isBlank (hgap c hc)]
  have hname : spelling.name.countP isQuote = 0 := List.countP_eq_zero.mpr fun c hc => by
    simp [isQuote_of_isIdentifierChar (spelling.name_identifier.1 c hc)]
  have hvalue : spelling.value.countP isQuote = 0 :=
    List.countP_eq_zero.mpr fun c hc => by simp [spelling.value_free c hc]
  have hstatic : "static".toList.countP isQuote = 0 := by decide
  rw [← List.append_nil spelling.body, body_append]
  simp only [List.countP_append, List.countP_cons, List.countP_nil, hstatic, hblank spelling.blank,
    hblank spelling.blank', hblank spelling.blank'', hname, hvalue, spelling.quote_opening]
  rfl

/-! ### Declarations in a source -/

/-- A word declares an event: `static`, blanks, the name, an equals sign with blanks around it at
will, and the value between quotes. -/
def Declares (word : List Char) (event : Event) : Prop :=
  ∃ spelling : Spelling, word = spelling.body ++ [spelling.closing] ∧ event = spelling.entry

/-- A declaration ends with its second quote, so that none is the beginning of another. -/
theorem Declares.eq_of_begin {word word' : List Char} {event event' : Event}
    (h : Declares word event) (h' : Declares word' event') (hbegin : word <+: word') :
    word = word' := by
  obtain ⟨spelling, rfl, -⟩ := h
  obtain ⟨spelling', rfl, -⟩ := h'
  obtain ⟨more, hmore⟩ := hbegin
  have hcount : more.countP isQuote = 0 := by
    have hboth := congrArg (List.countP isQuote) hmore
    simp only [List.countP_append, List.countP_singleton, spelling.countP_body,
      spelling'.countP_body, spelling.quote_closing, spelling'.quote_closing] at hboth
    omega
  rcases List.eq_nil_or_concat' more with rfl | ⟨between, last, rfl⟩
  · rw [← hmore, List.append_nil]
  · rw [← List.append_assoc] at hmore
    obtain ⟨-, hlast⟩ := List.append_inj' hmore rfl
    injection hlast with hlast
    have hnone := List.countP_eq_zero.mp hcount last (by simp)
    exact absurd (hlast ▸ spelling'.quote_closing) hnone

theorem exists_dropSemicolon (tail : List Char) :
    ∃ gap, tail = gap ++ dropSemicolon tail ∧ 's' ∉ gap := by
  fun_cases dropSemicolon tail with
  | case1 rest => exact ⟨[';'], rfl, by decide⟩
  | case2 => exact ⟨[], rfl, List.not_mem_nil⟩

theorem reads_step : Reads step Declares dropSemicolon 's' where
  step_iff cs event rest := by
    rw [step_eq_some_iff]
    constructor
    · rintro ⟨spelling, tail, rfl, rfl, rfl⟩
      exact ⟨_, tail, by simp, ⟨spelling, rfl, rfl⟩, rfl⟩
    · rintro ⟨_, tail, rfl, ⟨spelling, rfl, rfl⟩, rfl⟩
      exact ⟨spelling, tail, by simp, rfl, rfl⟩
  head_word := by
    rintro _ _ ⟨spelling, rfl, -⟩
    rfl
  word_eq _ _ _ _ h h' hbegin := h.eq_of_begin h' hbegin
  skipped := exists_dropSemicolon

/-- A source gives the events of declarations that lie one after the other in it, all of them in
order, and any other declaration begins strictly inside one of these. A text has at most one
declaration at its head, and so the event is told by the position. -/
theorem scans_declarations (source : String) : Scans Declares source.toList (ofSource source) :=
  reads_step.scans source.toList

/-- A declaration that begins in the value of another, and one without a value. -/
example : ofSource "static A = \"static B = 'x'; static C = ''" =
    [⟨"A", "static B = "⟩] := by decide +kernel

/-! ### Appended text -/

/-- A declaration has two quotes, and before its closing quote there is only one. -/
theorem Spelling.not_inside (spelling inner : Spelling) {before tail : List Char} :
    ¬before ++ (inner.body ++ inner.closing :: tail) <+: spelling.body := by
  intro hprefix
  have hle := hprefix.sublist.countP_le (p := isQuote)
  rw [List.countP_append, List.countP_append, inner.countP_body, spelling.countP_body,
    List.countP_cons_of_pos inner.quote_closing] at hle
  omega

theorem dropSemicolon_append (tail rest : List Char) :
    dropSemicolon tail ++ '\n' :: rest = dropSemicolon (tail ++ '\n' :: rest) := by
  cases tail with
  | nil => rfl
  | cons c tail =>
    by_cases hc : c = ';'
    · rw [hc]
      rfl
    · have hkept : ∀ cs, dropSemicolon (c :: cs) = c :: cs := by
        intro cs
        rw [dropSemicolon]
        rintro rest heq
        injection heq with heq
        exact hc heq
      rw [List.cons_append, hkept, hkept, List.cons_append]

/-- Text that is appended on new lines leaves the events of a source as they were. -/
theorem ofSource_append (source more : String) :
    ofSource source <+: ofSource (source ++ "\n" ++ more) := by
  have hstable : ∀ cs event rest, step cs = some (event, rest) →
      step (cs ++ '\n' :: more.toList) = some (event, rest ++ '\n' :: more.toList) := by
    intro cs event rest hstep
    obtain ⟨spelling, tail, rfl, rfl, rfl⟩ := step_eq_some_iff.mp hstep
    exact step_eq_some_iff.mpr ⟨spelling, tail ++ '\n' :: more.toList, by simp, rfl,
      dropSemicolon_append tail more.toList⟩
  rw [ofSource, ofSource, String.toList_append, String.toList_append, List.append_assoc]
  exact scan_append_of_apart (fun _ => step_ne_none_iff) hstable
    (fun spelling inner _ _ _ => spelling.not_inside inner) 0 _

end SdkCatalog.Event
