import SdkCatalog.Proofs.Text.Scan
import SdkCatalog.Proofs.Text.Word
import SdkCatalog.Source.Scan

/-! Registrations: how a text that begins with one is put together, and what a source keeps of its
registrations when text is appended. -/

namespace SdkCatalog.Registration

open Text

variable {cs rest : List Char} {expected : String}

/-! ### Tokens -/

theorem token?_eq_some_iff (expected : String)
    (h : expected.toList.head?.any (!isBlank ·) = true) :
    token? expected cs = some rest ↔
      ∃ gap, Blank gap ∧ cs = gap ++ (expected.toList ++ rest) := by
  rw [token?, afterString?]
  cases hexpected : expected.toList with
  | nil => simp [hexpected] at h
  | cons c es => exact after?_trimStart_eq_some_iff (by simpa [hexpected] using h)

theorem exists_of_pastBlanks? {α : Type} {step : List Char → Option α} {answer : α}
    (h : pastBlanks? step cs = some answer) :
    ∃ gap rest, Blank gap ∧ cs = gap ++ rest ∧ step rest = some answer := by
  induction cs with
  | nil => exact ⟨[], [], by simp [Blank], rfl, h⟩
  | cons c cs ih =>
    have hhere : step (c :: cs) = some answer →
        ∃ gap rest, Blank gap ∧ c :: cs = gap ++ rest ∧ step rest = some answer :=
      fun hstep => ⟨[], c :: cs, by simp [Blank], rfl, hstep⟩
    rw [pastBlanks?] at h
    split at h
    · next hc =>
      rcases Option.or_eq_some_iff.mp h with h | ⟨-, h⟩
      · obtain ⟨gap, rest, hgap, rfl, hstep⟩ := ih h
        exact ⟨c :: gap, rest, List.forall_mem_cons.mpr ⟨hc, hgap⟩, rfl, hstep⟩
      · exact hhere h
    · exact hhere h

theorem isSome_pastBlanks? {α : Type} {step : List Char → Option α} {gap : List Char}
    (hgap : Blank gap) (h : (step rest).isSome) : (pastBlanks? step (gap ++ rest)).isSome := by
  induction gap with
  | nil =>
    cases rest with
    | nil => exact h
    | cons c rest =>
      rw [List.nil_append, pastBlanks?]
      split
      · rw [Option.isSome_or, h, Bool.or_true]
      · exact h
  | cons c gap ih =>
    obtain ⟨hc, hgap⟩ := List.forall_mem_cons.mp hgap
    rw [List.cons_append, pastBlanks?, if_pos hc, Option.isSome_or, ih hgap, Bool.true_or]

/-- A text that is not all blank has no second place after blanks. -/
theorem gap_unique {es gap gap' rest' : List Char} (hes : ¬Blank es) (hgap : Blank gap)
    (hgap' : Blank gap') (h : gap ++ (es ++ rest) = gap' ++ (es ++ rest')) : rest = rest' := by
  have hstart : ∀ {gap} rest, Blank gap →
      trimStart (gap ++ (es ++ rest)) = trimStart es ++ rest := by
    intro gap rest hgap
    rw [trimStart, List.dropWhile_append_of_pos hgap, List.dropWhile_append, if_neg, trimStart]
    simpa [Blank, List.dropWhile_eq_nil_iff] using hes
  have htrimmed := congrArg trimStart h
  rw [hstart rest hgap, hstart rest' hgap'] at htrimmed
  exact List.append_cancel_left htrimmed

/-- Wherever the blanks before a fixed text end, the same stands after it. -/
theorem pastBlanks?_eq_some_iff (h : ¬Blank expected.toList) :
    pastBlanks? (afterString? expected) cs = some rest ↔
      ∃ gap, Blank gap ∧ cs = gap ++ (expected.toList ++ rest) := by
  constructor
  · intro hfound
    obtain ⟨gap, _, hgap, rfl, hstep⟩ := exists_of_pastBlanks? hfound
    exact ⟨gap, hgap, by rw [afterString?_eq_some_iff.mp hstep]⟩
  · rintro ⟨gap, hgap, rfl⟩
    have hsome : (pastBlanks? (afterString? expected) (gap ++ (expected.toList ++ rest))).isSome :=
      isSome_pastBlanks? hgap
        (Option.isSome_iff_exists.mpr ⟨rest, afterString?_eq_some_iff.mpr rfl⟩)
    obtain ⟨other, hother⟩ := Option.isSome_iff_exists.mp hsome
    obtain ⟨gap', _, hgap', heq, hstep⟩ := exists_of_pastBlanks? hother
    rw [afterString?_eq_some_iff.mp hstep] at heq
    rw [hother, gap_unique h hgap hgap' heq]

/-! ### Spellings -/

/-- The parts of a registration as a text spells it, with the blanks before each of them. -/
structure Spelling where
  gap : Fin 10 → List Char
  name : List Char
  flag : List Char
  contentType : List Char
  className : List Char
  blank : ∀ index, Blank (gap index)
  name_ne : name ≠ []
  name_free : ∀ c ∈ name, c ≠ '\''
  flag_ne : flag ≠ []
  flag_free : ∀ c ∈ flag, c ≠ ','
  contentType_ne : contentType ≠ []
  contentType_word : ∀ c ∈ contentType, isWordChar c = true
  className_ne : className ≠ []
  className_word : ∀ c ∈ className, isWordChar c = true

namespace Spelling

def label (spelling : Spelling) : List Char :=
  spelling.gap 0 ++ ("name:".toList ++ spelling.gap 1)

/-- What stands before the flag. -/
def head (spelling : Spelling) : List Char :=
  '\x7b' :: (spelling.label ++ '\'' :: (spelling.name ++ '\'' ::
    (spelling.gap 2 ++ (",".toList ++ (spelling.gap 3 ++ "flag:".toList)))))

/-- What stands between the comma after the flag and the closing brace. -/
def foot (spelling : Spelling) (typeNamespace : String) : List Char :=
  spelling.gap 4 ++ ("type:".toList ++ (spelling.gap 5 ++ ((typeNamespace ++ ".").toList ++
    (spelling.contentType ++ (spelling.gap 6 ++ (",".toList ++ (spelling.gap 7 ++
      ("contentClazz:".toList ++ (spelling.gap 8 ++ (spelling.className ++ spelling.gap 9))))))))))

/-- The text of a registration but for its closing brace. -/
def body (spelling : Spelling) (typeNamespace : String) : List Char :=
  spelling.head ++ (spelling.flag ++ ',' :: spelling.foot typeNamespace)

def entry (spelling : Spelling) : Registration :=
  ⟨String.ofList spelling.name, String.ofList (trim spelling.flag),
    String.ofList spelling.contentType, String.ofList spelling.className⟩

end Spelling

theorem step_eq_some_iff {typeNamespace : String} {entry : Registration} :
    step typeNamespace cs = some (entry, rest) ↔ ∃ spelling : Spelling,
      cs = spelling.body typeNamespace ++ '\x7d' :: rest ∧ entry = spelling.entry := by
  have hdot : ¬Blank (typeNamespace ++ ".").toList := by
    intro h
    exact absurd (h '.' (by simp)) (by decide)
  simp only [step, Option.bind_eq_bind, Option.bind_eq_some_iff, Prod.exists,
    after?_eq_some_iff, token?_eq_some_iff "name:" (by decide), token?_eq_some_iff "'" (by decide),
    token?_eq_some_iff "," (by decide), token?_eq_some_iff "flag:" (by decide),
    token?_eq_some_iff "type:" (by decide), token?_eq_some_iff "contentClazz:" (by decide),
    token?_eq_some_iff "\x7d" (by decide), pastBlanks?_eq_some_iff hdot,
    run?_eq_some_iff, trimStart_eq_iff]
  constructor
  · rintro ⟨_, rfl, _, ⟨gap0, hgap0, rfl⟩, _, ⟨gap1, hgap1, rfl⟩, name, _,
      ⟨hname, hnameFree, rfl, -⟩, _, rfl, h⟩
    obtain ⟨_, ⟨gap2, hgap2, rfl⟩, _, ⟨gap3, hgap3, rfl⟩, flag, _, ⟨hflag, hflagFree, rfl, -⟩, _,
      rfl, h⟩ := h
    obtain ⟨_, ⟨gap4, hgap4, rfl⟩, _, ⟨gap5, hgap5, rfl⟩, contentType, _,
      ⟨hcontentType, hcontentTypeWord, rfl, -⟩, h⟩ := h
    obtain ⟨_, ⟨gap6, hgap6, rfl⟩, _, ⟨gap7, hgap7, rfl⟩, className, _,
      ⟨hclassName, hclassNameWord, ⟨gap8, hgap8, rfl, -⟩, -⟩, _, ⟨gap9, hgap9, rfl⟩, h⟩ := h
    injection h with h
    injection h with hentry hrest
    subst hentry hrest
    refine ⟨⟨![gap0, gap1, gap2, gap3, gap4, gap5, gap6, gap7, gap8, gap9], name, flag,
      contentType, className, ?_, hname, by simpa using hnameFree, hflag, by simpa using hflagFree,
      hcontentType, hcontentTypeWord, hclassName, hclassNameWord⟩, ?_, rfl⟩
    · simp [Fin.forall_fin_succ, *]
    · simp only [Spelling.body, Spelling.head, Spelling.label, Spelling.foot, List.append_assoc,
        List.cons_append, List.nil_append]
      rfl
  · rintro ⟨spelling, rfl, rfl⟩
    obtain ⟨gap, name, flag, contentType, className, hblank, hname, hnameFree, hflag, hflagFree,
      hcontentType, hcontentTypeWord, hclassName, hclassNameWord⟩ := spelling
    have hblankWord : ∀ {gap : List Char} {c : Char} (rest : List Char), Blank gap →
        isWordChar c = false → StopsAt isWordChar (gap ++ c :: rest) := fun rest hgap hc =>
      hgap.stopsAt (fun _ => isWordChar_of_isBlank) (stopsAt_cons hc rest)
    simp only [Spelling.body, Spelling.head, Spelling.label, Spelling.foot, List.append_assoc,
      List.cons_append, List.nil_append]
    exact ⟨_, rfl, _, ⟨gap 0, hblank 0, rfl⟩, _, ⟨gap 1, hblank 1, rfl⟩, name, _,
      ⟨hname, by simpa using hnameFree, rfl, stopsAt_cons (by decide) _⟩, _, rfl, _,
      ⟨gap 2, hblank 2, rfl⟩, _, ⟨gap 3, hblank 3, rfl⟩, flag, _,
      ⟨hflag, by simpa using hflagFree, rfl, stopsAt_cons (by decide) _⟩, _, rfl, _,
      ⟨gap 4, hblank 4, rfl⟩, _, ⟨gap 5, hblank 5, rfl⟩, contentType, _,
      ⟨hcontentType, hcontentTypeWord, rfl, hblankWord _ (hblank 6) (by decide)⟩, _,
      ⟨gap 6, hblank 6, rfl⟩, _, ⟨gap 7, hblank 7, rfl⟩, className, _,
      ⟨hclassName, hclassNameWord, ⟨gap 8, hblank 8, rfl,
          stopsAt_of_word hclassName hclassNameWord _⟩,
        hblankWord _ (hblank 9) (by decide)⟩, _, ⟨gap 9, hblank 9, rfl⟩, rfl⟩

theorem step_ne_none_iff {typeNamespace : String} : step typeNamespace cs ≠ none ↔
    ∃ (spelling : Spelling) (tail : List Char),
      cs = spelling.body typeNamespace ++ '\x7d' :: tail := by
  rw [Option.ne_none_iff_exists']
  constructor
  · rintro ⟨⟨entry, rest⟩, hstep⟩
    obtain ⟨spelling, hcs, -⟩ := step_eq_some_iff.mp hstep
    exact ⟨spelling, rest, hcs⟩
  · rintro ⟨spelling, tail, hcs⟩
    exact ⟨_, step_eq_some_iff.mpr ⟨spelling, hcs, rfl⟩⟩

/-! ### Appended text -/

theorem Blank.count_eq_zero {gap : List Char} {c : Char} (hgap : Blank gap)
    (hc : isBlank c = false) : gap.count c = 0 :=
  List.count_eq_zero.mpr fun hmem => by simp [hgap c hmem] at hc

theorem count_eq_zero_of_word {word : List Char} {c : Char}
    (hword : ∀ d ∈ word, isWordChar d = true) (hc : isWordChar c = false) : word.count c = 0 :=
  List.count_eq_zero.mpr fun hmem => by simp [hword c hmem] at hc

namespace Spelling

variable (spelling : Spelling)

/-- What stands after the second quote and before the flag. -/
def link : List Char :=
  spelling.gap 2 ++ (",".toList ++ (spelling.gap 3 ++ "flag:".toList))

theorem head_eq : spelling.head =
    '\x7b' :: (spelling.label ++ '\'' :: (spelling.name ++ '\'' :: spelling.link)) := rfl

theorem count_label {c : Char} (hc : isBlank c = false) (hname : "name:".toList.count c = 0) :
    spelling.label.count c = 0 := by
  rw [label, List.count_append, List.count_append, hname,
    Blank.count_eq_zero (spelling.blank 0) hc, Blank.count_eq_zero (spelling.blank 1) hc]

theorem count_quote_head : spelling.head.count '\'' = 2 := by
  have hgap := fun index => Blank.count_eq_zero (c := '\'') (spelling.blank index) (by decide)
  have hname : spelling.name.count '\'' = 0 :=
    List.count_eq_zero.mpr fun hmem => spelling.name_free _ hmem rfl
  have hlink : spelling.link.count '\'' = 0 := by
    rw [link, List.count_append, List.count_append, List.count_append, hgap, hgap]
    rfl
  rw [head_eq, List.count_cons_of_ne (by decide), List.count_append, List.count_cons_self,
    List.count_append, List.count_cons_self, hname, hlink,
    spelling.count_label (by decide) (by decide)]

theorem count_comma_foot {typeNamespace : String} (h : ',' ∉ typeNamespace.toList) :
    (spelling.foot typeNamespace).count ',' = 1 := by
  have hgap := fun index => Blank.count_eq_zero (c := ',') (spelling.blank index) (by decide)
  have hnamespace : (typeNamespace ++ ".").toList.count ',' = 0 := by
    rw [String.toList_append, List.count_append, List.count_eq_zero.mpr h]
    rfl
  simp only [foot, List.count_append, hgap, hnamespace,
    count_eq_zero_of_word spelling.contentType_word (show isWordChar ',' = false by decide),
    count_eq_zero_of_word spelling.className_word (show isWordChar ',' = false by decide)]
  rfl

/-- A brace after the first character stands after the first quote. -/
theorem quote_before_brace {typeNamespace : String} {before more : List Char} (hne : before ≠ [])
    (h : spelling.body typeNamespace = before ++ '\x7b' :: more) : 1 ≤ before.count '\'' := by
  have hlabel : spelling.label.count '\x7b' = 0 := spelling.count_label (by decide) (by decide)
  have hbody : spelling.body typeNamespace = ('\x7b' :: (spelling.label ++ ['\''])) ++
      (spelling.name ++ '\'' :: (spelling.link ++
        (spelling.flag ++ ',' :: spelling.foot typeNamespace))) := by
    simp [body, head_eq]
  have hcount : ('\x7b' :: (spelling.label ++ ['\''])).count '\x7b' ≤ before.count '\x7b' := by
    obtain ⟨c, before, rfl⟩ := List.exists_cons_of_ne_nil hne
    obtain rfl : '\x7b' = c := by
      rw [hbody] at h
      injection h
    rw [List.count_cons_self, List.count_cons_self, List.count_append, hlabel,
      List.count_cons_of_ne (by decide), List.count_nil]
    omega
  obtain ⟨between, rfl, -⟩ := exists_append_of_count_le (h.symm.trans hbody) hcount
  rw [List.count_append, List.count_cons_of_ne (by decide), List.count_append,
    List.count_cons_self]
  omega

/-- From the third quote on, which stands in the flag, there are two commas at most. -/
theorem commas_after_quotes {typeNamespace : String} (hcomma : ',' ∉ typeNamespace.toList)
    {before more : List Char} (h : spelling.body typeNamespace = before ++ '\'' :: more)
    (htwo : 2 ≤ before.count '\'') : more.count ',' ≤ 2 := by
  have hflag : spelling.flag.count ',' = 0 :=
    List.count_eq_zero.mpr fun hmem => spelling.flag_free _ hmem rfl
  obtain ⟨between, -, hrest⟩ :=
    exists_append_of_count_le (h.symm.trans rfl) (spelling.count_quote_head ▸ htwo)
  have hcount := congrArg (List.count ',') hrest
  rw [List.count_append, List.count_cons_self, hflag, spelling.count_comma_foot hcomma,
    List.count_append, List.count_cons_of_ne (by decide)] at hcount
  omega

/-- Between its quotes a registration has its name, and after them three commas. -/
theorem body_eq (typeNamespace : String) (rest : List Char) : ∃ tail,
    spelling.body typeNamespace ++ '\x7d' :: rest =
      ('\x7b' :: (spelling.label ++ '\'' :: spelling.name)) ++ '\'' :: tail ∧
    3 ≤ tail.count ',' := by
  refine ⟨spelling.link ++ (spelling.flag ++ ',' ::
    (spelling.foot typeNamespace ++ '\x7d' :: rest)), by simp [body, head_eq], ?_⟩
  have hcomma : ",".toList.count ',' = 1 := rfl
  simp only [List.count_append, List.count_cons_self, link, foot, hcomma]
  omega

/-- No registration begins inside the text of another and ends in it. It would begin after the
first quote, so that its own second quote would stand in the flag, after which fewer commas are
left than it takes. -/
theorem not_inside {typeNamespace : String} (hcomma : ',' ∉ typeNamespace.toList)
    (inner : Spelling) {before tail : List Char} (hne : before ≠ []) :
    ¬before ++ (inner.body typeNamespace ++ '\x7d' :: tail) <+: spelling.body typeNamespace := by
  rintro ⟨more, h⟩
  obtain ⟨parts, hparts, hthree⟩ := inner.body_eq typeNamespace tail
  have hname : inner.name.count '\'' = 0 :=
    List.count_eq_zero.mpr fun hmem => inner.name_free _ hmem rfl
  have hlabel : inner.label.count '\'' = 0 := inner.count_label (by decide) (by decide)
  rw [hparts] at h
  have hopening : spelling.body typeNamespace =
      before ++ '\x7b' :: (inner.label ++ '\'' :: inner.name ++ '\'' :: parts ++ more) := by
    rw [← h]
    simp
  have hquote : spelling.body typeNamespace =
      (before ++ '\x7b' :: (inner.label ++ '\'' :: inner.name)) ++ '\'' :: (parts ++ more) := by
    rw [← h]
    simp
  have hfirst := spelling.quote_before_brace hne hopening
  have htwo : 2 ≤ (before ++ '\x7b' :: (inner.label ++ '\'' :: inner.name)).count '\'' := by
    rw [List.count_append, List.count_cons_of_ne (by decide), List.count_append,
      List.count_cons_self, hlabel, hname]
    omega
  have hcommas := spelling.commas_after_quotes hcomma hquote htwo
  rw [List.count_append] at hcommas
  omega

end Spelling

/-- Text that is appended leaves the registrations of a source as they were, unless the namespace of
the content types has a comma in it. -/
theorem ofSource_append {typeNamespace : String} (h : ',' ∉ typeNamespace.toList)
    (source more : String) :
    ofSource typeNamespace source <+: ofSource typeNamespace (source ++ more) := by
  have hstable : ∀ cs entry rest, step typeNamespace cs = some (entry, rest) →
      step typeNamespace (cs ++ more.toList) = some (entry, rest ++ more.toList) := by
    intro cs entry rest hstep
    obtain ⟨spelling, rfl, rfl⟩ := step_eq_some_iff.mp hstep
    exact step_eq_some_iff.mpr ⟨spelling, by simp, rfl⟩
  rw [ofSource, ofSource, String.toList_append]
  exact scan_append_of_apart (fun _ => step_ne_none_iff) hstable
    (fun spelling inner c before _ => spelling.not_inside h inner (List.cons_ne_nil c before)) 0 _

end SdkCatalog.Registration
