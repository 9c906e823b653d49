import SdkCatalog.Proofs.Number.Numeral
import SdkCatalog.Proofs.Source.Field
import SdkCatalog.Proofs.Source.Listing
import SdkCatalog.Proofs.Text.Lines

/-! Constants line by line: each line gives the constant of its leftmost static field, if that is
initialized by a numeral. Constants that cannot be read: a line whose number has too many digits,
for which the whole source has no constants. Any other line costs at most its own constant. -/

namespace SdkCatalog.Constant

open Text

variable {source : String} {line : List Char}

/-- The static field that the line of an index declares is initialized by a whole number of the
given count of digits, which is more than can be read. -/
def OverlongAt (source : String) (index count : Nat) : Prop :=
  ∃ line name initializer, (lines source.toList)[index]? = some line ∧
    leftmost? field? line = some (name, initializer) ∧ Numeral.Overlong initializer count

theorem ofLine_eq_error_iff {doc : Option String} {fault : Numeral.TooLong} :
    ofLine line doc = .error fault ↔ ∃ name initializer,
      leftmost? field? line = some (name, initializer) ∧
      Numeral.Overlong initializer fault.digits := by
  rw [ofLine]
  split
  · next hnone => simp [hnone]
  · next name initializer hfield =>
    simp only [hfield, Option.some.injEq, Prod.mk.injEq, ← Numeral.parse_eq_error_iff]
    constructor
    · intro h
      refine ⟨name, initializer, ⟨rfl, rfl⟩, ?_⟩
      cases hparse : Numeral.parse initializer with
      | ok value? => simp [hparse, Except.map] at h
      | error other =>
        rw [hparse] at h
        injection h with h
        rw [h]
    · rintro ⟨_, _, ⟨rfl, rfl⟩, hparse⟩
      rw [hparse]
      rfl

/-- A source has constants exactly if no line has too long a number, and then those of its lines,
each for itself. -/
theorem ofSource_eq_ok_iff {constants : List Constant} : ofSource source = .ok constants ↔
    (∀ index count, ¬OverlongAt source index count) ∧ constants = declared source := by
  rcases ofSource_cases source with ⟨hsource, hlines⟩ | ⟨index, line, fault, hline, hfault, hsource⟩
  · rw [hsource, Except.ok.injEq, eq_comm, iff_and_self]
    rintro - index count ⟨line, name, initializer, hline, hfield, hlong⟩
    exact hlines index line hline ⟨count⟩
      (ofLine_eq_error_iff.mpr ⟨name, initializer, hfield, hlong⟩)
  · rw [hsource]
    obtain ⟨name, initializer, hfield, hlong⟩ := ofLine_eq_error_iff.mp hfault
    constructor
    · intro h
      simp at h
    · rintro ⟨hnone, -⟩
      exact absurd ⟨line, name, initializer, hline, hfield, hlong⟩ (hnone index fault.digits)

/-- A source without constants has a line with too long a number. -/
theorem overlongAt_of_error {fault : Numeral.TooLong} (h : ofSource source = .error fault) :
    ∃ index, OverlongAt source index fault.digits := by
  rcases ofSource_cases source with ⟨hsource, -⟩ | ⟨index, line, other, hline, hfault, hsource⟩
  · simp [hsource] at h
  · rw [hsource] at h
    injection h with h
    subst h
    obtain ⟨name, initializer, hfield, hlong⟩ := ofLine_eq_error_iff.mp hfault
    exact ⟨index, line, name, initializer, hline, hfield, hlong⟩

theorem OverlongAt.limit_lt {index count : Nat} (h : OverlongAt source index count) :
    digitLimit < count := by
  obtain ⟨_, _, _, -, -, _, _, -, -, -, -, hlong⟩ := h
  exact hlong

/-! ### Line by line -/

theorem parse_trim (initializer : List Char) :
    Numeral.parse (trim initializer) = Numeral.parse initializer := by
  rw [Numeral.parse, Numeral.parse, Numeral.ofText?, Numeral.ofText?, trim_trim]

theorem ofLine_eq_some_iff {doc : Option String} {constant : Constant} :
    ofLine line doc = .ok (some constant) ↔ ∃ name initializer,
      leftmost? field? line = some (name, initializer) ∧
      Numeral.parse initializer = .ok (some constant.value) ∧
      constant.name = String.ofList name ∧ constant.doc = doc := by
  rw [ofLine]
  cases hfield : leftmost? field? line with
  | none => simp
  | some found =>
    obtain ⟨name, initializer⟩ := found
    simp only [Option.some.injEq, Prod.mk.injEq]
    cases hparse : Numeral.parse initializer with
    | error fault =>
      constructor
      · simp [Except.map]
      · rintro ⟨_, _, ⟨rfl, rfl⟩, hvalue, -⟩
        simp [hparse] at hvalue
    | ok value? =>
      simp only [Except.map, Except.ok.injEq, Option.map_eq_some_iff]
      constructor
      · rintro ⟨value, rfl, rfl⟩
        exact ⟨name, initializer, ⟨rfl, rfl⟩, hparse, rfl, rfl⟩
      · rintro ⟨_, _, ⟨rfl, rfl⟩, hvalue, hname, rfl⟩
        rw [hparse] at hvalue
        injection hvalue with hvalue
        exact ⟨constant.value, hvalue, by rw [← hname]⟩

/-- The line of an index has a static field, and the leftmost one declares the constant: its
initializer, which reaches to the first semicolon or to the end of the line, is a numeral but for
blanks around it. -/
structure FieldAt (source : String) (index : Nat) (constant : Constant) : Prop where
  field : ∃ line start name initializer, (lines source.toList)[index]? = some line ∧
    Fields (line.drop start) name initializer ∧
    (∀ earlier < start, ∀ name initializer, ¬Fields (line.drop earlier) name initializer) ∧
    constant.name = String.ofList name ∧
    Numeral.parse (trim initializer) = .ok (some constant.value)
  doc : constant.doc = (DocComment.find (lines source.toList) index).map String.ofList

theorem fieldAt_iff {index : Nat} {constant : Constant} : FieldAt source index constant ↔
    ∃ line, (lines source.toList)[index]? = some line ∧
      given (line, DocComment.attached (lines source.toList) index) = some constant := by
  simp only [given_eq_some_iff, ofLine_eq_some_iff, leftmost?_field?_eq_some_iff]
  constructor
  · rintro ⟨⟨line, start, name, initializer, hline, hfield, hfirst, hname, hvalue⟩, hdoc⟩
    exact ⟨line, hline, name, initializer, ⟨start, hfield, hfirst⟩,
      (parse_trim initializer).symm.trans hvalue, hname, hdoc⟩
  · rintro ⟨line, hline, name, initializer, ⟨start, hfield, hfirst⟩, hvalue, hname, hdoc⟩
    exact ⟨⟨line, start, name, initializer, hline, hfield, hfirst, hname,
      (parse_trim initializer).trans hvalue⟩, hdoc⟩

/-- The constants of a source are those of the leftmost fields of its lines, in the order of the
lines and at most one for each. No other list is given so: whatever reads the same source for
constants, content types or flags, reads the same names, values and comments. -/
theorem lists_field_constants {constants : List Constant} (h : ofSource source = .ok constants) :
    Lists (lines source.toList).length (FieldAt source) constants ∧
      ∀ others, Lists (lines source.toList).length (FieldAt source) others →
        others = constants := by
  have hlists : Lists (lines source.toList).length (FieldAt source) constants := by
    rw [(ofSource_eq_ok_iff_lines.mp h).1]
    exact (lists_attach given (lines source.toList)).congr fun _ _ => fieldAt_iff.symm
  refine ⟨hlists, fun others hothers => hlists.eq_of_unique ?_ hothers⟩
  intro index constant other hconstant hother
  obtain ⟨line, hline, hgiven⟩ := fieldAt_iff.mp hconstant
  obtain ⟨_, hline', hgiven'⟩ := fieldAt_iff.mp hother
  obtain rfl := Option.some_inj.mp (hline.symm.trans hline')
  exact Option.some_inj.mp (hgiven.symm.trans hgiven')

/-- Fields without an initializer, with a blank one and with a comment above. -/
theorem lists_field_constants_three :
    let source := "static A =; static B = 2\nstatic A = ; static B = 2\n/** c */\nstatic B = 0x10 ;"
    let constants : List Constant := [⟨"B", .int 2, none⟩, ⟨"B", .int 16, some "/** c */"⟩]
    ofSource source = .ok constants ∧
      Lists (lines source.toList).length (FieldAt source) constants := by
  intro source constants
  have hread : ofSource source = .ok constants := by decide +kernel
  exact ⟨hread, (lists_field_constants hread).1⟩

/-! ### A line of ones -/

theorem leftmost?_field? {cs : List Char} (h : ∀ c ∈ cs, c ≠ ';') :
    leftmost? field? ("static B =".toList ++ ' ' :: cs) = some (['B'], ' ' :: cs) := by
  have hall : ∀ c ∈ ' ' :: cs, (c != ';') = true := by
    intro c hc
    rcases List.mem_cons.mp hc with rfl | hc
    · decide
    · simpa using h c hc
  have hrun : run? (· != ';') (' ' :: cs) = some (' ' :: cs, []) := by
    rw [run?, List.takeWhile_eq_self_iff.mpr hall, List.dropWhile_eq_nil_iff.mpr hall]
  have hfield : field? ("static B =".toList ++ ' ' :: cs) = (run? (· != ';') (' ' :: cs)).bind
      fun found => some (['B'], found.1) := rfl
  have hfirst : leftmost? field? ("static B =".toList ++ ' ' :: cs) =
      (field? ("static B =".toList ++ ' ' :: cs)).or
        (leftmost? field? ("tatic B =".toList ++ ' ' :: cs)) := rfl
  rw [hfirst, hfield, hrun]
  rfl

theorem overlong_ones {cs : List Char} (hones : ∀ c ∈ cs, c = '1') (h : digitLimit < cs.length) :
    Numeral.Overlong (' ' :: cs) cs.length := by
  have hblank : ∀ cs : List Char, (∀ c ∈ cs, c = '1') → cs.dropWhile isBlank = cs := by
    intro cs hones
    cases cs with
    | nil => rfl
    | cons c cs =>
      rw [hones c List.mem_cons_self]
      rfl
  have hreverse : ∀ c ∈ cs.reverse, c = '1' := fun c hc => hones c (List.mem_reverse.mp hc)
  refine ⟨[], cs, ?_, by simp, fun c hc => ?_, rfl, h⟩
  · rw [trim, trimStart, List.dropWhile_cons_of_pos (by decide), hblank cs hones, trimEnd,
      hblank _ hreverse, List.reverse_reverse, List.nil_append]
  · rw [hones c hc]
    decide

/-- One static field with an initializer of ones is enough, if there are too many of them. -/
theorem ofSource_ones {cs : List Char} (hones : ∀ c ∈ cs, c = '1')
    (h : digitLimit < cs.length) :
    ofSource (String.ofList ("static B =".toList ++ ' ' :: cs)) = .error ⟨cs.length⟩ := by
  have hdoc : ofLine ("static B =".toList ++ ' ' :: cs) none = .error ⟨cs.length⟩ :=
    ofLine_eq_error_iff.mpr ⟨_, _, leftmost?_field? fun c hc => by rw [hones c hc]; decide,
      overlong_ones hones h⟩
  have hline : '\n' ∉ "static B =".toList ++ ' ' :: cs := by
    rw [List.mem_append, List.mem_cons, not_or, not_or]
    exact ⟨by decide, by decide, fun hmem => absurd (hones _ hmem) (by decide)⟩
  generalize "static B =".toList ++ ' ' :: cs = line at hline hdoc
  have hattach : DocComment.attach [line] = [(line, none)] := rfl
  rw [ofSource, String.toList_ofList, lines_of_not_mem hline, hattach, List.mapM_cons]
  simp only [hdoc, bind, Except.bind]

end SdkCatalog.Constant
