import Mathlib.Logic.ExistsUnique
import SdkCatalog.Proofs.Text.Lines

/-! Splitting a text into lines, and joining lines. Every text is put together in exactly one way
from lines and the line breaks between them, if a return directly before a line feed counts as part
of the break. The lines of a text are those: nothing is lost when it is split, and lines that are
joined come out again. -/

namespace SdkCatalog

/-- A line break can end a line. A lone return never does, and a line that ends in a return is not
ended by a line feed alone, because the return would be part of the break. -/
def LineBreak.Ends : LineBreak → List Char → Prop
  | .feed, line => line.getLast? ≠ some '\r'
  | .returnFeed, _ => True
  | .loneReturn, _ => False

namespace Text

/-- A text consists of lines without line feeds and of the line breaks between them, each put back
after the line that it ends. -/
inductive Interleaves : List (List Char) → List LineBreak → List Char → Prop
  | last (line : List Char) : '\n' ∉ line → Interleaves [line] [] line
  | cons (line : List Char) (sort : LineBreak) {parts : List (List Char)}
      {breaks : List LineBreak} {cs : List Char} : '\n' ∉ line → sort.Ends line →
    Interleaves parts breaks cs →
    Interleaves (line :: parts) (sort :: breaks) (line ++ sort.chars ++ cs)

variable {parts : List (List Char)} {breaks : List LineBreak} {sort : LineBreak}
  {line cs : List Char} {c : Char}

/-! ### The lines of a text that is put together -/

/-- What stands before the first line break of a text is put in front of its first line. -/
theorem lines_append_of_not_mem {first more : List Char} {others : List (List Char)}
    (hline : '\n' ∉ line) (hreturn : more.head? = some '\n' → line.getLast? ≠ some '\r')
    (hmore : lines more = first :: others) : lines (line ++ more) = (line ++ first) :: others := by
  induction line with
  | nil => exact hmore
  | cons c line ih =>
    obtain ⟨hc, hrest⟩ := not_or.mp (mt List.mem_cons.mpr hline)
    have hhead : c = '\r' → (line ++ more).head? ≠ some '\n' := by
      rintro rfl hfeed
      cases line with
      | nil => exact hreturn hfeed rfl
      | cons d line =>
        injection hfeed with hfeed
        exact hrest (hfeed ▸ List.mem_cons_self)
    have hlast : more.head? = some '\n' → line.getLast? ≠ some '\r' := by
      intro hfeed hlast
      exact hreturn hfeed (by rw [List.getLast?_cons, hlast]; rfl)
    rw [List.cons_append, lines_cons (Ne.symm hc) hhead, ih hrest hlast]
    rfl

theorem lines_append_break (hline : '\n' ∉ line) (hends : sort.Ends line) (cs : List Char) :
    lines (line ++ sort.chars ++ cs) = line :: lines cs := by
  have hcut : lines (sort.chars ++ cs) = [] :: lines cs := by
    cases sort with
    | feed | returnFeed => rfl
    | loneReturn => exact hends.elim
  have hreturn : (sort.chars ++ cs).head? = some '\n' → line.getLast? ≠ some '\r' := by
    cases sort with
    | feed => exact fun _ => hends
    | returnFeed => exact fun h => absurd h (by simp [LineBreak.chars])
    | loneReturn => exact hends.elim
  rw [List.append_assoc, lines_append_of_not_mem hline hreturn hcut, List.append_nil]

theorem Interleaves.lines_eq (h : Interleaves parts breaks cs) : lines cs = parts := by
  induction h with
  | last line hline => exact lines_of_not_mem hline
  | cons line sort hline hends _ ih => rw [lines_append_break hline hends, ih]

/-! ### Putting a text together -/

/-- A character that is not part of a line break goes to the first line. -/
theorem Interleaves.prepend (h : Interleaves parts breaks cs) (hfeed : c ≠ '\n')
    (hreturn : c = '\r' → cs.head? ≠ some '\n') :
    Interleaves (prependToFirst c parts) breaks (c :: cs) := by
  have hnot : ∀ {line : List Char}, '\n' ∉ line → '\n' ∉ c :: line := fun hline hmem =>
    (List.mem_cons.mp hmem).elim (fun heq => hfeed heq.symm) hline
  cases h with
  | last line hline => exact .last _ (hnot hline)
  | cons line sort hline hends hrest =>
    have hends' : sort.Ends (c :: line) := by
      cases sort with
      | feed =>
        intro hlast
        cases line with
        | nil =>
          injection hlast with hc
          exact hreturn hc rfl
        | cons d line => exact hends hlast
      | returnFeed => exact trivial
      | loneReturn => exact hends.elim
    exact .cons _ sort (hnot hline) hends' hrest

theorem exists_interleaves (cs : List Char) : ∃ breaks, Interleaves (lines cs) breaks cs := by
  fun_induction lines cs with
  | case1 => exact ⟨[], .last [] List.not_mem_nil⟩
  | case2 rest ih =>
    obtain ⟨breaks, h⟩ := ih
    exact ⟨.returnFeed :: breaks, .cons [] .returnFeed List.not_mem_nil trivial h⟩
  | case3 rest ih =>
    obtain ⟨breaks, h⟩ := ih
    exact ⟨.feed :: breaks, .cons [] .feed List.not_mem_nil (by simp [LineBreak.Ends]) h⟩
  | case4 c rest hlong hfeed ih =>
    obtain ⟨breaks, h⟩ := ih
    refine ⟨breaks, h.prepend hfeed fun hc hhead => ?_⟩
    obtain ⟨tail, htail⟩ := List.head?_eq_some_iff.mp hhead
    exact hlong tail hc htail

/-- The lines of a text are what it is put together from. -/
theorem lines_eq_iff : lines cs = parts ↔ ∃ breaks, Interleaves parts breaks cs := by
  constructor
  · rintro rfl
    exact exists_interleaves cs
  · rintro ⟨breaks, h⟩
    exact h.lines_eq

/-! ### What is put together -/

theorem Interleaves.feedless (h : Interleaves parts breaks cs) : ∀ line ∈ parts, '\n' ∉ line := by
  induction h with
  | last line hline => exact List.forall_mem_singleton.mpr hline
  | cons line sort hline _ _ ih => exact List.forall_mem_cons.mpr ⟨hline, ih⟩

/-- There is a line more than there are line feeds. -/
theorem Interleaves.length_parts (h : Interleaves parts breaks cs) :
    parts.length = cs.count '\n' + 1 := by
  induction h with
  | last line hline => rw [List.count_eq_zero.mpr hline]; rfl
  | cons line sort hline hends _ ih =>
    have hsort : sort.chars.count '\n' = 1 := by
      cases sort with
      | feed | returnFeed => rfl
      | loneReturn => exact hends.elim
    rw [List.length_cons, ih, List.count_append, List.count_append, hsort,
      List.count_eq_zero.mpr hline]
    omega

theorem Interleaves.length_breaks (h : Interleaves parts breaks cs) :
    parts.length = breaks.length + 1 := by
  induction h with
  | last => rfl
  | cons _ _ _ _ _ ih => rw [List.length_cons, List.length_cons, ih]

/-- The line breaks are told by the text and its lines. -/
theorem Interleaves.breaks_eq {others : List LineBreak} (h : Interleaves parts breaks cs)
    (hother : Interleaves parts others cs) : others = breaks := by
  induction h generalizing others with
  | last line hline => exact List.length_eq_zero_iff.mp (Nat.succ.inj hother.length_breaks).symm
  | @cons line sort parts breaks cs hline hends hrest ih =>
    generalize htext : line ++ sort.chars ++ cs = text at hother
    cases hother with
    | last => cases hrest
    | @cons _ other _ breaks' cs' _ hends' hrest' =>
      rw [List.append_assoc, List.append_assoc, List.append_cancel_left_eq] at htext
      have hsame : other = sort ∧ cs' = cs := by
        cases sort <;> cases other <;> simp_all [LineBreak.chars, LineBreak.Ends]
      obtain ⟨rfl, rfl⟩ := hsame
      rw [ih hrest']

/-- Lines that are joined with one line break are put together with it between neighbours, as long
as it can end each line but the last. -/
theorem interleaves_intercalate (hparts : parts ≠ []) (hfeed : ∀ line ∈ parts, '\n' ∉ line)
    (hends : ∀ line ∈ parts.dropLast, sort.Ends line) :
    Interleaves parts (List.replicate (parts.length - 1) sort) (sort.chars.intercalate parts) := by
  induction parts with
  | nil => exact absurd rfl hparts
  | cons line parts ih =>
    obtain ⟨hline, hrest⟩ := List.forall_mem_cons.mp hfeed
    cases parts with
    | nil => rw [List.intercalate_singleton]; exact .last _ hline
    | cons next parts =>
      rw [List.dropLast_cons_of_ne_nil (List.cons_ne_nil _ _)] at hends
      obtain ⟨hfirst, hothers⟩ := List.forall_mem_cons.mp hends
      rw [List.intercalate_cons_cons]
      exact .cons _ sort hline hfirst (ih (List.cons_ne_nil _ _) hrest hothers)

/-! ### Strings -/

theorem toList_splitLines (source : String) :
    (splitLines source).map String.toList = lines source.toList := by
  rw [splitLines, List.map_map]
  exact List.map_id'' (fun _ => String.toList_ofList) _

/-- Strings without line feeds that are joined with a line break come out of the split again. -/
theorem splitLines_intercalate (sort : LineBreak) {parts : List String} {separator : String}
    (hseparator : separator.toList = sort.chars) (hparts : parts ≠ [])
    (hfeed : ∀ part ∈ parts, '\n' ∉ part.toList)
    (hends : ∀ part ∈ parts.dropLast, sort.Ends part.toList) :
    splitLines (separator.intercalate parts) = parts := by
  have hlines : lines (separator.intercalate parts).toList = parts.map String.toList := by
    rw [String.toList_intercalate, hseparator]
    refine lines_eq_iff.mpr ⟨_, interleaves_intercalate (by simpa using hparts) ?_ ?_⟩
    · exact List.forall_mem_map.mpr hfeed
    · rw [← List.map_dropLast]
      exact List.forall_mem_map.mpr hends
  rw [splitLines, hlines, List.map_map]
  exact List.map_id'' (fun _ => String.ofList_toList) _

/-- Splitting loses nothing: a string is its lines, one more than it has line feeds, with line
breaks between them that can be told from it, each a line feed with or without a return. And it
undoes joining, with returns and line feeds always, and with line feeds where no return would become
part of a break. -/
theorem splitLines_restores (source : String) :
    splitLines source ≠ [] ∧ (∀ line ∈ splitLines source, '\n' ∉ line.toList) ∧
    (splitLines source).length = source.toList.count '\n' + 1 ∧
    (∃! breaks, Interleaves ((splitLines source).map String.toList) breaks source.toList) ∧
    ∀ parts : List String, parts ≠ [] → (∀ part ∈ parts, '\n' ∉ part.toList) →
      splitLines ("\r\n".intercalate parts) = parts ∧
      ((∀ part ∈ parts.dropLast, part.toList.getLast? ≠ some '\r') →
        splitLines ("\n".intercalate parts) = parts) := by
  obtain ⟨breaks, h⟩ := lines_eq_iff.mp (toList_splitLines source).symm
  have hlength : (splitLines source).length = source.toList.count '\n' + 1 := by
    rw [← h.length_parts, List.length_map]
  refine ⟨?_, fun line hline => h.feedless _ (List.mem_map_of_mem hline), hlength,
    ⟨breaks, h, fun _ => h.breaks_eq⟩, ?_⟩
  · rw [← List.length_pos_iff, hlength]
    omega
  · intro parts hparts hfeed
    constructor
    · exact splitLines_intercalate .returnFeed rfl hparts hfeed fun _ _ => trivial
    · exact splitLines_intercalate .feed rfl hparts hfeed

/-- Of two returns before a line feed one belongs to the line, and a return at the end of a text
belongs to its last line. -/
theorem splitLines_restores_returns :
    let parts := ["a\r", "", "b\r"]
    let others := ["a", "", "b\r"]
    (∀ part ∈ parts, '\n' ∉ part.toList) ∧ splitLines "a\r\r\n\r\nb\r" = parts ∧
    (∀ part ∈ others, '\n' ∉ part.toList) ∧
    (∀ part ∈ others.dropLast, part.toList.getLast? ≠ some '\r') ∧
    splitLines "a\n\nb\r" = others := by
  intro parts others
  have hparts : ∀ part ∈ parts, '\n' ∉ part.toList := by decide
  have hothers : ∀ part ∈ others, '\n' ∉ part.toList := by decide
  have hends : ∀ part ∈ others.dropLast, part.toList.getLast? ≠ some '\r' := by decide
  obtain ⟨-, -, -, -, hjoins⟩ := splitLines_restores ""
  exact ⟨hparts, (hjoins parts (by decide) hparts).1, hothers, hends,
    (hjoins others (by decide) hothers).2 hends⟩

end Text

end SdkCatalog
