import SdkCatalog.Proofs.Text.Trim
import SdkCatalog.Source.Line

/-! Comments attached to lines. What is found above a line is the block from the nearest line that
begins with an opening marker, provided that the line directly above ends in a closing one. Where a
documentation comment ends there, the block is that comment; where none does, the block runs on
from an earlier one, over the end of it. -/

namespace SdkCatalog.DocComment

open Text

variable {lines upward found block comment above below : List (List Char)} {line text : List Char}
  {index : Int}

/-- A line begins with the marker that opens a documentation comment, but for blanks. -/
def Opens (line : List Char) : Prop := "/**".toList <+: trim line

/-- A line ends with the marker that closes a comment, but for blanks. -/
def Closes (line : List Char) : Prop := "*/".toList <:+ trim line

theorem opens_iff : opens line = true ↔ Opens line := List.isPrefixOf_iff_prefix

theorem closes_iff : closes line = true ↔ Closes line := List.isSuffixOf_iff_suffix

instance : DecidablePred Opens := fun _ => decidable_of_iff _ opens_iff

instance : DecidablePred Closes := fun _ => decidable_of_iff _ closes_iff

/-- A block of lines opens a documentation comment with its first line and with no other, and
closes one with its last. -/
structure IsBlock (block : List (List Char)) : Prop where
  opens : ∃ line, block.head? = some line ∧ Opens line
  nearest : ∀ line ∈ block.tail, ¬Opens line
  closes : ∃ line, block.getLast? = some line ∧ Closes line

/-- The lines directly above an index are those of a block. -/
def StandsAbove (lines : List (List Char)) (index : Int) (block : List (List Char)) : Prop :=
  ∃ above below, lines = above ++ (block ++ below) ∧ index = above.length + block.length

/-! ### Upwards from a line -/

theorem upToOpening?_eq_some_iff : upToOpening? upward = some found ↔
    ∃ later line above, upward = later ++ line :: above ∧ found = later ++ [line] ∧
      Opens line ∧ ∀ other ∈ later, ¬Opens other := by
  induction upward generalizing found with
  | nil => simp [upToOpening?]
  | cons first rest ih =>
    by_cases hfirst : Opens first
    · rw [upToOpening?, if_pos (opens_iff.mpr hfirst)]
      constructor
      · intro h
        injection h with h
        exact ⟨[], first, rest, rfl, h.symm, hfirst, by simp⟩
      · rintro ⟨_ | ⟨next, later⟩, line, above, hupward, rfl, -, hlater⟩
        · injection hupward with hline
          rw [hline]
          rfl
        · injection hupward with hnext
          exact absurd (hnext ▸ hfirst) (hlater next List.mem_cons_self)
    · rw [upToOpening?, if_neg (mt opens_iff.mp hfirst), Option.map_eq_some_iff]
      constructor
      · rintro ⟨found, hfound, rfl⟩
        obtain ⟨later, line, above, rfl, rfl, hline, hlater⟩ := ih.mp hfound
        exact ⟨first :: later, line, above, rfl, rfl, hline,
          List.forall_mem_cons.mpr ⟨hfirst, hlater⟩⟩
      · rintro ⟨_ | ⟨next, later⟩, line, above, hupward, rfl, hline, hlater⟩
        · injection hupward with hfirst'
          exact absurd (hfirst' ▸ hline) hfirst
        · injection hupward with hnext hrest
          subst hnext
          exact ⟨later ++ [line], ih.mpr ⟨later, line, above, hrest, rfl, hline,
            fun other hother => hlater other (List.mem_cons_of_mem _ hother)⟩, rfl⟩

/-- The last line of a block comes first upwards from it. -/
theorem head?_reverse_append (hne : block ≠ []) (rest : List (List Char)) :
    (block.reverse ++ rest).head? = block.getLast? := by
  rw [List.head?_append_of_ne_nil _ (by simpa using hne), List.head?_reverse]

theorem IsBlock.ne_nil (h : IsBlock block) : block ≠ [] := by
  rintro rfl
  obtain ⟨line, hline, -⟩ := h.opens
  simp at hline

theorem above?_eq_some_iff : above? upward = some text ↔
    ∃ block rest, upward = block.reverse ++ rest ∧ IsBlock block ∧
      text = trim (joinLines block) := by
  constructor
  · intro h
    cases upward with
    | nil => simp [above?] at h
    | cons last above =>
      rw [above?] at h
      split at h
      · next hlast =>
        obtain ⟨found, hfound, rfl⟩ := Option.map_eq_some_iff.mp h
        obtain ⟨later, line, rest, hupward, rfl, hline, hlater⟩ :=
          upToOpening?_eq_some_iff.mp hfound
        have hsplit : last :: above = (line :: later.reverse).reverse ++ rest := by simp [hupward]
        refine ⟨line :: later.reverse, rest, hsplit, ⟨⟨line, rfl, hline⟩, by simpa using hlater,
          last, ?_, closes_iff.mp hlast⟩, by simp⟩
        rw [← head?_reverse_append (List.cons_ne_nil _ _) rest, ← hsplit]
        rfl
      · simp at h
  · rintro ⟨block, rest, rfl, hblock, rfl⟩
    have hhead := head?_reverse_append hblock.ne_nil rest
    obtain ⟨⟨line, hline, hopens⟩, hnearest, last, hlast, hcloses⟩ := hblock
    obtain ⟨later, rfl⟩ := List.head?_eq_some_iff.mp hline
    have hfound : upToOpening? ((line :: later).reverse ++ rest) =
        some (line :: later).reverse :=
      upToOpening?_eq_some_iff.mpr ⟨later.reverse, line, rest, by simp, by simp, hopens,
        by simpa using hnearest⟩
    obtain ⟨above, habove⟩ := List.head?_eq_some_iff.mp (hhead.trans hlast)
    rw [habove] at hfound ⊢
    rw [above?, if_pos (closes_iff.mpr hcloses), hfound, Option.map_some, List.reverse_reverse]

/-! ### Above an index -/

/-- A comment is found above an index exactly if a block of lines stands there, and it is the text
of this block. -/
theorem find_eq_some_iff : find lines index = some text ↔
    ∃ block, StandsAbove lines index block ∧ IsBlock block ∧ text = trim (joinLines block) := by
  unfold find
  constructor
  · intro h
    split at h
    · next hinside =>
      obtain ⟨block, rest, hupward, hblock, rfl⟩ := above?_eq_some_iff.mp h
      have htake : lines.take index.toNat = rest.reverse ++ block := by
        simpa using congrArg List.reverse hupward
      refine ⟨block, ⟨rest.reverse, lines.drop index.toNat, ?_, ?_⟩, hblock, rfl⟩
      · rw [← List.append_assoc, ← htake, List.take_append_drop]
      · have hlength := congrArg List.length htake
        rw [List.length_take, List.length_append] at hlength
        omega
    · simp at h
  · rintro ⟨block, ⟨above, below, rfl, rfl⟩, hblock, rfl⟩
    have hpos := List.length_pos_iff.mpr hblock.ne_nil
    rw [if_pos (by simp only [List.length_append]; omega), above?_eq_some_iff]
    refine ⟨block, above.reverse, ?_, hblock, rfl⟩
    rw [show ((above.length : Int) + block.length).toNat = (above ++ block).length by simp; omega,
      ← List.append_assoc, List.take_left, List.reverse_append]

theorem isSome_upToOpening?_iff : (upToOpening? upward).isSome ↔ ∃ line ∈ upward, Opens line := by
  induction upward with
  | nil => simp [upToOpening?]
  | cons first rest ih =>
    rw [upToOpening?]
    split
    · next hfirst => simp [opens_iff.mp hfirst]
    · next hfirst =>
      rw [opens_iff] at hfirst
      simp [hfirst, ih]

theorem exists_mem_take_iff {p : List Char → Prop} {count : Nat} :
    (∃ line ∈ lines.take count, p line) ↔
      ∃ place < count, ∃ line, lines[place]? = some line ∧ p line := by
  simp only [List.mem_iff_getElem?, List.getElem?_take]
  constructor
  · rintro ⟨line, ⟨place, hline⟩, hp⟩
    split at hline
    · next hlt => exact ⟨place, hlt, line, hline, hp⟩
    · simp at hline
  · rintro ⟨place, hlt, line, hline, hp⟩
    exact ⟨line, ⟨place, by rw [if_pos hlt, hline]⟩, hp⟩

/-- A comment is found exactly if the line directly above the index closes one and some line above
the index opens a documentation comment. -/
theorem isSome_find_iff : (find lines index).isSome ↔
    (1 ≤ index ∧ index ≤ lines.length) ∧
    (∃ line, lines[index.toNat - 1]? = some line ∧ Closes line) ∧
    ∃ place < index.toNat, ∃ line, lines[place]? = some line ∧ Opens line := by
  unfold find
  split
  · next hinside =>
    obtain ⟨count, hcount⟩ : ∃ n, index.toNat = n + 1 := ⟨index.toNat - 1, by omega⟩
    have hlt : count < lines.length := by omega
    rw [and_iff_right hinside, ← exists_mem_take_iff, hcount, Nat.add_sub_cancel,
      List.getElem?_eq_getElem hlt, List.take_succ_eq_append_getElem hlt, List.reverse_concat,
      above?]
    simp only [Option.some.injEq, exists_eq_left']
    split
    · next hcloses =>
      rw [closes_iff] at hcloses
      rw [Option.isSome_map, isSome_upToOpening?_iff, and_iff_right hcloses]
      simp only [List.mem_cons, List.mem_reverse, List.mem_append, List.not_mem_nil, or_false]
      simp only [or_comm]
    · next hcloses =>
      rw [closes_iff] at hcloses
      simp [hcloses]
  · next hinside => simp [hinside]

/-- A block that stands above an index begins at the last line above the index that opens a
documentation comment. -/
theorem isGreatest_of_isBlock (hblock : IsBlock block) :
    IsGreatest {place | place < (above ++ block).length ∧
      ∃ line, (above ++ (block ++ below))[place]? = some line ∧ Opens line} above.length := by
  have hpos := List.length_pos_iff.mpr hblock.ne_nil
  obtain ⟨⟨line, hline, hopens⟩, hnearest, -⟩ := hblock
  obtain ⟨later, rfl⟩ := List.head?_eq_some_iff.mp hline
  constructor
  · refine ⟨by simp, line, ?_, hopens⟩
    simp
  · rintro place ⟨hlt, other, hother, hopens'⟩
    by_contra hbeyond
    obtain ⟨n, rfl⟩ : ∃ n, place = above.length + (n + 1) := ⟨place - above.length - 1, by omega⟩
    rw [List.getElem?_append_right (by omega), Nat.add_sub_cancel_left, List.cons_append,
      List.getElem?_cons_succ, List.getElem?_append_left (by simp at hlt; omega)] at hother
    exact hnearest other (List.mem_of_getElem? hother) hopens'

theorem exists_joinLines_cons (line : List Char) (later : List (List Char)) :
    ∃ rest, joinLines (line :: later) = line ++ rest := by
  cases later with
  | nil => exact ⟨[], by simp [joinLines]⟩
  | cons next later => exact ⟨['\n'] ++ joinLines (next :: later), by simp [joinLines]⟩

theorem exists_joinLines_concat (earlier : List (List Char)) (line : List Char) :
    ∃ before, joinLines (earlier ++ [line]) = before ++ line := by
  induction earlier with
  | nil => exact ⟨[], by simp [joinLines]⟩
  | cons first earlier ih =>
    obtain ⟨before, hbefore⟩ := ih
    refine ⟨first ++ ['\n'] ++ before, ?_⟩
    rw [joinLines, List.cons_append, List.intercalate_cons_of_ne_nil (by simp), ← joinLines,
      hbefore, List.append_assoc _ before]

/-- No blanks are cut off inside the markers of a block. -/
theorem IsBlock.markers (h : IsBlock block) :
    "/**".toList <+: trim (joinLines block) ∧ "*/".toList <:+ trim (joinLines block) := by
  obtain ⟨⟨line, hline, hopens⟩, -, last, hlast, hcloses⟩ := h
  constructor
  · obtain ⟨later, rfl⟩ := List.head?_eq_some_iff.mp hline
    obtain ⟨rest, hrest⟩ := exists_joinLines_cons line later
    exact hrest ▸ hopens.trans (trim_prefix_trim_append line rest)
  · obtain ⟨earlier, rfl⟩ := List.getLast?_eq_some_iff.mp hlast
    obtain ⟨before, hbefore⟩ := exists_joinLines_concat earlier last
    exact hbefore ▸ hcloses.trans (trim_suffix_trim_append before last)

/-- A comment is found above an index exactly if the line directly above closes one and some line
above opens a documentation comment. It is then the text of the lines from the last of these on,
markers and all, and depends on no other line. -/
theorem find_nearest_opening (lines : List (List Char)) (index : Int) :
    ((find lines index).isSome ↔
      (1 ≤ index ∧ index ≤ lines.length) ∧
      (∃ line, lines[index.toNat - 1]? = some line ∧ Closes line) ∧
      ∃ place < index.toNat, ∃ line, lines[place]? = some line ∧ Opens line) ∧
    ∀ text, find lines index = some text → ∃ first,
      IsGreatest {place | place < index.toNat ∧
        ∃ line, lines[place]? = some line ∧ Opens line} first ∧
      let block := (lines.take index.toNat).drop first
      text = trim (joinLines block) ∧ "/**".toList <+: text ∧ "*/".toList <:+ text ∧
      ∀ above below,
        find (above ++ (block ++ below)) (above.length + block.length) = some text := by
  refine ⟨isSome_find_iff, fun text h => ?_⟩
  obtain ⟨block, ⟨above, below, rfl, rfl⟩, hblock, rfl⟩ := find_eq_some_iff.mp h
  have hindex : ((above.length : Int) + block.length).toNat = (above ++ block).length := by
    simp
    omega
  have hspan : ((above ++ (block ++ below)).take (above ++ block).length).drop above.length =
      block := by
    rw [← List.append_assoc, List.take_left, List.drop_left]
  refine ⟨above.length, hindex ▸ isGreatest_of_isBlock hblock, ?_⟩
  rw [hindex, hspan]
  exact ⟨rfl, hblock.markers.1, hblock.markers.2,
    fun above below => find_eq_some_iff.mpr ⟨block, ⟨above, below, rfl, rfl⟩, hblock, rfl⟩⟩

/-- A comment of one line is found, and code between a comment and the index hides it. -/
example : find ["/**/".toList, [], "f() \x7b".toList] 1 = some "/**/".toList ∧
    find ["/**/".toList, [], "f() \x7b".toList] 2 = none := by decide

/-! ### One comment or more -/

/-- A block of lines is one documentation comment: its first line opens it, its last closes it, and
no line before the last has the marker that closes a comment. -/
structure IsComment (block : List (List Char)) : Prop where
  opens : ∃ line, block.head? = some line ∧ Opens line
  unended : ∀ line ∈ block.dropLast, ¬"*/".toList <:+: line
  closes : ∃ line, block.getLast? = some line ∧ Closes line

theorem StandsAbove.suffix_take (h : StandsAbove lines index block) :
    block <:+ lines.take index.toNat := by
  obtain ⟨above, below, rfl, rfl⟩ := h
  rw [show ((above.length : Int) + block.length).toNat = (above ++ block).length by simp; omega,
    ← List.append_assoc, List.take_left]
  exact List.suffix_append _ _

/-- The block above an index is a comment if any comment stands above the index: it begins no
higher, since the comment's first line opens one. -/
theorem IsComment.of_standsAbove (hcomment : IsComment comment)
    (habove : StandsAbove lines index comment) (hblock : IsBlock block)
    (hblockAbove : StandsAbove lines index block) : IsComment block := by
  refine ⟨hblock.opens, ?_, hblock.closes⟩
  rcases List.suffix_or_suffix_of_suffix hblockAbove.suffix_take habove.suffix_take with
    ⟨before, rfl⟩ | ⟨before, rfl⟩
  · intro line hline
    refine hcomment.unended line ?_
    rw [List.dropLast_append_of_ne_nil hblock.ne_nil]
    exact List.mem_append_right _ hline
  · cases before with
    | nil => exact hcomment.unended
    | cons first before =>
      obtain ⟨line, hline, hopens⟩ := hcomment.opens
      have hmem : line ∈ before ++ comment :=
        List.mem_append_right _ (List.mem_of_head? hline)
      exact absurd hopens (hblock.nearest line hmem)

theorem isSome_find_of_comment (hcomment : IsComment comment)
    (habove : StandsAbove lines index comment) : (find lines index).isSome := by
  rw [isSome_find_iff]
  obtain ⟨above, below, rfl, rfl⟩ := habove
  obtain ⟨⟨line, hline, hopens⟩, -, last, hlast, hcloses⟩ := hcomment
  obtain ⟨later, rfl⟩ := List.head?_eq_some_iff.mp hline
  have hindex : ((above.length : Int) + (line :: later).length).toNat =
      above.length + later.length + 1 := by
    simp
    omega
  refine ⟨by simp; omega, ⟨last, ?_, hcloses⟩, above.length, by omega, line, by simp, hopens⟩
  rw [hindex, Nat.add_sub_cancel, List.getElem?_append_right (by omega), Nat.add_sub_cancel_left,
    List.getElem?_append_left (by simp), ← hlast, List.getLast?_eq_getElem?]
  rfl

/-- What is found above an index is one comment wherever a documentation comment ends on the line
directly above, and then a comment is found. Where none ends there, what is found runs on over the
end of an earlier comment, and takes in whatever stands below it. -/
theorem find_one_comment_or_more (lines : List (List Char)) (index : Int) :
    ((∃ comment, StandsAbove lines index comment ∧ IsComment comment) →
      (find lines index).isSome) ∧
    ∀ text, find lines index = some text ↔
      ∃ block, StandsAbove lines index block ∧ IsBlock block ∧ text = trim (joinLines block) ∧
        (IsComment block ∨ (∃ line ∈ block.dropLast, "*/".toList <:+: line) ∧
          ∀ comment, StandsAbove lines index comment → ¬IsComment comment) := by
  refine ⟨fun ⟨comment, habove, hcomment⟩ => isSome_find_of_comment hcomment habove,
    fun text => ?_⟩
  rw [find_eq_some_iff]
  constructor
  · rintro ⟨block, habove, hblock, htext⟩
    refine ⟨block, habove, hblock, htext, ?_⟩
    by_cases hone : IsComment block
    · exact .inl hone
    · refine .inr ⟨?_, fun comment hcomment h => hone (h.of_standsAbove hcomment hblock habove)⟩
      by_contra hnone
      exact hone ⟨hblock.opens, fun line hline hend => hnone ⟨line, hline, hend⟩, hblock.closes⟩
  · rintro ⟨block, habove, hblock, htext, -⟩
    exact ⟨block, habove, hblock, htext⟩

/-- Above a plain comment stands code, and above that a documentation comment. All three are found
above the line after them. -/
theorem find_runs_on_over_code :
    let block := ["/** a */".toList, "x = 1;".toList, "/* b */".toList]
    let lines := block ++ ["f() \x7b".toList]
    find lines 3 = some "/** a */\nx = 1;\n/* b */".toList ∧
      StandsAbove lines 3 block ∧ IsBlock block ∧
      "/** a */".toList ∈ block.dropLast ∧ "*/".toList <:+: "/** a */".toList := by
  intro block lines
  have hfind : find lines 3 = some "/** a */\nx = 1;\n/* b */".toList := by decide
  have hblock : IsBlock block :=
    ⟨⟨"/** a */".toList, rfl, by decide⟩, by decide, "/* b */".toList, rfl, by decide⟩
  exact ⟨hfind, ⟨[], ["f() \x7b".toList], rfl, rfl⟩, hblock, by decide,
    ⟨"/** a ".toList, [], rfl⟩⟩

end SdkCatalog.DocComment
