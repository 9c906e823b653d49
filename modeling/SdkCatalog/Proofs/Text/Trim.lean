import SdkCatalog.Proofs.Text.Word

/-! Trimming: what is cut off a text is blank, blanks put around a text are cut off again, a trimmed
text has nothing to cut, and text put before or after another cuts no more of it. -/

namespace SdkCatalog.Text

variable {cs gap : List Char} {c : Char}

theorem trimEnd_concat (hc : isBlank c = true) : trimEnd (cs ++ [c]) = trimEnd cs := by
  rw [trimEnd, trimEnd, List.reverse_concat, List.dropWhile_cons_of_pos hc]

theorem trim_concat (hc : isBlank c = true) : trim (cs ++ [c]) = trim cs := by
  rw [trim, trim, trimStart, trimStart, List.dropWhile_append]
  split
  · next hnil =>
    rw [List.isEmpty_iff] at hnil
    rw [hnil, List.dropWhile_cons_of_pos hc, List.dropWhile_nil]
  · exact trimEnd_concat hc

theorem trim_append_blank (hgap : Blank gap) (cs : List Char) : trim (cs ++ gap) = trim cs := by
  induction gap using List.reverseRecOn with
  | nil => rw [List.append_nil]
  | append_singleton gap c ih =>
    rw [← List.append_assoc, trim_concat (hgap c (by simp)),
      ih fun d hd => hgap d (List.mem_append_left _ hd)]

theorem trim_blank_append (hgap : Blank gap) (cs : List Char) : trim (gap ++ cs) = trim cs := by
  rw [trim, trim, trimStart, trimStart, List.dropWhile_append_of_pos hgap]

theorem exists_trimEnd (cs : List Char) : ∃ gap, Blank gap ∧ cs = trimEnd cs ++ gap := by
  refine ⟨(cs.reverse.takeWhile isBlank).reverse, ?_, ?_⟩
  · intro c hc
    exact mem_takeWhile c (List.mem_reverse.mp hc)
  · rw [trimEnd, ← List.reverse_append, List.takeWhile_append_dropWhile, List.reverse_reverse]

theorem exists_trim (cs : List Char) :
    ∃ gap gap', Blank gap ∧ Blank gap' ∧ cs = gap ++ (trim cs ++ gap') := by
  obtain ⟨gap', hgap', hend⟩ := exists_trimEnd (trimStart cs)
  refine ⟨cs.takeWhile isBlank, gap', mem_takeWhile, hgap', ?_⟩
  rw [trim, ← hend, takeWhile_append_trimStart]

theorem trim_trim (cs : List Char) : trim (trim cs) = trim cs := by
  obtain ⟨gap, gap', hgap, hgap', hcs⟩ := exists_trim cs
  conv_rhs => rw [hcs, trim_blank_append hgap, trim_append_blank hgap']

theorem trim_eq_self (h : ∀ c ∈ cs, isBlank c = false) : trim cs = cs := by
  have hdrop : ∀ ds : List Char, (∀ c ∈ ds, isBlank c = false) → ds.dropWhile isBlank = ds := by
    intro ds hds
    cases ds with
    | nil => rfl
    | cons d ds => exact List.dropWhile_cons_of_neg (by simp [hds d List.mem_cons_self])
  rw [trim, trimStart, hdrop cs h, trimEnd,
    hdrop cs.reverse fun c hc => h c (List.mem_reverse.mp hc), List.reverse_reverse]

theorem trimStart_append (cs rest : List Char) : trimStart (cs ++ rest) =
    if trimStart cs = [] then trimStart rest else trimStart cs ++ rest := by
  unfold trimStart
  rw [List.dropWhile_append]
  simp only [List.isEmpty_iff]

theorem trimEnd_append (cs rest : List Char) : trimEnd (cs ++ rest) =
    if trimEnd rest = [] then trimEnd cs else cs ++ trimEnd rest := by
  unfold trimEnd
  rw [List.reverse_append, List.dropWhile_append]
  simp only [List.isEmpty_iff, List.reverse_eq_nil_iff]
  split
  · rfl
  · rw [List.reverse_append, List.reverse_reverse]

theorem isPrefix_trimEnd (cs : List Char) : trimEnd cs <+: cs := by
  obtain ⟨gap, -, hcs⟩ := exists_trimEnd cs
  exact ⟨gap, hcs.symm⟩

/-- More text after a text leaves its beginning as it was, but for blanks. -/
theorem trim_prefix_trim_append (cs rest : List Char) : trim cs <+: trim (cs ++ rest) := by
  unfold trim
  rw [trimStart_append]
  split
  · next hnil =>
    rw [hnil]
    exact List.nil_prefix
  · rw [trimEnd_append]
    split
    · exact List.prefix_refl _
    · exact (isPrefix_trimEnd _).trans (List.prefix_append _ _)

/-- More text before a text leaves its end as it was, but for blanks. -/
theorem trim_suffix_trim_append (before cs : List Char) : trim cs <:+ trim (before ++ cs) := by
  unfold trim
  rw [trimStart_append]
  split
  · exact List.suffix_refl _
  · by_cases hnil : trimEnd (trimStart cs) = []
    · rw [hnil]
      exact List.nil_suffix
    · conv_rhs => rw [← takeWhile_append_trimStart cs, ← List.append_assoc, trimEnd_append,
        if_neg hnil]
      exact List.suffix_append _ _

end SdkCatalog.Text
