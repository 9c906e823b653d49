import SdkCatalog.Proofs.Text.Scan
import SdkCatalog.Proofs.Text.Trim
import SdkCatalog.Proofs.Text.Word
import SdkCatalog.Source.Line

/-! Static fields with an initializer: how a text that begins with one is put together, and that a
carriage return at the end of a line gives no other constant. -/

namespace SdkCatalog

open Text

theorem Numeral.parse_concat {cs : List Char} {c : Char} (hc : isBlank c = true) :
    parse (cs ++ [c]) = parse cs := by
  rw [parse, parse, ofText?, ofText?, trim_concat hc]

namespace Constant

variable {cs name initializer : List Char}

/-- A text begins with a static field of a name that is initialized by the text up to the first
semicolon. -/
def Fields (cs name initializer : List Char) : Prop :=
  ∃ gap gap' rest : List Char,
    cs = "static".toList ++ (gap ++ (name ++ (gap' ++ '=' :: (initializer ++ rest)))) ∧
    (gap ≠ [] ∧ Blank gap) ∧ name ≠ [] ∧ (∀ c ∈ name, isWordChar c = true) ∧ Blank gap' ∧
    initializer ≠ [] ∧ (∀ c ∈ initializer, (c != ';') = true) ∧ StopsAt (· != ';') rest

theorem field?_eq_some_iff : field? cs = some (name, initializer) ↔ Fields cs name initializer := by
  simp only [field?, Option.bind_eq_bind, Option.bind_eq_some_iff, Prod.exists,
    afterString?_eq_some_iff, afterBlanks?_eq_some_iff, run?_eq_some_iff,
    after?_trimStart_eq_some_iff (show isBlank '=' = false by decide)]
  constructor
  · rintro ⟨_, rfl, _, ⟨gap, hne, hgap, rfl, -⟩, _, _, ⟨hname, hword, rfl, -⟩, _,
      ⟨gap', hgap', rfl⟩, _, rest, ⟨hinitializer, hinside, rfl, hrest⟩, h⟩
    injection h with h
    injection h with hname' hinitializer'
    subst hname' hinitializer'
    exact ⟨gap, gap', rest, rfl, ⟨hne, hgap⟩, hname, hword, hgap', hinitializer, hinside, hrest⟩
  · rintro ⟨gap, gap', rest, rfl, ⟨hne, hgap⟩, hname, hword, hgap', hinitializer, hinside, hrest⟩
    exact ⟨_, rfl, _, ⟨gap, hne, hgap, rfl, stopsAt_of_word hname hword _⟩, _, _,
      ⟨hname, hword, rfl,
        hgap'.stopsAt (fun _ => isWordChar_of_isBlank) (stopsAt_cons (by decide) _)⟩, _,
      ⟨gap', hgap', rfl⟩, _, rest, ⟨hinitializer, hinside, rfl, hrest⟩, rfl⟩

theorem leftmost?_field?_eq_some_iff {line : List Char} :
    leftmost? field? line = some (name, initializer) ↔ ∃ start,
      Fields (line.drop start) name initializer ∧
      ∀ earlier < start, ∀ name initializer, ¬Fields (line.drop earlier) name initializer := by
  simp only [leftmost?_eq_some_iff, Option.eq_none_iff_forall_ne_some, Prod.forall, ne_eq,
    field?_eq_some_iff]

/-! ### A carriage return at the end -/

/-- With a return at the end a field keeps its initializer, or takes the return into it. -/
theorem Fields.concat_return (h : Fields cs name initializer) :
    ∃ later, Fields (cs ++ ['\r']) name later ∧
      (later = initializer ∨ later = initializer ++ ['\r']) := by
  obtain ⟨gap, gap', rest, rfl, hgap, hname, hword, hgap', hinitializer, hinside, hrest⟩ := h
  cases rest with
  | nil =>
    refine ⟨_, ⟨gap, gap', [], by simp only [List.append_assoc, List.cons_append, List.append_nil],
      hgap, hname, hword, hgap', by simp, fun c hc => ?_, hrest⟩, .inr rfl⟩
    rcases List.mem_append.mp hc with hc | hc
    · exact hinside c hc
    · rw [List.mem_singleton.mp hc]
      decide
  | cons c rest =>
    exact ⟨_, ⟨gap, gap', c :: rest ++ ['\r'], by simp only [List.append_assoc, List.cons_append],
      hgap, hname, hword, hgap', hinitializer, hinside, hrest⟩, .inl rfl⟩

theorem equals_not_mem {gap gap' : List Char} (hgap : Blank gap)
    (hword : ∀ c ∈ name, isWordChar c = true) (hgap' : Blank gap') :
    '=' ∉ "static".toList ++ (gap ++ (name ++ gap')) := by
  simp only [List.mem_append, not_or]
  exact ⟨by decide, fun hmem => absurd (hgap _ hmem) (by decide),
    fun hmem => absurd (hword _ hmem) (by decide), fun hmem => absurd (hgap' _ hmem) (by decide)⟩

/-- A text that has a field with a return at its end has one without it, unless the return is all
there is of the initializer. The text then ends in its only equals sign. -/
theorem Fields.of_concat_return (h : Fields (cs ++ ['\r']) name initializer) :
    (∃ shorter, Fields cs name shorter) ∨
      initializer = ['\r'] ∧ ∃ words, cs = words ++ ['='] ∧ '=' ∉ words := by
  obtain ⟨gap, gap', rest, hcs, hgap, hname, hword, hgap', hinitializer, hinside, hrest⟩ := h
  have hwords : ∀ tail, "static".toList ++ (gap ++ (name ++ (gap' ++ '=' :: tail))) =
      ("static".toList ++ (gap ++ (name ++ gap')) ++ ['=']) ++ tail :=
    fun tail => by simp only [List.append_assoc, List.cons_append, List.nil_append]
  rw [hwords] at hcs
  obtain ⟨between, hbetween, rfl⟩ := exists_of_concat_eq hcs fun hnil =>
    absurd (List.append_eq_nil_iff.mp hnil).1 hinitializer
  by_cases hnil : rest = []
  · rw [hnil, List.append_nil] at hbetween
    by_cases hempty : between = []
    · exact .inr ⟨by rw [hbetween, hempty, List.nil_append], _, by rw [hempty, List.append_nil],
        equals_not_mem hgap.2 hword hgap'⟩
    · refine .inl ⟨between, gap, gap', [], by rw [hwords, List.append_nil], hgap, hname, hword,
        hgap', hempty, fun c hc => ?_, hnil ▸ hrest⟩
      exact hinside c (by rw [hbetween]; exact List.mem_append_left _ hc)
  · obtain ⟨rest, rfl, rfl⟩ := exists_of_concat_eq hbetween.symm fun h => absurd h hnil
    exact .inl ⟨initializer, gap, gap', rest, (hwords _).symm, hgap, hname, hword, hgap',
      hinitializer, hinside, hrest.of_append⟩

/-- No field is initialized in a text that ends in its only equals sign. -/
theorem leftmost?_field?_of_ending {words : List Char} (h : '=' ∉ words) :
    leftmost? field? (words ++ ['=']) = none := by
  refine leftmost?_eq_none fun ending hending => ?_
  rw [Option.eq_none_iff_forall_not_mem]
  rintro ⟨name, initializer⟩ hfield
  obtain ⟨gap, gap', rest, rfl, -, -, -, -, hinitializer, -, -⟩ := field?_eq_some_iff.mp hfield
  obtain ⟨before, hbefore⟩ := hending
  have hsplit : (before ++ ("static".toList ++ (gap ++ (name ++ gap')))) ++
      '=' :: (initializer ++ rest) = words ++ ['='] := by
    rw [← hbefore]
    simp only [List.append_assoc]
  have hnone : words.count '=' = 0 := List.count_eq_zero.mpr h
  obtain ⟨between, -, hlast⟩ := exists_append_of_count_le hsplit (hnone ▸ Nat.zero_le _)
  have hlength := congrArg List.length hlast
  simp only [List.length_append, List.length_cons, List.length_nil] at hlength
  exact hinitializer (List.eq_nil_of_length_eq_zero (by omega))

/-- With a return at the end of a line the first field stays, at most with the return in its
initializer, or else there is none without the return. -/
theorem leftmost?_field?_return (line : List Char) :
    (∃ name initializer later, leftmost? field? line = some (name, initializer) ∧
      leftmost? field? (line ++ ['\r']) = some (name, later) ∧
      (later = initializer ∨ later = initializer ++ ['\r'])) ∨
    leftmost? field? line = none ∧ (leftmost? field? (line ++ ['\r']) = none ∨
      ∃ name, leftmost? field? (line ++ ['\r']) = some (name, ['\r'])) := by
  induction line with
  | nil => exact .inr ⟨rfl, .inl rfl⟩
  | cons c line ih =>
    rw [List.cons_append, leftmost?, leftmost?]
    cases hfield : field? (c :: line) with
    | some found =>
      obtain ⟨name, initializer⟩ := found
      obtain ⟨later, hfields, hsame⟩ := (field?_eq_some_iff.mp hfield).concat_return
      have hlater := field?_eq_some_iff.mpr hfields
      rw [List.cons_append] at hlater
      exact .inl ⟨name, initializer, later, rfl, by rw [hlater, Option.some_or], hsame⟩
    | none =>
      cases hlater : field? (c :: (line ++ ['\r'])) with
      | none => simpa only [Option.none_or] using ih
      | some found =>
        obtain ⟨name, later⟩ := found
        have hfields : Fields (c :: line ++ ['\r']) name later := field?_eq_some_iff.mp hlater
        rcases hfields.of_concat_return with
          ⟨shorter, hshorter⟩ | ⟨rfl, words, hwords, hnone⟩
        · simp [field?_eq_some_iff.mpr hshorter] at hfield
        · have hline := leftmost?_field?_of_ending hnone
          rw [← hwords, leftmost?, hfield] at hline
          exact .inr ⟨hline, .inr ⟨name, rfl⟩⟩

/-- A return at the end of a line gives no other constant. -/
theorem ofLine_return (line : List Char) (doc : Option String) :
    ofLine (line ++ ['\r']) doc = ofLine line doc := by
  have hblank : isBlank '\r' = true := by decide
  rw [ofLine, ofLine]
  rcases leftmost?_field?_return line with
    ⟨name, initializer, later, hline, hlater, rfl | rfl⟩ | ⟨hline, hlater | ⟨name, hlater⟩⟩
  · rw [hline, hlater]
  · rw [hline, hlater]
    simp only [Numeral.parse_concat hblank]
  · rw [hline, hlater]
  · rw [hline, hlater]
    rfl

end Constant

end SdkCatalog
