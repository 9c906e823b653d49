import SdkCatalog.Proofs.Source.Listing
import SdkCatalog.Proofs.Text.Scan
import SdkCatalog.Proofs.Text.Word
import SdkCatalog.Source.Line

/-! Methods declared on one line: which lines declare a method, and which declaration of a name
counts. A source gives one interface for each name that a line declares, told by the first such
line. -/

namespace SdkCatalog

namespace Interface

open Text

/-- A line declares a method: a name, its parameters between round brackets and an opening brace,
with blanks between them at will. -/
def Declares (line name params : List Char) : Prop :=
  ∃ indent gap gap' rest,
    line = indent ++ (name ++ (gap ++ '(' :: (params ++ ')' :: (gap' ++ '\x7b' :: rest)))) ∧
    (∀ c ∈ indent, isBlank c = true) ∧ (∀ c ∈ gap, isBlank c = true) ∧
    (∀ c ∈ gap', isBlank c = true) ∧ ')' ∉ params ∧ (∀ c ∈ name, isIdentifierChar c = true) ∧
    ∃ c, name.head? = some c ∧ isIdentifierStart c = true

theorem declares_of_signature? {line name params : List Char}
    (h : signature? line = some (name, params)) : Declares line name params := by
  simp only [signature?, Option.bind_eq_bind, Option.bind_eq_some_iff] at h
  obtain ⟨⟨word, afterWord⟩, hword, afterOpen, hopen, afterClose, hclose, rest, hbrace, h⟩ := h
  injection h with h
  injection h with hname hparams
  subst hname hparams
  obtain ⟨⟨hchars, hstart⟩, hline, -⟩ := identifier?_eq_some_iff.mp hword
  rw [after?_eq_some_iff] at hopen hclose hbrace
  refine ⟨line.takeWhile isBlank, afterWord.takeWhile isBlank, afterClose.takeWhile isBlank, rest,
    ?_, mem_takeWhile, mem_takeWhile, mem_takeWhile, ?_, hchars, hstart⟩
  · have hafterClose : afterClose.takeWhile isBlank ++ '\x7b' :: rest = afterClose := by
      rw [← List.singleton_append, ← hbrace, takeWhile_append_trimStart]
    have hafterOpen : afterOpen.takeWhile (· != ')') ++ ')' :: afterClose = afterOpen := by
      rw [← List.singleton_append, ← hclose, List.takeWhile_append_dropWhile]
    have hafterWord : afterWord.takeWhile isBlank ++ '(' :: afterOpen = afterWord := by
      rw [← List.singleton_append, ← hopen, takeWhile_append_trimStart]
    rw [hafterClose, hafterOpen, hafterWord, ← hline, takeWhile_append_trimStart]
  · intro hmem
    simpa using mem_takeWhile _ hmem

/-- The matcher finds the name and the parameters that a line declares. -/
theorem signature?_eq_some_iff {line name params : List Char} :
    signature? line = some (name, params) ↔ Declares line name params := by
  refine ⟨declares_of_signature?, ?_⟩
  rintro ⟨indent, gap, gap', rest, rfl, hindent, hgap, hgap', hparams, hname, c, hc, hstart⟩
  obtain ⟨more, rfl⟩ := List.head?_eq_some_iff.mp hc
  have hafterName : ∀ cs d, (gap ++ '(' :: cs).head? = some d → isIdentifierChar d = false := by
    intro cs d hd
    cases gap with
    | nil =>
      injection hd with hd
      exact hd ▸ rfl
    | cons first gap =>
      injection hd with hd
      exact isIdentifierChar_of_isBlank (hd ▸ hgap first List.mem_cons_self)
  have hname' : ∀ d ∈ more, isIdentifierChar d = true :=
    fun d hd => hname d (List.mem_cons_of_mem _ hd)
  have hparams' : ∀ d ∈ params, (d != ')') = true := by
    intro d hd
    simp only [bne_iff_ne]
    rintro rfl
    exact hparams hd
  simp only [signature?, trimStart, List.cons_append]
  rw [dropWhile_run hindent
      (by simpa using isBlank_of_isIdentifierChar (hname c List.mem_cons_self)), identifier?,
    if_pos hstart, takeWhile_run hname' (hafterName _), dropWhile_run hname' (hafterName _)]
  simp only [Option.bind_eq_bind, Option.bind_some]
  rw [dropWhile_run hgap (by simp; decide)]
  simp only [after?, if_pos, Option.bind_some]
  rw [dropWhile_run hparams' (by simp), takeWhile_run hparams' (by simp)]
  simp only [after?, if_pos, Option.bind_some]
  rw [dropWhile_run hgap' (by simp; decide)]
  rfl

theorem Declares.unique {line name params name' params' : List Char}
    (h : Declares line name params) (h' : Declares line name' params') :
    name = name' ∧ params = params' := by
  have hsignature := signature?_eq_some_iff.mpr h
  rw [signature?_eq_some_iff.mpr h'] at hsignature
  injection hsignature with hsignature
  injection hsignature with hname hparams
  exact ⟨hname.symm, hparams.symm⟩

/-- A return at the end of a line is part of no declaration. -/
theorem declares_return_iff {line name params : List Char} :
    Declares (line ++ ['\r']) name params ↔ Declares line name params := by
  constructor
  · rintro ⟨indent, gap, gap', rest, hline, h⟩
    have hwords : ∀ tail, indent ++ (name ++ (gap ++ '(' :: (params ++ ')' :: (gap' ++ '\x7b' ::
        tail)))) = (indent ++ (name ++ (gap ++ '(' :: (params ++ ')' :: gap'))) ++ ['\x7b']) ++
          tail := fun tail => by simp
    rw [hwords] at hline
    obtain ⟨between, rfl, rfl⟩ := exists_of_concat_eq hline fun _ hlast => by
      rw [List.getLast?_concat] at hlast
      simp at hlast
    exact ⟨indent, gap, gap', between, (hwords between).symm, h⟩
  · rintro ⟨indent, gap, gap', rest, rfl, h⟩
    exact ⟨indent, gap, gap', rest ++ ['\r'], by simp, h⟩

theorem ofLine?_return (line : List Char) (doc : Option String) :
    ofLine? (line ++ ['\r']) doc = ofLine? line doc := by
  have hsignature : signature? (line ++ ['\r']) = signature? line := Option.ext fun ⟨_, _⟩ =>
    signature?_eq_some_iff.trans (declares_return_iff.trans signature?_eq_some_iff.symm)
  rw [ofLine?, ofLine?, hsignature]

/-! ### The first declaration of a name -/

theorem dedupe_concat (interfaces : List Interface) (next : Interface) :
    dedupe (interfaces ++ [next]) =
      if (dedupe interfaces).any (·.name = next.name) then dedupe interfaces
      else dedupe interfaces ++ [next] := by
  rw [dedupe, List.foldl_append]
  rfl

theorem any_dedupe (interfaces : List Interface) (name : String) :
    (dedupe interfaces).any (·.name = name) = interfaces.any (·.name = name) := by
  induction interfaces using List.reverseRecOn with
  | nil => rfl
  | append_singleton interfaces next ih =>
    rw [dedupe_concat, List.any_append, ← ih]
    split
    · next hkept =>
      by_cases hname : next.name = name
      · rw [hname] at hkept
        rw [hkept, Bool.true_or]
      · simp [hname]
    · rw [List.any_append]

/-- More declarations leave those that count as they were. -/
theorem dedupe_append (interfaces more : List Interface) :
    dedupe interfaces <+: dedupe (interfaces ++ more) := by
  induction more using List.reverseRecOn with
  | nil => rw [List.append_nil]
  | append_singleton more next ih =>
    rw [← List.append_assoc, dedupe_concat]
    split
    · exact ih
    · exact ih.trans (List.prefix_append _ _)

theorem nodup_names_dedupe (interfaces : List Interface) :
    ((dedupe interfaces).map (·.name)).Nodup := by
  induction interfaces using List.reverseRecOn with
  | nil => exact List.nodup_nil
  | append_singleton interfaces next ih =>
    rw [dedupe_concat]
    split
    · exact ih
    · next hnew =>
      rw [List.any_eq_true, not_exists] at hnew
      rw [List.map_append, List.nodup_append]
      refine ⟨ih, List.nodup_singleton _, ?_⟩
      rintro name hname _ hnext rfl
      obtain ⟨kept, hkept, rfl⟩ := List.mem_map.mp hname
      exact hnew kept ⟨hkept, by simpa using hnext⟩

theorem dedupe_of_nodup {interfaces : List Interface} (h : (interfaces.map (·.name)).Nodup) :
    dedupe interfaces = interfaces := by
  induction interfaces using List.reverseRecOn with
  | nil => rfl
  | append_singleton interfaces next ih =>
    rw [List.map_append, List.nodup_append] at h
    obtain ⟨hbefore, -, hapart⟩ := h
    rw [dedupe_concat, ih hbefore, if_neg]
    simp only [List.any_eq_true, decide_eq_true_eq, not_exists, not_and]
    intro kept hkept
    exact hapart _ (List.mem_map_of_mem hkept) _ (by simp)

/-- Of interfaces that items give one by one, those are kept that no earlier item gives under the
same name. -/
theorem lists_dedupe {β : Type} (give : β → Option Interface) (sources : List β) (count : Nat) :
    Lists count
      (fun index entry => sources[index]?.bind give = some entry ∧
        ∀ earlier < index, ∀ other, sources[earlier]?.bind give = some other →
          other.name ≠ entry.name)
      (dedupe ((sources.take count).filterMap give)) := by
  induction count with
  | zero => exact .zero _
  | succ count ih =>
    rw [filterMap_take_add_one]
    cases hgive : sources[count]?.bind give with
    | none =>
      rw [Option.toList_none, List.append_nil]
      exact ih.of_none fun entry hentry => by simp [hgive] at hentry
    | some entry =>
      rw [Option.toList_some, dedupe_concat, any_dedupe]
      split
      · next hany =>
        refine ih.of_none ?_
        rintro other ⟨hother, hfirst⟩
        obtain ⟨kept, hkept, hname⟩ := List.any_eq_true.mp hany
        obtain ⟨earlier, hearlier, hgiven⟩ := mem_take_filterMap.mp hkept
        obtain rfl := rightUnique_bind give sources hgive hother
        exact hfirst earlier hearlier kept hgiven (by simpa using hname)
      · next hany =>
        refine ih.concat ⟨hgive, fun earlier hearlier other hother hname => hany ?_⟩
        exact List.any_eq_true.mpr
          ⟨other, mem_take_filterMap.mpr ⟨earlier, hearlier, hother⟩, by simpa using hname⟩

/-! ### The lines that declare first -/

theorem ofLine?_eq_some_iff {line : List Char} {doc : Option String} {entry : Interface} :
    ofLine? line doc = some entry ↔ entry.name ≠ "constructor" ∧ ∃ params,
      Declares line entry.name.toList params ∧ entry.params = splitParams params ∧
      entry.doc = doc := by
  have hreserved : ∀ name : String, name.toList = reservedName ↔ name = "constructor" :=
    fun name => String.toList_inj
  simp only [ofLine?, Option.bind_eq_bind, Option.bind_eq_some_iff, Prod.exists,
    signature?_eq_some_iff]
  constructor
  · rintro ⟨name, params, hdeclares, h⟩
    split at h
    · simp at h
    · next hname =>
      injection h with h
      subst h
      refine ⟨fun heq => hname ?_, params, by rwa [String.toList_ofList], rfl, rfl⟩
      rw [← (hreserved _).mpr heq, String.toList_ofList]
  · rintro ⟨hname, params, hdeclares, hparams, rfl⟩
    refine ⟨_, params, hdeclares, ?_⟩
    rw [if_neg ((hreserved _).not.mpr hname), String.ofList_toList, ← hparams]

theorem pieces_ne_nil (separator : Char) (cs : List Char) : pieces separator cs ≠ [] := by
  cases cs with
  | nil => exact List.cons_ne_nil _ _
  | cons c cs =>
    rw [pieces]
    split
    · exact List.cons_ne_nil _ _
    · split <;> exact List.cons_ne_nil _ _

theorem pieces_eq_splitOn (separator : Char) (cs : List Char) :
    pieces separator cs = cs.splitOn separator := by
  induction cs with
  | nil => rfl
  | cons c cs ih =>
    rw [pieces, List.splitOn, List.splitOnP_cons_eq_if_modifyHead, ← List.splitOn, ← ih]
    by_cases hc : c = separator
    · rw [if_pos hc, if_pos (beq_iff_eq.mpr hc)]
    · rw [if_neg hc, if_neg (by simpa using hc)]
      obtain ⟨piece, rest, hpieces⟩ := List.exists_cons_of_ne_nil (pieces_ne_nil separator cs)
      rw [hpieces]
      rfl

theorem splitParams_eq (params : List Char) : splitParams params =
    (((params.splitOn ',').map trim).filter (· ≠ [])).map String.ofList := by
  rw [splitParams, pieces_eq_splitOn]
  congr 1
  refine List.filter_congr fun piece _ => ?_
  cases piece <;> rfl

/-- The line of an index declares the entry's method, and no line before it declares a method of
that name. The parameters stand between commas, without the blanks around them and without blank
ones. -/
structure FirstAt (source : String) (index : Nat) (entry : Interface) : Prop where
  name_ne : entry.name ≠ "constructor"
  declared : ∃ line params, (lines source.toList)[index]? = some line ∧
    Declares line entry.name.toList params ∧
    entry.params = (((params.splitOn ',').map trim).filter (· ≠ [])).map String.ofList
  doc : entry.doc = (DocComment.find (lines source.toList) index).map String.ofList
  first : ∀ earlier < index, ∀ line, (lines source.toList)[earlier]? = some line →
    ∀ params, ¬Declares line entry.name.toList params

theorem firstAt_iff {source : String} {index : Nat} {entry : Interface} :
    let give := fun item : List Char × Option String => ofLine? item.1 item.2
    let attached := DocComment.attach (lines source.toList)
    (attached[index]?.bind give = some entry ∧ ∀ earlier < index, ∀ other,
      attached[earlier]?.bind give = some other → other.name ≠ entry.name) ↔
        FirstAt source index entry := by
  intro give attached
  have hgive : ∀ index entry, attached[index]?.bind give = some entry ↔
      ∃ line, (lines source.toList)[index]? = some line ∧ entry.name ≠ "constructor" ∧
        ∃ params, Declares line entry.name.toList params ∧ entry.params = splitParams params ∧
          entry.doc = DocComment.attached (lines source.toList) index := by
    intro index entry
    rw [DocComment.getElem?_attach, Option.bind_map, Option.bind_eq_some_iff]
    exact exists_congr fun line => and_congr_right fun _ => ofLine?_eq_some_iff
  simp only [hgive]
  constructor
  · rintro ⟨⟨line, hline, hname, params, hdeclares, hparams, hdoc⟩, hfirst⟩
    refine ⟨hname, ⟨line, params, hline, hdeclares, hparams.trans (splitParams_eq params)⟩, hdoc,
      fun earlier hearlier other hother params hdeclared => ?_⟩
    exact hfirst earlier hearlier ⟨entry.name, splitParams params, _⟩
      ⟨other, hother, hname, params, hdeclared, rfl, rfl⟩ rfl
  · rintro ⟨hname, ⟨line, params, hline, hdeclares, hparams⟩, hdoc, hfirst⟩
    refine ⟨⟨line, hline, hname, params, hdeclares, hparams.trans (splitParams_eq params).symm,
      hdoc⟩, ?_⟩
    rintro earlier hearlier other ⟨line, hline, -, params, hdeclared, -, -⟩ hsame
    exact hfirst earlier hearlier line hline params (hsame ▸ hdeclared)

theorem lists_ofSource (source : String) :
    Lists (lines source.toList).length (FirstAt source) (ofSource source) := by
  have hlists := lists_dedupe (fun item : List Char × Option String => ofLine? item.1 item.2)
    (DocComment.attach (lines source.toList)) (lines source.toList).length
  rw [← DocComment.length_attach, List.take_length, DocComment.length_attach] at hlists
  exact hlists.congr fun index entry => firstAt_iff

theorem mem_ofSource_iff {source : String} {entry : Interface} :
    entry ∈ ofSource source ↔ ∃ index, FirstAt source index entry := by
  have hunique : Relator.RightUnique (FirstAt source) := fun index entry other hentry hother =>
    rightUnique_bind _ _ (firstAt_iff.mpr hentry).1 (firstAt_iff.mpr hother).1
  rw [(lists_ofSource source).mem_iff hunique]
  constructor
  · rintro ⟨index, -, hfirst⟩
    exact ⟨index, hfirst⟩
  · rintro ⟨index, hfirst⟩
    obtain ⟨line, params, hline, -⟩ := hfirst.declared
    exact ⟨index, (List.getElem?_eq_some_iff.mp hline).1, hfirst⟩

/-- A name that no line declares, or that is reserved, is no interface's. -/
theorem find?_ofSource_none {source name : String}
    (h : name = "constructor" ∨
      ∀ line ∈ lines source.toList, ∀ params, ¬Declares line name.toList params) :
    (ofSource source).find? (·.name = name) = none := by
  rw [List.find?_eq_none]
  intro entry hentry hname
  obtain ⟨index, hfirst⟩ := mem_ofSource_iff.mp hentry
  obtain ⟨line, params, hline, hdeclares, -⟩ := hfirst.declared
  rw [decide_eq_true_eq] at hname
  rw [← hname] at h
  rcases h with h | h
  · exact hfirst.name_ne h
  · exact h line (List.mem_of_getElem? hline) params hdeclares

/-- The first line that declares a name gives its interface, with the comment attached to that
line. -/
theorem find?_ofSource_some {source name : String} {index : Nat} {line params : List Char}
    (hname : name ≠ "constructor") (hline : (lines source.toList)[index]? = some line)
    (hdeclares : Declares line name.toList params)
    (hfirst : ∀ earlier < index, ∀ other, (lines source.toList)[earlier]? = some other →
      ∀ params, ¬Declares other name.toList params) :
    (ofSource source).find? (·.name = name) =
      some ⟨name, splitParams params, DocComment.attached (lines source.toList) index⟩ := by
  have hmem : ⟨name, splitParams params, DocComment.attached (lines source.toList) index⟩ ∈
      ofSource source := mem_ofSource_iff.mpr
    ⟨index, hname, ⟨line, params, hline, hdeclares, splitParams_eq params⟩, rfl, hfirst⟩
  cases hfind : (ofSource source).find? (·.name = name) with
  | none => simpa using List.find?_eq_none.mp hfind _ hmem
  | some other =>
    have hother : other.name = name := by simpa using List.find?_some hfind
    exact congrArg some (List.inj_on_of_nodup_map (nodup_names_dedupe _)
      (List.mem_of_find?_eq_some hfind) hmem hother)

theorem exists_name_iff {source name : String} :
    (∃ entry ∈ ofSource source, entry.name = name) ↔
      name ≠ "constructor" ∧ ∃ line ∈ lines source.toList, ∃ params,
        Declares line name.toList params := by
  constructor
  · rintro ⟨entry, hentry, rfl⟩
    obtain ⟨index, hfirst⟩ := mem_ofSource_iff.mp hentry
    obtain ⟨line, params, hline, hdeclares, -⟩ := hfirst.declared
    exact ⟨hfirst.name_ne, line, List.mem_of_getElem? hline, params, hdeclares⟩
  · rintro ⟨hname, line, hline, params, hdeclares⟩
    classical
    obtain ⟨index, hindex⟩ := List.mem_iff_getElem?.mp hline
    have hexists : ∃ index line params, (lines source.toList)[index]? = some line ∧
        Declares line name.toList params := ⟨index, line, params, hindex, hdeclares⟩
    obtain ⟨first, params, hfirst, hdeclares⟩ := Nat.find_spec hexists
    have hfound := find?_ofSource_some hname hfirst hdeclares fun earlier hearlier other hother
      params hdeclared => Nat.find_min hexists hearlier ⟨other, params, hother, hdeclared⟩
    exact ⟨_, List.mem_of_find?_eq_some hfound, rfl⟩

/-- A source gives one interface for each name, other than `constructor`, that a line declares: that
of the first such line, with its parameters and the comment attached to it, in the order of these
lines. A line declares at most one name with one parameter text. The names are distinct, and so
nothing is left to be dropped from the list. -/
theorem lists_first_declarations (source : String) :
    Lists (lines source.toList).length (FirstAt source) (ofSource source) ∧
    (∀ name, (∃ entry ∈ ofSource source, entry.name = name) ↔
      name ≠ "constructor" ∧ ∃ line ∈ lines source.toList, ∃ params,
        Declares line name.toList params) ∧
    (∀ line name params name' params', Declares line name params →
      Declares line name' params' → name = name' ∧ params = params') ∧
    ((ofSource source).map (·.name)).Nodup ∧ dedupe (ofSource source) = ofSource source :=
  ⟨lists_ofSource source, fun _ => exists_name_iff, fun _ _ _ _ _ h h' => h.unique h',
    nodup_names_dedupe _, dedupe_of_nodup (nodup_names_dedupe _)⟩

/-- A reserved name, a blank parameter, and a second declaration of a name. -/
example : ofSource "constructor() \x7b\nf(a, ,b) \x7b\n/** c */\n g ( )\x7b // \x7d\nf() \x7b" =
    [⟨"f", ["a", "b"], none⟩, ⟨"g", [], some "/** c */"⟩] := by decide +kernel

end Interface

end SdkCatalog
