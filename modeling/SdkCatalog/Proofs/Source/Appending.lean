import SdkCatalog.Proofs.Source.ClassDeclaration
import SdkCatalog.Proofs.Source.Constant
import SdkCatalog.Proofs.Source.Event
import SdkCatalog.Proofs.Source.Field
import SdkCatalog.Proofs.Source.Interface
import SdkCatalog.Proofs.Source.Registration

/-! Sources that grow. Text appended on new lines never disturbs what a source gave: the same
entries come first, in the same order and with the same comments. -/

namespace SdkCatalog

open Text

variable {α β ε : Type}

/-! ### Lines -/

/-- The comment of a line depends on the lines above it only. -/
theorem DocComment.attached_append {lines : List (List Char)} {index : Nat}
    (h : index ≤ lines.length) (more : List (List Char)) :
    attached (lines ++ more) index = attached lines index := by
  have hlonger : index ≤ (lines ++ more).length := by
    rw [List.length_append]
    omega
  simp only [attached, find, Int.toNat_natCast, List.take_append_of_le_length h, Int.ofNat_le, h,
    hlonger]

theorem DocComment.attach_append (lines more : List (List Char)) :
    attach (lines ++ more) = attach lines ++ (more.zipIdx lines.length).map fun item =>
      (item.1, attached (lines ++ more) item.2) := by
  rw [attach, List.zipIdx_append, List.map_append, attach]
  simp only [Nat.zero_add]
  congr 1
  refine List.map_congr_left ?_
  rintro ⟨line, index⟩ hmem
  have hlt := List.snd_lt_of_mem_zipIdx hmem
  exact congrArg (line, ·) (attached_append (Nat.le_of_lt (by simpa using hlt)) more)

/-- The lines of a source with their comments stay when text is appended, but for a return that the
last of them ended in. -/
theorem exists_attach_append (cs : List Char) : ∃ attached last doc ending,
    (ending = [] ∨ ending = ['\r']) ∧
    DocComment.attach (lines cs) = attached ++ [(last ++ ending, doc)] ∧
    ∀ more, ∃ later, DocComment.attach (lines (cs ++ '\n' :: more)) =
      attached ++ (last, doc) :: later := by
  obtain ⟨above, last, ending, hending, hlines, happend⟩ := exists_lines_append cs
  refine ⟨DocComment.attach above, last, DocComment.attached above above.length, ending, hending,
    ?_, fun more => ?_⟩
  · rw [hlines, DocComment.attach_append, List.zipIdx_singleton, List.map_singleton,
      DocComment.attached_append (Nat.le_refl _)]
  · rw [happend, DocComment.attach_append, List.zipIdx_cons, List.map_cons,
      DocComment.attached_append (Nat.le_refl _)]
    exact ⟨_, rfl⟩

/-- What lines give one by one stays first when text is appended, if a return at the end of a line
gives nothing else. -/
theorem filterMap_attach_append {give : List Char × Option String → Option α}
    (h : ∀ line doc, give (line ++ ['\r'], doc) = give (line, doc)) (cs more : List Char) :
    (DocComment.attach (lines cs)).filterMap give <+:
      (DocComment.attach (lines (cs ++ '\n' :: more))).filterMap give := by
  obtain ⟨attached, last, doc, ending, hending, hlines, happend⟩ := exists_attach_append cs
  obtain ⟨later, hlater⟩ := happend more
  have hlast : give (last ++ ending, doc) = give (last, doc) := by
    rcases hending with rfl | rfl
    · rw [List.append_nil]
    · exact h last doc
  have hsplit : (last, doc) :: later = [(last, doc)] ++ later := rfl
  rw [hlines, hlater, hsplit, List.filterMap_append, List.filterMap_append, List.filterMap_append,
    ← List.append_assoc]
  simp only [List.filterMap_cons, List.filterMap_nil, hlast]
  exact List.prefix_append _ _

theorem toList_append_lines (source more : String) :
    (source ++ "\n" ++ more).toList = source.toList ++ '\n' :: more.toList := by
  simp

theorem Interface.ofSource_append (source more : String) :
    ofSource source <+: ofSource (source ++ "\n" ++ more) := by
  have hlines : declarations source.toList <+:
      declarations (source.toList ++ '\n' :: more.toList) :=
    filterMap_attach_append ofLine?_return _ _
  obtain ⟨later, hlater⟩ := hlines
  rw [ofSource, ofSource, toList_append_lines, ← hlater]
  exact dedupe_append _ _

theorem ClassDeclaration.ofSource_append (file source more : String) :
    ofSource file source <+: ofSource file (source ++ "\n" ++ more) := by
  have hreturn : ∀ line doc, ofLine? file (line ++ ['\r']) doc = ofLine? file line doc := by
    intro line doc
    rw [ofLine?, ofLine?, names?_return]
  rw [ofSource, ofSource, toList_append_lines]
  exact filterMap_attach_append hreturn _ _

/-- A source has constants if a longer one has, since every line of it can then be read. -/
theorem Constant.ofSource_append {source more : String} {constants : List Constant}
    (h : ofSource (source ++ "\n" ++ more) = .ok constants) :
    ∃ first, ofSource source = .ok first ∧ first <+: constants := by
  obtain ⟨rfl, hread⟩ := ofSource_eq_ok_iff_lines.mp h
  have hreturn : ∀ line doc, given (line ++ ['\r'], doc) = given (line, doc) := by
    intro line doc
    rw [given, given, ofLine_return]
  refine ⟨declared source, ofSource_eq_ok_iff_lines.mpr ⟨rfl, fun line hline fault => ?_⟩, ?_⟩
  · obtain ⟨attached, last, doc, ending, hending, hlines, happend⟩ :=
      exists_attach_append source.toList
    obtain ⟨later, hlater⟩ := happend more.toList
    rw [toList_append_lines, hlater] at hread
    rw [hlines] at hline
    rcases List.mem_append.mp hline with hline | hline
    · exact hread line (List.mem_append_left _ hline) fault
    · rw [List.mem_singleton.mp hline]
      have hlast := hread (last, doc) (by simp) fault
      rcases hending with rfl | rfl
      · simpa using hlast
      · simpa [ofLine_return] using hlast
  · rw [declared, declared, toList_append_lines]
    exact filterMap_attach_append hreturn _ _

/-! ### All sources -/

/-- The entries of a source of every kind are the first ones of another source, in the same order
and with the same comments. A registration that the source leaves open ends with the text of the
other one: for its end to be told, the namespace has no comma. -/
structure EntriesFirst (source longer : String) : Prop where
  interfaces : Interface.ofSource source <+: Interface.ofSource longer
  events : Event.ofSource source <+: Event.ofSource longer
  constants : ∀ constants, Constant.ofSource longer = .ok constants →
    ∃ first, Constant.ofSource source = .ok first ∧ first <+: constants
  classes : ∀ file,
    ClassDeclaration.ofSource file source <+: ClassDeclaration.ofSource file longer
  registrations : ∀ typeNamespace : String, ',' ∉ typeNamespace.toList →
    Registration.ofSource typeNamespace source <+: Registration.ofSource typeNamespace longer

/-- What is appended to a source on new lines leaves every entry of the source as it was, with its
comment and in its place: entries of the longer source come after. -/
theorem entries_append (source more : String) : EntriesFirst source (source ++ "\n" ++ more) where
  interfaces := Interface.ofSource_append source more
  events := Event.ofSource_append source more
  constants _ := Constant.ofSource_append
  classes file := ClassDeclaration.ofSource_append file source more
  registrations typeNamespace hcomma := by
    rw [String.append_assoc]
    exact Registration.ofSource_append hcomma source _

/-- A return that ends the source and a registration that the source leaves open do no harm. -/
theorem entries_append_single :
    Constant.ofSource ("static A = 1;\x7bname:'a',flag:F\r" ++ "\n" ++ "static B = 2;,type:") =
        .ok [⟨"A", .int 1, none⟩, ⟨"B", .int 2, none⟩] ∧
      (∃ first, Constant.ofSource "static A = 1;\x7bname:'a',flag:F\r" = .ok first ∧
        first <+: [⟨"A", .int 1, none⟩, ⟨"B", .int 2, none⟩]) ∧
      ',' ∉ "MessageContentType".toList ∧
      Registration.ofSource "MessageContentType" "static A = 1;\x7bname:'a',flag:F\r" <+:
        Registration.ofSource "MessageContentType"
          ("static A = 1;\x7bname:'a',flag:F\r" ++ "\n" ++ "static B = 2;,type:") := by
  have hread : Constant.ofSource
      ("static A = 1;\x7bname:'a',flag:F\r" ++ "\n" ++ "static B = 2;,type:") =
        .ok [⟨"A", .int 1, none⟩, ⟨"B", .int 2, none⟩] := by decide +kernel
  have hcomma : ',' ∉ "MessageContentType".toList := by decide
  have hfirst := entries_append "static A = 1;\x7bname:'a',flag:F\r" "static B = 2;,type:"
  exact ⟨hread, hfirst.constants _ hread, hcomma, hfirst.registrations _ hcomma⟩

end SdkCatalog
