import SdkCatalog.Catalog.Generation
import SdkCatalog.Proofs.Agreement
import SdkCatalog.Proofs.Files.Relisted
import SdkCatalog.Proofs.Source.Declaration

/-! The classes of a directory. Its files are visited in the order of their names, in whatever order
the directory lists them; the last declaration of a class counts, and its name keeps the place of
the first. -/

namespace SdkCatalog

open SdkCatalog.Action Session Workspace

variable {before after : Session} {related : Session → Session → Prop} {directory : Path}
  {suffixes : List String}

/-! ### Visits -/

/-- The text of the path and the text of each source file of a directory. -/
def Workspace.sourceTexts (files : Files) (directory : Path) (suffixes : List String) :
    List (String × String) :=
  (sourceFiles files directory suffixes).map fun file => (file.text, sourceText files file)

theorem Files.SameBut.sourceTexts {files later : Files} {places : List Location}
    (h : SameBut places files later)
    (havoids : ∀ file ∈ Workspace.sourceFiles files directory suffixes,
      files.Avoids places file) :
    Workspace.sourceTexts later directory suffixes =
      Workspace.sourceTexts files directory suffixes := by
  rw [Workspace.sourceTexts, Workspace.sourceTexts, h.sourceFiles]
  exact List.map_congr_left fun file hfile => by rw [h.sourceText (havoids file hfile)]

/-- A visit takes the text of a file, or nothing if the file cannot be read. Reports made before the
visit may have been written to the file. -/
inductive Workspace.Visits (before : Session) : Path × String → Prop
  | read {between : Session} {file : Path} {cs : List Char} : ByReports before between →
    between.files.unmarkedText file = .ok cs → Visits before (file, String.ofList cs)
  | unreadable {between : Session} {file : Path} {fault : Files.TextFault} :
    ByReports before between → between.files.unmarkedText file = .error fault →
    Visits before (file, "")

theorem Workspace.visits_iff {file : Path} {text : String} : Visits before (file, text) ↔
    ∃ between, ByReports before between ∧ text = sourceText between.files file := by
  constructor
  · rintro (⟨hbetween, htext⟩ | ⟨hbetween, htext⟩)
    · exact ⟨_, hbetween, (sourceText_of_ok htext).symm⟩
    · exact ⟨_, hbetween, (sourceText_of_error htext).symm⟩
  · rintro ⟨between, hbetween, rfl⟩
    cases htext : between.files.unmarkedText file with
    | ok cs => exact sourceText_of_ok htext ▸ .read hbetween htext
    | error fault => exact sourceText_of_error htext ▸ .unreadable hbetween htext

theorem Workspace.Visits.of_byReports {first : Session} {visit : Path × String}
    (h : Visits before visit) (hfirst : ByReports first before) : Visits first visit := by
  cases h with
  | read hbetween htext => exact .read (hfirst.trans hbetween) htext
  | unreadable hbetween htext => exact .unreadable (hfirst.trans hbetween) htext

/-- A file that is no log file is read as it was at first. -/
theorem Workspace.Visits.eq_sourceText {visit : Path × String} (h : Visits before visit)
    (hlogs : before.LogsApart [visit.1]) : visit.2 = sourceText before.files visit.1 := by
  obtain ⟨between, hbetween, htext⟩ := visits_iff.mp h
  rw [htext]
  exact (hbetween.reported hlogs.there).files.sourceText (hlogs.avoids _ List.mem_cons_self)

/-! ### Runs -/

namespace ClassDeclaration

/-- One step over the files of a directory: the classes of a file join those before. -/
def addFile (classes : Table ClassDeclaration) (file : Path) :
    Action (Table ClassDeclaration) := do
  let source ← readSource file
  if source = "" then return classes
  let found := ofSource file.text source
  Action.report .debug "extractors.classes"
    s!"Found {found.length} class declaration(s) in {file.name}"
  return found.foldl (fun classes entry => classes.insert entry.name entry) classes

theorem ofDirectory_eq (directory : Path) (suffixes : List String) :
    ofDirectory directory suffixes =
      Action.ask (sourceFiles · directory suffixes) >>= fun files => files.foldlM addFile [] :=
  rfl

/-- A step always answers, and at most reports. -/
theorem byReports_addFile (before : Session) (classes : Table ClassDeclaration) (file : Path) :
    ∃ after, (addFile classes file).run.run before =
        (.ok ((ofSource file.text (sourceText before.files file)).foldl
          (fun classes entry => classes.insert entry.name entry) classes), after) ∧
      ByReports before after := by
  obtain ⟨between, hread, hbetween⟩ := byReports_readSource before file
  rw [addFile, run_bind_of_ok hread]
  split
  · next hempty => exact ⟨between, by rw [hempty]; rfl, hbetween⟩
  · exact ⟨_, rfl, hbetween.trans (byReports_report _ _)⟩

/-- The text of the path and the text of each file that is visited. -/
def texts (visits : List (Path × String)) : List (String × String) :=
  visits.map fun visit => (visit.1.text, visit.2)

/-- The classes of some files, each told by its path's text and its text. -/
def ofTexts (files : List (String × String)) : List ClassDeclaration :=
  files.flatMap fun (file, source) => ofSource file source

theorem ofTexts_texts_cons (visit : Path × String) (visits : List (Path × String)) :
    ofTexts (texts (visit :: visits)) =
      ofSource visit.1.text visit.2 ++ ofTexts (texts visits) := rfl

/-- Steps over files visit them one after another. -/
theorem byReports_foldlM_addFile (before : Session) (files : List Path)
    (classes : Table ClassDeclaration) :
    ∃ visits after, visits.map (·.1) = files ∧ (∀ visit ∈ visits, Visits before visit) ∧
      (files.foldlM addFile classes).run.run before = (.ok ((ofTexts (texts visits)).foldl
        (fun classes entry => classes.insert entry.name entry) classes), after) ∧
      ByReports before after := by
  induction files generalizing before classes with
  | nil => exact ⟨[], before, rfl, by simp, rfl, .refl _⟩
  | cons file rest ih =>
    obtain ⟨between, hstep, hbetween⟩ := byReports_addFile before classes file
    obtain ⟨visits, after, hfiles, hvisits, hrest, hafter⟩ := ih between _
    refine ⟨(file, sourceText before.files file) :: visits, after, by rw [List.map_cons, hfiles],
      fun visit hvisit => ?_, ?_, hbetween.trans hafter⟩
    · rcases List.mem_cons.mp hvisit with rfl | hvisit
      · exact visits_iff.mpr ⟨before, .refl _, rfl⟩
      · exact (hvisits visit hvisit).of_byReports hbetween
    · rw [List.foldlM_cons, run_bind_of_ok hstep, hrest, ofTexts_texts_cons, List.foldl_append]

theorem byReports_ofDirectory (before : Session) (directory : Path) (suffixes : List String) :
    ∃ visits after, visits.map (·.1) = sourceFiles before.files directory suffixes ∧
      (∀ visit ∈ visits, Visits before visit) ∧
      (ofDirectory directory suffixes).run.run before =
        (.ok (Table.ofList ClassDeclaration.name (ofTexts (texts visits))), after) ∧
      ByReports before after := by
  rw [ofDirectory_eq, run_bind_of_ok (run_ask _)]
  exact byReports_foldlM_addFile before _ []

theorem onlyReports_ofDirectory (directory : Path) (suffixes : List String) :
    OnlyReports (ofDirectory directory suffixes) := by
  intro before after answer hlogs h
  obtain ⟨_, _, -, -, hrun, hafter⟩ := byReports_ofDirectory before directory suffixes
  rw [hrun] at h
  injection h with _ h
  exact h ▸ hafter.reported hlogs

/-- Where no file that is visited is a log file, the files are read as they were at first. -/
theorem texts_eq_sourceTexts {visits : List (Path × String)}
    (hlogs : before.LogsApart (sourceFiles before.files directory suffixes))
    (hfiles : visits.map (·.1) = sourceFiles before.files directory suffixes)
    (hvisits : ∀ visit ∈ visits, Visits before visit) :
    texts visits = sourceTexts before.files directory suffixes := by
  rw [texts, sourceTexts, ← hfiles, List.map_map]
  refine List.map_congr_left fun visit hvisit => ?_
  have hfile : visit.1 ∈ sourceFiles before.files directory suffixes :=
    hfiles ▸ List.mem_map_of_mem hvisit
  rw [Function.comp_apply, ← (hvisits visit hvisit).eq_sourceText
    (hlogs.mono (List.cons_subset.mpr ⟨hfile, List.nil_subset _⟩))]

/-- Where no file that is visited is a log file, a scan answers the classes of the files as they
are. -/
theorem run_ofDirectory
    (hlogs : before.LogsApart (sourceFiles before.files directory suffixes)) :
    ∃ after, (ofDirectory directory suffixes).run.run before =
        (.ok (Table.ofList ClassDeclaration.name
          (ofTexts (sourceTexts before.files directory suffixes))), after) ∧
      Reported before after := by
  obtain ⟨visits, after, hfiles, hvisits, hrun, hafter⟩ :=
    byReports_ofDirectory before directory suffixes
  rw [texts_eq_sourceTexts hlogs hfiles hvisits] at hrun
  exact ⟨after, hrun, hafter.reported hlogs.there⟩

theorem run_ofDirectory_ok {classes : Table ClassDeclaration}
    (hlogs : before.LogsApart (sourceFiles before.files directory suffixes))
    (h : (ofDirectory directory suffixes).run.run before = (.ok classes, after)) :
    classes = Table.ofList ClassDeclaration.name
      (ofTexts (sourceTexts before.files directory suffixes)) := by
  obtain ⟨_, hrun, -⟩ := run_ofDirectory hlogs
  rw [hrun] at h
  injection h with h
  injection h with h
  exact h.symm

/-! ### The order of declarations -/

/-- A line of a file declares a class, files and lines told by their indices. -/
def DeclaredIn (files : List (String × String)) (place : Nat × Nat) (entry : ClassDeclaration) :
    Prop :=
  ∃ file, files[place.1]? = some file ∧ DeclaredAt file.1 file.2 place.2 entry

/-- Lines stand in the order of their files, and those of one file in their own. -/
abbrev Precedes : Nat × Nat → Nat × Nat → Prop :=
  Prod.Lex (fun a b : Nat => a < b) fun a b : Nat => a < b

theorem precedes_asymm (place place' : Nat × Nat) (h : Precedes place place') :
    ¬Precedes place' place := by
  rw [Precedes, Prod.lex_def] at h ⊢
  omega

theorem inOrder_ofTexts (files : List (String × String)) :
    InOrder Precedes (DeclaredIn files) (ofTexts files) :=
  have hfile : ∀ file : String × String,
      InOrder _ (DeclaredAt file.1 file.2) (ofSource file.1 file.2) :=
    fun file => inOrder_ofSource file.1 file.2
  InOrder.flatMap hfile files

/-- A table has the classes of some files. Under a name stands the class that is declared last, and
the names stand in the order in which they are declared first. -/
structure Folds (files : List (String × String)) (classes : Table ClassDeclaration) : Prop where
  last : ∀ name, LastOf Precedes (DeclaredIn files) ClassDeclaration.name name (classes.get? name)
  names : ∀ name, name ∈ classes.map (·.1) ↔ ∃ file ∈ files, file.2 ≠ "" ∧
    ∃ index entry, DeclaredAt file.1 file.2 index entry ∧ entry.name = name
  ordered : (classes.map (·.1)).Pairwise
    (FirstBefore Precedes (DeclaredIn files) ClassDeclaration.name)

/-- An empty file declares nothing. -/
theorem DeclaredAt.source_ne {file source : String} {index : Nat} {entry : ClassDeclaration}
    (h : DeclaredAt file source index entry) : source ≠ "" := by
  rintro rfl
  have hempty : ofSource file "" = [] := rfl
  have hentry := (inOrder_ofSource file "").mem_iff.mpr ⟨index, h⟩
  simp [hempty] at hentry

theorem folds_ofList (files : List (String × String)) :
    Folds files (Table.ofList ClassDeclaration.name (ofTexts files)) where
  last name := by
    rw [Table.get?_ofList]
    exact (inOrder_ofTexts files).lastOf precedes_asymm name
  names name := by
    rw [Table.mem_map_fst_ofList]
    constructor
    · rintro ⟨entry, hentry, hname⟩
      obtain ⟨place, file, hfile, hdeclared⟩ := (inOrder_ofTexts files).mem_iff.mp hentry
      exact ⟨file, List.mem_of_getElem? hfile, hdeclared.source_ne, place.2, entry, hdeclared,
        hname⟩
    · rintro ⟨file, hfile, -, index, entry, hdeclared, hname⟩
      obtain ⟨count, hcount⟩ := List.mem_iff_getElem?.mp hfile
      exact ⟨entry, (inOrder_ofTexts files).mem_iff.mpr ⟨(count, index), file, hcount, hdeclared⟩,
        hname⟩
  ordered := Table.pairwise_map_fst_ofList (inOrder_ofTexts files) precedes_asymm

/-! ### The order of the listing -/

theorem agreesIn_addFile (hparallel : Session.Parallel related) (classes : Table ClassDeclaration)
    (file : Path) : AgreesIn related (addFile classes file) := by
  refine agreesIn_bind (agreesIn_readSource hparallel file) fun source => ?_
  split
  · exact agreesIn_pure _
  · exact agreesIn_bind (agreesIn_report hparallel _ _ _) fun _ => agreesIn_pure _

theorem agreesIn_ofDirectory (hparallel : Session.Parallel related) (directory : Path)
    (suffixes : List String) : AgreesIn related (ofDirectory directory suffixes) := by
  rw [ofDirectory_eq]
  exact agreesIn_bind (agreesIn_ask fun _ _ h => hparallel.sourceFiles h directory suffixes)
    fun files => agreesIn_foldlM (agreesIn_addFile hparallel) files []

end ClassDeclaration

/-- Two sessions with the same journal and time, with the files listed in different orders. -/
structure Session.Relisted (before later : Session) : Prop where
  files : before.files.Relisted later.files
  journal : later.journal = before.journal
  time : later.time = before.time

theorem Session.parallel_relisted : Session.Parallel Session.Relisted where
  journal h := h.journal
  note h journal := ⟨h.files, rfl, h.time⟩
  deliver {before later} h record outlet := by
    cases outlet with
    | console verbose => exact ⟨h.files, by simp only [deliver, h.journal], h.time⟩
    | file place =>
      refine ⟨?_, h.journal, h.time⟩
      simp only [deliver, h.time]
      cases (record.fileText before.time).encode? with
      | none => exact h.files
      | some content => exact h.files.append place content
  isFile h path := h.files.isFile path
  unmarkedText h path := h.files.unmarkedText path
  sourceFiles h directory suffixes := h.files.sourceFiles directory suffixes

namespace ClassDeclaration

/-- In whatever order a directory is listed, its files are visited in the order of their names: the
regular files whose names end in a suffix, links followed. The table has the classes of the texts
that the visits take, each the text of its file as it was at first, unless that is a log file. Where
there is no directory there are no classes. -/
theorem scans_directory (before : Session) (directory : Path) (suffixes : List String) :
    let files := sourceFiles before.files directory suffixes
    let scan := fun files : Files =>
      ((ofDirectory directory suffixes).run.run { before with files }).1
    (∀ order, order.Perm (before.files.names directory) →
      ∃ later, before.files.Relisted later ∧ later.names directory = order) ∧
    (∀ later, before.files.Relisted later →
      sourceFiles later directory suffixes = files ∧ scan later = scan before.files) ∧
    files.Pairwise (fun a b => a.name < b.name) ∧
    (∀ file, file ∈ files ↔ ∃ name ∈ before.files.names directory,
      (∃ suffix ∈ suffixes, suffix.toList <:+ name.toList) ∧
      file = { directory with names := directory.names ++ [name] } ∧ before.files.isFile file) ∧
    (before.files.isDirectory directory = false → files = [] ∧ scan before.files = .ok []) ∧
    ∃ visits classes, visits.map (·.1) = files ∧
      (∀ visit ∈ visits, Visits before visit ∧
        (before.LogsApart [visit.1] → visit.2 = sourceText before.files visit.1)) ∧
      scan before.files = .ok classes ∧ Folds (texts visits) classes := by
  intro files scan
  obtain ⟨visits, after, hfiles, hvisits, hrun, -⟩ :=
    byReports_ofDirectory before directory suffixes
  refine ⟨fun order horder => before.files.exists_relisted directory horder,
    fun later hlater => ⟨hlater.sourceFiles directory suffixes, ?_⟩, pairwise_sourceFiles _ _ _,
    fun file => mem_sourceFiles, fun hnone => ?_,
    visits, _, hfiles, fun visit hvisit => ⟨hvisits visit hvisit, ?_⟩, congrArg (·.1) hrun,
    folds_ofList _⟩
  · have hrelisted : before.Relisted { before with files := later } := ⟨hlater, rfl, rfl⟩
    exact (agreesIn_ofDirectory parallel_relisted directory suffixes before _ hrelisted).1
  · have hnames : before.files.names directory = [] :=
      Files.names_of_not_directory (ne_true_of_eq_false hnone)
    have hnil : files = [] :=
      List.eq_nil_iff_forall_not_mem.mpr fun file hfile => by
        simpa [hnames] using mem_sourceFiles.mp hfile
    rw [List.map_eq_nil_iff.mp (hfiles.trans hnil)] at hrun
    exact ⟨hnil, congrArg (·.1) hrun⟩
  · exact (hvisits visit hvisit).eq_sourceText

/-- A directory listed forwards and backwards, with a link, a directory and a file that cannot be
decoded among its entries. -/
theorem scans_directory_backwards :
    let content := fun text : String => Entry.file (Utf8.encode text.toList)
    let entries : List (Location × Entry) :=
      [(["m"], .directory), (["m", "b.js"], content "export default class X extends B"),
        (["m", "c.js"], .link "a.js"), (["m", "d.js"], .directory), (["m", "e.js"], .file [0xFF]),
        (["m", "a.js"], content "export default class Y\nexport default class X"),
        (["m", "f.md"], content "export default class Z")]
    let before : Session := ⟨⟨⟨entries, by decide⟩, [], "/"⟩, {}, ""⟩
    let later : Files := ⟨⟨entries.reverse, by decide⟩, [], "/"⟩
    let directory := Path.absolute ["m"]
    let scan := fun files : Files =>
      ((ofDirectory directory [".js"]).run.run { before with files }).1
    before.files.Relisted later ∧ later.names directory ≠ before.files.names directory ∧
    sourceFiles later directory [".js"] = sourceFiles before.files directory [".js"] ∧
    scan later = scan before.files ∧
    scan before.files = .ok [("Y", ⟨"/m/c.js", "Y", none, none⟩),
      ("X", ⟨"/m/c.js", "X", none, none⟩)] := by
  intro content entries before later directory scan
  have hrelisted : before.files.Relisted later :=
    Files.relisted_of_perm rfl rfl (List.reverse_perm entries)
  obtain ⟨-, hsame, -⟩ := scans_directory before directory [".js"]
  obtain ⟨hfiles, hscan⟩ := hsame later hrelisted
  have hsorted : sourceFiles before.files directory [".js"] = _ :=
    sourceFiles_of_perm (show ["a.js", "b.js", "c.js", "d.js", "e.js"].Pairwise (· ≤ ·) by decide)
      (by decide +kernel)
  refine ⟨hrelisted, by decide +kernel, hfiles, hscan, ?_⟩
  show ((ofDirectory directory [".js"]).run.run before).1 = _
  rw [ofDirectory_eq, run_bind_of_ok (run_ask _), hsorted]
  decide +kernel

end ClassDeclaration

end SdkCatalog
