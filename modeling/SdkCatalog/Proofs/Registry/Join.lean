import SdkCatalog.Proofs.Registry.Directory

/-! The registry of message types: every record is a registration joined with the last declaration
of each name that it refers to. -/

namespace SdkCatalog

open SdkCatalog.Action Session Workspace

variable {before after : Session} {paths : SourcePaths} {suffixes : List String}
  {typeNamespace : String}

/-! ### Runs -/

theorem Constant.onlyReports_ofFile (path : Path) : OnlyReports (ofFile path) :=
  onlyReports_bind (onlyReports_readSource path) fun _ =>
    onlyReports_bind (onlyReports_orFail _ _) fun _ => onlyReports_pure _

theorem Constant.run_ofFile_ok {path : Path} {table : Table Constant} (hlogs : before.LogsThere)
    (h : (ofFile path).run.run before = (.ok table, after)) :
    ∃ constants, ofSource (sourceText before.files path) = .ok constants ∧
      table = Table.ofList Constant.name constants := by
  obtain ⟨text, between, hread, h⟩ := run_bind_ok_iff.mp h
  obtain rfl := run_readSource_ok hlogs hread
  obtain ⟨constants, _, hfound, hpure⟩ := run_bind_ok_iff.mp h
  obtain ⟨hconstants, rfl⟩ := run_orFail_ok_iff.mp hfound
  rw [run_pure] at hpure
  injection hpure with htable
  injection htable with htable
  exact ⟨constants, hconstants, htable.symm⟩

theorem MessageType.onlyReports_ofSources (paths : SourcePaths) (suffixes : List String)
    (typeNamespace : String) : OnlyReports (ofSources paths suffixes typeNamespace) := by
  refine onlyReports_bind (onlyReports_readSource _) fun configuration => ?_
  split
  · exact onlyReports_bind (onlyReports_report _ _ _) fun _ => onlyReports_pure _
  · exact onlyReports_bind (Constant.onlyReports_ofFile _) fun _ =>
      onlyReports_bind (Constant.onlyReports_ofFile _) fun _ =>
      onlyReports_bind (ClassDeclaration.onlyReports_ofDirectory _ _) fun _ =>
      onlyReports_bind (onlyReports_report _ _ _) fun _ => onlyReports_pure _

/-- The message types are the registrations joined with the tables of the sources' texts. -/
theorem MessageType.run_ofSources_ok {result : List MessageType}
    (h : (ofSources paths suffixes typeNamespace).run.run before = (.ok result, after))
    (hlogs : before.LogsApart ([paths.messageConfig, paths.contentTypes, paths.persistFlags] ++
      sourceFiles before.files paths.messagesDirectory suffixes))
    (hconfig : sourceText before.files paths.messageConfig ≠ "") :
    ∃ types flags,
      Constant.ofSource (sourceText before.files paths.contentTypes) = .ok types ∧
      Constant.ofSource (sourceText before.files paths.persistFlags) = .ok flags ∧
      result = join (.ofLists types flags
          ((sourceTexts before.files paths.messagesDirectory suffixes).flatMap
            fun (file, source) => ClassDeclaration.ofSource file source))
        (Registration.ofSource typeNamespace (sourceText before.files paths.messageConfig)) := by
  obtain ⟨text, first, hread, h⟩ := run_bind_ok_iff.mp h
  obtain rfl := run_readSource_ok hlogs.there hread
  rw [if_neg hconfig] at h
  have hfirst := onlyReports_readSource _ _ _ _ hlogs.there hread
  obtain ⟨_, second, hrunTypes, h⟩ := run_bind_ok_iff.mp h
  obtain ⟨types, htypes, rfl⟩ := Constant.run_ofFile_ok hfirst.logsThere hrunTypes
  have hsecond := hfirst.trans (Constant.onlyReports_ofFile _ _ _ _ hfirst.logsThere hrunTypes)
  obtain ⟨_, third, hrunFlags, h⟩ := run_bind_ok_iff.mp h
  obtain ⟨flags, hflags, rfl⟩ := Constant.run_ofFile_ok hsecond.logsThere hrunFlags
  have hthird := hsecond.trans (Constant.onlyReports_ofFile _ _ _ _ hsecond.logsThere hrunFlags)
  obtain ⟨_, fourth, hrunClasses, h⟩ := run_bind_ok_iff.mp h
  have hfiles : ∀ file ∈ sourceFiles before.files paths.messagesDirectory suffixes,
      before.files.Avoids before.journal.logs file :=
    fun file hfile => hlogs.avoids file (List.mem_append_right _ hfile)
  have hthirdLogs : third.LogsApart (sourceFiles third.files paths.messagesDirectory suffixes) := by
    rw [hthird.files.sourceFiles]
    exact (hlogs.mono (List.subset_append_right _ _)).of_reported hthird
  obtain rfl := ClassDeclaration.run_ofDirectory_ok hthirdLogs hrunClasses
  rw [run_bind_of_ok (run_report _ _ _), run_pure] at h
  injection h with hresult
  injection hresult with hresult
  rw [hfirst.files.sourceText (hlogs.avoids _ (by simp))] at htypes
  rw [hsecond.files.sourceText (hlogs.avoids _ (by simp))] at hflags
  rw [hthird.files.sourceTexts hfiles] at hresult
  exact ⟨types, flags, htypes, hflags, hresult.symm⟩

/-! ### The join -/

/-- A record joins a registration with the declarations that it refers to: in the text of the
content types, in the text of the flags, and in the message files, each with its path's text. -/
structure MessageType.Joins (types flags : String) (files : List (String × String))
    (entry : Registration) (record : MessageType) : Prop where
  name : record.name = entry.name
  flag : record.flag = entry.flag
  contentType : record.contentType = entry.contentType
  className : record.className = entry.className
  typed : ∃ found, LastOf (fun a b : Nat => a < b) (Constant.DeclaredAt types) Constant.name
      entry.contentType found ∧
    record.typeValue = found.map (·.value) ∧ record.typeDoc = found.bind (·.doc)
  flagged : ∃ found, LastOf (fun a b : Nat => a < b) (Constant.DeclaredAt flags) Constant.name
      entry.flag found ∧
    record.flagValue = found.map (·.value) ∧ record.flagDoc = found.bind (·.doc)
  /-- A flag that is no word is the name of no constant. -/
  unflagged : entry.flag.toList.all Text.isWordChar = false →
    record.flagValue = none ∧ record.flagDoc = none
  /-- Files come before lines in the order of declarations. -/
  declared : ∃ found, LastOf (Prod.Lex (fun a b : Nat => a < b) fun a b : Nat => a < b)
      (ClassDeclaration.DeclaredIn files) ClassDeclaration.name entry.className found ∧
    record.classFile = found.map (·.file) ∧ record.base = found.bind (·.base) ∧
    record.doc = found.bind (·.doc)

theorem MessageType.joins_ofRegistration {types flags : String} {typeConstants flagConstants}
    (htypes : Constant.ofSource types = .ok typeConstants)
    (hflags : Constant.ofSource flags = .ok flagConstants) (files : List (String × String))
    (entry : Registration) :
    Joins types flags files entry
      (ofRegistration (.ofLists typeConstants flagConstants
        (files.flatMap fun (file, source) => ClassDeclaration.ofSource file source)) entry) := by
  have htype := Constant.lastOf_ofSource htypes entry.contentType
  have hflag := Constant.lastOf_ofSource hflags entry.flag
  have hclass : LastOf _ (ClassDeclaration.DeclaredIn files) ClassDeclaration.name entry.className
      (lastNamed _ _ (files.flatMap fun (file, source) => ClassDeclaration.ofSource file source)) :=
    (ClassDeclaration.inOrder_ofTexts files).lastOf ClassDeclaration.precedes_asymm _
  refine ⟨rfl, rfl, rfl, rfl, ⟨_, htype, ?_, ?_⟩, ⟨_, hflag, ?_, ?_⟩, fun hword => ?_,
    ⟨_, hclass, ?_, ?_, ?_⟩⟩
  · simp only [ofRegistration, References.ofLists, Table.get?_ofList]
  · simp only [ofRegistration, References.ofLists, Table.get?_ofList]
  · simp only [ofRegistration, References.ofLists, Table.get?_ofList]
  · simp only [ofRegistration, References.ofLists, Table.get?_ofList]
  · have hnone : lastNamed Constant.name entry.flag flagConstants = none := by
      cases hfound : lastNamed Constant.name entry.flag flagConstants with
      | none => rfl
      | some constant =>
        rw [hfound] at hflag
        obtain ⟨index, hdeclared, hname, -⟩ := hflag
        rw [← hname, Constant.all_name hdeclared] at hword
        simp at hword
    simp only [ofRegistration, References.ofLists, Table.get?_ofList, hnone]
    exact ⟨rfl, rfl⟩
  · simp only [ofRegistration, References.ofLists, Table.get?_ofList]
  · simp only [ofRegistration, References.ofLists, Table.get?_ofList]
  · simp only [ofRegistration, References.ofLists, Table.get?_ofList]

/-- The registry has one record for each registration, in order, joined with the last declaration
of each name that it refers to. The message files are the regular files of the directory whose
names end in a suffix, in the order of their names. -/
theorem MessageType.joins_ofSources {result : List MessageType}
    (hrun : (ofSources paths suffixes typeNamespace).run.run before = (.ok result, after))
    (hlogs : before.LogsApart ([paths.messageConfig, paths.contentTypes, paths.persistFlags] ++
      sourceFiles before.files paths.messagesDirectory suffixes))
    (hconfig : sourceText before.files paths.messageConfig ≠ "") :
    let files := sourceFiles before.files paths.messagesDirectory suffixes
    (files.Pairwise fun a b => a.name < b.name) ∧
      (∀ file, file ∈ files ↔ ∃ name ∈ before.files.names paths.messagesDirectory,
        (∃ suffix ∈ suffixes, suffix.toList <:+ name.toList) ∧
        file = { paths.messagesDirectory with names := paths.messagesDirectory.names ++ [name] } ∧
        before.files.isFile file) ∧
      ∃ record : Registration → MessageType,
        result = (Registration.ofSource typeNamespace
          (sourceText before.files paths.messageConfig)).map record ∧
        ∀ entry, Joins (sourceText before.files paths.contentTypes)
          (sourceText before.files paths.persistFlags)
          (files.map fun file => (file.text, sourceText before.files file)) entry
          (record entry) := by
  obtain ⟨types, flags, htypes, hflags, hresult⟩ := run_ofSources_ok hrun hlogs hconfig
  exact ⟨pairwise_sourceFiles _ _ _, fun file => mem_sourceFiles, _, hresult,
    joins_ofRegistration htypes hflags _⟩

/-- A registry of one registration, of which the flag is no word and the class stands in a file. -/
theorem MessageType.joins_ofSources_single :
    let content := fun text : String => Entry.file (Utf8.encode text.toList)
    let before : Session :=
      ⟨⟨⟨[(["c"], content "\x7bname:'a',flag:F.B,type:T.X,contentClazz:A\x7d"),
          (["t"], content "static X = 1;"), (["f"], content "static B = 2;"), (["m"], .directory),
          (["m", "a.js"], content "export default class A extends B")], by decide⟩, [], "/"⟩,
        {}, ""⟩
    let place := fun name : String => Path.absolute [name]
    let paths : SourcePaths := ⟨place "s", place "e", place "c", place "m", place "t", place "f"⟩
    let run := (ofSources paths [".js"] "T").run.run before
    let files := sourceFiles before.files paths.messagesDirectory [".js"]
    let result : List MessageType := [⟨"a", "F.B", none, none, "X", some (.int 1), none, "A",
      some "/m/a.js", some "B", none⟩]
    run.1 = .ok result ∧
    before.journal.logs = [] ∧ sourceText before.files paths.messageConfig ≠ "" ∧
    ∃ record : Registration → MessageType,
      result = (Registration.ofSource "T"
        (sourceText before.files paths.messageConfig)).map record ∧
      ∀ entry, Joins (sourceText before.files paths.contentTypes)
        (sourceText before.files paths.persistFlags)
        (files.map fun file => (file.text, sourceText before.files file)) entry
        (record entry) := by
  intro content before place paths run files result
  have hrun : run.1 = .ok result := by decide +kernel
  have hconfig : sourceText before.files paths.messageConfig ≠ "" := by decide +kernel
  obtain ⟨-, -, record, hresult, hjoins⟩ :=
    joins_ofSources (Prod.ext hrun rfl) (logsApart_of_logs_eq_nil rfl _) hconfig
  exact ⟨hrun, rfl, hconfig, record, hresult, hjoins⟩

end SdkCatalog
