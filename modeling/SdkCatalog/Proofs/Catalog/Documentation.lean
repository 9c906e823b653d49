import SdkCatalog.Proofs.Catalog.Generation
import SdkCatalog.Proofs.Catalog.RoundTrip
import SdkCatalog.Proofs.Source.Interface

/-! Documentation from the source to the tool: what is shown for a name is what the first line that
declares it says. -/

namespace SdkCatalog

open SdkCatalog.Action Json Session Text Workspace

/-! ### Looking an interface up -/

theorem Extract.findInterface_catalogs (extract : Extract) (name : String) :
    extract.catalogs.findInterface name =
      (extract.interfaces.find? (·.name = name)).map Interface.record := by
  have hname : ∀ entry : Interface,
      ((Members.get? entry.record "name").bind (·.string?) == some name) =
        decide (entry.name = name) := by
    intro entry
    rw [show Members.get? entry.record "name" = some (.str entry.name) from rfl]
    rw [Bool.eq_iff_iff]
    simp [Value.string?]
  rw [Catalogs.findInterface, catalogs, List.find?_map]
  simp only [Function.comp_def, hname]

/-- The documentation of an interface: its name, its parameters and its comment, empty if it has
none. -/
def Interface.documentation (entry : Interface) : Value :=
  .obj [("name", .str entry.name), ("params", .arr (entry.params.map .str)),
    ("jsdoc", .str (entry.doc.getD ""))]

theorem Tool.isNothing_str {text : String} (h : text ≠ "") : isNothing (.str text) = false := by
  rw [isNothing] <;> simp [h]

theorem Tool.documentation_record (entry : Interface) :
    Tool.documentation entry.record = entry.documentation := by
  cases entry with
  | mk name params doc =>
    cases doc with
    | none => rfl
    | some doc =>
      have hget : Members.get? (Interface.mk name params (some doc)).record "jsdoc" =
          some (.str doc) := rfl
      rw [Tool.documentation, hget, Option.getD_some]
      by_cases hempty : doc = ""
      · subst hempty
        rfl
      · rw [isNothing_str hempty]
        rfl

theorem Interface.writable_documentation (entry : Interface) :
    entry.documentation.writable = true := by
  have hparams : ∀ params : List String, Value.itemsWritable (params.map .str) = true := by
    intro params
    induction params with
    | nil => rfl
    | cons param rest ih => simp [Value.itemsWritable, Value.writable, ih]
  simp [documentation, Value.writable, Value.membersWritable, hparams]

theorem Tool.accept_interfaceDocs (name : String) :
    interfaceDocs.accept [("name", .str name)] = .ok [("name", .str name)] := rfl

theorem Toolbox.run_interfaceDocs (extract : Extract) (name : String) (session : Session) :
    ((standard.call extract.catalogs "get-interface-docs" [("name", .str name)]).run.run
        session).1 =
      match extract.interfaces.find? (·.name = name) with
      | none => .ok ("Interface not found: " ++ name)
      | some entry => .ok (String.ofList (entry.documentation.render 0)) := by
  rw [run_call (show standard.get "get-interface-docs" = .ok Tool.interfaceDocs from rfl)
    (Tool.accept_interfaceDocs name)]
  have hargument : (Members.get? [("name", .str name)] "name").bind Value.string? = some name := rfl
  simp only [Tool.interfaceDocs, hargument, extract.findInterface_catalogs]
  cases extract.interfaces.find? (·.name = name) with
  | none => rfl
  | some entry =>
    simp only [Option.map_some, Tool.documentation_record, Tool.textOf, Value.write?,
      if_pos entry.writable_documentation]

/-- The documentation tool over the interfaces of a source answers any name: for one that no line
declares that there is none, and else what the first line that declares it says. -/
theorem Toolbox.outcome_of_interfaceDocs {extract : Extract} {source : String}
    (h : extract.interfaces = Interface.ofSource source) (name : String) (session : Session) :
    ∃ text, ((standard.call extract.catalogs "get-interface-docs"
        [("name", .str name)]).run.run session).1 = .ok text ∧
      ((name = "constructor" ∨ ∀ line ∈ lines source.toList, ∀ params,
          ¬Interface.Declares line name.toList params) →
        text = "Interface not found: " ++ name) ∧
      ∀ index line params, name ≠ "constructor" → (lines source.toList)[index]? = some line →
        Interface.Declares line name.toList params →
        (∀ earlier < index, ∀ other, (lines source.toList)[earlier]? = some other →
          ∀ params, ¬Interface.Declares other name.toList params) →
        text = String.ofList ((Value.obj [("name", .str name),
          ("params", .arr ((Interface.splitParams params).map .str)),
          ("jsdoc", .str ((DocComment.attached (lines source.toList) index).getD ""))]).render
            0) := by
  have hcall := run_interfaceDocs extract name session
  rw [h] at hcall
  cases hfind : (Interface.ofSource source).find? (·.name = name) with
  | none =>
    rw [hfind] at hcall
    refine ⟨_, hcall, fun _ => rfl, ?_⟩
    intro index line params hname hline hdeclares hfirst
    rw [Interface.find?_ofSource_some hname hline hdeclares hfirst] at hfind
    simp at hfind
  | some entry =>
    rw [hfind] at hcall
    refine ⟨_, hcall, ?_, ?_⟩
    · intro hnone
      rw [Interface.find?_ofSource_none hnone] at hfind
      simp at hfind
    · intro index line params hname hline hdeclares hfirst
      rw [Interface.find?_ofSource_some hname hline hdeclares hfirst] at hfind
      rw [← Option.some.inj hfind]
      rfl

/-! ### After a generation -/

namespace Generation

variable {path : Path} {outputDirectory : Option Path} {marker : String} {generation : Generation}
  {before after : Session} {settings : Settings} {settingsPath : Path}

/-- The interfaces of a generation are those of the client as it was before: what is reported
touches neither the settings nor the client. -/
theorem interfaces_of_run
    (hrun : (run path outputDirectory marker).run.run before = (.ok generation, after))
    (hpath : Settings.filePath before.files generation.root = .ok settingsPath)
    (hsettings : Settings.load Settings.reader before.files generation.root = .ok settings)
    (hlogs : before.LogsApart [settingsPath, (settings.sourcePaths generation.root).client]) :
    generation.extract.interfaces = Interface.ofSource
      (sourceText before.files (settings.sourcePaths generation.root).client) := by
  obtain ⟨first, _, _, -, hfirst, hextract, -⟩ := steps_of_run_of_load hlogs.there hpath
    (hlogs.avoids settingsPath (by simp)) hsettings hrun
  have hclient := hlogs.avoids (settings.sourcePaths generation.root).client (by simp)
  rw [Extract.interfaces_of_run hfirst.logsThere (hfirst.logs ▸ hfirst.files.avoids hclient)
    hextract, hfirst.files.sourceText hclient]

/-- A store of the directory that a generation was written to loads its catalogs. -/
theorem load_of_run (stale : Catalogs)
    (hrun : (run path outputDirectory marker).run.run before = (.ok generation, after))
    (hpath : Settings.filePath before.files generation.root = .ok settingsPath)
    (hsettings : Settings.load Settings.reader before.files generation.root = .ok settings)
    (hlogs : before.LogsApart [settingsPath])
    (hartifacts : ∀ artifact ∈ generation.written, after.files.isLink artifact.2 = false ∧
      after.files.Avoids after.journal.logs artifact.2) :
    let directory := outputDirectory.getD (settings.outputPath generation.root)
    ((Store.mk directory stale).load.run after).1 =
      (.ok (), ⟨directory, generation.extract.catalogs⟩) := by
  intro directory
  obtain ⟨_, _, third, -, -, -, hwritten, -, hafter⟩ := steps_of_run_of_load hlogs.there hpath
    (hlogs.avoids settingsPath (by simp)) hsettings hrun
  have hlinks : ∀ artifact ∈ generation.written, third.files.isLink artifact.2 = false := by
    intro artifact hartifact
    cases hlink : third.files.isLink artifact.2 with
    | false => rfl
    | true =>
      have hthere := hafter.files.isLink hlink
      rw [(hartifacts artifact hartifact).1] at hthere
      simp at hthere
  obtain ⟨place, hwrote⟩ := Catalogs.holdsAll_of_write hwritten hlinks
  have hholds := hwrote.of_sameBut hafter.files fun artifact hartifact => by
    obtain ⟨_, _, _, _, _, hartifactsEq⟩ := Catalogs.run_write_ok_iff.mp hwritten
    rw [← hafter.logs]
    exact (hartifacts artifact (hartifactsEq ▸ hartifact)).2
  exact (Catalogs.run_load _ _).trans (hholds.reread stale)

end Generation

/-- The documentation that is served for a name after a generation is that of the first line of the
client that declares a method of that name. -/
theorem Generation.documentation_of_run {path : Path} {outputDirectory : Option Path}
    {marker : String} {generation : Generation} {before after : Session} {settings : Settings}
    {settingsPath : Path} (stale : Catalogs)
    (hrun : (run path outputDirectory marker).run.run before = (.ok generation, after))
    (hpath : Settings.filePath before.files generation.root = .ok settingsPath)
    (hsettings : Settings.load Settings.reader before.files generation.root = .ok settings)
    (hlogs : before.LogsApart [settingsPath, (settings.sourcePaths generation.root).client])
    (hartifacts : ∀ artifact ∈ generation.written, after.files.isLink artifact.2 = false ∧
      after.files.Avoids after.journal.logs artifact.2) :
    let source := (sourceText before.files (settings.sourcePaths generation.root).client).toList
    let directory := outputDirectory.getD (settings.outputPath generation.root)
    ∃ store, ((Store.mk directory stale).load.run after).1 = (.ok (), store) ∧
      ∀ name session, ∃ text,
        ((Toolbox.standard.call store.catalogs "get-interface-docs"
          [("name", .str name)]).run.run session).1 = .ok text ∧
        ((name = "constructor" ∨
            ∀ line ∈ lines source, ∀ params, ¬Interface.Declares line name.toList params) →
          text = "Interface not found: " ++ name) ∧
        ∀ index line params, name ≠ "constructor" → (lines source)[index]? = some line →
          Interface.Declares line name.toList params →
          (∀ earlier < index, ∀ other, (lines source)[earlier]? = some other →
            ∀ params, ¬Interface.Declares other name.toList params) →
          text = String.ofList ((Value.obj [("name", .str name),
            ("params", .arr ((Interface.splitParams params).map .str)),
            ("jsdoc", .str ((DocComment.attached (lines source) index).getD ""))]).render 0) := by
  intro source directory
  have hpathLogs : before.LogsApart [settingsPath] := hlogs.mono (by simp)
  exact ⟨⟨directory, generation.extract.catalogs⟩,
    load_of_run stale hrun hpath hsettings hpathLogs hartifacts,
    Toolbox.outcome_of_interfaceDocs (interfaces_of_run hrun hpath hsettings hlogs)⟩

/-- A workspace with a client of one documented method, generated into its default directory. What
is served for the method has its parameters and its comment. -/
theorem Generation.documentation_of_run_single :
    let sdk : Location := ["w", "packages", "sdk-middleware", "wildfirechat", "wfc"]
    let client := "/** Sends. */\nsend(to, text) \x7b"
    let before : Session :=
      ⟨⟨⟨[(["w"], .directory), (["w", "m"], .directory), (sdk.take 2, .directory),
          (sdk.take 3, .directory), (sdk.take 4, .directory), (sdk, .directory),
          (sdk ++ ["client"], .directory),
          (sdk ++ ["client", "wfc.js"], .file (Utf8.encode client.toList))], by decide⟩, [], "/"⟩,
        {}, ""⟩
    let root := Path.absolute ["w"]
    let directory := Path.absolute ["w", "docs"]
    let served := "\x7b\n  \"name\": \"send\",\n  \"params\": [\n    \"to\",\n" ++
      "    \"text\"\n  ],\n  \"jsdoc\": \"/** Sends. */\"\n\x7d"
    ∃ generation after, (run root none "m").run.run before = (.ok generation, after) ∧
      Settings.filePath before.files generation.root = .ok (.absolute ["w", settingsFile]) ∧
      Settings.load Settings.reader before.files generation.root = .ok { root } ∧
      before.journal.logs = [] ∧
      (∀ artifact ∈ generation.written, after.files.isLink artifact.2 = false) ∧
      after.journal.logs = [] ∧
      ∃ store, ((Store.mk directory {}).load.run after).1 = (.ok (), store) ∧
        ∀ session,
          ((Toolbox.standard.call store.catalogs "get-interface-docs"
            [("name", .str "send")]).run.run session).1 = .ok served ∧
          ((Toolbox.standard.call store.catalogs "get-interface-docs"
            [("name", .str "constructor")]).run.run session).1 =
              .ok "Interface not found: constructor" := by
  intro sdk client before root directory served
  have hanswer : (((run root none "m").run.run before).1.map fun generation =>
        (generation.root, generation.written)) = .ok (root, Catalogs.artifacts directory) ∧
      (∀ artifact ∈ Catalogs.artifacts directory,
        ((run root none "m").run.run before).2.files.isLink artifact.2 = false) ∧
      ((run root none "m").run.run before).2.journal.logs = [] := by decide +kernel
  have hbefore : Settings.filePath before.files root = .ok (.absolute ["w", settingsFile]) ∧
      Settings.load Settings.reader before.files root = .ok { root } ∧ before.journal.logs = [] ∧
      (none : Option Path).getD (Settings.outputPath { root } root) = directory ∧
      (sourceText before.files (Settings.sourcePaths { root } root).client).toList =
        client.toList := by
    decide +kernel
  have hlines : lines client.toList = ["/** Sends. */".toList, "send(to, text) \x7b".toList] := by
    decide +kernel
  have hdeclares : Interface.Declares "send(to, text) \x7b".toList "send".toList
      "to, text".toList := Interface.signature?_eq_some_iff.mp (by decide +kernel)
  have hcomment : Interface.signature? "/** Sends. */".toList = none := by decide +kernel
  have hserved : String.ofList ((Value.obj [("name", .str "send"),
      ("params", .arr ((Interface.splitParams "to, text".toList).map .str)),
      ("jsdoc", .str ((DocComment.attached ["/** Sends. */".toList,
        "send(to, text) \x7b".toList] 1).getD ""))]).render 0) = served := by decide +kernel
  clear_value served directory root before client
  obtain ⟨hpath, hsettings, hlogs, hdirectory, hsource⟩ := hbefore
  generalize hrun : (run root none "m").run.run before = answer at hanswer
  obtain ⟨outcome, after⟩ := answer
  obtain ⟨hgeneration, hlinks, hlogsAfter⟩ := hanswer
  cases outcome with
  | error failure => simp [Except.map] at hgeneration
  | ok generation =>
    simp only [Except.map, Except.ok.injEq, Prod.mk.injEq] at hgeneration
    obtain ⟨rfl, hwritten⟩ := hgeneration
    rw [← hwritten] at hlinks
    obtain ⟨store, hload, hcall⟩ := documentation_of_run {} hrun hpath hsettings
      (logsApart_of_logs_eq_nil hlogs _) fun artifact hartifact =>
        ⟨hlinks artifact hartifact, fun _ _ _ => by simp [hlogsAfter]⟩
    rw [hdirectory] at hload
    rw [hsource, hlines] at hcall
    refine ⟨generation, after, rfl, hpath, hsettings, hlogs, hlinks, hlogsAfter, store, hload,
      fun session => ⟨?_, ?_⟩⟩
    · obtain ⟨text, htext, -, hfound⟩ := hcall "send" session
      rw [htext, hfound 1 _ _ (by decide) rfl hdeclares ?_, hserved]
      intro earlier hearlier other hother params hdeclaresOther
      obtain rfl : earlier = 0 := by omega
      injection hother with hother
      rw [← hother, ← Interface.signature?_eq_some_iff, hcomment] at hdeclaresOther
      simp at hdeclaresOther
    · obtain ⟨text, htext, hnone, -⟩ := hcall "constructor" session
      rw [htext, hnone (.inl rfl)]
      rfl

end SdkCatalog
