import SdkCatalog.Proofs.Catalog.View
import SdkCatalog.Proofs.Source.Constant

/-! When an extraction fails. Only a number with too many digits in a source of constants stops one;
whatever else is wrong with the sources, from a missing file to a literal that is no number, costs
what it stands in and nothing else. -/

namespace SdkCatalog

open SdkCatalog.Action Session Workspace

variable {allowed : Failure → Prop} {before : Session}

/-! ### The one kind of failure -/

/-- A whole number has more digits than can be read. -/
def Failure.IsOverlong (failure : Failure) : Prop :=
  ∃ fault, failure = .numeralTooLong fault ∧ digitLimit < fault.digits

theorem Constant.failsOnly_ofFile (path : Path) :
    FailsOnly Failure.IsOverlong (ofFile path) := by
  refine failsOnly_bind (failsOnly_readSource path) fun source =>
    failsOnly_bind (failsOnly_orFail fun fault hfault => ?_) fun _ => failsOnly_pure _
  obtain ⟨index, hlong⟩ := overlongAt_of_error hfault
  exact ⟨fault, rfl, hlong.limit_lt⟩

theorem ClassDeclaration.failsOnly_ofDirectory (directory : Path) (suffixes : List String) :
    FailsOnly allowed (ofDirectory directory suffixes) :=
  failsOnly_of_answers fun before =>
    let ⟨_, after, _, _, hrun, _⟩ := byReports_ofDirectory before directory suffixes
    ⟨_, after, hrun⟩

theorem MessageType.failsOnly_ofSources (paths : SourcePaths) (suffixes : List String)
    (typeNamespace : String) :
    FailsOnly Failure.IsOverlong (ofSources paths suffixes typeNamespace) := by
  refine failsOnly_bind (failsOnly_readSource _) fun configuration => ?_
  split
  · exact failsOnly_bind (failsOnly_report _ _ _) fun _ => failsOnly_pure _
  · exact failsOnly_bind (Constant.failsOnly_ofFile _) fun _ =>
      failsOnly_bind (Constant.failsOnly_ofFile _) fun _ =>
      failsOnly_bind (ClassDeclaration.failsOnly_ofDirectory _ _) fun _ =>
      failsOnly_bind (failsOnly_report _ _ _) fun _ => failsOnly_pure _

theorem Extract.failsOnly_ofSettings (settings : Settings) (root : Path) :
    FailsOnly Failure.IsOverlong (ofSettings settings root) :=
  failsOnly_bind (failsOnly_report _ _ _) fun _ =>
    failsOnly_bind (failsOnly_readSource _) fun _ =>
    failsOnly_bind (failsOnly_readSource _) fun _ =>
    failsOnly_bind (MessageType.failsOnly_ofSources _ _ _) fun _ => failsOnly_pure _

/-! ### What a view gives -/

namespace Workspace.View

variable {view : View} {paths : SourcePaths} {typeNamespace : String}

/-- The constants at a path are those of its lines, each for itself, unless a line has too long a
number. -/
theorem constants_cases (view : View) (path : Path) :
    (view.constants path = .ok (Constant.declared (view.text path)) ∧
      ∀ index count, ¬Constant.OverlongAt (view.text path) index count) ∨
    ∃ fault index, view.constants path = .error (.numeralTooLong fault) ∧
      Constant.OverlongAt (view.text path) index fault.digits := by
  rw [constants]
  cases hfound : Constant.ofSource (view.text path) with
  | ok constants =>
    obtain ⟨hlines, rfl⟩ := Constant.ofSource_eq_ok_iff.mp hfound
    exact .inl ⟨rfl, hlines⟩
  | error fault =>
    obtain ⟨index, hlong⟩ := Constant.overlongAt_of_error hfound
    exact .inr ⟨fault, index, rfl, hlong⟩

/-- A configuration is there, and a line of the content types or of the flags has a number with too
many digits. -/
def Overlong (view : View) (paths : SourcePaths) : Prop :=
  view.text paths.messageConfig ≠ "" ∧ ∃ path ∈ [paths.contentTypes, paths.persistFlags],
    ∃ index count, Constant.OverlongAt (view.text path) index count

/-- The message types when every line gives its own constant. -/
def joined (view : View) (paths : SourcePaths) (typeNamespace : String) : List MessageType :=
  if view.text paths.messageConfig = "" then []
  else MessageType.join (.ofLists (Constant.declared (view.text paths.contentTypes))
      (Constant.declared (view.text paths.persistFlags)) view.classes)
    (Registration.ofSource typeNamespace (view.text paths.messageConfig))

theorem messageTypes_of_not_overlong (h : ¬view.Overlong paths) :
    view.messageTypes paths typeNamespace = .ok (view.joined paths typeNamespace) := by
  rw [messageTypes, joined]
  split
  · rfl
  · next hconfig =>
    have hread : ∀ path ∈ [paths.contentTypes, paths.persistFlags],
        view.constants path = .ok (Constant.declared (view.text path)) := by
      intro path hpath
      rcases view.constants_cases path with ⟨hfound, -⟩ | ⟨fault, index, -, hlong⟩
      · exact hfound
      · exact absurd ⟨hconfig, path, hpath, index, _, hlong⟩ h
    rw [hread paths.contentTypes (by simp), hread paths.persistFlags (by simp)]
    rfl

theorem messageTypes_of_overlong (h : view.Overlong paths) :
    ∃ path ∈ [paths.contentTypes, paths.persistFlags], ∃ fault index,
      Constant.OverlongAt (view.text path) index fault.digits ∧
      view.messageTypes paths typeNamespace = .error (.numeralTooLong fault) := by
  obtain ⟨hconfig, path, hpath, index, count, hlong⟩ := h
  rw [messageTypes, if_neg hconfig]
  rcases view.constants_cases paths.contentTypes with
    ⟨htypes, hnone⟩ | ⟨fault, place, htypes, hlong'⟩
  · rcases view.constants_cases paths.persistFlags with
      ⟨-, hnone'⟩ | ⟨fault, place, hflags, hlong'⟩
    · simp only [List.mem_cons, List.not_mem_nil, or_false] at hpath
      rcases hpath with rfl | rfl
      · exact absurd hlong (hnone index count)
      · exact absurd hlong (hnone' index count)
    · refine ⟨paths.persistFlags, by simp, fault, place, hlong', ?_⟩
      rw [htypes, hflags]
      rfl
  · refine ⟨paths.contentTypes, by simp, fault, place, hlong', ?_⟩
    rw [htypes]
    rfl

end Workspace.View

/-! ### The outcome of an extraction -/

namespace Extract

/-- An extraction fails at most with a number of too many digits. It does so exactly if a message
configuration is there and a line of the content types or of the flags has such a number, and it
answers otherwise, every line giving its own constant or none. -/
theorem outcome_of_ofSettings (settings : Settings) (root : Path) (before : Session) :
    let paths := settings.sourcePaths root
    let view := viewOf before.files paths settings.classSuffixes
    let outcome := ((ofSettings settings root).run.run before).1
    (∀ failure, outcome = .error failure → failure.IsOverlong) ∧
      (before.LogsApart view.reads →
        (¬view.Overlong paths → outcome = .ok
          { interfaces := Interface.ofSource (view.text paths.client)
            events := Event.ofSource (view.text paths.events)
            messageTypes := view.joined paths settings.typeNamespace }) ∧
        (view.Overlong paths →
          ∃ path ∈ [paths.contentTypes, paths.persistFlags], ∃ fault index,
            Constant.OverlongAt (view.text path) index fault.digits ∧
            outcome = .error (.numeralTooLong fault))) := by
  intro paths view outcome
  refine ⟨fun failure h => ?_, fun hlogs => ?_⟩
  · exact failsOnly_ofSettings settings root before _ failure (Prod.ext h rfl)
  · obtain ⟨after, hrun, -⟩ :=
      yields_ofSettings before.files settings root before (shows_viewOf hlogs)
    have houtcome : outcome = view.extract paths settings.typeNamespace := congrArg Prod.fst hrun
    rw [houtcome, View.extract]
    refine ⟨fun h => ?_, fun h => ?_⟩
    · rw [View.messageTypes_of_not_overlong h]
      rfl
    · obtain ⟨path, hpath, fault, index, hlong, hfound⟩ := View.messageTypes_of_overlong h
      refine ⟨path, hpath, fault, index, hlong, ?_⟩
      rw [hfound]
      rfl

/-- A literal that is no number costs its own line: the constant above it is joined. -/
theorem outcome_of_ofSettings_single :
    let content := fun text : String => Entry.file (Utf8.encode text.toList)
    let before : Session :=
      ⟨⟨⟨[(["c"], content "\x7bname:'a',flag:F,type:MessageContentType.X,contentClazz:A\x7d"),
          (["t"], content "static X = 1;\nstatic X = one;"), (["f"], .directory)], by decide⟩,
          [], "/"⟩, {}, ""⟩
    let settings : Settings :=
      { root := .absolute [], sdkDirectory := "/", messageConfig := "c", contentTypes := "t",
        persistFlags := "f" }
    let root := Path.absolute []
    let view := viewOf before.files (settings.sourcePaths root) settings.classSuffixes
    before.journal.logs = [] ∧ ¬view.Overlong (settings.sourcePaths root) ∧
      ((ofSettings settings root).run.run before).1 = .ok
        { interfaces := [], events := [], messageTypes :=
          [{ name := "a", flag := "F", contentType := "X", typeValue := some (.int 1),
             className := "A" }] } := by
  intro content before settings root view
  have hread : ∀ path ∈ [(settings.sourcePaths root).contentTypes,
      (settings.sourcePaths root).persistFlags],
      (Constant.ofSource (view.text path)).isOk = true := by decide +kernel
  have hview : Interface.ofSource (view.text (settings.sourcePaths root).client) = [] ∧
      Event.ofSource (view.text (settings.sourcePaths root).events) = [] ∧
      view.joined (settings.sourcePaths root) settings.typeNamespace =
        [{ name := "a", flag := "F", contentType := "X", typeValue := some (.int 1),
           className := "A" }] := by decide +kernel
  have hlogs : before.journal.logs = [] := rfl
  have houtcome := (outcome_of_ofSettings settings root before).2
  clear_value before root settings
  obtain ⟨hinterfaces, hevents, hmessageTypes⟩ := hview
  have hnone : ¬view.Overlong (settings.sourcePaths root) := by
    rintro ⟨-, path, hpath, index, count, hlong⟩
    cases hfound : Constant.ofSource (view.text path) with
    | error fault => simpa [hfound, Except.isOk, Except.toBool] using hread path hpath
    | ok constants => exact (Constant.ofSource_eq_ok_iff.mp hfound).1 index count hlong
  refine ⟨hlogs, hnone, ?_⟩
  rw [(houtcome (logsApart_of_logs_eq_nil hlogs _)).1 hnone, hinterfaces, hevents, hmessageTypes]

/-- A workspace of one registration, one content type, and one flag with the given initializer. -/
def flagged (initializer : List Char) : Session :=
  let content := fun cs : List Char => Entry.file (Utf8.encode cs)
  ⟨⟨⟨[(["c"], content "\x7bname:'a',flag:F,type:MessageContentType.X,contentClazz:A\x7d".toList),
      (["t"], content "static X = 1;".toList),
      (["f"], content ("static B =".toList ++ ' ' :: initializer))],
      show [["c"], ["t"], ["f"]].Nodup by decide⟩, [], "/"⟩, {}, ""⟩

theorem run_flagged {ones : List Char} (hones : ∀ c ∈ ones, c = '1')
    (h : digitLimit < ones.length) :
    let settings : Settings :=
      { root := .absolute [], sdkDirectory := "/", messageConfig := "c", contentTypes := "t",
        persistFlags := "f" }
    ((ofSettings settings (.absolute [])).run.run (flagged ones)).1 =
      .error (.numeralTooLong ⟨ones.length⟩) := by
  intro settings
  have hpaths : settings.sourcePaths (.absolute []) =
      { client := .absolute ["client", "wfc.js"], events := .absolute ["client", "wfcEvent.js"],
        messageConfig := .absolute ["c"], messagesDirectory := .absolute ["messages"],
        contentTypes := .absolute ["t"], persistFlags := .absolute ["f"] } := by decide
  have hbytes : ∀ name cs,
      (flagged ones).files.tree.entry? [name] = some (.file (Utf8.encode cs)) → name ≠ ".." →
      (Path.absolute [name]).hasNull = false →
      (flagged ones).files.bytes (.absolute [name]) = .ok (Utf8.encode cs) :=
    fun name cs hentry hdots hnull => Files.bytes_eq_ok_iff.mpr
      ⟨[name], Files.find_eq_ok_iff.mpr ⟨hnull, .file hdots hentry⟩⟩
  have hreturn : '\r' ∉ "static B =".toList ++ ' ' :: ones := by
    rw [List.mem_append, List.mem_cons, not_or, not_or]
    exact ⟨by decide, by decide, fun hmem => absurd (hones _ hmem) (by decide)⟩
  have hconfig := sourceText_of_bytes (hbytes "c" _ rfl (by decide) (by decide)) (by decide)
    (by decide)
  have htypes := sourceText_of_bytes (hbytes "t" _ rfl (by decide) (by decide)) (by decide)
    (by decide)
  have hflags := sourceText_of_bytes (hbytes "f" _ rfl (by decide) (by decide))
    (by simp [Utf8.encode, String.utf8EncodeChar]) hreturn
  have hread : Constant.ofSource (String.ofList "static X = 1;".toList) =
      .ok [⟨"X", .int 1, none⟩] := by decide
  have hlogs : (flagged ones).journal.logs = [] := rfl
  obtain ⟨after, hrun, -⟩ := yields_ofSettings (flagged ones).files settings (.absolute [])
    (flagged ones) (shows_viewOf (logsApart_of_logs_eq_nil hlogs _))
  rw [hrun, hpaths]
  simp only [View.extract, View.messageTypes, View.constants, viewOf, hconfig, htypes, hflags,
    hread, Constant.ofSource_ones hones h]
  rw [if_neg (by decide)]
  rfl

/-- A flag of 4301 digits, one more than can be read, leaves a workspace without catalogs. -/
theorem fails_of_long_flag :
    let settings : Settings :=
      { root := .absolute [], sdkDirectory := "/", messageConfig := "c", contentTypes := "t",
        persistFlags := "f" }
    ((ofSettings settings (.absolute [])).run.run (flagged (.replicate 4301 '1'))).1 =
      .error (.numeralTooLong ⟨4301⟩) := by
  have hlength : (List.replicate 4301 '1').length = 4301 := List.length_replicate
  have hrun := run_flagged (fun c => List.eq_of_mem_replicate (n := 4301))
    (by rw [hlength]; decide)
  rwa [hlength] at hrun

end Extract

end SdkCatalog
