import SdkCatalog.Catalog.Generation
import SdkCatalog.Proofs.Catalog.Writer
import SdkCatalog.Proofs.Registry.Join
import SdkCatalog.Proofs.Settings

/-! Generation step by step: the root is found, the settings are loaded, the sources are read, and
the catalogs are written, with reports in between. -/

namespace SdkCatalog

open SdkCatalog.Action Session Workspace

variable {before after : Session} {settings : Settings} {root : Path}

theorem Extract.onlyReports_ofSettings (settings : Settings) (root : Path) :
    OnlyReports (ofSettings settings root) :=
  onlyReports_bind (onlyReports_report _ _ _) fun _ =>
    onlyReports_bind (onlyReports_readSource _) fun _ =>
    onlyReports_bind (onlyReports_readSource _) fun _ =>
    onlyReports_bind (MessageType.onlyReports_ofSources _ _ _) fun _ => onlyReports_pure _

theorem Extract.interfaces_of_run {extract : Extract} (hlogs : before.LogsThere)
    (hclient : before.files.Avoids before.journal.logs (settings.sourcePaths root).client)
    (h : (ofSettings settings root).run.run before = (.ok extract, after)) :
    extract.interfaces =
      Interface.ofSource (sourceText before.files (settings.sourcePaths root).client) := by
  rw [ofSettings, run_bind_of_ok (run_report _ _ _)] at h
  generalize hfirst : before.report _ = first at h
  have hreported : Reported before first := hfirst ▸ reported_report _ hlogs
  obtain ⟨client, _, hread, h⟩ := run_bind_ok_iff.mp h
  obtain rfl := run_readSource_ok hreported.logsThere hread
  obtain ⟨events, _, -, h⟩ := run_bind_ok_iff.mp h
  obtain ⟨messageTypes, _, -, h⟩ := run_bind_ok_iff.mp h
  rw [run_pure] at h
  injection h with h
  injection h with h
  rw [← h, ← hreported.files.sourceText hclient]

namespace Generation

variable {path : Path} {outputDirectory : Option Path} {marker : String} {generation : Generation}

/-- Reports leave the settings as they were. -/
theorem load_of_reported {file : Path} (h : Reported before after)
    (hfile : Settings.filePath before.files root = .ok file)
    (havoids : before.files.Avoids before.journal.logs file)
    (hload : Settings.load Settings.reader before.files root = .ok settings) :
    Settings.load Settings.reader after.files root = .ok settings := by
  refine h.files.load (fun other hother => ?_) hload
  rw [hfile] at hother
  injection hother with hother
  exact hother ▸ havoids

/-- A generation that answers goes through its steps. -/
theorem steps_of_run (hlogs : before.LogsThere)
    (h : (run path outputDirectory marker).run.run before = (.ok generation, after)) :
    ∃ settings first second third,
      Workspace.root before.files path marker = .ok generation.root ∧
      Reported before first ∧
      Settings.load Settings.reader first.files generation.root = .ok settings ∧
      (Extract.ofSettings settings generation.root).run.run first =
        (.ok generation.extract, second) ∧
      (generation.extract.catalogs.write
        (outputDirectory.getD (settings.outputPath generation.root))).run.run second =
        (.ok generation.written, third) ∧
      third.LogsThere ∧ Reported third after := by
  obtain ⟨root, hroot, hrest⟩ := run_inquire_bind_ok_iff.mp h
  rw [run_bind_of_ok (run_report _ _ _)] at hrest
  generalize hfirst : Session.report _ _ = first at hrest
  have hbefore := hfirst ▸ reported_report _ hlogs
  obtain ⟨settings, hsettings, hrest⟩ := run_inquire_bind_ok_iff.mp hrest
  obtain ⟨extract, second, hextract, hrest⟩ := run_bind_ok_iff.mp hrest
  obtain ⟨written, third, hwritten, hrest⟩ := run_bind_ok_iff.mp hrest
  have hsecond := Extract.onlyReports_ofSettings _ _ _ _ _ hbefore.logsThere hextract
  have hthird : third.LogsThere := by
    intro place hplace
    rw [Catalogs.journal_of_write hwritten] at hplace
    exact (Catalogs.grows_write hwritten).entry?_file (hsecond.logsThere place hplace)
  have hafter := onlyReports_bind (onlyReports_report _ _ _) (fun _ =>
    onlyReports_bind (onlyReports_report _ _ _) fun _ =>
    onlyReports_bind (onlyReports_report _ _ _) fun _ => onlyReports_pure _) _ _ _ hthird hrest
  rw [run_bind_of_ok (run_report _ _ _), run_bind_of_ok (run_report _ _ _),
    run_bind_of_ok (run_report _ _ _), run_pure] at hrest
  injection hrest with hgeneration
  injection hgeneration with hgeneration
  subst hgeneration
  exact ⟨settings, first, second, third, hroot, hbefore, hsettings, hextract, hwritten, hthird,
    hafter⟩

/-- Where no log file is the settings file, the settings of the steps are those that the root has
before the run. -/
theorem steps_of_run_of_load {file : Path} (hlogs : before.LogsThere)
    (hfile : Settings.filePath before.files generation.root = .ok file)
    (havoids : before.files.Avoids before.journal.logs file)
    (hsettings : Settings.load Settings.reader before.files generation.root = .ok settings)
    (h : (run path outputDirectory marker).run.run before = (.ok generation, after)) :
    ∃ first second third,
      Workspace.root before.files path marker = .ok generation.root ∧
      Reported before first ∧
      (Extract.ofSettings settings generation.root).run.run first =
        (.ok generation.extract, second) ∧
      (generation.extract.catalogs.write
        (outputDirectory.getD (settings.outputPath generation.root))).run.run second =
        (.ok generation.written, third) ∧
      third.LogsThere ∧ Reported third after := by
  obtain ⟨loaded, first, second, third, hroot, hfirst, hloaded, hrest⟩ := steps_of_run hlogs h
  rw [load_of_reported hfirst hfile havoids hsettings] at hloaded
  injection hloaded with hloaded
  subst hloaded
  exact ⟨first, second, third, hroot, hfirst, hrest⟩

end Generation

end SdkCatalog
