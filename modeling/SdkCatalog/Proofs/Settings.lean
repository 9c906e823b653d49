import SdkCatalog.Proofs.Files.Contents
import SdkCatalog.Settings

/-! Settings of a workspace: where they are read from, and when files have the same ones. -/

namespace SdkCatalog

open Files

variable {read : Yaml.Reader} {files later : Files} {places : List Location} {path : Path}

namespace Settings

theorem single_settingsFile : Path.Single settingsFile := ⟨by decide, by decide⟩

theorem load_eq_ok_iff {settings : Settings} :
    load read files path = .ok settings ↔ ∃ file root, filePath files path = .ok file ∧
      files.resolve file.parent = .ok root ∧
      ((files.present file = true ∧ ∃ cs, files.text file = .ok cs ∧
          ofText read root file.name cs = .ok settings) ∨
        (files.present file = false ∧ settings = { root })) := by
  simp only [load, bind_eq_ok_iff, mapError_eq_ok_iff]
  refine exists_congr fun file => ?_
  rw [← exists_and_left]
  refine exists_congr fun root => ?_
  refine and_congr_right fun _ => and_congr_right fun _ => ?_
  cases files.present file with
  | false => simp [pure, Except.pure, eq_comm]
  | true => simp only [if_pos, bind_eq_ok_iff, mapError_eq_ok_iff]; simp

end Settings

theorem Files.SameBut.filePath (h : SameBut places files later) (path : Path) :
    Settings.filePath later path = Settings.filePath files path := by
  rw [Settings.filePath, Settings.filePath, h.expandHome]
  simp only [h.isDirectory, h.resolve]

theorem Files.SameBut.text_ok (h : SameBut places files later) (havoids : files.Avoids places path)
    {cs : List Char} (htext : files.text path = .ok cs) : later.text path = .ok cs := by
  obtain ⟨content, hbytes, hcontent⟩ := text_eq_ok_iff.mp htext
  exact text_eq_ok_iff.mpr ⟨content, h.bytes_ok havoids hbytes, hcontent⟩

theorem Files.SameBut.load (h : SameBut places files later)
    (havoids : ∀ file, Settings.filePath files path = .ok file → files.Avoids places file)
    {settings : Settings} (hload : Settings.load read files path = .ok settings) :
    Settings.load read later path = .ok settings := by
  obtain ⟨file, root, hfile, hroot, hsettings⟩ := Settings.load_eq_ok_iff.mp hload
  refine Settings.load_eq_ok_iff.mpr
    ⟨file, root, (h.filePath path).trans hfile, (h.resolve _).trans hroot, ?_⟩
  rw [h.present]
  rcases hsettings with ⟨hpresent, cs, htext, hsettings⟩ | hsettings
  · exact .inl ⟨hpresent, cs, h.text_ok (havoids file hfile) htext, hsettings⟩
  · exact .inr hsettings

end SdkCatalog
