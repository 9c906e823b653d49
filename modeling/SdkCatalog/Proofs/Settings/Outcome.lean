import SdkCatalog.Proofs.Files.Resolution
import SdkCatalog.Proofs.Settings.Entries

/-! The outcome of loading the settings of a directory, for any bytes of its settings file and any
reader. A failure that is not told as one of the settings has one of three reasons: the bytes are no
text, the reader fails on what it does not call malformed, or a number is too long to be written. -/

namespace SdkCatalog.Settings

open Files
open Yaml (Value)

variable {read : Yaml.Reader} {files : Files} {path directory root : Path} {file : String}
  {content : List UInt8} {failure : Failure}

/-- The bytes of a settings file spell a text that is not blank. -/
def Spells (content : List UInt8) (cs : List Char) : Prop :=
  Files.textOf content = .ok cs ∧ cs.all Text.isBlank = false

/-- How a settings file fails with what is no failure of the settings. -/
inductive Escapes (read : Yaml.Reader) (content : List UInt8) : Failure → Prop
  /-- The bytes of the file are no text. -/
  | undecodable {fault : Utf8.Fault} :
    Utf8.decode content = .error fault → Escapes read content (.undecodable fault)
  /-- The reader fails, though not on a malformed text, as for an impossible date. -/
  | unread {cs : List Char} {fault : Yaml.Fault} :
    Spells content cs → read cs = .error fault → fault ≠ .malformed →
    Escapes read content (.settingsUnread fault)
  /-- A number that is read for a text is too long to be written. -/
  | numberTooLong {cs : List Char} {value : Value} :
    Spells content cs → read cs = .ok value → Rejects value .numberTooLong →
    Escapes read content .numberTooLong

theorem Escapes.not_isOfSettings (h : Escapes read content failure) : ¬failure.IsOfSettings := by
  cases h <;> simp [Failure.IsOfSettings]

/-! ### The outcome for a content -/

/-- The settings that the bytes of a file make below a root. -/
def ofContent (read : Yaml.Reader) (root : Path) (file : String) (content : List UInt8) :
    Except Failure Settings :=
  (Files.textOf content).mapError .ofTextFault >>= ofText read root file

theorem ofContent_undecodable {fault : Utf8.Fault} (h : Utf8.decode content = .error fault) :
    ofContent read root file content = .error (.undecodable fault) := by
  simp only [ofContent, Files.textOf, h, Except.mapError, Except.map, bind, Except.bind,
    Failure.ofTextFault]

theorem ofContent_text {cs : List Char} (h : Files.textOf content = .ok cs) :
    ofContent read root file content = ofText read root file cs := by
  simp only [ofContent, h, Except.mapError, bind, Except.bind]

theorem ofText_of_error {cs : List Char} {fault : Yaml.Fault} (hblank : cs.all Text.isBlank = false)
    (hread : read cs = .error fault) (hfault : fault ≠ .malformed) :
    ofText read root file cs = .error (.settingsUnread fault) := by
  rw [ofText, if_neg (by simp [hblank]), hread]
  cases fault with
  | malformed => exact absurd rfl hfault
  | scalar | other => rfl

theorem ofContent_of_escapes (h : Escapes read content failure) :
    ofContent read root file content = .error failure := by
  cases h with
  | undecodable hdecode => exact ofContent_undecodable hdecode
  | unread hspells hread hfault =>
    rw [ofContent_text hspells.1, ofText_of_error hspells.2 hread hfault]
  | numberTooLong hspells hread hrejects =>
    rw [ofContent_text hspells.1, ofText, if_neg (by simp [hspells.2]), hread]
    exact hrejects.ofValue root

/-- A content makes settings, or fails with a failure of the settings or in one of the ways that
escape. -/
theorem of_ofContent_eq_error (h : ofContent read root file content = .error failure) :
    failure.IsOfSettings ∨ Escapes read content failure := by
  cases hdecode : Utf8.decode content with
  | error fault =>
    rw [ofContent_undecodable hdecode] at h
    injection h with h
    exact .inr (h ▸ .undecodable hdecode)
  | ok decoded =>
    have htext : Files.textOf content = .ok (Text.unifyBreaks decoded) := by
      rw [Files.textOf, hdecode]
      rfl
    rw [ofContent_text htext, ofText] at h
    split at h
    · simp at h
    · next hblank =>
      have hspells : Spells content (Text.unifyBreaks decoded) := ⟨htext, by simpa using hblank⟩
      split at h
      · next value hread =>
        have hrejects := ofValue_eq_error_iff.mp h
        cases failure with
        | settingsNotMapping | noClassSuffix => exact .inl trivial
        | numberTooLong => exact .inr (.numberTooLong hspells hread hrejects)
        | _ => cases hrejects
      · next hread =>
        injection h with h
        exact .inl (h ▸ trivial)
      · next fault hmalformed hread =>
        injection h with h
        exact .inr (h ▸ .unread hspells hread fun heq => hmalformed (heq ▸ rfl))

/-! ### The outcome for a directory -/

/-- The settings file of a directory is read from where it stands. -/
theorem load_of_bytes (read : Yaml.Reader) (hsound : files.Sound)
    (hhome : files.expandHome path = some directory)
    (hdirectory : files.isDirectory directory = true)
    (hbytes : files.bytes (directory.child settingsFile) = .ok content) :
    ∃ root file, load read files path = ofContent read root file content := by
  obtain ⟨place, hfind⟩ := bytes_eq_ok_iff.mp hbytes
  obtain ⟨hentry, hlink⟩ := hsound.stands_of_find hfind
  have hagain := hsound.find_absolute hentry hlink
  obtain ⟨parent, name, rfl⟩ : ∃ parent name, place = parent ++ [name] := by
    rcases List.eq_nil_or_concat' place with rfl | hplace
    · simp [FileTree.entry?] at hentry
    · exact hplace
  have hfile : filePath files path = .ok (.absolute (parent ++ [name])) := by
    simp only [filePath, hhome, hdirectory, if_pos, hsound.resolve_of_find hfind, Except.mapError]
  have hroot :
      files.resolve (Path.absolute (parent ++ [name])).parent = .ok (.absolute parent) := by
    rw [Path.parent, Path.absolute, List.dropLast_concat]
    exact hsound.resolve_absolute (hsound.grounded _ _ _ hentry).1 (by simp)
  have hpresent := present_of_find hagain
  have htext : files.text (.absolute (parent ++ [name])) = Files.textOf content := by
    rw [text, bytes_eq_ok_iff.mpr ⟨_, hagain⟩]
    rfl
  refine ⟨.absolute parent, (Path.absolute (parent ++ [name])).name, ?_⟩
  rw [load_of_present hfile hroot hpresent, htext]
  rfl

/-- Loading the settings of a directory fails with what is no failure of the settings exactly where
its settings file does so, whatever bytes that holds and whatever the reader makes of them. -/
theorem escapes_of_load (hsound : files.Sound) (hhome : files.expandHome path = some directory)
    (hdirectory : files.isDirectory directory = true)
    (hbytes : files.bytes (directory.child settingsFile) = .ok content) (failure : Failure) :
    load read files path = .error failure ∧ ¬failure.IsOfSettings ↔
      Escapes read content failure := by
  obtain ⟨root, file, hload⟩ := load_of_bytes read hsound hhome hdirectory hbytes
  rw [hload]
  constructor
  · exact fun h => (of_ofContent_eq_error h.1).resolve_left h.2
  · exact fun h => ⟨ofContent_of_escapes h, h.not_isOfSettings⟩

/-- A date that its month does not have, in a directory behind a link. -/
theorem escapes_of_load_date :
    let text := "sources:\n  client: 2023-02-30\n"
    let path := Path.mk .relative ["way"]
    let files : Files := ⟨⟨[(["w"], .directory), (["way"], .link "w"),
      (["w", settingsFile], .file (Utf8.encode text.toList))], by decide⟩, [], "/"⟩
    files.Sound ∧ files.expandHome path = some path ∧ files.isDirectory path = true ∧
      files.bytes (path.child settingsFile) = .ok (Utf8.encode text.toList) ∧
      load reader files path = .error (.settingsUnread (.scalar .dayRange)) := by
  intro text path files
  have hfiles : files.Sound ∧ files.expandHome path = some path ∧ files.isDirectory path = true ∧
      files.bytes (path.child settingsFile) = .ok (Utf8.encode text.toList) := by decide +kernel
  have htext : Files.textOf (Utf8.encode text.toList) = .ok text.toList ∧
      text.toList.all Text.isBlank = false := by decide +kernel
  have hread : (match reader text.toList with
      | .ok _ => false
      | .error fault => decide (fault = .scalar .dayRange)) = true := by decide +kernel
  clear_value files path text
  obtain ⟨hsound, hhome, hdirectory, hbytes⟩ := hfiles
  have hescapes : Escapes reader (Utf8.encode text.toList)
      (.settingsUnread (.scalar .dayRange)) := by
    cases hvalue : reader text.toList with
    | ok value => simp [hvalue] at hread
    | error fault =>
      rw [hvalue] at hread
      obtain rfl := of_decide_eq_true hread
      exact .unread htext hvalue (by simp)
  exact ⟨hsound, hhome, hdirectory, hbytes,
    ((escapes_of_load hsound hhome hdirectory hbytes _).mpr hescapes).1⟩

/-- A byte that begins no character is a failure, but none of the settings, whatever the reader. -/
theorem settings_escape_on_stray_byte :
    let files : Files := ⟨⟨[([settingsFile], .file [0xFF])], by decide⟩, [], "/"⟩
    files.Sound ∧ ∀ read, ∃ failure, load read files (.absolute []) = .error failure ∧
      ¬failure.IsOfSettings := by
  intro files
  have hfiles : files.Sound ∧ files.expandHome (.absolute []) = some (.absolute []) ∧
      files.isDirectory (.absolute []) = true ∧
      files.bytes ((Path.absolute []).child settingsFile) = .ok [0xFF] ∧
      Utf8.decode [0xFF] = .error ⟨0xFF, 0, 1, .invalidStart⟩ := by decide +kernel
  obtain ⟨hsound, hhome, hdirectory, hbytes, hdecode⟩ := hfiles
  refine ⟨hsound, fun read => ?_⟩
  obtain ⟨root, file, hload⟩ := load_of_bytes read hsound hhome hdirectory hbytes
  exact ⟨_, hload.trans (ofContent_undecodable hdecode), fun h => h⟩

end SdkCatalog.Settings
