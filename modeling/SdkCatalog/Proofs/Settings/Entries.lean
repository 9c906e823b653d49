import Mathlib.Logic.Basic
import SdkCatalog.Proofs.Settings

/-! What each entry of a settings file decides. A setting is read at one place, and what stands
there alone decides it, while everything else in the file may be what it likes. -/

namespace SdkCatalog

open Files

/-! ### What is written in a value -/

namespace Yaml.Value

variable {part key : String} {value : Value} {pairs : List (Value × Value)}

/-- The values under a text in a mapping, in order. -/
def under (key : String) (pairs : List (Value × Value)) : List Value :=
  pairs.filterMap fun (name, value) =>
    match name with
    | .text name => if name = key then some value else none
    | _ => none

/-- What is written under a key of a section: nothing, unless the value and the section are both
mappings. -/
def written (part key : String) : Value → List Value
  | .mapping pairs =>
    match (under part pairs).getLast? with
    | some (.mapping entries) => under key entries
    | _ => []
  | _ => []

/-- The entry under a key of a section. -/
def lookup? (part key : String) (value : Value) : Option Value :=
  (value.written part key).getLast?

/-- The text that a value is. -/
def text? : Value → Option String
  | .text value => some value
  | _ => none

/-- The text that a setting takes from an entry: a text that is not empty, or a number as it is
written. -/
def shown? : Value → Option String
  | .text value => if value = "" then none else some value
  | .number (.int value) => some (String.ofList (intText value))
  | .number (.float value) => some (String.ofList (value.textWith "inf" "nan"))
  | _ => none

/-- The class suffixes that an entry gives. -/
def suffixes : Value → List String
  | .text value => [value]
  | .sequence items => (items.filterMap text?).filter (· ≠ "")
  | _ => []

/-- The value is a whole number with too many digits to be written. -/
def isOverlong : Value → Bool
  | .number value => !value.isWritable
  | _ => false

/-- The value could be the sections of a settings file. -/
def holdsSections : Value → Bool
  | .null | .mapping _ => true
  | _ => false

theorem get?_eq_getLast? : get? key pairs = (under key pairs).getLast? := by
  induction pairs with
  | nil => rfl
  | cons pair rest ih =>
    obtain ⟨name, value⟩ := pair
    simp only [get?, ih, under, List.filterMap_cons]
    cases name with
    | text name =>
      by_cases hname : name = key
      · simp only [if_pos hname, List.getLast?_cons]
        cases (List.filterMap _ rest).getLast? <;> rfl
      · simp only [if_neg hname]
        cases (List.filterMap _ rest).getLast? <;> rfl
    | _ => cases (List.filterMap _ rest).getLast? <;> rfl

theorem get?_pairsOf :
    get? key (Settings.pairsOf (get? part pairs)) = (Value.mapping pairs).lookup? part key := by
  rw [get?_eq_getLast?, get?_eq_getLast?, lookup?, written, Settings.pairsOf.eq_def]
  cases hpart : (under part pairs).getLast? with
  | none => rfl
  | some section' => cases section' <;> rfl

theorem suffixesOf_eq (value : Value) : Settings.suffixesOf value = value.suffixes := by
  cases value with
  | sequence items =>
    rw [Settings.suffixesOf, suffixes, List.filter_filterMap]
    refine List.filterMap_congr fun item _ => ?_
    cases item with
    | text item => by_cases hitem : item = "" <;> simp [hitem, text?, Option.filter]
    | _ => rfl
  | _ => rfl

end Yaml.Value

/-! ### The text of a number -/

theorem intText_ne_nil (value : Int) : intText value ≠ [] := by
  have hdigits := Nat.toDigits_ne_nil (n := value.natAbs) (b := 10)
  rw [intText]
  split
  · exact List.cons_ne_nil _ _
  · exact hdigits

theorem Double.magnitudeText_ne_nil (d : Double) : d.magnitudeText ≠ [] := by
  rw [magnitudeText]
  split
  · decide
  · simp only [plainText, exponentText]
    split
    · split <;> simp
    · simp

theorem FloatingPoint.textWith_ne_nil (value : FloatingPoint) :
    value.textWith "inf" "nan" ≠ [] := by
  match value with
  | .finite d =>
    have hmagnitude := d.magnitudeText_ne_nil
    simp only [textWith, Double.text, String.toList_ofList]
    split
    · exact List.cons_ne_nil _ _
    · exact hmagnitude
  | .infinite false => decide
  | .infinite true => decide
  | .nan => decide

namespace Settings

open Yaml (Value)

theorem override_of_text {entry : Option Value} {text : String} (default : String)
    (h : textOf entry = .ok (some text)) (hne : text ≠ "") : override entry default = .ok text := by
  rw [override, h, Except.map]
  split
  · next hempty =>
    injection hempty with hempty
    exact absurd hempty hne
  · next hnone => simp at hnone
  · next hsome =>
    injection hsome with hsome
    rw [hsome]

/-- An entry makes a setting of its text, the default stands where it has none, and a number that is
too long to be written is refused. -/
theorem override_eq (entry : Option Value) (default : String) :
    override entry default =
      if entry.any Value.isOverlong then .error .numberTooLong
      else .ok ((entry.bind Value.shown?).getD default) := by
  have hne : ∀ cs : List Char, cs ≠ [] → String.ofList cs ≠ "" := by
    intro cs hcs h
    exact hcs (by simpa using congrArg String.toList h)
  match entry with
  | some (.text value) =>
    by_cases hvalue : value = ""
    · subst hvalue
      rfl
    · rw [override_of_text default rfl hvalue]
      simp [Value.isOverlong, Value.shown?, hvalue]
  | some (.number (.int value)) =>
    cases hwritable : (Number.int value).isWritable with
    | false => simp [override, textOf, Value.isOverlong, hwritable, Except.map]
    | true =>
      have htext : textOf (some (.number (.int value))) = .ok (String.ofList (intText value)) := by
        rw [textOf, if_pos hwritable]
      rw [override_of_text default htext (hne _ (intText_ne_nil value))]
      simp [Value.isOverlong, Value.shown?, hwritable]
  | some (.number (.float value)) =>
    rw [override_of_text default rfl (hne _ value.textWith_ne_nil)]
    rfl
  | none | some .null | some (.bool _) | some (.binary _) | some (.timestamp _)
  | some (.sequence _) | some (.mapping _) | some (.set _) | some (.pairs _) | some .deeper => rfl

end Settings

/-! ### The settings of a value -/

/-- The settings that are texts. -/
inductive Setting where
  | sdkDirectory
  | client
  | events
  | messageConfig
  | messagesDirectory
  | contentTypes
  | persistFlags
  | outputDirectory
  | typeNamespace

namespace Setting

open Yaml (Value)

def part : Setting → String
  | outputDirectory => "output"
  | typeNamespace => "extraction"
  | _ => "sources"

/-- The key of a setting in its section. -/
def key : Setting → String
  | sdkDirectory => "sdk_dir"
  | client => "client"
  | events => "events"
  | messageConfig => "message_config"
  | messagesDirectory => "messages_dir"
  | contentTypes => "content_types"
  | persistFlags => "persist_flags"
  | outputDirectory => "dir"
  | typeNamespace => "type_namespace"

def of (settings : Settings) : Setting → String
  | sdkDirectory => settings.sdkDirectory
  | client => settings.client
  | events => settings.events
  | messageConfig => settings.messageConfig
  | messagesDirectory => settings.messagesDirectory
  | contentTypes => settings.contentTypes
  | persistFlags => settings.persistFlags
  | outputDirectory => settings.outputDirectory
  | typeNamespace => settings.typeNamespace

def written (setting : Setting) (value : Value) : List Value :=
  value.written setting.part setting.key

def lookup? (setting : Setting) (value : Value) : Option Value :=
  value.lookup? setting.part setting.key

/-- A number too long to be written stands for a setting. -/
def isOverlong (value : Value) (setting : Setting) : Bool :=
  (setting.lookup? value).any Value.isOverlong

/-- The text that a value gives a setting, or its default. -/
def given (root : Path) (value : Value) (setting : Setting) : String :=
  ((setting.lookup? value).bind Value.shown?).getD (setting.of { root })

/-- The settings that are read before the class suffixes, in order. -/
def beforeSuffixes : List Setting :=
  [sdkDirectory, client, events, messageConfig, messagesDirectory, contentTypes, persistFlags,
    outputDirectory]

def all : List Setting :=
  beforeSuffixes ++ [typeNamespace]

theorem mem_all (setting : Setting) : setting ∈ all := by
  cases setting <;> simp [all, beforeSuffixes]

end Setting

namespace Settings

open Yaml (Value)

variable {root : Path} {value : Value} {setting : Setting}

/-- The settings below a root with the given texts and class suffixes. -/
def ofTexts (root : Path) (text : Setting → String) (classSuffixes : List String) : Settings where
  root := root
  sdkDirectory := text .sdkDirectory
  client := text .client
  events := text .events
  messageConfig := text .messageConfig
  messagesDirectory := text .messagesDirectory
  contentTypes := text .contentTypes
  persistFlags := text .persistFlags
  outputDirectory := text .outputDirectory
  classSuffixes := classSuffixes
  typeNamespace := text .typeNamespace

@[simp] theorem of_ofTexts {text : Setting → String} {classSuffixes : List String} :
    setting.of (ofTexts root text classSuffixes) = text setting := by
  cases setting <;> rfl

def suffixLookup? (value : Value) : Option Value :=
  value.lookup? "extraction" "class_suffixes"

/-- The class suffixes that a value gives, or the default ones. -/
def suffixesGiven (value : Value) : List String :=
  ((suffixLookup? value).map Value.suffixes).getD [".js", ".ts"]

theorem override_bind {α : Type} (entry : Option Value) (default : String)
    (next : String → Except Failure α) :
    (override entry default >>= next) =
      if entry.any Value.isOverlong then .error .numberTooLong
      else next ((entry.bind Value.shown?).getD default) := by
  rw [override_eq]
  split <;> rfl

theorem classSuffixesOf_bind {α : Type} (pairs : List (Value × Value))
    (next : List String → Except Failure α) :
    (classSuffixesOf (pairsOf (Value.get? "extraction" pairs)) [".js", ".ts"] >>= next) =
      if (suffixLookup? (.mapping pairs)).any (·.suffixes = []) then .error .noClassSuffix
      else next (suffixesGiven (.mapping pairs)) := by
  rw [classSuffixesOf, Value.get?_pairsOf, suffixesGiven, suffixLookup?]
  cases (Value.mapping pairs).lookup? "extraction" "class_suffixes" with
  | none => rfl
  | some entry =>
    simp only [Value.suffixesOf_eq, Option.any_some, Option.map_some, Option.getD_some]
    cases hsuffixes : entry.suffixes <;> rfl

theorem ofPairs_eq (root : Path) (pairs : List (Value × Value)) :
    ofPairs root pairs =
      if Setting.beforeSuffixes.any (Setting.isOverlong (.mapping pairs)) then
        .error .numberTooLong
      else if (suffixLookup? (.mapping pairs)).any (·.suffixes = []) then .error .noClassSuffix
      else if Setting.typeNamespace.isOverlong (.mapping pairs) then .error .numberTooLong
      else .ok (ofTexts root (Setting.given root (.mapping pairs))
        (suffixesGiven (.mapping pairs))) := by
  simp only [ofPairs, Value.get?_pairsOf, override_bind, classSuffixesOf_bind, ← ite_or]
  simp only [Setting.beforeSuffixes, List.any_cons, List.any_nil, Bool.or_eq_true, Bool.or_false]
  rfl

/-- What a value makes below a root, in the order in which it is looked at. -/
theorem ofValue_eq (root : Path) (value : Value) :
    ofValue root value =
      if value.holdsSections = false then .error .settingsNotMapping
      else if Setting.beforeSuffixes.any (Setting.isOverlong value) then .error .numberTooLong
      else if (suffixLookup? value).any (·.suffixes = []) then .error .noClassSuffix
      else if Setting.typeNamespace.isOverlong value then .error .numberTooLong
      else .ok (ofTexts root (Setting.given root value) (suffixesGiven value)) := by
  cases value with
  | mapping pairs => exact ofPairs_eq root pairs
  | _ => rfl

end Settings

/-! ### The settings of a file -/

/-- A failure that the settings tell as their own: their file cannot be parsed, or holds what cannot
be settings. -/
def Failure.IsOfSettings : Failure → Prop
  | .settingsNotMapping | .noClassSuffix | .settingsMalformed _ => True
  | _ => False

namespace Settings

open Yaml (Value)

variable {read : Yaml.Reader} {files : Files} {path root otherRoot : Path} {value other : Value}

/-- The settings file for a path is in the directory that is the root, and holds a value, as a
reader takes it. A blank file holds null. -/
def Holds (read : Yaml.Reader) (files : Files) (path root : Path) (value : Value) : Prop :=
  ∃ file cs, filePath files path = .ok file ∧ files.resolve file.parent = .ok root ∧
    files.text file = .ok cs ∧
    if cs.all Text.isBlank then value = .null else read cs = .ok value

theorem exists_holds {file : Path} {cs : List Char} {p : Value → Bool}
    (hfile : filePath files path = .ok file) (hroot : files.resolve file.parent = .ok root)
    (htext : files.text file = .ok cs) (hblank : cs.all Text.isBlank = false)
    (hread : (read cs).toOption.any p = true) :
    ∃ value, Holds read files path root value ∧ p value = true := by
  cases hvalue : read cs with
  | error fault => simp [hvalue, Except.toOption] at hread
  | ok value =>
    rw [hvalue] at hread
    exact ⟨value, ⟨file, cs, hfile, hroot, htext, by rwa [hblank]⟩, hread⟩

/-- A value that cannot be settings: it is no mapping of sections, or class suffixes are given that
name none. -/
def Refused (value : Value) : Prop :=
  value.holdsSections = false ∨ ∃ entry, suffixLookup? value = some entry ∧ entry.suffixes = []

theorem present_of_find {place : Location} {entry : Entry}
    (h : files.find path = .ok (.entry place entry)) : files.present path = true := by
  rw [present, Files.entry?, h]
  rfl

theorem load_of_present {file : Path} (hfile : filePath files path = .ok file)
    (hroot : files.resolve file.parent = .ok root) (hpresent : files.present file = true) :
    load read files path =
      (files.text file).mapError .ofTextFault >>= ofText read root file.name := by
  simp only [load, hfile, hroot, hpresent, if_pos, Except.mapError, bind, Except.bind]

theorem load_eq_ofText {file : Path} {cs : List Char} (hfile : filePath files path = .ok file)
    (hroot : files.resolve file.parent = .ok root) (htext : files.text file = .ok cs) :
    load read files path = ofText read root file.name cs := by
  have hpresent : files.present file = true := by
    obtain ⟨content, hbytes, -⟩ := text_eq_ok_iff.mp htext
    obtain ⟨place, hfound⟩ := bytes_eq_ok_iff.mp hbytes
    exact present_of_find hfound
  rw [load_of_present hfile hroot hpresent, htext]
  rfl

theorem load_of_holds (h : Holds read files path root value) :
    load read files path = ofValue root value := by
  obtain ⟨file, cs, hfile, hroot, htext, hvalue⟩ := h
  rw [load_eq_ofText hfile hroot htext, ofText]
  split at hvalue
  · next hblank => rw [if_pos hblank, hvalue, ofValue]
  · next hblank => rw [if_neg hblank, hvalue]

theorem refused_iff : Refused value ↔
    value.holdsSections = false ∨ (suffixLookup? value).any (·.suffixes = []) = true := by
  rw [Refused, Option.any_eq_true]
  simp

instance : Decidable (Refused value) :=
  decidable_of_iff _ refused_iff.symm

/-- Why a value makes no settings: it is refused, or a setting is a number that is too long to be
written. Such a number is seen before the class suffixes or after them. -/
inductive Rejects (value : Value) : Failure → Prop
  | notSections : value.holdsSections = false → Rejects value .settingsNotMapping
  | overlong {setting : Setting} : setting ∈ Setting.beforeSuffixes →
    setting.isOverlong value = true → Rejects value .numberTooLong
  | noSuffix {entry : Value} :
    (∀ setting ∈ Setting.beforeSuffixes, setting.isOverlong value = false) →
    suffixLookup? value = some entry → entry.suffixes = [] → Rejects value .noClassSuffix
  | overlongNamespace : ¬Refused value → Setting.typeNamespace.isOverlong value = true →
    Rejects value .numberTooLong

theorem holdsSections_of_lookup? {part key : String} {entry : Value}
    (h : value.lookup? part key = some entry) : value.holdsSections = true := by
  cases value with
  | mapping pairs => rfl
  | _ => simp [Value.lookup?, Value.written] at h

theorem Rejects.ofValue {failure : Failure} (h : Rejects value failure) (root : Path) :
    ofValue root value = .error failure := by
  rw [ofValue_eq]
  cases h with
  | notSections h => exact if_pos h
  | overlong hsetting hlong =>
    obtain ⟨entry, hentry, -⟩ := (Option.any_eq_true _ _).mp hlong
    rw [if_neg (by simp [holdsSections_of_lookup? hentry])]
    exact if_pos (List.any_eq_true.mpr ⟨_, hsetting, hlong⟩)
  | noSuffix hshort hentry hnone =>
    rw [if_neg (by simp [holdsSections_of_lookup? hentry]), if_neg (by simpa using hshort)]
    exact if_pos (by simp [hentry, hnone])
  | overlongNamespace hnot hlong =>
    rw [refused_iff, not_or] at hnot
    rw [if_neg hnot.1, if_neg hnot.2, if_pos hlong, ite_self]

/-- A value makes settings from its entries, or there is a reason against it. -/
theorem ofValue_cases (root : Path) (value : Value) :
    (ofValue root value = .ok (ofTexts root (Setting.given root value) (suffixesGiven value)) ∧
      ¬Refused value ∧ ∀ setting : Setting, setting.isOverlong value = false) ∨
    ∃ failure, Rejects value failure := by
  by_cases hbefore : ∃ setting ∈ Setting.beforeSuffixes, setting.isOverlong value = true
  · obtain ⟨setting, hsetting, hlong⟩ := hbefore
    exact .inr ⟨_, .overlong hsetting hlong⟩
  have hbefore : ∀ setting ∈ Setting.beforeSuffixes, setting.isOverlong value = false := by
    simpa using hbefore
  by_cases hrefused : Refused value
  · rcases hrefused with hsections | ⟨entry, hentry, hnone⟩
    · exact .inr ⟨_, .notSections hsections⟩
    · exact .inr ⟨_, .noSuffix hbefore hentry hnone⟩
  cases hnamespace : Setting.typeNamespace.isOverlong value with
  | true => exact .inr ⟨_, .overlongNamespace hrefused hnamespace⟩
  | false =>
    refine .inl ⟨?_, hrefused, fun setting => ?_⟩
    · rw [refused_iff, not_or] at hrefused
      rw [ofValue_eq, if_neg hrefused.1, if_neg (by simpa using hbefore), if_neg hrefused.2,
        hnamespace]
      rfl
    · rcases List.mem_append.mp (Setting.mem_all setting) with hsetting | hsetting
      · exact hbefore setting hsetting
      · rwa [List.mem_singleton.mp hsetting]

theorem ofValue_eq_error_iff {failure : Failure} :
    ofValue root value = .error failure ↔ Rejects value failure := by
  refine ⟨fun h => ?_, fun h => h.ofValue root⟩
  rcases ofValue_cases root value with ⟨hok, -⟩ | ⟨other, hother⟩
  · simp [hok] at h
  · rw [hother.ofValue root] at h
    injection h with h
    exact h ▸ hother

theorem Rejects.refused {failure : Failure} (h : Rejects value failure)
    (hshort : ∀ setting : Setting, setting.isOverlong value = false) :
    Refused value ∧ failure.IsOfSettings := by
  cases h with
  | notSections hsections => exact ⟨.inl hsections, trivial⟩
  | noSuffix _ hentry hnone => exact ⟨.inr ⟨_, hentry, hnone⟩, trivial⟩
  | overlong _ hlong | overlongNamespace _ hlong => simp [hshort] at hlong

theorem of_ofValue_eq_ok {settings : Settings} (h : ofValue root value = .ok settings) :
    ¬Refused value ∧ settings = ofTexts root (Setting.given root value) (suffixesGiven value) := by
  rcases ofValue_cases root value with ⟨hok, hnot, -⟩ | ⟨failure, hrejects⟩
  · rw [hok] at h
    injection h with h
    exact ⟨hnot, h.symm⟩
  · simp [hrejects.ofValue root] at h

/-- The default of a setting is the same below every root. -/
theorem of_default (root otherRoot : Path) (setting : Setting) :
    setting.of { root } = setting.of { root := otherRoot } := by
  cases setting <;> rfl

theorem given_congr {setting : Setting} (h : setting.written value = setting.written other) :
    setting.given root value = setting.given otherRoot other := by
  have hentry : setting.lookup? value = setting.lookup? other := congrArg List.getLast? h
  rw [Setting.given, Setting.given, hentry, of_default root otherRoot]

def suffixesWritten (value : Value) : List Value :=
  value.written "extraction" "class_suffixes"

theorem suffixesGiven_congr (h : suffixesWritten value = suffixesWritten other) :
    suffixesGiven value = suffixesGiven other := by
  have hentry : suffixLookup? value = suffixLookup? other := congrArg List.getLast? h
  rw [suffixesGiven, suffixesGiven, hentry]

/-- Settings are refused only for a file that is no mapping or for class suffixes without any. All
others load, each from its own entry or its default, and whatever else is written in the file
changes none of them. -/
theorem load_by_entries (h : Holds read files path root value)
    (hshort : ∀ setting : Setting, setting.isOverlong value = false) :
    ((∃ failure, load read files path = .error failure ∧ failure.IsOfSettings) ↔ Refused value) ∧
    (¬Refused value → ∃ settings, load read files path = .ok settings ∧ settings.root = root ∧
      (∀ setting : Setting, setting.of settings = setting.given root value) ∧
      settings.classSuffixes = suffixesGiven value) ∧
    ∀ {others otherPath otherRoot other}, Holds read others otherPath otherRoot other →
      ∀ {settings otherSettings}, load read files path = .ok settings →
        load read others otherPath = .ok otherSettings →
        (∀ setting : Setting, setting.written value = setting.written other →
          setting.of settings = setting.of otherSettings) ∧
        (suffixesWritten value = suffixesWritten other →
          settings.classSuffixes = otherSettings.classSuffixes) := by
  rw [load_of_holds h]
  refine ⟨⟨fun hfails => ?_, fun hrefused => ?_⟩, fun hnot => ?_, ?_⟩
  · obtain ⟨failure, hfailure, -⟩ := hfails
    exact ((ofValue_eq_error_iff.mp hfailure).refused hshort).1
  · rcases ofValue_cases root value with ⟨-, hnot, -⟩ | ⟨failure, hrejects⟩
    · exact absurd hrefused hnot
    · exact ⟨failure, hrejects.ofValue root, (hrejects.refused hshort).2⟩
  · rcases ofValue_cases root value with ⟨hok, -⟩ | ⟨failure, hrejects⟩
    · exact ⟨_, hok, rfl, fun _ => of_ofTexts, rfl⟩
    · exact absurd (hrejects.refused hshort).1 hnot
  · intro others otherPath otherRoot other hother settings otherSettings hload hloadOther
    rw [load_of_holds hother] at hloadOther
    obtain ⟨-, rfl⟩ := of_ofValue_eq_ok hload
    obtain ⟨-, rfl⟩ := of_ofValue_eq_ok hloadOther
    refine ⟨fun setting hwritten => ?_, suffixesGiven_congr⟩
    rw [of_ofTexts, of_ofTexts]
    exact given_congr hwritten

/-- A number is a setting as it is written, and what has another type counts as missing. -/
theorem load_by_entries_single :
    let text := "sources:\n  client: 7\n  events: 1.50\n  message_config: true\n" ++
      "output: [out]\nextraction:\n  class_suffixes: [.mjs, '', 3]\n"
    let root := Path.absolute []
    let files : Files := ⟨⟨[([settingsFile], .file (Utf8.encode text.toList))], by decide⟩, [], "/"⟩
    ∃ value settings, Holds reader files root root value ∧
      (∀ setting : Setting, setting.isOverlong value = false) ∧
      load reader files root = .ok settings ∧ settings.client = "7" ∧ settings.events = "1.5" ∧
      settings.messageConfig = "client/messageConfig.js" ∧ settings.outputDirectory = "docs" ∧
      settings.classSuffixes = [".mjs"] := by
  intro text root files
  let file := Path.absolute [settingsFile]
  have hfile : filePath files root = .ok file ∧ files.resolve file.parent = .ok root ∧
      files.text file = .ok text.toList ∧ text.toList.all Text.isBlank = false := by decide +kernel
  let expected := fun value : Value =>
    ¬Refused value ∧ suffixesGiven value = [".mjs"] ∧
    (∀ setting ∈ Setting.all, setting.isOverlong value = false) ∧
    Setting.client.given root value = "7" ∧ Setting.events.given root value = "1.5" ∧
    Setting.messageConfig.given root value = "client/messageConfig.js" ∧
    Setting.outputDirectory.given root value = "docs"
  have hread : (reader text.toList).toOption.any (expected ·) = true := by decide +kernel
  clear_value text root files file
  obtain ⟨hfile, hroot, htext, hblank⟩ := hfile
  obtain ⟨value, hholds, hvalue⟩ := exists_holds hfile hroot htext hblank hread
  obtain ⟨hnot, hsuffixes, hshort, hclient, hevents, hconfig, hdirectory⟩ :=
    of_decide_eq_true hvalue
  have hshort := fun setting => hshort setting (Setting.mem_all setting)
  obtain ⟨settings, hload, -, hgiven, hgivenSuffixes⟩ :=
    (load_by_entries hholds hshort).2.1 hnot
  exact ⟨value, settings, hholds, hshort, hload, (hgiven .client).trans hclient,
    (hgiven .events).trans hevents, (hgiven .messageConfig).trans hconfig,
    (hgiven .outputDirectory).trans hdirectory, hgivenSuffixes.trans hsuffixes⟩

end Settings

end SdkCatalog
