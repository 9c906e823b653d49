import SdkCatalog.Proofs.Catalog.RoundTrip
import SdkCatalog.Proofs.Json.Overlong

/-! Loads of a store. A load reads the catalogs one after another up to the first that cannot be
read, so what a failed load leaves, and what a history of loads leaves, is told catalog by
catalog. -/

namespace SdkCatalog

open Files Json

/-! ### One catalog -/

/-- A failure that a store tells as its own: a catalog is missing, cannot be read, or is no array of
objects. -/
def Failure.IsOfCatalog : Failure → Prop
  | .catalogMissing _ | .catalogUnreadable _ _ | .catalogShape _ => True
  | _ => False

variable {files : Files} {path : Path} {records : List Members} {failure : Failure}

namespace Catalogs

/-- A file spells an array of objects. -/
def Spells (files : Files) (path : Path) (records : List Members) : Prop :=
  ∃ cs, files.text path = .ok cs ∧ Json.read cs = .ok (.arr (records.map .obj))

/-- How reading a catalog fails with what is no failure of the catalog. -/
inductive Escapes (files : Files) (path : Path) : Failure → Prop
  /-- The bytes of the file are no text. -/
  | undecodable {content : List UInt8} {fault : Utf8.Fault} :
    files.bytes path = .ok content → Utf8.decode content = .error fault →
    Escapes files path (.undecodable fault)
  /-- A whole number in the file has too many digits. -/
  | tooLong {cs : List Char} {fault : Numeral.TooLong} :
    files.text path = .ok cs → Json.read cs = .error (.tooLong fault) →
    digitLimit < fault.digits → Escapes files path (.numeralTooLong fault)
  /-- A name in the path holds the null character. -/
  | nullCharacter : path.hasNull = true → Escapes files path (.file .nullCharacter)

theorem Escapes.not_isOfCatalog (h : Escapes files path failure) : ¬failure.IsOfCatalog := by
  cases h <;> simp [Failure.IsOfCatalog]

end Catalogs

theorem Json.Value.objects?_eq_some_iff {value : Value} {records : List Members} :
    value.objects? = some records ↔ value = .arr (records.map .obj) := by
  have hmembers : ∀ {item : Value} {record : Members},
      item.members? = some record ↔ item = .obj record := by
    intro item record
    cases item <;> simp [members?]
  have hitems : ∀ items : List Value,
      items.mapM members? = some records ↔ items = records.map .obj := by
    intro items
    induction items generalizing records with
    | nil => cases records <;> simp
    | cons item rest ih =>
      simp only [List.mapM_cons, Option.bind_eq_bind, Option.bind_eq_some_iff, hmembers, ih]
      constructor
      · rintro ⟨record, rfl, others, rfl, h⟩
        injection h with h
        rw [← h, List.map_cons]
      · cases records with
        | nil => simp
        | cons record others =>
          intro h
          injection h with hitem hrest
          exact ⟨record, hitem, others, hrest, rfl⟩
  cases value with
  | arr items => simp [objects?, items?, hitems]
  | _ => simp [objects?, items?]

namespace Catalogs

theorem find_error_cases {fault : FileFault} (h : files.find path = .error fault) :
    fault.isRefusal = true ∨ path.hasNull = true ∧ fault = .nullCharacter := by
  rw [Files.find] at h
  split at h
  · next hnull =>
    injection h with h
    exact .inr ⟨hnull, h.symm⟩
  · cases hfind : files.tree.find files.workingDirectory path with
    | ok found => simp [hfind, Except.mapError] at h
    | error obstacle =>
      rw [hfind] at h
      injection h with h
      subst h
      cases obstacle <;> exact .inl rfl

theorem bytes_error_cases {fault : FileFault} (h : files.bytes path = .error fault) :
    fault.isRefusal = true ∨ path.hasNull = true ∧ fault = .nullCharacter := by
  rw [bytes] at h
  split at h
  · simp at h
  · injection h with h
    exact .inl (h ▸ rfl)
  · injection h with h
    exact .inl (h ▸ rfl)
  · next hfound =>
    injection h with h
    exact find_error_cases (h ▸ hfound)

theorem isOfCatalog_readFailure {fault : FileFault} (h : fault.isRefusal = true) (place : String) :
    (readFailure place (.file fault)).IsOfCatalog := by
  cases fault with
  | linkLoop | nullCharacter => simp [FileFault.isRefusal] at h
  | _ => trivial

theorem ofText_cases (place : String) (cs : List Char) :
    (∃ records, ofText place cs = .ok records ∧
      Json.read cs = .ok (.arr (records.map .obj))) ∨
    (∃ failure, ofText place cs = .error failure ∧ failure.IsOfCatalog) ∨
    ∃ fault, ofText place cs = .error (.numeralTooLong fault) ∧
      Json.read cs = .error (.tooLong fault) := by
  rw [ofText]
  split
  · exact .inr (.inl ⟨_, rfl, trivial⟩)
  · next fault hread => exact .inr (.inr ⟨fault, rfl, hread⟩)
  · next value hread =>
    split
    · next records hrecords =>
      exact .inl ⟨records, rfl, by rw [hread, Value.objects?_eq_some_iff.mp hrecords]⟩
    · exact .inr (.inl ⟨_, rfl, trivial⟩)

/-- A catalog is read from a file that spells it. It fails with a failure of its own, or in one of
the ways that escape. -/
theorem read_cases (files : Files) (path : Path) :
    (∃ records, Catalogs.read files path = .ok records ∧ Spells files path records) ∨
    ∃ failure, Catalogs.read files path = .error failure ∧
      (failure.IsOfCatalog ∨ Escapes files path failure) := by
  rw [Catalogs.read]
  cases htext : files.text path with
  | ok cs =>
    simp only [Except.mapError, bind, Except.bind]
    rcases ofText_cases path.text cs with
      ⟨records, hrecords, hread⟩ | ⟨failure, hfailure, hof⟩ | ⟨fault, hfault, hread⟩
    · exact .inl ⟨records, hrecords, cs, htext, hread⟩
    · exact .inr ⟨failure, hfailure, .inl hof⟩
    · exact .inr ⟨_, hfault, .inr (.tooLong htext hread (bounded_read cs fault hread))⟩
  | error fault =>
    refine .inr ⟨readFailure path.text fault, rfl, ?_⟩
    rw [Files.text] at htext
    cases hbytes : files.bytes path with
    | error fileFault =>
      rw [hbytes] at htext
      injection htext with htext
      subst htext
      rcases bytes_error_cases hbytes with hrefusal | ⟨hnull, rfl⟩
      · exact .inl (isOfCatalog_readFailure hrefusal _)
      · exact .inr (.nullCharacter hnull)
    | ok content =>
      rw [hbytes] at htext
      simp only [Except.mapError, bind, Except.bind, textOf] at htext
      cases hdecode : Utf8.decode content with
      | ok cs => simp [hdecode, Except.map] at htext
      | error utf8Fault =>
        rw [hdecode] at htext
        injection htext with htext
        exact htext ▸ .inr (.undecodable hbytes hdecode)

theorem spells_of_read (h : Catalogs.read files path = .ok records) :
    Spells files path records := by
  rcases read_cases files path with ⟨others, hread, hspells⟩ | ⟨failure, hread, -⟩
  · rw [hread] at h
    injection h with h
    exact h ▸ hspells
  · simp [hread] at h

theorem read_of_escapes (h : Escapes files path failure) :
    Catalogs.read files path = .error failure := by
  rw [Catalogs.read]
  cases h with
  | undecodable hbytes hdecode =>
    simp only [Files.text, textOf, hbytes, hdecode, Except.mapError, Except.map, bind, Except.bind,
      readFailure]
  | tooLong htext hread hlong =>
    simp only [htext, Except.mapError, bind, Except.bind, ofText, hread]
  | nullCharacter hnull =>
    simp only [Files.text, bytes, Files.find, if_pos hnull, Except.mapError, bind, Except.bind,
      readFailure, FileFault.isRefusal]
    rfl

theorem escapes_iff :
    Escapes files path failure ↔
      Catalogs.read files path = .error failure ∧ ¬failure.IsOfCatalog := by
  constructor
  · exact fun h => ⟨read_of_escapes h, h.not_isOfCatalog⟩
  · rintro ⟨h, hnot⟩
    rcases read_cases files path with ⟨records, hread, -⟩ | ⟨other, hread, hother⟩
    · simp [hread] at h
    · rw [hread] at h
      injection h with h
      subst h
      exact hother.resolve_left hnot

end Catalogs

/-! ### Three catalogs -/

/-- The lists of three catalogs, in the order of loading. -/
def Catalogs.lists (catalogs : Catalogs) : List (List Members) :=
  [catalogs.interfaces, catalogs.events, catalogs.messageTypes]

theorem Catalogs.eq_of_lists_eq {catalogs others : Catalogs} (h : catalogs.lists = others.lists) :
    catalogs = others := by
  cases catalogs
  cases others
  simpa [lists] using h

/-- The catalogs in the files at paths, up to the first that cannot be read. -/
def Catalogs.readable (files : Files) : List Path → List (List Members)
  | [] => []
  | path :: rest =>
    match Catalogs.read files path with
    | .ok records => records :: readable files rest
    | .error _ => []

theorem Catalogs.readable_nil : readable files [] = [] := rfl

theorem Catalogs.readable_cons {rest : List Path} :
    readable files (path :: rest) =
      match Catalogs.read files path with
      | .ok records => records :: readable files rest
      | .error _ => [] := rfl

theorem Catalogs.getElem?_readable {paths : List Path} {index : Nat}
    (h : (readable files paths)[index]? = some records) :
    ∃ path, paths[index]? = some path ∧ Catalogs.read files path = .ok records := by
  induction paths generalizing index with
  | nil => simp [readable_nil] at h
  | cons path rest ih =>
    rw [readable_cons] at h
    split at h
    · next first hread =>
      cases index with
      | zero =>
        rw [List.getElem?_cons_zero] at h
        injection h with h
        exact ⟨path, rfl, h ▸ hread⟩
      | succ index => exact ih h
    · simp at h

theorem Catalogs.length_readable_le (files : Files) (paths : List Path) :
    (readable files paths).length ≤ paths.length := by
  induction paths with
  | nil => exact Nat.le_refl 0
  | cons path rest ih =>
    rw [readable_cons]
    split
    · exact Nat.succ_le_succ ih
    · exact Nat.zero_le _

/-- If some catalog cannot be read, the first such is where reading stops. -/
theorem Catalogs.read_after_readable {paths : List Path}
    (h : (readable files paths).length < paths.length) :
    ∃ path failure, paths[(readable files paths).length]? = some path ∧
      Catalogs.read files path = .error failure := by
  induction paths with
  | nil => simp [readable_nil] at h
  | cons path rest ih =>
    rw [readable_cons] at h ⊢
    split at h
    · exact ih (by simpa using h)
    · next failure hread => exact ⟨path, failure, rfl, hread⟩

namespace Store

variable {store : Store} {session : Session}

/-- The paths of the catalogs of a store, in the order of loading. -/
def paths (store : Store) : List Path :=
  Catalogs.fileNames.map store.directory.child

/-- The catalogs that can be read take the place of the first lists of a store, and the others
stay. -/
theorem lists_reread (store : Store) (files : Files) :
    (store.reread files).2.directory = store.directory ∧
    (store.reread files).2.catalogs.lists = Catalogs.readable files store.paths ++
      store.catalogs.lists.drop (Catalogs.readable files store.paths).length := by
  simp only [reread, paths, Catalogs.fileNames, List.map_cons, List.map_nil, Catalogs.readable_cons]
  cases Catalogs.read files (store.directory.child Catalogs.interfacesFile) with
  | error => exact ⟨rfl, rfl⟩
  | ok interfaces =>
    cases Catalogs.read files (store.directory.child Catalogs.eventsFile) with
    | error => exact ⟨rfl, rfl⟩
    | ok events =>
      cases Catalogs.read files (store.directory.child Catalogs.messageTypesFile) with
      | error => exact ⟨rfl, rfl⟩
      | ok messageTypes => exact ⟨rfl, rfl⟩

/-- A load fails as the first catalog does that cannot be read. -/
theorem reread_eq_error_iff {files : Files} {failure : Failure} :
    (store.reread files).1 = .error failure ↔
      ∃ path, store.paths[(Catalogs.readable files store.paths).length]? = some path ∧
        Catalogs.read files path = .error failure := by
  simp only [reread, paths, Catalogs.fileNames, List.map_cons, List.map_nil, Catalogs.readable_cons]
  cases hinterfaces : Catalogs.read files (store.directory.child Catalogs.interfacesFile) with
  | error => simp [hinterfaces]
  | ok interfaces =>
    cases hevents : Catalogs.read files (store.directory.child Catalogs.eventsFile) with
    | error => simp [hevents]
    | ok events =>
      cases hmessageTypes :
          Catalogs.read files (store.directory.child Catalogs.messageTypesFile) with
      | error => simp [hmessageTypes]
      | ok messageTypes => simp

/-- A load that answers has read every catalog from the file that spells it. It fails with a failure
that is none of a catalog's exactly if reading the first catalog that cannot be read escapes: its
bytes are no text, a number in it has too many digits, or its path holds the null character. -/
theorem outcome_of_load (store : Store) (session : Session) :
    let outcome := (store.load.run session).1
    let found := Catalogs.readable session.files store.paths
    (outcome.1 = .ok () → ∀ (index : Nat) path, store.paths[index]? = some path →
      ∃ records, outcome.2.catalogs.lists[index]? = some records ∧
        Catalogs.Spells session.files path records) ∧
    ∀ failure, (outcome.1 = .error failure ∧ ¬failure.IsOfCatalog) ↔
      ∃ path, store.paths[found.length]? = some path ∧
        Catalogs.Escapes session.files path failure := by
  intro outcome found
  have houtcome : outcome = store.reread session.files := Catalogs.run_load store session
  rw [houtcome]
  refine ⟨fun hok index path hpath => ?_, fun failure => ?_⟩
  · have hlength : found.length = store.paths.length := by
      rcases Nat.lt_or_ge found.length store.paths.length with hlt | hge
      · obtain ⟨path, failure, hstop, hread⟩ := Catalogs.read_after_readable hlt
        rw [reread_eq_error_iff.mpr ⟨path, hstop, hread⟩] at hok
        simp at hok
      · exact Nat.le_antisymm (Catalogs.length_readable_le _ _) hge
    obtain ⟨hindex, -⟩ := List.getElem?_eq_some_iff.mp hpath
    have hrecords := List.getElem?_eq_getElem (hlength ▸ hindex)
    obtain ⟨other, hother, hread⟩ := Catalogs.getElem?_readable hrecords
    rw [hpath] at hother
    injection hother with hother
    refine ⟨_, ?_, Catalogs.spells_of_read (hother ▸ hread)⟩
    rw [(lists_reread store session.files).2, List.getElem?_append_left (hlength ▸ hindex)]
    exact hrecords
  · rw [reread_eq_error_iff]
    constructor
    · rintro ⟨⟨path, hpath, hread⟩, hnot⟩
      exact ⟨path, hpath, Catalogs.escapes_iff.mpr ⟨hread, hnot⟩⟩
    · rintro ⟨path, hpath, hescapes⟩
      obtain ⟨hread, hnot⟩ := Catalogs.escapes_iff.mp hescapes
      exact ⟨⟨path, hpath, hread⟩, hnot⟩

/-- Three files of arrays of objects are loaded. -/
theorem outcome_of_load_single :
    let file := fun text : String => Entry.file (Utf8.encode text.toList)
    let store : Store := ⟨.absolute [], {}⟩
    let session : Session := ⟨⟨⟨[(["interfaces.json"], file "[\x7b\"name\": \"a\"\x7d]"),
      (["events.json"], file "[]"), (["message-types.json"], file "[\x7b\x7d]")], by decide⟩, [],
      "/"⟩, {}, ""⟩
    (store.load.run session).1.1 = .ok () ∧
    ∃ records, (store.load.run session).1.2.catalogs.lists[0]? = some records ∧
      Catalogs.Spells session.files (.absolute ["interfaces.json"]) records := by
  intro file store session
  have hanswer : (store.load.run session).1.1 = .ok () ∧
      store.paths[0]? = some (.absolute ["interfaces.json"]) := by decide +kernel
  clear_value store session
  exact ⟨hanswer.1, (outcome_of_load store session).1 hanswer.1 0 _ hanswer.2⟩

/-- A byte that begins no character lets another failure out of a load than one of a catalog. -/
theorem load_escapes_on_stray_byte :
    let store : Store := ⟨.absolute [], {}⟩
    let session : Session := ⟨⟨⟨[(["interfaces.json"], .file [0xFF])], by decide⟩, [], "/"⟩, {}, ""⟩
    (store.load.run session).1.1 = .error (.undecodable ⟨0xFF, 0, 1, .invalidStart⟩) := by
  decide +kernel

/-! ### Histories of loads -/

/-- The store after loads in one session after another. -/
def afterLoads (store : Store) (history : List Session) : Store :=
  history.foldl (fun store session => (store.load.run session).1.2) store

theorem getElem?_lists_load (store : Store) (session : Session) (index : Nat) :
    (store.load.run session).1.2.catalogs.lists[index]? =
      ((Catalogs.readable session.files store.paths)[index]?).or
        store.catalogs.lists[index]? := by
  rw [Catalogs.run_load, (lists_reread store session.files).2, List.getElem?_append]
  split
  · next h => rw [List.getElem?_eq_getElem h, Option.some_or]
  · next h =>
    have hnone : (Catalogs.readable session.files store.paths)[index]? = none :=
      List.getElem?_eq_none (by omega)
    rw [List.getElem?_drop, hnone, Option.none_or, Nat.add_sub_cancel' (by omega)]

theorem directory_load (store : Store) (session : Session) :
    (store.load.run session).1.2.directory = store.directory := by
  rw [Catalogs.run_load, (lists_reread store session.files).1]

/-- After a history of loads each list is the one that the last load found that came to it. -/
theorem getElem?_lists_afterLoads (store : Store) (history : List Session) (index : Nat) :
    (store.afterLoads history).catalogs.lists[index]? =
      ((history.filterMap fun session =>
        (Catalogs.readable session.files store.paths)[index]?).getLast?).or
        store.catalogs.lists[index]? := by
  induction history generalizing store with
  | nil => rfl
  | cons session rest ih =>
    have hpaths : (store.load.run session).1.2.paths = store.paths := by
      rw [paths, directory_load, paths]
    rw [afterLoads, List.foldl_cons, ← afterLoads, ih, hpaths, getElem?_lists_load]
    cases hfound : (Catalogs.readable session.files store.paths)[index]? with
    | none => simp only [List.filterMap_cons, hfound, Option.none_or]
    | some records =>
      simp only [List.filterMap_cons, hfound, List.getLast?_cons, Option.some_or]
      cases (rest.filterMap fun session =>
        (Catalogs.readable session.files store.paths)[index]?).getLast? <;> rfl

/-- A load that fails keeps the lists that it has read before: they are what their files hold. The
lists from the catalog on that cannot be read stay as they were, and among them are always the
message types. So after a history of loads, failed ones included, each list is the one that the last
load found that came to it. -/
theorem lists_of_failed_load {loaded : Store} {failure : Failure}
    (h : (store.load.run session).1 = (.error failure, loaded)) :
    let found := Catalogs.readable session.files store.paths
    (∃ path, store.paths[found.length]? = some path ∧
      Catalogs.read session.files path = .error failure) ∧
    loaded.catalogs.lists = found ++ store.catalogs.lists.drop found.length ∧
    loaded.catalogs.messageTypes = store.catalogs.messageTypes ∧
    loaded.catalogs.sortedMessageTypes = store.catalogs.sortedMessageTypes ∧
    (found = [] → loaded = store) ∧
    ∀ (history : List Session) (index : Nat), (store.afterLoads history).catalogs.lists[index]? =
      ((history.filterMap fun session =>
        (Catalogs.readable session.files store.paths)[index]?).getLast?).or
        store.catalogs.lists[index]? := by
  intro found
  obtain ⟨hdirectory, hlists⟩ := lists_reread store session.files
  rw [Catalogs.run_load] at h
  obtain ⟨path, hpath, hread⟩ := reread_eq_error_iff.mp (congrArg Prod.fst h)
  rw [h] at hlists hdirectory
  change loaded.directory = store.directory at hdirectory
  change loaded.catalogs.lists = found ++ store.catalogs.lists.drop found.length at hlists
  have hmessageTypes : loaded.catalogs.messageTypes = store.catalogs.messageTypes := by
    have hlength : found.length < 3 := (List.getElem?_eq_some_iff.mp hpath).1
    have hlast : loaded.catalogs.lists[2]? = store.catalogs.lists[2]? := by
      rw [hlists, List.getElem?_append_right (by omega), List.getElem?_drop,
        Nat.add_sub_cancel' (by omega)]
    injection hlast
  refine ⟨⟨path, hpath, hread⟩, hlists, hmessageTypes, ?_, fun hnone => ?_,
    getElem?_lists_afterLoads store⟩
  · rw [Catalogs.sortedMessageTypes, Catalogs.sortedMessageTypes, hmessageTypes]
  · rw [hnone, List.nil_append, List.length_nil, List.drop_zero] at hlists
    have hcatalogs := Catalogs.eq_of_lists_eq hlists
    cases loaded
    cases store
    simp only at hdirectory hcatalogs
    rw [hdirectory, hcatalogs]

/-- A store whose interfaces are read anew while its events are missing. -/
theorem lists_of_failed_load_single :
    let record := fun name : String => [("name", Value.str name)]
    let names := fun records : List Members =>
      records.map fun record => (record.get? "name").bind (·.string?)
    let store : Store := ⟨.absolute [], ⟨[record "old"], [record "event"], [record "type"]⟩⟩
    let session : Session := ⟨⟨⟨[(["interfaces.json"],
      .file (Utf8.encode "[\x7b\"name\": \"new\"\x7d]".toList))], by decide⟩, [], "/"⟩, {}, ""⟩
    let failure := Failure.catalogMissing "/events.json"
    ∃ loaded, (store.load.run session).1 = (.error failure, loaded) ∧
      names loaded.catalogs.interfaces = [some "new"] ∧
      loaded.catalogs.events = store.catalogs.events ∧
      loaded.catalogs.messageTypes = store.catalogs.messageTypes := by
  intro record names store session failure
  have hanswer : (store.load.run session).1.1 = .error failure ∧
      (Catalogs.readable session.files store.paths).map names = [[some "new"]] := by
    decide +kernel
  clear_value store session failure names
  generalize hload : (store.load.run session).1 = answer at hanswer
  obtain ⟨outcome, loaded⟩ := answer
  obtain ⟨rfl, hfound⟩ := hanswer
  obtain ⟨interfaces, hfound, hnames⟩ := List.map_eq_singleton_iff.mp hfound
  obtain ⟨-, hlists, -⟩ := lists_of_failed_load hload
  rw [hfound] at hlists
  injection hlists with hinterfaces hlists
  injection hlists with hevents hlists
  injection hlists with hmessageTypes
  exact ⟨loaded, rfl, hinterfaces ▸ hnames, hevents, hmessageTypes⟩

/-- A load that fails at the events has taken the interfaces over already: the one that the load
before it found is there no longer. -/
theorem interface_lost_by_failed_load :
    let file := fun text : String => Entry.file (Utf8.encode text.toList)
    let first : Session := ⟨⟨⟨[(["interfaces.json"], file "[\x7b\"name\": \"old\"\x7d]"),
      (["events.json"], file "[]"), (["message-types.json"], file "[]")], by decide⟩, [], "/"⟩,
      {}, ""⟩
    let second : Session :=
      ⟨⟨⟨[(["interfaces.json"], file "[\x7b\"name\": \"new\"\x7d]")], by decide⟩, [], "/"⟩,
        {}, ""⟩
    let store := (Store.mk (.absolute []) {}).afterLoads [first]
    let answer := (store.load.run second).1
    ((Store.mk (.absolute []) {}).load.run first).1.1 = .ok () ∧
    (store.catalogs.findInterface "old").isSome = true ∧
    answer.1 = .error (.catalogMissing "/events.json") ∧
    (answer.2.catalogs.findInterface "old").isSome = false := by
  decide +kernel

end Store

end SdkCatalog
