import SdkCatalog.Proofs.Catalog.Writer
import SdkCatalog.Proofs.Json.RoundTrip
import SdkCatalog.Proofs.Text.Lines
import SdkCatalog.Proofs.Text.Utf8
import SdkCatalog.Proofs.Toolbox

/-! Catalogs that are written and loaded again: a store reads the records that were written, and
the tools that list them answer the texts of their files. -/

namespace SdkCatalog

open Json

/-! ### Records -/

/-- Every record has keys of its own, and so has every object in it. -/
def Json.RecordsDistinct (records : List Members) : Prop :=
  ∀ record ∈ records, (Value.obj record).Distinct

theorem Json.itemsDistinct_strs (texts : List String) : itemsDistinct (texts.map .str) := by
  induction texts with
  | nil => trivial
  | cons text rest ih => exact ⟨trivial, ih⟩

theorem Json.itemsDistinct_records {records : List Members} (h : RecordsDistinct records) :
    itemsDistinct (records.map .obj) := by
  induction records with
  | nil => trivial
  | cons record rest ih =>
    exact ⟨h record List.mem_cons_self,
      ih fun other hother => h other (List.mem_cons_of_mem _ hother)⟩

/-- An interface record has a documentation member exactly when there is a comment. -/
theorem Interface.keys_record (entry : Interface) : entry.record.map (·.1) =
    if entry.doc.isSome then ["name", "params", "jsdoc"] else ["name", "params"] := by
  cases entry with
  | mk name params doc => cases doc <;> rfl

theorem Interface.distinct_record (entry : Interface) : (Value.obj entry.record).Distinct := by
  refine ⟨?_, ?_⟩
  · rw [entry.keys_record]
    split <;> decide
  · cases entry with
    | mk name params doc =>
      cases doc with
      | none => exact ⟨trivial, itemsDistinct_strs params, trivial⟩
      | some doc => exact ⟨trivial, itemsDistinct_strs params, trivial, trivial⟩

theorem Event.distinct_record (entry : Event) : (Value.obj entry.record).Distinct :=
  ⟨by simp [Event.record], trivial, trivial, trivial⟩

theorem Json.distinct_ofText? (text : Option String) : (Value.ofText? text).Distinct := by
  cases text <;> trivial

theorem Json.distinct_ofNumber? (number : Option Number) : (Value.ofNumber? number).Distinct := by
  cases number <;> trivial

/-- A message type record has all its members, known or not. -/
theorem MessageType.keys_record (entry : MessageType) : entry.record.map (·.1) =
    ["name", "flag", "flagValue", "flagDescription", "typeEnum", "typeValue", "typeDescription",
      "contentClazz", "classFile", "extends", "jsdoc"] := rfl

theorem MessageType.distinct_record (entry : MessageType) : (Value.obj entry.record).Distinct := by
  refine ⟨?_, trivial, trivial, distinct_ofNumber? _, distinct_ofText? _, trivial,
    distinct_ofNumber? _, distinct_ofText? _, trivial, distinct_ofText? _, distinct_ofText? _,
    distinct_ofText? _, trivial⟩
  rw [entry.keys_record]
  decide

namespace Catalogs

variable {directory : Path} {place : Location} {fileName : String} {records : List Members}
  {files : Files}

/-! ### Reading what was written -/

theorem ofText_of_text? {text : String} (hdistinct : RecordsDistinct records)
    (htext : text? records = some text) (place : String) :
    ofText place text.toList = .ok records := by
  rw [text?, Value.write?] at htext
  split at htext
  · next hwritable =>
    injection htext with htext
    have hread : Json.read text.toList = .ok (.arr (records.map .obj)) := by
      rw [← htext, String.toList_ofList]
      exact read_render (itemsDistinct_records hdistinct) hwritable
    have hobjects : (Value.arr (records.map .obj)).objects? = some records := by
      rw [Value.objects?, Value.items?, Option.bind_some, List.mapM_map]
      exact (List.mapM_pure (m := Option) (f := id)).trans (by rw [List.map_id]; rfl)
    rw [ofText, hread]
    simp only [hobjects]
  · simp at htext

theorem return_not_mem_text {text : String} (htext : text? records = some text) :
    '\r' ∉ text.toList := by
  rw [text?, Value.write?] at htext
  split at htext
  · injection htext with htext
    rw [← htext, String.toList_ofList]
    exact return_not_mem_render _ 0
  · simp at htext

/-- A catalog's file holds the text of the catalog and is read as that text. -/
theorem Holds.text (hname : Path.Single fileName)
    (hnull : fileName.toList.contains (Char.ofNat 0) = false)
    (h : Holds files directory place fileName records) :
    ∃ text, text? records = some text ∧
      files.bytes (directory.child fileName) = .ok (Utf8.encode text.toList) ∧
      files.text (directory.child fileName) = .ok text.toList := by
  obtain ⟨text, htext, hentry⟩ := h.written
  have hbytes := Files.bytes_eq_ok_iff.mpr ⟨_, h.find_child hname hnull hentry⟩
  refine ⟨text, htext, hbytes, Files.text_eq_ok_iff.mpr ⟨_, hbytes, ?_⟩⟩
  rw [Files.textOf, Utf8.decode_encode]
  simp only [Except.mapError, Except.map,
    Text.unifyBreaks_of_not_mem (return_not_mem_text htext)]

theorem Holds.read (hname : Path.Single fileName)
    (hnull : fileName.toList.contains (Char.ofNat 0) = false) (hdistinct : RecordsDistinct records)
    (h : Holds files directory place fileName records) :
    Catalogs.read files (directory.child fileName) = .ok records := by
  obtain ⟨text, htext, -, hfile⟩ := h.text hname hnull
  rw [Catalogs.read, hfile]
  exact ofText_of_text? hdistinct htext _

theorem recordsDistinct_catalogs (extract : Extract) :
    RecordsDistinct extract.catalogs.interfaces ∧ RecordsDistinct extract.catalogs.events ∧
      RecordsDistinct extract.catalogs.messageTypes := by
  refine ⟨fun record h => ?_, fun record h => ?_, fun record h => ?_⟩
  · obtain ⟨entry, -, rfl⟩ := List.mem_map.mp h
    exact entry.distinct_record
  · obtain ⟨entry, -, rfl⟩ := List.mem_map.mp h
    exact entry.distinct_record
  · obtain ⟨entry, -, rfl⟩ := List.mem_map.mp h
    exact entry.distinct_record

theorem HoldsAll.reread {extract : Extract}
    (h : HoldsAll files directory place extract.catalogs) (stale : Catalogs) :
    (Store.mk directory stale).reread files = (.ok (), ⟨directory, extract.catalogs⟩) := by
  obtain ⟨hinterfaces, hevents, hmessageTypes⟩ := recordsDistinct_catalogs extract
  simp only [Store.reread, h.interfaces.read single_interfacesFile (by decide) hinterfaces,
    h.events.read single_eventsFile (by decide) hevents,
    h.messageTypes.read single_messageTypesFile (by decide) hmessageTypes]

theorem run_load (store : Store) (session : Session) :
    (store.load.run session).1 = store.reread session.files := by
  rw [Store.load]
  generalize store.reread = reread
  rw [StateT.run_bind, StateT.run_get, pure_bind]
  cases hreread : reread session.files with
  | mk outcome loaded =>
    simp only
    cases outcome with
    | error failure => rfl
    | ok done =>
      rw [if_pos (by rfl)]
      generalize toString "Loaded " ++ _ = message
      rfl

theorem Holds.recordsText (hname : Path.Single fileName)
    (hnull : fileName.toList.contains (Char.ofNat 0) = false)
    (h : Holds files directory place fileName records) :
    ∃ text, files.bytes (directory.child fileName) = .ok (Utf8.encode text.toList) ∧
      files.text (directory.child fileName) = .ok text.toList ∧
      Tool.recordsText records = .ok text := by
  obtain ⟨text, htext, hbytes, hfile⟩ := h.text hname hnull
  refine ⟨text, hbytes, hfile, ?_⟩
  rw [text?] at htext
  rw [Tool.recordsText, Tool.textOf, htext]

/-- Catalogs that are written are loaded again: a store of their directory has the records of the
extract, in order and key by key, and the tools that list interfaces and events answer the texts
of their files. -/
theorem load_of_write {extract : Extract} {before after : Session}
    {written : List (String × Path)} (stale : Catalogs)
    (hwrite : (extract.catalogs.write directory).run.run before = (.ok written, after))
    (hlinks : ∀ artifact ∈ written, after.files.isLink artifact.2 = false) :
    ∃ store, ((Store.mk directory stale).load.run after).1 = (.ok (), store) ∧
      store.catalogs.interfaces = extract.interfaces.map Interface.record ∧
      store.catalogs.events = extract.events.map Event.record ∧
      store.catalogs.messageTypes = extract.messageTypes.map MessageType.record ∧
      (∀ entry ∈ extract.interfaces, entry.record.map (·.1) =
        if entry.doc.isSome then ["name", "params", "jsdoc"] else ["name", "params"]) ∧
      (∀ entry ∈ extract.messageTypes, entry.record.map (·.1) =
        ["name", "flag", "flagValue", "flagDescription", "typeEnum", "typeValue",
          "typeDescription", "contentClazz", "classFile", "extends", "jsdoc"]) ∧
      ∀ arguments session, ∃ interfaces events : String,
        after.files.bytes (directory.child interfacesFile) =
          .ok (Utf8.encode interfaces.toList) ∧
        after.files.text (directory.child interfacesFile) = .ok interfaces.toList ∧
        ((Toolbox.standard.call store.catalogs "get-interface-list" arguments).run.run session).1 =
          .ok interfaces ∧
        after.files.bytes (directory.child eventsFile) = .ok (Utf8.encode events.toList) ∧
        after.files.text (directory.child eventsFile) = .ok events.toList ∧
        ((Toolbox.standard.call store.catalogs "get-event-list" arguments).run.run session).1 =
          .ok events := by
  obtain ⟨place, hholds⟩ := holdsAll_of_write hwrite hlinks
  refine ⟨⟨directory, extract.catalogs⟩, (run_load _ _).trans (hholds.reread stale), rfl, rfl, rfl,
    fun entry _ => entry.keys_record, fun entry _ => entry.keys_record,
    fun arguments session => ?_⟩
  obtain ⟨interfaces, hbytes, htext, hlist⟩ :=
    hholds.interfaces.recordsText single_interfacesFile (by decide)
  obtain ⟨events, hbytes', htext', hlist'⟩ :=
    hholds.events.recordsText single_eventsFile (by decide)
  exact ⟨interfaces, events, hbytes, htext,
    (Toolbox.run_interfaceList _ arguments session).trans hlist, hbytes', htext',
    (Toolbox.run_eventList _ arguments session).trans hlist'⟩

/-- Catalogs of one record each, written below the root of an empty machine and loaded again. -/
theorem load_of_write_single :
    let extract : Extract :=
      ⟨[⟨"send", ["a", "b"], some "/** \"é\"\r */"⟩], [⟨"Ready", "ready"⟩],
        [{ name := "Text", flag := "Store", contentType := "Text_Type", className := "Text",
           typeValue := some (.int (-1)), base := some "Content" }]⟩
    let directory : Path := ⟨.root, ["docs"]⟩
    let before : Session := ⟨⟨.empty, [], "/"⟩, {}, ""⟩
    ∃ after, (extract.catalogs.write directory).run.run before =
        (.ok (artifacts directory), after) ∧
      (∀ artifact ∈ artifacts directory, after.files.isLink artifact.2 = false) ∧
      ∃ store, ((Store.mk directory {}).load.run after).1 = (.ok (), store) ∧
        store.catalogs.interfaces = extract.interfaces.map Interface.record := by
  intro extract directory before
  have hanswer :
      ((extract.catalogs.write directory).run.run before).1 = .ok (artifacts directory) ∧
      ∀ artifact ∈ artifacts directory,
        ((extract.catalogs.write directory).run.run before).2.files.isLink artifact.2 = false := by
    decide +kernel
  clear_value before directory extract
  generalize hwrite : (extract.catalogs.write directory).run.run before = answer at hanswer
  obtain ⟨outcome, after⟩ := answer
  obtain ⟨rfl, hlinks⟩ := hanswer
  obtain ⟨store, hload, hinterfaces, -⟩ := load_of_write {} hwrite hlinks
  exact ⟨after, rfl, hlinks, store, hload, hinterfaces⟩

end Catalogs

end SdkCatalog
