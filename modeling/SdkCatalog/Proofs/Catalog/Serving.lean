import SdkCatalog.Proofs.Catalog.Loading
import SdkCatalog.Proofs.Json.Regular
import SdkCatalog.Proofs.Registry.Order
import SdkCatalog.Proofs.Toolbox

/-! What loads can be served. Every record of a loaded catalog was read, so it is regular, and the
list tools answer with texts that spell the loaded records again. -/

namespace SdkCatalog

open Json

variable {store loaded : Store} {session : Session} {records : List Members}

/-! ### Loaded records -/

theorem Catalogs.Spells.regular {files : Files} {path : Path} (h : Spells files path records) :
    ∀ record ∈ records, (Value.obj record).Regular := by
  obtain ⟨cs, -, hread⟩ := h
  intro record hrecord
  exact regular_arr_iff.mp (regular_of_read hread) _ (List.mem_map_of_mem hrecord)

/-- Every list of a store that is loaded holds regular records. -/
theorem Store.regular_of_load (h : (store.load.run session).1 = (.ok (), loaded)) :
    ∀ records ∈ loaded.catalogs.lists, ∀ record ∈ records, (Value.obj record).Regular := by
  have hload := (outcome_of_load store session).1
  rw [h] at hload
  intro records hrecords
  obtain ⟨index, hindex⟩ := List.mem_iff_getElem?.mp hrecords
  have hlt : index < store.paths.length := (List.getElem?_eq_some_iff.mp hindex).1
  obtain ⟨others, hothers, hspells⟩ :=
    hload rfl index store.paths[index] (List.getElem?_eq_getElem hlt)
  rw [hindex] at hothers
  injection hothers with hothers
  exact hothers ▸ hspells.regular

theorem Catalogs.perm_sortedMessageTypes (catalogs : Catalogs) :
    catalogs.sortedMessageTypes.Perm catalogs.messageTypes :=
  Order.perm_sortOn _ _

/-! ### Served records -/

/-- A list tool answers any call, and its answer reads back as an array of the records. -/
def Toolbox.Serves (catalogs : Catalogs) (name : String) (records : List Members) : Prop :=
  ∀ (arguments : Members) (session : Session), ∃ text,
    ((standard.call catalogs name arguments).run.run session).1 = .ok text ∧
    Json.read text.toList = .ok (.arr (records.map .obj))

theorem Tool.read_recordsText (h : ∀ record ∈ records, (Value.obj record).Regular) :
    ∃ text, recordsText records = .ok text ∧
      Json.read text.toList = .ok (.arr (records.map .obj)) := by
  have hregular : (Value.arr (records.map .obj)).Regular :=
    regular_arr_iff.mpr (List.forall_mem_map.mpr h)
  obtain ⟨text, hwrite, hread⟩ := read_write_of_regular hregular
  exact ⟨text, by rw [recordsText, textOf, hwrite], hread⟩

theorem Toolbox.serves_of_call {catalogs : Catalogs} {name : String}
    (hcall : ∀ arguments session, ((standard.call catalogs name arguments).run.run session).1 =
      Tool.recordsText records)
    (h : ∀ record ∈ records, (Value.obj record).Regular) : Serves catalogs name records := by
  intro arguments session
  obtain ⟨text, htext, hread⟩ := Tool.read_recordsText h
  exact ⟨text, (hcall arguments session).trans htext, hread⟩

/-- After a load that succeeds, the list tools answer any call with texts that read back as the
loaded interfaces, the loaded events, and the loaded message types in order: all of them, however
the files were written and whatever is nested in their objects. -/
theorem Store.serves_of_load (h : (store.load.run session).1 = (.ok (), loaded)) :
    Toolbox.Serves loaded.catalogs "get-interface-list" loaded.catalogs.interfaces ∧
    Toolbox.Serves loaded.catalogs "get-event-list" loaded.catalogs.events ∧
    Toolbox.Serves loaded.catalogs "get-message-types" loaded.catalogs.sortedMessageTypes ∧
    loaded.catalogs.sortedMessageTypes.Perm loaded.catalogs.messageTypes := by
  have hregular := regular_of_load h
  have hsorted := loaded.catalogs.perm_sortedMessageTypes
  simp only [Catalogs.lists, List.forall_mem_cons] at hregular
  obtain ⟨hinterfaces, hevents, hmessageTypes, -⟩ := hregular
  exact ⟨Toolbox.serves_of_call (Toolbox.run_interfaceList _) hinterfaces,
    Toolbox.serves_of_call (Toolbox.run_eventList _) hevents,
    Toolbox.serves_of_call (Toolbox.run_messageTypes _) fun record hrecord =>
      hmessageTypes record (hsorted.mem_iff.mp hrecord),
    hsorted⟩

/-- A file in which values are nested and a key is repeated is loaded and served. -/
theorem Store.serves_of_load_nested :
    let file := fun text : String => Entry.file (Utf8.encode text.toList)
    let store : Store := ⟨.absolute [], {}⟩
    let session : Session := ⟨⟨⟨[(["interfaces.json"],
      file "[\x7b\"name\": [1, [\x7b\"a\": null\x7d]], \"name\": -12\x7d]"),
      (["events.json"], file "[]"), (["message-types.json"], file "[\x7b\x7d]")], by decide⟩, [],
      "/"⟩, {}, ""⟩
    ∃ loaded, (store.load.run session).1 = (.ok (), loaded) ∧
      loaded.catalogs.interfaces.length = 1 ∧
      Toolbox.Serves loaded.catalogs "get-interface-list" loaded.catalogs.interfaces := by
  intro file store session
  have hanswer : (store.load.run session).1.1 = .ok () ∧
      (store.load.run session).1.2.catalogs.interfaces.length = 1 := by decide +kernel
  clear_value store session
  obtain ⟨loaded, hload⟩ : ∃ loaded, (store.load.run session).1 = (.ok (), loaded) :=
    ⟨_, Prod.ext hanswer.1 rfl⟩
  rw [hload] at hanswer
  exact ⟨loaded, hload, hanswer.2, (serves_of_load hload).1⟩

end SdkCatalog
