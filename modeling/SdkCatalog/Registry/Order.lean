import SdkCatalog.Json.Value
import SdkCatalog.Registry.MessageType

/-! The order of message types: ascending by the value of the content type, records of equal value
in the order in which they stood. Whole and floating point values are compared exactly. -/

namespace SdkCatalog

namespace Order

variable {α : Type}

/-- The length of the run of strictly descending keys at the head, after a given key. -/
def descending : Number → List (Number × α) → Nat
  | _, [] => 0
  | previous, next :: rest => if next.1.less previous then descending next.1 rest + 1 else 0

/-- The length of the run of keys at the head that never descend, after a given key. -/
def ascending : Number → List (Number × α) → Nat
  | _, [] => 0
  | previous, next :: rest => if next.1.less previous then 0 else ascending next.1 rest + 1

/-- The records with the run at their head in ascending order, and the length of that run. -/
def orderedRun : List (Number × α) → List (Number × α) × List (Number × α)
  | first :: second :: rest =>
    if second.1.less first.1 then
      -- No two keys of a descending run are equal, so turning it round is stable.
      let size := descending second.1 rest + 2
      let all := first :: second :: rest
      ((all.take size).reverse, all.drop size)
    else
      let size := ascending second.1 rest + 2
      let all := first :: second :: rest
      (all.take size, all.drop size)
  | few => (few, [])

/-- The place for a key in a sorted array between two bounds, found by halving. -/
def insertionPoint (sorted : Array (Number × α)) (key : Number) (low high : Nat) : Nat :=
  if low < high then
    let middle := low + (high - low) / 2
    match sorted[middle]? with
    | some probe =>
      if key.less probe.1 then insertionPoint sorted key low middle
      else insertionPoint sorted key (middle + 1) high
    | none => low
  else low
termination_by high - low

/-- The records ordered by inserting each into the run before it. -/
def insertAll (sorted : List (Number × α)) (rest : List (Number × α)) : List (Number × α) :=
  rest.foldl (fun done next =>
    let point := insertionPoint done.toArray next.1 0 done.length
    done.take point ++ next :: done.drop point) sorted

/-- The records ordered by key. Keys that all have a place are ordered by the stable sort; a key
that is no number breaks the order, and the records then go where insertion into the leading run
puts them. -/
def byKey (records : List (Number × α)) : List (Number × α) :=
  if records.all (·.1.place?.isSome) then
    records.mergeSort fun a b => !b.1.less a.1
  else
    let (run, rest) := orderedRun records
    insertAll run rest

/-- Records ordered by the keys that a function gives them. -/
def sortOn (key : α → Number) (records : List α) : List α :=
  (byKey (records.map fun record => (key record, record))).map (·.2)

end Order

/-- The order key of a message type: its content type value, or zero when it has none. -/
def MessageType.orderKey (record : MessageType) : Number :=
  record.typeValue.getD (.int 0)

namespace Json

/-- The order key of a loaded message type: its content type value, or zero when that is no number
or missing. -/
def Members.orderKey (record : Members) : Number :=
  match record.get? "typeValue" with
  | some (.number value) => value
  | _ => .int 0

/-- Loaded message types in the order of their content type values. -/
def Members.sort (records : List Members) : List Members :=
  Order.sortOn Members.orderKey records

end Json

namespace Order

inductive Item where
  | entry (record : MessageType)
  | loaded (record : Json.Members)
  /-- Neither of the two, with the name of its type. -/
  | other (type : String)

def Item.ofValue (value : Json.Value) : Item :=
  match value.record with
  | .ok record => .loaded record
  | .error kind => .other kind.name

/-- An item that is no message type, with the name of its type. -/
structure Misfit where
  name : String
  deriving DecidableEq

def Misfit.message (misfit : Misfit) : String :=
  s!"Cannot sort {misfit.name} as a message type"

/-- The order key of an item, if it is a message type. -/
def Item.orderKey : Item → Except Misfit Number
  | .entry record => .ok record.orderKey
  | .loaded record => .ok record.orderKey
  | .other type => .error ⟨type⟩

/-- Items in the order of their keys. Every item is looked at before any is moved, and the first
that is no message type is the error. -/
def sortItems (items : List Item) : Except Misfit (List Item) := do
  let keyed ← items.mapM fun item => return (← item.orderKey, item)
  return (byKey keyed).map (·.2)

end Order

/-- Any loaded values in the order of their content type values. -/
def Json.Value.sortRecords (values : List Json.Value) : Except Order.Misfit (List Order.Item) :=
  Order.sortItems (values.map Order.Item.ofValue)

end SdkCatalog
