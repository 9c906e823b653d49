import SdkCatalog.Registry.Order

/-! The order of message types moves records and changes none: whatever the keys, the ordered
records are a permutation of the given ones, and only the keys tell which. -/

namespace SdkCatalog

namespace Order

variable {α : Type}

theorem perm_insertAll (sorted rest : List (Number × α)) :
    (insertAll sorted rest).Perm (sorted ++ rest) := by
  induction rest generalizing sorted with
  | nil => simp [insertAll]
  | cons next rest ih =>
    let point := insertionPoint sorted.toArray next.1 0 sorted.length
    have hstep : (sorted.take point ++ next :: sorted.drop point).Perm (next :: sorted) := by
      have hmiddle : (sorted.take point ++ next :: sorted.drop point).Perm
          (next :: (sorted.take point ++ sorted.drop point)) := List.perm_middle
      rwa [List.take_append_drop] at hmiddle
    calc (insertAll sorted (next :: rest))
        = insertAll (sorted.take point ++ next :: sorted.drop point) rest := rfl
      List.Perm _ (sorted.take point ++ next :: sorted.drop point ++ rest) := ih _
      List.Perm _ (next :: sorted ++ rest) := hstep.append_right rest
      List.Perm _ (sorted ++ next :: rest) := List.perm_middle.symm

theorem perm_orderedRun (records : List (Number × α)) :
    ((orderedRun records).1 ++ (orderedRun records).2).Perm records := by
  unfold orderedRun
  split
  · next first second rest =>
    split
    · exact ((List.reverse_perm _).append_right _).trans (by rw [List.take_append_drop])
    · simp only
      rw [List.take_append_drop]
  · rw [List.append_nil]

theorem perm_byKey (records : List (Number × α)) : (byKey records).Perm records := by
  unfold byKey
  split
  · exact List.mergeSort_perm _ _
  · exact (perm_insertAll _ _).trans (perm_orderedRun records)

theorem perm_sortOn (key : α → Number) (records : List α) :
    (sortOn key records).Perm records := by
  have h := (perm_byKey (records.map fun record => (key record, record))).map (·.2)
  rwa [List.map_map, show ((·.2) ∘ fun record => (key record, record)) = id from rfl,
    List.map_id] at h

/-! ### Other records of the same keys -/

variable {β : Type}

/-- A record replaced under its key. -/
def replace (f : α → β) (keyed : Number × α) : Number × β :=
  (keyed.1, f keyed.2)

theorem descending_map (f : α → β) (previous : Number) (records : List (Number × α)) :
    descending previous (records.map (replace f)) = descending previous records := by
  induction records generalizing previous with
  | nil => rfl
  | cons next rest ih =>
    simp only [List.map_cons, descending, ih]
    rfl

theorem ascending_map (f : α → β) (previous : Number) (records : List (Number × α)) :
    ascending previous (records.map (replace f)) = ascending previous records := by
  induction records generalizing previous with
  | nil => rfl
  | cons next rest ih =>
    simp only [List.map_cons, ascending, ih]
    rfl

theorem orderedRun_map (f : α → β) (records : List (Number × α)) :
    orderedRun (records.map (replace f)) =
      ((orderedRun records).1.map (replace f), (orderedRun records).2.map (replace f)) := by
  match records with
  | [] => rfl
  | [_] => rfl
  | first :: second :: rest =>
    simp only [List.map_cons, orderedRun, descending_map, ascending_map]
    show (if second.1.less first.1 = true then _ else _) = _
    split
    · simp [replace]
    · simp [replace]

theorem insertionPoint_map (f : α → β) (sorted : Array (Number × α)) (key : Number)
    (low high : Nat) :
    insertionPoint (sorted.map (replace f)) key low high = insertionPoint sorted key low high := by
  have hget : ∀ i, (sorted.map (replace f))[i]? = sorted[i]?.map (replace f) := fun i =>
    Array.getElem?_map
  fun_induction insertionPoint sorted key low high with
  | case1 low high hlow middle probe hprobe hless ih =>
    rw [insertionPoint.eq_def (sorted.map (replace f)), if_pos hlow]
    simp only [hget, show sorted[low + (high - low) / 2]? = some probe from hprobe,
      Option.map_some, replace, if_pos hless]
    exact ih
  | case2 low high hlow middle probe hprobe hless ih =>
    rw [insertionPoint.eq_def (sorted.map (replace f)), if_pos hlow]
    simp only [hget, show sorted[low + (high - low) / 2]? = some probe from hprobe,
      Option.map_some, replace, if_neg hless]
    exact ih
  | case3 low high hlow middle hprobe =>
    unfold insertionPoint
    simp only [if_pos hlow, hget, show sorted[low + (high - low) / 2]? = none from hprobe,
      Option.map_none]
  | case4 low high hlow =>
    unfold insertionPoint
    rw [if_neg hlow]

theorem insertAll_map (f : α → β) (sorted rest : List (Number × α)) :
    insertAll (sorted.map (replace f)) (rest.map (replace f)) =
      (insertAll sorted rest).map (replace f) := by
  induction rest generalizing sorted with
  | nil => rfl
  | cons next rest ih =>
    let point := insertionPoint sorted.toArray next.1 0 sorted.length
    have hpoint : insertionPoint (sorted.map (replace f)).toArray (replace f next).1 0
        (sorted.map (replace f)).length = point := by
      rw [← List.map_toArray, List.length_map, insertionPoint_map]
      rfl
    calc insertAll (sorted.map (replace f)) (replace f next :: rest.map (replace f))
        = insertAll ((sorted.map (replace f)).take point ++
            replace f next :: (sorted.map (replace f)).drop point) (rest.map (replace f)) := by
          rw [← hpoint]
          rfl
      _ = insertAll ((sorted.take point ++ next :: sorted.drop point).map (replace f))
            (rest.map (replace f)) := by
          rw [List.map_append, List.map_cons, List.map_take, List.map_drop]
      _ = (insertAll sorted (next :: rest)).map (replace f) := ih _

theorem byKey_map (f : α → β) (records : List (Number × α)) :
    byKey (records.map (replace f)) = (byKey records).map (replace f) := by
  have hall : (records.map (replace f)).all (·.1.place?.isSome) =
      records.all (·.1.place?.isSome) := by
    rw [List.all_map]
    rfl
  unfold byKey
  rw [hall]
  split
  · symm
    apply List.map_mergeSort
    intro a _ b _
    rfl
  · rw [orderedRun_map]
    exact insertAll_map f _ _

/-- Records that give way to others of the same keys are ordered like these. -/
theorem sortOn_map {key : α → Number} {other : β → Number} {f : α → β} {records : List α}
    (h : ∀ record ∈ records, other (f record) = key record) :
    sortOn other (records.map f) = (sortOn key records).map f := by
  have hkeyed : (records.map f).map (fun record => (other record, record)) =
      (records.map fun record => (key record, record)).map (replace f) := by
    rw [List.map_map, List.map_map]
    apply List.map_congr_left
    intro record hrecord
    show (other (f record), f record) = (key record, f record)
    rw [h record hrecord]
  rw [sortOn, hkeyed, byKey_map, sortOn, List.map_map, List.map_map]
  rfl

end Order

end SdkCatalog
