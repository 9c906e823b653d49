import SdkCatalog.Catalog.Store
import SdkCatalog.Proofs.Number.Exact
import SdkCatalog.Proofs.Registry.Order

/-! The order of message types is the stable one. Where every key is a number, the items stand in
the only order in which their exact values ascend and equal values keep their places. Entries and
the objects that record them are ordered alike. -/

namespace SdkCatalog

namespace Order

open Json

section Records

variable {α : Type} {key : α → Number} {records : List α}

/-! ### The stable sort -/

/-- The comparison of the stable sort, by exact values. -/
def noLater (key : α → Number) (a b : α) : Bool :=
  decide ((key a).exactValue ≤ (key b).exactValue)

theorem noLater_iff {a b : α} :
    noLater key a b = true ↔ (key a).exactValue ≤ (key b).exactValue := by
  rw [noLater, decide_eq_true_eq]

theorem noLater_trans (a b c : α) (hab : noLater key a b = true) (hbc : noLater key b c = true) :
    noLater key a c = true :=
  noLater_iff.mpr ((noLater_iff.mp hab).trans (noLater_iff.mp hbc))

theorem noLater_total (a b : α) : (noLater key a b || noLater key b a) = true := by
  rw [Bool.or_eq_true, noLater_iff, noLater_iff]
  exact le_total _ _

theorem sortOn_eq_mergeSort (h : ∀ record ∈ records, (key record).exactValue? ≠ none) :
    sortOn key records = records.mergeSort (noLater key) := by
  have hplaced : (records.map fun record => (key record, record)).all (·.1.place?.isSome) := by
    rw [List.all_map, List.all_eq_true]
    intro record hrecord
    have hvalue := h record hrecord
    rw [Number.exactValue?_eq, ne_eq, Option.map_eq_none_iff] at hvalue
    exact Option.isSome_iff_ne_none.mpr hvalue
  have hcompare : ∀ a ∈ records, ∀ b ∈ records, noLater key a b = !(key b).less (key a) := by
    intro a ha b hb
    rw [Bool.eq_iff_iff, noLater_iff, Bool.not_eq_true', ← Bool.not_eq_true,
      Number.less_iff (h b hb) (h a ha), not_lt]
  rw [sortOn, byKey, if_pos hplaced, ← List.map_mergeSort hcompare, List.map_map]
  exact List.map_id _

theorem pairwise_sortOn (h : ∀ record ∈ records, (key record).exactValue? ≠ none) :
    (sortOn key records).Pairwise fun a b => noLater key a b = true := by
  rw [sortOn_eq_mergeSort h]
  exact List.pairwise_mergeSort noLater_trans noLater_total records

theorem mem_sortOn {record : α} : record ∈ sortOn key records ↔ record ∈ records :=
  (perm_sortOn key records).mem_iff

/-- Ordering what is ordered changes nothing. -/
theorem sortOn_sortOn (h : ∀ record ∈ records, (key record).exactValue? ≠ none) :
    sortOn key (sortOn key records) = sortOn key records := by
  rw [sortOn_eq_mergeSort fun record hrecord => h record (mem_sortOn.mp hrecord)]
  exact List.mergeSort_of_pairwise (pairwise_sortOn h)

/-! ### Places -/

/-- Of two places the first comes before: its record has the smaller value, or the same value and
the earlier place. -/
def Precedes (value? : α → Option (WithBot (WithTop ℚ))) (records : List α) (i j : Nat) : Prop :=
  ∃ a b v w, records[i]? = some a ∧ records[j]? = some b ∧ value? a = some v ∧
    value? b = some w ∧ (v < w ∨ v = w ∧ i < j)

theorem Precedes.asymm {value? : α → Option (WithBot (WithTop ℚ))} {i j : Nat}
    (h : Precedes value? records i j) : ¬Precedes value? records j i := by
  rintro ⟨b', a', w', v', hb', ha', hw', hv', hback⟩
  obtain ⟨a, b, v, w, ha, hb, hv, hw, hforth⟩ := h
  obtain rfl := Option.some_inj.mp (ha.symm.trans ha')
  obtain rfl := Option.some_inj.mp (hb.symm.trans hb')
  obtain rfl := Option.some_inj.mp (hv.symm.trans hv')
  obtain rfl := Option.some_inj.mp (hw.symm.trans hw')
  rcases hforth with hlt | ⟨heq, hij⟩
  · rcases hback with hlt' | ⟨heq', -⟩
    · exact lt_asymm hlt hlt'
    · exact hlt.ne' heq'
  · rcases hback with hlt' | ⟨-, hji⟩
    · exact hlt'.ne' heq
    · omega

/-- The records at the given places: each place once, in the order in which they come before one
another. -/
structure Arranges (value? : α → Option (WithBot (WithTop ℚ))) (records : List α)
    (places : List Nat) (arranged : List α) : Prop where
  perm : places.Perm (List.range records.length)
  ordered : places.Pairwise (Precedes value? records)
  taken : places.map (fun i => records[i]?) = arranged.map some

/-- There is at most one such order. -/
theorem Arranges.unique {value? : α → Option (WithBot (WithTop ℚ))} {places others : List Nat}
    {arranged rearranged : List α} (h : Arranges value? records places arranged)
    (hothers : Arranges value? records others rearranged) :
    others = places ∧ rearranged = arranged := by
  have hplaces : others = places :=
    List.Perm.eq_of_pairwise (fun i j _ _ hij hji => absurd hji hij.asymm) hothers.ordered
      h.ordered (hothers.perm.trans h.perm.symm)
  refine ⟨hplaces, ?_⟩
  have htaken := hothers.taken
  rw [hplaces, h.taken] at htaken
  exact (List.map_injective_iff.mpr (Option.some_injective α) htaken).symm

theorem zipIdxLE_iff {a b : α} {i j : Nat} : List.zipIdxLE (noLater key) (a, i) (b, j) = true ↔
    (key a).exactValue ≤ (key b).exactValue ∧
      ((key b).exactValue ≤ (key a).exactValue → i ≤ j) := by
  simp only [List.zipIdxLE, noLater_iff]
  split
  · split <;> simp_all
  · simp_all

/-- The sorted records are those at the places as the stable sort of them leaves these. -/
theorem exists_arranges_sortOn {value? : α → Option (WithBot (WithTop ℚ))}
    (h : ∀ record ∈ records, (key record).exactValue? ≠ none)
    (hvalue : ∀ record ∈ records, value? record = (key record).exactValue?) :
    ∃ places, Arranges value? records places (sortOn key records) := by
  -- The records are sorted together with their places, which tell equal ones apart.
  let sorted := records.zipIdx.mergeSort (List.zipIdxLE (noLater key))
  have hmem : ∀ entry ∈ sorted, records[entry.2]? = some entry.1 := fun entry hentry =>
    List.mk_mem_zipIdx_iff_getElem?.mp (List.mem_mergeSort.mp hentry)
  have hperm : (sorted.map (·.2)).Perm (List.range records.length) := by
    have hsnd := (List.mergeSort_perm records.zipIdx (List.zipIdxLE (noLater key))).map (·.2)
    rwa [List.zipIdx_map_snd, ← List.range_eq_range'] at hsnd
  have hnodup : sorted.Pairwise fun a b => a.2 ≠ b.2 :=
    List.pairwise_map.mp (hperm.nodup_iff.mpr List.nodup_range)
  have hle := List.pairwise_mergeSort (List.zipIdxLE_trans (@noLater_trans _ key))
    (List.zipIdxLE_total noLater_total) records.zipIdx
  refine ⟨sorted.map (·.2), hperm, List.pairwise_map.mpr ?_, ?_⟩
  · refine (hle.and hnodup).imp_of_mem ?_
    rintro ⟨a, i⟩ ⟨b, j⟩ hi hj ⟨hle, hne⟩
    obtain ⟨hab, hlast⟩ := zipIdxLE_iff.mp hle
    have ha := List.mem_of_getElem? (hmem _ hi)
    have hb := List.mem_of_getElem? (hmem _ hj)
    refine ⟨a, b, _, _, hmem _ hi, hmem _ hj,
      (hvalue a ha).trans (Number.exactValue?_eq_some (h a ha)),
      (hvalue b hb).trans (Number.exactValue?_eq_some (h b hb)), ?_⟩
    rcases lt_or_eq_of_le hab with hlt | heq
    · exact .inl hlt
    · exact .inr ⟨heq, lt_of_le_of_ne (hlast heq.ge) hne⟩
  · rw [sortOn_eq_mergeSort h, ← List.mergeSort_zipIdx, List.map_map, List.map_map]
    exact List.map_congr_left hmem

end Records

/-! ### Items -/

namespace Item

/-- The item is a message type, loaded or not. -/
def IsMessageType : Item → Prop
  | .other _ => False
  | _ => True

/-- The exact value by which an item is ordered: its content type value, and zero when that is
missing or no number. -/
def value? : Item → Option (WithBot (WithTop ℚ))
  | .entry record => (record.typeValue.getD (.int 0)).exactValue?
  | .loaded record =>
    match record.get? "typeValue" with
    | some (.number value) => value.exactValue?
    | _ => some 0
  | .other _ => none

/-- The item as it is written and loaded again. -/
def recorded : Item → Item
  | .entry record => .loaded record.record
  | item => item

/-- The order key of an item, and zero for what is no message type. -/
def key : Item → Number
  | .entry record => record.orderKey
  | .loaded record => record.orderKey
  | .other _ => .int 0

variable {item : Item}

theorem orderKey_eq (h : item.IsMessageType) : item.orderKey = .ok item.key := by
  cases item with
  | entry record => rfl
  | loaded record => rfl
  | other type => exact absurd h id

theorem isMessageType_of_value? (h : item.value? ≠ none) : item.IsMessageType := by
  cases item with
  | entry record => trivial
  | loaded record => trivial
  | other type => exact absurd rfl h

theorem value?_eq (h : item.IsMessageType) : item.value? = item.key.exactValue? := by
  cases item with
  | entry record => rfl
  | other type => exact absurd h id
  | loaded record =>
    have hzero : some (0 : WithBot (WithTop ℚ)) = (Number.int 0).exactValue? := by
      simp [Number.exactValue?]
    simp only [value?, key, Members.orderKey]
    cases record.get? "typeValue" with
    | none => exact hzero
    | some value =>
      cases value with
      | number value => rfl
      | _ => exact hzero

theorem IsMessageType.recorded (h : item.IsMessageType) : item.recorded.IsMessageType := by
  cases item with
  | entry record => trivial
  | loaded record => trivial
  | other type => exact absurd h id

theorem key_recorded (item : Item) : item.recorded.key = item.key := by
  cases item with
  | entry record =>
    have hget : record.record.get? "typeValue" = some (.ofNumber? record.typeValue) := rfl
    show Members.orderKey record.record = record.orderKey
    unfold Members.orderKey MessageType.orderKey
    rw [hget]
    cases record.typeValue <;> rfl
  | loaded record => rfl
  | other type => rfl

end Item

variable {items : List Item}

theorem mapM_orderKey (h : ∀ item ∈ items, item.IsMessageType) :
    (items.mapM fun item => do return (← item.orderKey, item)) =
      (.ok (items.map fun item => (item.key, item)) : Except Misfit _) := by
  induction items with
  | nil => rfl
  | cons item rest ih =>
    rw [List.mapM_cons, Item.orderKey_eq (h item List.mem_cons_self),
      ih fun other hother => h other (List.mem_cons_of_mem _ hother)]
    rfl

theorem sortItems_eq_ok (h : ∀ item ∈ items, item.IsMessageType) :
    sortItems items = .ok (sortOn Item.key items) := by
  rw [sortItems, mapM_orderKey h]
  rfl

/-- The first item that is no message type is the error. -/
theorem sortItems_eq_error {before after : List Item} {type : String}
    (h : ∀ item ∈ before, item.IsMessageType) :
    sortItems (before ++ .other type :: after) = .error ⟨type⟩ := by
  rw [sortItems, List.mapM_append, mapM_orderKey h, List.mapM_cons]
  rfl

/-- The message types of a store are sorted as items. -/
theorem sortItems_loaded (records : List Members) :
    sortItems (records.map .loaded) = .ok ((Members.sort records).map .loaded) := by
  have htypes : ∀ item ∈ records.map Item.loaded, item.IsMessageType := by
    intro item hitem
    obtain ⟨record, -, rfl⟩ := List.mem_map.mp hitem
    trivial
  have hsorted : sortOn Item.key (records.map Item.loaded) =
      (sortOn Members.orderKey records).map Item.loaded := sortOn_map fun _ _ => rfl
  rw [sortItems_eq_ok htypes, hsorted, Members.sort]

/-- Message types are sorted stably by their exact values: what comes out is the only order of the
items in which the values ascend and equal values keep their places. It does not change when it is
sorted again, and it is the same before and after the items are written. If some item is no message
type, the first such is the error, wherever it stands. -/
theorem sorts_items_stably (items : List Item) :
    (∀ before type after, items = before ++ .other type :: after →
      (∀ item ∈ before, item.IsMessageType) → ∃ misfit, sortItems items = .error misfit ∧
        misfit.message = "Cannot sort " ++ type ++ " as a message type") ∧
    ((∀ item ∈ items, item.value? ≠ none) → ∃ sorted places, sortItems items = .ok sorted ∧
      Arranges Item.value? items places sorted ∧
      (∀ otherPlaces others, Arranges Item.value? items otherPlaces others →
        otherPlaces = places ∧ others = sorted) ∧
      sortItems sorted = .ok sorted) ∧
    ((∀ item ∈ items, item.IsMessageType) → ∃ sorted, sortItems items = .ok sorted ∧
      sortItems (items.map Item.recorded) = .ok (sorted.map Item.recorded)) := by
  refine ⟨?_, fun hvalues => ?_, fun htypes => ?_⟩
  · rintro before type after rfl hbefore
    exact ⟨_, sortItems_eq_error hbefore, rfl⟩
  · have htypes := fun item hitem => Item.isMessageType_of_value? (hvalues item hitem)
    have hvalue : ∀ item ∈ items, item.value? = item.key.exactValue? := fun item hitem =>
      Item.value?_eq (htypes item hitem)
    have hkeys : ∀ item ∈ items, item.key.exactValue? ≠ none := fun item hitem =>
      hvalue item hitem ▸ hvalues item hitem
    obtain ⟨places, hplaces⟩ := exists_arranges_sortOn hkeys hvalue
    refine ⟨_, places, sortItems_eq_ok htypes, hplaces,
      fun _ _ hothers => hplaces.unique hothers, ?_⟩
    rw [sortItems_eq_ok fun item hitem => htypes item (mem_sortOn.mp hitem), sortOn_sortOn hkeys]
  · refine ⟨_, sortItems_eq_ok htypes, ?_⟩
    have hrecorded : ∀ item ∈ items.map Item.recorded, item.IsMessageType := by
      intro item hitem
      obtain ⟨original, horiginal, rfl⟩ := List.mem_map.mp hitem
      exact (htypes original horiginal).recorded
    rw [sortItems_eq_ok hrecorded, sortOn_map fun item _ => item.key_recorded]

/-- Five, nothing, less than any number, and nothing again. -/
theorem sorts_items_stably_four :
    let five : Item := .loaded [("typeValue", .number (.int 5))]
    let nothing : Item := .loaded [("typeValue", .bool true)]
    let least : Item := .loaded [("typeValue", .number (.float (.infinite true)))]
    let missing : Item := .entry { name := "", flag := "", contentType := "", className := "" }
    let items := [five, nothing, least, missing]
    (∀ item ∈ items, item.value? ≠ none) ∧
      sortItems items = .ok [least, nothing, missing, five] ∧
      ∃ misfit, sortItems (items ++ [.other "int"]) = .error misfit ∧
        misfit.message = "Cannot sort int as a message type" := by
  intro five nothing least missing items
  have hfive : five.value? = some 5 := rfl
  have hnothing : nothing.value? = some 0 := rfl
  have hleast : least.value? = some ⊥ := rfl
  have hmissing : missing.value? = some 0 := by simp [missing, Item.value?, Number.exactValue?]
  have hzero : (⊥ : WithBot (WithTop ℚ)) < 0 := WithBot.bot_lt_coe 0
  have hpositive : (0 : WithBot (WithTop ℚ)) < 5 :=
    WithBot.coe_lt_coe.mpr (WithTop.coe_lt_coe.mpr (show (0 : ℚ) < 5 by norm_num))
  have hvalues : ∀ item ∈ items, item.value? ≠ none := by
    simp [items, hfive, hnothing, hleast, hmissing]
  have harranges : Arranges Item.value? items [2, 1, 3, 0] [least, nothing, missing, five] := by
    refine ⟨by decide, ?_, rfl⟩
    simp only [List.pairwise_cons, List.mem_cons, List.not_mem_nil, or_false, forall_eq_or_imp,
      forall_eq, false_imp_iff, implies_true, List.Pairwise.nil, and_true]
    exact ⟨⟨⟨_, _, _, _, rfl, rfl, hleast, hnothing, .inl hzero⟩,
        ⟨_, _, _, _, rfl, rfl, hleast, hmissing, .inl hzero⟩,
        ⟨_, _, _, _, rfl, rfl, hleast, hfive, .inl (hzero.trans hpositive)⟩⟩,
      ⟨⟨_, _, _, _, rfl, rfl, hnothing, hmissing, .inr ⟨rfl, by decide⟩⟩,
        ⟨_, _, _, _, rfl, rfl, hnothing, hfive, .inl hpositive⟩⟩,
      ⟨_, _, _, _, rfl, rfl, hmissing, hfive, .inl hpositive⟩⟩
  obtain ⟨-, hsorts, -⟩ := sorts_items_stably items
  obtain ⟨sorted, places, hsorted, -, hunique, -⟩ := hsorts hvalues
  refine ⟨hvalues, ?_, ?_⟩
  · rw [hsorted, (hunique _ _ harranges).2]
  · refine (sorts_items_stably _).1 items "int" [] rfl fun item hitem => ?_
    exact Item.isMessageType_of_value? (hvalues item hitem)

end Order

end SdkCatalog
