import Mathlib.Data.List.Induction
import SdkCatalog.Registry.MessageType

/-! Tables of folded values, told by the places at which the values are declared: what a table holds
under a name is the last value of that name, and the names stand in the order in which they are
declared for the first time. -/

namespace SdkCatalog

variable {α β ι κ : Type}

/-- The last of the values of a name that are declared at places, or none if there is no such
value. The places stand in an order. -/
def LastOf (before : ι → ι → Prop) (declared : ι → α → Prop) (name : α → String) (key : String) :
    Option α → Prop
  | some value => ∃ place, declared place value ∧ name value = key ∧
      ∀ later other, before place later → declared later other → name other ≠ key
  | none => ∀ place value, declared place value → name value ≠ key

/-- A name is declared at a place, and at none before it. -/
def FirstOf (before : ι → ι → Prop) (declared : ι → α → Prop) (name : α → String) (key : String)
    (place : ι) : Prop :=
  (∃ value, declared place value ∧ name value = key) ∧
    ∀ earlier other, before earlier place → declared earlier other → name other ≠ key

/-- A name is declared for the first time before another is. -/
def FirstBefore (before : ι → ι → Prop) (declared : ι → α → Prop) (name : α → String)
    (key other : String) : Prop :=
  ∃ place place', FirstOf before declared name key place ∧
    FirstOf before declared name other place' ∧ before place place'

theorem FirstOf.mono {before : ι → ι → Prop} {declared declared' : ι → α → Prop}
    {name : α → String} {key : String} {place : ι} (h : FirstOf before declared name key place)
    (hold : ∀ place value, declared place value → declared' place value)
    (hnew : ∀ earlier value, before earlier place → declared' earlier value →
      declared earlier value) : FirstOf before declared' name key place :=
  ⟨h.1.imp fun _ hvalue => ⟨hold _ _ hvalue.1, hvalue.2⟩,
    fun earlier other hearlier hother => h.2 earlier other hearlier (hnew _ _ hearlier hother)⟩

def lastNamed (name : α → String) (key : String) (values : List α) : Option α :=
  values.reverse.find? fun value => name value = key

theorem lastNamed_cons (name : α → String) (key : String) (value : α) (rest : List α) :
    lastNamed name key (value :: rest) =
      (lastNamed name key rest).or (if name value = key then some value else none) := by
  rw [lastNamed, List.reverse_cons, List.find?_append, ← lastNamed]
  by_cases h : name value = key <;> simp [h]

theorem Table.get?_foldl_insert (name : α → String) (key : String) (values : List α)
    (table : Table α) :
    (values.foldl (fun table value => table.insert (name value) value) table).get? key =
      (lastNamed name key values).or (table.get? key) := by
  induction values generalizing table with
  | nil => rfl
  | cons value rest ih =>
    rw [List.foldl_cons, ih, get?_insert, lastNamed_cons]
    cases lastNamed name key rest with
    | some last => rfl
    | none =>
      by_cases h : name value = key
      · rw [if_pos h, if_pos h]
        rfl
      · rw [if_neg h, if_neg h]
        rfl

/-- A table of values holds under a name the last value of that name. -/
theorem Table.get?_ofList (name : α → String) (key : String) (values : List α) :
    (Table.ofList name values).get? key = lastNamed name key values := by
  rw [Table.ofList, get?_foldl_insert]
  exact Option.or_none

/-! ### Values in the order of their places -/

/-- The values are those declared at places, a value for each declaration, in the order of the
places. -/
def InOrder (before : ι → ι → Prop) (declared : ι → α → Prop) (values : List α) : Prop :=
  ∃ placed : List (ι × α), placed.map (·.2) = values ∧
    placed.Pairwise (fun a b => before a.1 b.1) ∧
    ∀ place value, (place, value) ∈ placed ↔ declared place value

namespace InOrder

variable {before : ι → ι → Prop} {declared declared' : ι → α → Prop} {values others : List α}
  {name : α → String}

theorem congr (h : InOrder before declared values)
    (hsame : ∀ place value, declared place value ↔ declared' place value) :
    InOrder before declared' values := by
  obtain ⟨placed, hvalues, hsorted, hplaced⟩ := h
  exact ⟨placed, hvalues, hsorted, fun place value => (hplaced place value).trans (hsame _ _)⟩

theorem ofOption (before : ι → ι → Prop) (place : ι) (value? : Option α) :
    InOrder before (fun place' value => place' = place ∧ value? = some value) value?.toList := by
  refine ⟨value?.toList.map (place, ·), ?_, ?_, fun place' value => ?_⟩
  · rw [List.map_map]
    exact List.map_id _
  · cases value? <;> simp
  · cases value? <;> simp [eq_comm]

theorem append (h : InOrder before declared values) (h' : InOrder before declared' others)
    (hbefore : ∀ place value place' value', declared place value → declared' place' value' →
      before place place') :
    InOrder before (fun place value => declared place value ∨ declared' place value)
      (values ++ others) := by
  obtain ⟨placed, rfl, hsorted, hplaced⟩ := h
  obtain ⟨placed', rfl, hsorted', hplaced'⟩ := h'
  refine ⟨placed ++ placed', List.map_append, ?_, fun place value => ?_⟩
  · refine List.pairwise_append.mpr ⟨hsorted, hsorted', ?_⟩
    rintro ⟨place, value⟩ hvalue ⟨place', value'⟩ hvalue'
    exact hbefore _ _ _ _ ((hplaced _ _).mp hvalue) ((hplaced' _ _).mp hvalue')
  · rw [List.mem_append, hplaced, hplaced']

/-- The places can be renamed as long as their order is kept. -/
theorem rename {before' : κ → κ → Prop} (h : InOrder before declared values) (f : ι → κ)
    (hbefore : ∀ place place', before place place' → before' (f place) (f place')) :
    InOrder before' (fun place value => ∃ old, f old = place ∧ declared old value) values := by
  obtain ⟨placed, rfl, hsorted, hplaced⟩ := h
  refine ⟨placed.map fun item => (f item.1, item.2), ?_, ?_, fun place value => ?_⟩
  · rw [List.map_map]
    rfl
  · rw [List.pairwise_map]
    exact hsorted.imp fun hlt => hbefore _ _ hlt
  · simp only [List.mem_map, Prod.exists, Prod.mk.injEq, hplaced]
    constructor
    · rintro ⟨old, _, hdeclared, hold, rfl⟩
      exact ⟨old, hold, hdeclared⟩
    · rintro ⟨old, hold, hdeclared⟩
      exact ⟨old, value, hdeclared, hold, rfl⟩

/-- Values given by the items of a list, at most one by each, are declared at the indices of their
items. -/
theorem filterMap (give : β → Option α) (items : List β) :
    InOrder (fun a b : Nat => a < b)
      (fun index value => ∃ item, items[index]? = some item ∧ give item = some value)
      (items.filterMap give) := by
  induction items with
  | nil => exact ⟨[], rfl, .nil, fun place value => by simp⟩
  | cons item rest ih =>
    have hcons : (item :: rest).filterMap give = (give item).toList ++ rest.filterMap give := by
      rw [List.filterMap_cons]
      cases give item <;> rfl
    have hrest : InOrder (fun a b : Nat => a < b) _ (rest.filterMap give) :=
      ih.rename (· + 1) fun place place' hlt => by omega
    rw [hcons]
    refine ((ofOption _ 0 (give item)).append hrest ?_).congr ?_
    · rintro _ _ _ _ ⟨rfl, -⟩ ⟨old, rfl, -⟩
      omega
    · rintro (_ | index) value
      · simp
      · simp

/-- Values given by the items of a list, any number by each, are declared at the index of an item
and a place within it. -/
theorem flatMap {give : β → List α} {declared : β → ι → α → Prop}
    (h : ∀ item, InOrder before (declared item) (give item)) (items : List β) :
    InOrder (Prod.Lex (fun a b : Nat => a < b) before)
      (fun place value => ∃ item, items[place.1]? = some item ∧ declared item place.2 value)
      (items.flatMap give) := by
  induction items with
  | nil => exact ⟨[], rfl, .nil, fun place value => by simp⟩
  | cons item rest ih =>
    have hfirst : InOrder (Prod.Lex (fun a b : Nat => a < b) before) _ (give item) :=
      (h item).rename (fun place => (0, place)) fun place place' hlt => Prod.Lex.right _ hlt
    have hrest : InOrder (Prod.Lex (fun a b : Nat => a < b) before) _ (rest.flatMap give) :=
      ih.rename (fun place => (place.1 + 1, place.2)) fun place place' hlex => by
        rw [Prod.lex_def] at hlex ⊢
        simpa using hlex
    rw [List.flatMap_cons]
    refine (hfirst.append hrest ?_).congr ?_
    · rintro _ _ _ _ ⟨old, rfl, -⟩ ⟨old', rfl, -⟩
      exact Prod.Lex.left _ _ (Nat.succ_pos _)
    · rintro ⟨_ | index, place⟩ value
      · simp
      · simp [and_assoc]

/-- A value stands after those declared earlier and before those declared later. -/
theorem between {value : α} (h : InOrder before declared (values ++ value :: others))
    (hasymm : ∀ place place', before place place' → ¬before place' place) :
    ∃ place, declared place value ∧
      (∀ earlier other, before earlier place → declared earlier other → other ∈ values) ∧
      ∀ later other, before place later → declared later other → other ∈ others := by
  obtain ⟨placed, hvalues, hsorted, hplaced⟩ := h
  obtain ⟨front, back, rfl, rfl, hback⟩ := List.map_eq_append_iff.mp hvalues
  obtain ⟨⟨place, value'⟩, rest, rfl, rfl, rfl⟩ := List.map_eq_cons_iff.mp hback
  obtain ⟨-, hrest, hfront⟩ := List.pairwise_append.mp hsorted
  have hlater := (List.pairwise_cons.mp hrest).1
  refine ⟨place, (hplaced _ _).mp (by simp), fun earlier other hearlier hother => ?_,
    fun later other hafter hother => ?_⟩
  · rcases List.mem_append.mp ((hplaced _ _).mpr hother) with hmem | hmem
    · exact List.mem_map_of_mem hmem
    · rcases List.mem_cons.mp hmem with heq | hmem
      · injection heq with heq
        exact absurd (heq ▸ hearlier) (hasymm _ _ (heq ▸ hearlier))
      · exact absurd hearlier (hasymm _ _ (hlater _ hmem))
  · rcases List.mem_append.mp ((hplaced _ _).mpr hother) with hmem | hmem
    · exact absurd hafter (hasymm _ _ (hfront _ hmem _ List.mem_cons_self))
    · rcases List.mem_cons.mp hmem with heq | hmem
      · injection heq with heq
        exact absurd (heq ▸ hafter) (hasymm _ _ (heq ▸ hafter))
      · exact List.mem_map_of_mem hmem

theorem mem_iff (h : InOrder before declared values) {value : α} :
    value ∈ values ↔ ∃ place, declared place value := by
  obtain ⟨placed, rfl, -, hplaced⟩ := h
  simp only [List.mem_map, Prod.exists, exists_eq_right, hplaced]

/-- Of the values in order the last of a name is the one declared after all others of it. -/
theorem lastOf (h : InOrder before declared values)
    (hasymm : ∀ place place', before place place' → ¬before place' place) (key : String) :
    LastOf before declared name key (lastNamed name key values) := by
  cases hlast : lastNamed name key values with
  | none =>
    intro place value hdeclared
    have hmem := List.mem_reverse.mpr (h.mem_iff.mpr ⟨place, hdeclared⟩)
    simpa using List.find?_eq_none.mp hlast value hmem
  | some value =>
    obtain ⟨hkey, after, earlier, hsplit, hafter⟩ := List.find?_eq_some_iff_append.mp hlast
    have hvalues : values = earlier.reverse ++ value :: after.reverse := by
      rw [← List.reverse_reverse values, hsplit]
      simp
    obtain ⟨place, hdeclared, -, hlater⟩ := (hvalues ▸ h).between hasymm
    refine ⟨place, hdeclared, by simpa using hkey, fun later other hbefore hother => ?_⟩
    simpa using hafter other (List.mem_reverse.mp (hlater later other hbefore hother))

/-- A name that is declared at all is declared somewhere for the first time. -/
theorem exists_firstOf (h : InOrder before declared values)
    (hasymm : ∀ place place', before place place' → ¬before place' place) {value : α}
    (hvalue : value ∈ values) : ∃ place, FirstOf before declared name (name value) place := by
  cases hfirst : values.find? fun other => name other = name value with
  | none => simpa using List.find?_eq_none.mp hfirst value hvalue
  | some first =>
    obtain ⟨hname, earlier, after, hsplit, hearlier⟩ := List.find?_eq_some_iff_append.mp hfirst
    obtain ⟨place, hdeclared, hbefore, -⟩ := (hsplit ▸ h).between hasymm
    refine ⟨place, ⟨first, hdeclared, by simpa using hname⟩, fun place' other hplace hother => ?_⟩
    simpa using hearlier other (hbefore place' other hplace hother)

end InOrder

/-! ### The names of a table -/

theorem Table.map_fst_insert (table : Table α) (name : String) (value : α) :
    (table.insert name value).map (·.1) =
      if name ∈ table.map (·.1) then table.map (·.1) else table.map (·.1) ++ [name] := by
  induction table with
  | nil => simp [insert]
  | cons entry rest ih =>
    obtain ⟨first, old⟩ := entry
    rw [insert]
    by_cases hfirst : first = name
    · simp [hfirst]
    · simp only [if_neg hfirst, List.map_cons, List.mem_cons, Ne.symm hfirst, false_or, ih]
      split <;> rfl

theorem Table.ofList_concat (name : α → String) (values : List α) (value : α) :
    ofList name (values ++ [value]) = (ofList name values).insert (name value) value := by
  rw [ofList, List.foldl_append]
  rfl

theorem Table.mem_map_fst_ofList {name : α → String} {values : List α} {key : String} :
    key ∈ (ofList name values).map (·.1) ↔ ∃ value ∈ values, name value = key := by
  induction values using List.reverseRecOn with
  | nil => simp [ofList]
  | append_singleton values value ih =>
    have hmem : key ∈ ((ofList name values).insert (name value) value).map (·.1) ↔
        key ∈ (ofList name values).map (·.1) ∨ name value = key := by
      rw [map_fst_insert]
      split
      · next hthere =>
        exact ⟨.inl, fun h => h.elim id fun heq => heq ▸ hthere⟩
      · simp [eq_comm]
    rw [ofList_concat, hmem, ih]
    simp [or_and_right, exists_or]

/-- What is declared last of all is first under no name that stands before it. -/
theorem FirstOf.concat {before : ι → ι → Prop} {name : α → String} {key : String}
    {placed : List (ι × α)} {last : ι × α} {first : ι}
    (hasymm : ∀ place place', before place place' → ¬before place' place)
    (hlast : ∀ item ∈ placed, before item.1 last.1)
    (h : FirstOf before (fun place value => (place, value) ∈ placed) name key first) :
    FirstOf before (fun place value => (place, value) ∈ placed ++ [last]) name key first := by
  obtain ⟨⟨_, hfound, -⟩, -⟩ := id h
  refine h.mono (fun _ _ hmem => List.mem_append_left _ hmem) ?_
  intro earlier other hearlier hother
  refine (List.mem_append.mp hother).resolve_right fun hother => ?_
  rw [List.mem_singleton] at hother
  exact hasymm _ _ (hlast _ hfound) (hother ▸ hearlier)

/-- A name that none of the placed values has is first at a place behind all of them. -/
theorem FirstOf.of_new {before : ι → ι → Prop} {name : α → String} {placed : List (ι × α)}
    {last : ι × α} (hasymm : ∀ place place', before place place' → ¬before place' place)
    (hnew : ∀ item ∈ placed, name item.2 ≠ name last.2) :
    FirstOf before (fun place value => (place, value) ∈ placed ++ [last]) name (name last.2)
      last.1 := by
  refine ⟨⟨last.2, by simp, rfl⟩, fun earlier other hearlier hother hname => ?_⟩
  rcases List.mem_append.mp hother with hother | hother
  · exact hnew _ hother hname
  · rw [List.mem_singleton] at hother
    exact hasymm _ _ hearlier (hother ▸ hearlier)

/-- The names of a table stand in the order in which they are declared for the first time. -/
theorem Table.pairwise_map_fst_ofList {before : ι → ι → Prop} {declared : ι → α → Prop}
    {name : α → String} {values : List α} (h : InOrder before declared values)
    (hasymm : ∀ place place', before place place' → ¬before place' place) :
    ((ofList name values).map (·.1)).Pairwise (FirstBefore before declared name) := by
  obtain ⟨placed, rfl, hsorted, hplaced⟩ := h
  obtain rfl : (fun place value => (place, value) ∈ placed) = declared :=
    funext fun place => funext fun value => propext (hplaced place value)
  clear hplaced
  induction placed using List.reverseRecOn with
  | nil => exact .nil
  | append_singleton placed last ih =>
    obtain ⟨hsorted, -, hlast⟩ := List.pairwise_append.mp hsorted
    have hlast : ∀ item ∈ placed, before item.1 last.1 := fun item hitem =>
      hlast item hitem last (List.mem_singleton_self _)
    have hpairs := (ih hsorted).imp
      (S := FirstBefore before (fun place value => (place, value) ∈ placed ++ [last]) name)
      fun ⟨first, first', hfirst, hfirst', hbefore⟩ =>
        ⟨first, first', hfirst.concat hasymm hlast, hfirst'.concat hasymm hlast, hbefore⟩
    rw [List.map_append, List.map_singleton, ofList_concat, map_fst_insert]
    split
    · exact hpairs
    · next hnew =>
      refine List.pairwise_append.mpr ⟨hpairs, List.pairwise_singleton _ _, ?_⟩
      intro key hkey new hnewKey
      obtain rfl := List.mem_singleton.mp hnewKey
      obtain ⟨found, hfound, rfl⟩ := mem_map_fst_ofList.mp hkey
      have horder : InOrder before (fun place value => (place, value) ∈ placed)
          (placed.map (·.2)) := ⟨placed, rfl, hsorted, fun _ _ => Iff.rfl⟩
      obtain ⟨first, hfirst⟩ : ∃ first, FirstOf before _ name (name found) first :=
        horder.exists_firstOf hasymm hfound
      have ⟨_, hthere, _⟩ := hfirst.1
      have hlastNew : ∀ item ∈ placed, name item.2 ≠ name last.2 := fun item hitem heq =>
        hnew (mem_map_fst_ofList.mpr ⟨item.2, List.mem_map_of_mem hitem, heq⟩)
      exact ⟨first, last.1, hfirst.concat hasymm hlast, .of_new hasymm hlastNew, hlast _ hthere⟩

end SdkCatalog
