import Mathlib
import SdkCatalog.Files.Tree

/-! File trees with an entry put somewhere: what stands where, and where paths lead. Entries are
only put where nothing or a regular file stands, so no path is led astray. -/

namespace SdkCatalog.FileTree

variable {tree : FileTree} {place other : Location} {entry : Entry}

/-! ### What stands where -/

theorem find?_putEntry_same (entries : List (Location × Entry)) :
    ((putEntry entries place entry).find? (·.1 = place)).map (·.2) = some entry := by
  induction entries with
  | nil => simp [putEntry]
  | cons first rest ih =>
    rw [putEntry]
    split
    · next h => simp [h]
    · next h => simpa [h] using ih

theorem find?_putEntry_other (entries : List (Location × Entry)) (h : other ≠ place) :
    (putEntry entries place entry).find? (·.1 = other) = entries.find? (·.1 = other) := by
  induction entries with
  | nil => simp [putEntry, h.symm]
  | cons first rest ih =>
    rw [putEntry]
    split
    · next hfirst => simp [hfirst, h.symm]
    · simp only [List.find?_cons, ih]

theorem entry?_put_same (h : place ≠ []) :
    FileTree.entry? (tree.put place entry) place = some entry := by
  rw [FileTree.entry?, if_neg h]
  exact find?_putEntry_same tree.entries

theorem entry?_put_other (h : other ≠ place) :
    FileTree.entry? (tree.put place entry) other = tree.entry? other := by
  rw [FileTree.entry?, FileTree.entry?]
  split
  · rfl
  · rw [put, find?_putEntry_other tree.entries h]

theorem putEntry_of_find? {entries : List (Location × Entry)}
    (h : (entries.find? (·.1 = place)).map (·.2) = some entry) :
    putEntry entries place entry = entries := by
  induction entries with
  | nil => simp at h
  | cons first rest ih =>
    rw [putEntry]
    split
    · next hfirst =>
      have : first.2 = entry := by simpa [hfirst] using h
      rw [← this]
    · next hfirst => rw [ih (by simpa [hfirst] using h)]

theorem exists_entry?_iff (h : place ≠ []) :
    (∃ entry, tree.entry? place = some entry) ↔ place ∈ tree.entries.map (·.1) := by
  rw [FileTree.entry?, if_neg h, ← Option.isSome_iff_exists, Option.isSome_map, List.find?_isSome,
    List.mem_map]
  simp only [decide_eq_true_eq]

theorem put_of_entry? (h : tree.entry? place = some entry) (hne : place ≠ []) :
    tree.put place entry = tree := by
  rw [FileTree.entry?, if_neg hne] at h
  simp only [put, putEntry_of_find? h]

theorem map_fst_putEntry {entries : List (Location × Entry)}
    (h : place ∈ entries.map (·.1)) :
    (putEntry entries place entry).map (·.1) = entries.map (·.1) := by
  induction entries with
  | nil => simp at h
  | cons first rest ih =>
    rw [putEntry]
    split
    · rfl
    · next hfirst =>
      have : place ∈ rest.map (·.1) := by
        rcases List.mem_cons.mp h with rfl | h
        · exact absurd rfl hfirst
        · exact h
      rw [List.map_cons, List.map_cons, ih this]

theorem hasDirectory_iff : tree.hasDirectory place = true ↔ tree.entry? place = some .directory :=
  decide_eq_true_iff

/-- The name of a location directly below another. -/
def nameBelow (place other : Location) : Option String :=
  if other.dropLast = place then other.getLast? else none

theorem nameBelow_eq_some_iff {name : String} :
    nameBelow place other = some name ↔ other = place ++ [name] := by
  rw [nameBelow]
  constructor
  · intro h
    split at h
    · next hdrop =>
      obtain ⟨initial, rfl⟩ := List.getLast?_eq_some_iff.mp h
      rw [← hdrop, List.dropLast_concat]
    · simp at h
  · rintro rfl
    rw [List.dropLast_concat, if_pos rfl, List.getLast?_concat]

theorem namesIn_eq (tree : FileTree) (place : Location) :
    tree.namesIn place = (tree.entries.map (·.1)).filterMap (nameBelow place) := by
  rw [namesIn, List.filterMap_map]
  refine List.filterMap_congr ?_
  rintro ⟨other, old⟩ _
  rw [Function.comp_apply, nameBelow]
  cases hlast : other.getLast? with
  | none => simp only [hlast, ite_self]
  | some name => simp only [hlast]

/-- Nothing or a regular file stands at a location, so that a regular file can be put there. -/
def Open (tree : FileTree) (place : Location) : Prop :=
  tree.entry? place = none ∨ ∃ content, tree.entry? place = some (.file content)

theorem Open.ne_nil (h : tree.Open place) : place ≠ [] := by
  rintro rfl
  rcases h with h | ⟨_, h⟩ <;> simp [FileTree.entry?] at h

theorem Open.ne_of_directory (h : tree.Open place) (hother : tree.entry? other = some .directory) :
    other ≠ place := by
  rintro rfl
  rcases h with h | ⟨_, h⟩ <;> simp [h] at hother

theorem Open.ne_of_link {target : String} (h : tree.Open place)
    (hother : tree.entry? other = some (.link target)) : other ≠ place := by
  rintro rfl
  rcases h with h | ⟨_, h⟩ <;> simp [h] at hother

/-! ### One name at a time -/

section

variable {last : Bool} {links : Nat} {here : Location} {name : String} {rest : List String}

theorem follow_nil : tree.follow last links here [] = .ok (.entry here .directory) := by
  cases links <;> rfl

/-- What is done at one name. -/
theorem follow_cons :
    tree.follow last links here (name :: rest) =
      if name = ".." then tree.follow last links here.dropLast rest
      else
        match tree.entry? (here ++ [name]) with
        | none =>
          if rest.isEmpty && tree.hasDirectory here then .ok (.vacant (here ++ [name]))
          else .error .missing
        | some .directory => tree.follow last links (here ++ [name]) rest
        | some (.file content) =>
          if rest.isEmpty then .ok (.entry (here ++ [name]) (.file content))
          else .error .notDirectory
        | some (.link target) =>
          if rest.isEmpty && !last then .ok (.entry (here ++ [name]) (.link target))
          else
            match links with
            | 0 => .error .tooManyLinks
            | links + 1 => tree.follow last links (targetStart here (Path.ofString target))
              ((Path.ofString target).names ++ rest) := by
  cases links <;> rfl

theorem follow_dots :
    tree.follow last links here (".." :: rest) = tree.follow last links here.dropLast rest := by
  rw [follow_cons, if_pos rfl]

theorem follow_none (hdots : name ≠ "..") (h : tree.entry? (here ++ [name]) = none) :
    tree.follow last links here (name :: rest) =
      if rest.isEmpty && tree.hasDirectory here then .ok (.vacant (here ++ [name]))
      else .error .missing := by
  rw [follow_cons, if_neg hdots, h]

theorem follow_directory (hdots : name ≠ "..")
    (h : tree.entry? (here ++ [name]) = some .directory) :
    tree.follow last links here (name :: rest) =
      tree.follow last links (here ++ [name]) rest := by
  rw [follow_cons, if_neg hdots, h]

theorem follow_file {content : List UInt8} (hdots : name ≠ "..")
    (h : tree.entry? (here ++ [name]) = some (.file content)) :
    tree.follow last links here (name :: rest) =
      if rest.isEmpty then .ok (.entry (here ++ [name]) (.file content))
      else .error .notDirectory := by
  rw [follow_cons, if_neg hdots, h]

theorem follow_lastLink {target : String} (hdots : name ≠ "..")
    (h : tree.entry? (here ++ [name]) = some (.link target)) :
    tree.follow false links here [name] = .ok (.entry (here ++ [name]) (.link target)) := by
  rw [follow_cons, if_neg hdots, h]
  rfl

theorem follow_link_zero {target : String} (hdots : name ≠ "..")
    (h : tree.entry? (here ++ [name]) = some (.link target))
    (hlast : (rest.isEmpty && !last) = false) :
    tree.follow last 0 here (name :: rest) = .error .tooManyLinks := by
  rw [follow_cons, if_neg hdots, h]
  exact if_neg (ne_true_of_eq_false hlast)

theorem follow_link_succ {target : String} (hdots : name ≠ "..")
    (h : tree.entry? (here ++ [name]) = some (.link target))
    (hlast : (rest.isEmpty && !last) = false) :
    tree.follow last (links + 1) here (name :: rest) =
      tree.follow last links (targetStart here (Path.ofString target))
        ((Path.ofString target).names ++ rest) := by
  rw [follow_cons, if_neg hdots, h]
  exact if_neg (ne_true_of_eq_false hlast)

end

/-! ### Where paths lead -/

/-- Names lead from a directory to what is found, step by step, through at most the given number
of links. -/
inductive Leads (tree : FileTree) (last : Bool) : Nat → Location → List String → Found → Prop
  | here {links : Nat} {here : Location} : Leads tree last links here [] (.entry here .directory)
  | dots {links : Nat} {here : Location} {rest : List String} {found : Found} :
    Leads tree last links here.dropLast rest found → Leads tree last links here (".." :: rest) found
  | vacant {links : Nat} {here : Location} {name : String} :
    name ≠ ".." → tree.entry? (here ++ [name]) = none → tree.entry? here = some .directory →
    Leads tree last links here [name] (.vacant (here ++ [name]))
  | file {links : Nat} {here : Location} {name : String} {content : List UInt8} :
    name ≠ ".." → tree.entry? (here ++ [name]) = some (.file content) →
    Leads tree last links here [name] (.entry (here ++ [name]) (.file content))
  | directory {links : Nat} {here : Location} {name : String} {rest : List String} {found : Found} :
    name ≠ ".." → tree.entry? (here ++ [name]) = some .directory →
    Leads tree last links (here ++ [name]) rest found →
    Leads tree last links here (name :: rest) found
  | lastLink {links : Nat} {here : Location} {name target : String} :
    name ≠ ".." → tree.entry? (here ++ [name]) = some (.link target) → last = false →
    Leads tree last links here [name] (.entry (here ++ [name]) (.link target))
  | link {links : Nat} {here : Location} {name target : String} {rest : List String}
    {found : Found} :
    name ≠ ".." → tree.entry? (here ++ [name]) = some (.link target) →
    (rest.isEmpty && !last) = false →
    Leads tree last links (targetStart here (Path.ofString target))
      ((Path.ofString target).names ++ rest) found →
    Leads tree last (links + 1) here (name :: rest) found

theorem leads_of_follow {last : Bool} {links : Nat} {here : Location} {names : List String}
    {found : Found} (h : tree.follow last links here names = .ok found) :
    Leads tree last links here names found := by
  -- One case for each branch of the walk. A link uses up one of those allowed, other steps a name.
  match names with
  | [] =>
    rw [follow_nil] at h
    injection h with h
    exact h ▸ .here
  | name :: rest =>
    by_cases hdots : name = ".."
    · subst hdots
      rw [follow_dots] at h
      exact .dots (leads_of_follow h)
    · cases hentry : tree.entry? (here ++ [name]) with
      | none =>
        rw [follow_none hdots hentry] at h
        split at h
        · next hvacant =>
          rw [Bool.and_eq_true, List.isEmpty_iff, hasDirectory_iff] at hvacant
          injection h with h
          exact hvacant.1 ▸ h ▸ .vacant hdots hentry hvacant.2
        · simp at h
      | some entry =>
        cases entry with
        | file content =>
          rw [follow_file hdots hentry] at h
          split at h
          · next hrest =>
            injection h with h
            exact List.isEmpty_iff.mp hrest ▸ h ▸ .file hdots hentry
          · simp at h
        | directory =>
          rw [follow_directory hdots hentry] at h
          exact .directory hdots hentry (leads_of_follow h)
        | link target =>
          cases hlast : rest.isEmpty && !last with
          | true =>
            simp only [Bool.and_eq_true, Bool.not_eq_true', List.isEmpty_iff] at hlast
            obtain ⟨rfl, rfl⟩ := hlast
            rw [follow_lastLink hdots hentry] at h
            injection h with h
            exact h ▸ .lastLink hdots hentry rfl
          | false =>
            match links with
            | 0 =>
              rw [follow_link_zero hdots hentry hlast] at h
              simp at h
            | links + 1 =>
              rw [follow_link_succ hdots hentry hlast] at h
              exact .link hdots hentry hlast (leads_of_follow h)
termination_by (links, names.length)

theorem Leads.follow {last : Bool} {links : Nat} {here : Location} {names : List String}
    {found : Found} (h : Leads tree last links here names found) :
    tree.follow last links here names = .ok found := by
  induction h with
  | here => exact follow_nil
  | dots _ ih => rw [follow_dots, ih]
  | vacant hdots hentry hhere =>
    rw [follow_none hdots hentry, List.isEmpty_nil, hasDirectory_iff.mpr hhere]
    rfl
  | file hdots hentry => rw [follow_file hdots hentry, List.isEmpty_nil, if_pos rfl]
  | directory hdots hentry _ ih => rw [follow_directory hdots hentry, ih]
  | lastLink hdots hentry hlast => rw [hlast, follow_lastLink hdots hentry]
  | link hdots hentry hlast _ ih => rw [follow_link_succ hdots hentry hlast, ih]

theorem follow_eq_ok_iff {last : Bool} {links : Nat} {here : Location} {names : List String}
    {found : Found} :
    tree.follow last links here names = .ok found ↔ Leads tree last links here names found :=
  ⟨leads_of_follow, Leads.follow⟩

/-- A tree holds at its location what is found, and nothing where the end is vacant. A directory
may be the one that a path starts from, at which nothing is looked up. -/
def Found.Stands (tree : FileTree) : Found → Prop
  | .vacant place => tree.entry? place = none
  | .entry _ .directory => True
  | .entry place entry => tree.entry? place = some entry

namespace Leads

variable {last : Bool} {links : Nat} {here : Location} {names : List String} {found : Found}

/-- Names that lead to a directory lead on from there, through the links that are left. -/
theorem follow_append {directory : Location}
    (h : Leads tree true links here names (.entry directory .directory)) :
    ∃ left, ∀ last rest, rest ≠ [] →
      tree.follow last links here (names ++ rest) = tree.follow last left directory rest := by
  generalize hfound : Found.entry directory .directory = found at h
  induction h with
  | @here links here =>
    injection hfound with hfound
    exact ⟨links, fun last rest _ => by rw [hfound, List.nil_append]⟩
  | dots _ ih =>
    obtain ⟨left, hleft⟩ := ih hfound
    exact ⟨left, fun last rest hrest => by rw [List.cons_append, follow_dots, hleft _ _ hrest]⟩
  | vacant => simp at hfound
  | file => simp at hfound
  | directory hdots hentry _ ih =>
    obtain ⟨left, hleft⟩ := ih hfound
    refine ⟨left, fun last rest hrest => ?_⟩
    rw [List.cons_append, follow_directory hdots hentry, hleft _ _ hrest]
  | lastLink => simp at hfound
  | link hdots hentry _ _ ih =>
    obtain ⟨left, hleft⟩ := ih hfound
    refine ⟨left, fun last rest hrest => ?_⟩
    rw [List.cons_append, follow_link_succ hdots hentry (by simp [hrest]), ← List.append_assoc,
      hleft _ _ hrest]

/-- What a path leads to with its last link followed is there without following it too. -/
theorem without_last {place : Location} {entry : Entry}
    (h : Leads tree true links here names (.entry place entry)) :
    ∃ place entry, Leads tree false links here names (.entry place entry) := by
  generalize hfound : Found.entry place entry = found at h
  induction h with
  | here => exact ⟨_, _, .here⟩
  | dots _ ih =>
    obtain ⟨_, _, h⟩ := ih hfound
    exact ⟨_, _, .dots h⟩
  | vacant => simp at hfound
  | file hdots hentry => exact ⟨_, _, .file hdots hentry⟩
  | directory hdots hentry _ ih =>
    obtain ⟨_, _, h⟩ := ih hfound
    exact ⟨_, _, .directory hdots hentry h⟩
  | lastLink _ _ hlast => simp at hlast
  | @link _ _ _ _ rest _ hdots hentry _ _ ih =>
    obtain ⟨_, _, h⟩ := ih hfound
    match rest with
    | [] => exact ⟨_, _, .lastLink hdots hentry rfl⟩
    | _ :: _ => exact ⟨_, _, .link hdots hentry rfl h⟩

theorem with_last {place : Location} (h : Leads tree false links here names (.vacant place)) :
    Leads tree true links here names (.vacant place) := by
  generalize hfound : Found.vacant place = found at h ⊢
  induction h with
  | here => simp at hfound
  | dots _ ih => exact .dots (ih hfound)
  | vacant hdots hentry hhere => exact .vacant hdots hentry hhere
  | file => simp at hfound
  | directory hdots hentry _ ih => exact .directory hdots hentry (ih hfound)
  | lastLink => simp at hfound
  | link hdots hentry _ _ ih => exact .link hdots hentry (by simp) (ih hfound)

/-- Where the end is vacant and no last link was followed, it has the last of the names. -/
theorem last_of_vacant {place : Location} (h : Leads tree false links here names (.vacant place)) :
    ∃ name, names.getLast? = some name ∧ place.getLast? = some name := by
  generalize hfound : Found.vacant place = found at h
  have hcons : ∀ (first name : String) (rest : List String), rest.getLast? = some name →
      (first :: rest).getLast? = some name :=
    fun first name rest hrest => by rw [List.getLast?_cons, hrest, Option.getD_some]
  induction h with
  | here => simp at hfound
  | dots _ ih =>
    obtain ⟨name, hrest, hplace⟩ := ih hfound
    exact ⟨name, hcons _ _ _ hrest, hplace⟩
  | @vacant _ here name _ _ _ =>
    injection hfound with hfound
    exact ⟨name, rfl, hfound ▸ List.getLast?_concat⟩
  | file => simp at hfound
  | directory _ _ _ ih =>
    obtain ⟨name, hrest, hplace⟩ := ih hfound
    exact ⟨name, hcons _ _ _ hrest, hplace⟩
  | lastLink => simp at hfound
  | link _ _ hlast _ ih =>
    obtain ⟨name, hrest, hplace⟩ := ih hfound
    rw [List.getLast?_append_of_ne_nil _ (by simpa using hlast)] at hrest
    exact ⟨name, hcons _ _ _ hrest, hplace⟩

theorem stands (h : Leads tree last links here names found) : found.Stands tree := by
  induction h with
  | here => trivial
  | dots _ ih => exact ih
  | vacant _ hentry _ => exact hentry
  | file _ hentry => exact hentry
  | directory _ _ _ ih => exact ih
  | lastLink _ hentry _ => exact hentry
  | link _ _ _ _ ih => exact ih

end Leads

/-! ### Where paths lead once an entry is put -/

/-- What a path leads to once an entry is put at a location. -/
def Found.put (place : Location) (entry : Entry) : Found → Found
  | .vacant other => if other = place then .entry place entry else .vacant other
  | .entry other (.file content) =>
    if other = place then .entry place entry else .entry other (.file content)
  | found => found

theorem Leads.vacant_put {last : Bool} {links : Nat} {here : Location} {name : String}
    (hentry : ∀ target, entry ≠ .link target) (hdots : name ≠ "..")
    (hplace : here ++ [name] ≠ []) :
    Leads (tree.put (here ++ [name]) entry) last links here [name]
      (.entry (here ++ [name]) entry) := by
  have hput := @entry?_put_same tree _ entry hplace
  cases entry with
  | file content => exact .file hdots hput
  | directory => exact .directory hdots hput .here
  | link target => exact absurd rfl (hentry target)

/-- A path leads on as before, or to the entry that is put. -/
theorem Leads.put {last : Bool} {links : Nat} {here : Location} {names : List String}
    {found : Found} (hopen : tree.Open place) (hentry : ∀ target, entry ≠ .link target)
    (h : Leads tree last links here names found) :
    Leads (tree.put place entry) last links here names (found.put place entry) := by
  induction h with
  | here => exact .here
  | dots _ ih => exact .dots ih
  | @vacant _ here name hdots hnone hhere =>
    rw [Found.put]
    split
    · next hplace => exact hplace ▸ .vacant_put hentry hdots (by simp)
    · next hplace =>
      refine .vacant hdots (by rw [entry?_put_other hplace, hnone]) ?_
      rw [entry?_put_other (hopen.ne_of_directory hhere), hhere]
  | @file _ here name content hdots hfile =>
    rw [Found.put]
    split
    · next hplace => exact hplace ▸ .vacant_put hentry hdots (by simp)
    · next hplace => exact .file hdots (by rw [entry?_put_other hplace, hfile])
  | directory hdots hdirectory _ ih =>
    refine .directory hdots ?_ ih
    rw [entry?_put_other (hopen.ne_of_directory hdirectory), hdirectory]
  | lastLink hdots hlink hlast =>
    refine .lastLink hdots ?_ hlast
    rw [entry?_put_other (hopen.ne_of_link hlink), hlink]
  | link hdots hlink hlast _ ih =>
    refine .link hdots ?_ hlast ih
    rw [entry?_put_other (hopen.ne_of_link hlink), hlink]

/-! ### Resolution -/

section

variable {later : FileTree}

theorem resolveNames_link {onLink : Location → Path → Location → Resolution}
    {active : List Location} {here : Location} {name target : String} {rest : List String}
    (hdots : name ≠ "..") (h : tree.entry? (here ++ [name]) = some (.link target)) :
    tree.resolveNames onLink active here (name :: rest) =
      if active.contains (here ++ [name]) then .error (Path.collapse (here ++ [name] ++ rest))
      else
        match onLink (here ++ [name]) (Path.ofString target) here with
        | .ok there => tree.resolveNames onLink active there rest
        | .error there => .error (Path.collapse (there ++ rest)) := by
  cases hlink : onLink (here ++ [name]) (Path.ofString target) here <;>
    simp only [resolveNames, if_neg hdots, h, hlink]

theorem resolveNames_other {onLink : Location → Path → Location → Resolution}
    {active : List Location} {here : Location} {name : String} {rest : List String}
    (hdots : name ≠ "..") (h : ∀ target, tree.entry? (here ++ [name]) ≠ some (.link target)) :
    tree.resolveNames onLink active here (name :: rest) =
      tree.resolveNames onLink active (here ++ [name]) rest := by
  rw [resolveNames, if_neg hdots]
  cases hentry : tree.entry? (here ++ [name]) with
  | none => simp only [hentry]
  | some entry =>
    cases entry with
    | link target => exact absurd hentry (h target)
    | file => simp only [hentry]
    | directory => simp only [hentry]

/-- Resolution looks at nothing but links. -/
theorem resolveNames_congr
    (h : ∀ place target, later.entry? place = some (.link target) ↔
      tree.entry? place = some (.link target))
    (onLink : Location → Path → Location → Resolution) (active : List Location) (here : Location)
    (names : List String) :
    later.resolveNames onLink active here names = tree.resolveNames onLink active here names := by
  induction names generalizing here with
  | nil => rfl
  | cons name rest ih =>
    by_cases hdots : name = ".."
    · rw [resolveNames, resolveNames, if_pos hdots, if_pos hdots, ih]
    · by_cases hlink : ∃ target, tree.entry? (here ++ [name]) = some (.link target)
      · obtain ⟨target, hlink⟩ := hlink
        simp only [resolveNames_link hdots hlink, resolveNames_link hdots ((h _ _).mpr hlink), ih]
      · have hnone := not_exists.mp hlink
        rw [resolveNames_other hdots hnone,
          resolveNames_other hdots fun target => mt (h _ _).mp (hnone target), ih]

theorem resolveWithin_congr
    (h : ∀ place target, later.entry? place = some (.link target) ↔
      tree.entry? place = some (.link target))
    (depth : Nat) (active : List Location) (here : Location) (names : List String) :
    later.resolveWithin depth active here names = tree.resolveWithin depth active here names := by
  induction depth generalizing active here names with
  | zero => exact resolveNames_congr h _ _ _ _
  | succ depth ih =>
    rw [resolveWithin, resolveWithin, resolveNames_congr h]
    simp only [ih]

end

end SdkCatalog.FileTree
