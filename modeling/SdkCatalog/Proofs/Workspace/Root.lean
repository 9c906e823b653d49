import SdkCatalog.Proofs.Files.Contents
import SdkCatalog.Workspace

/-! The search for the root of a workspace. It looks at one directory after another, each the parent
of the one before, and ends at the root of the tree at the latest, because the names of a path get
fewer. What it finds is the nearest directory that holds the marker. -/

namespace SdkCatalog

namespace Path

/-- One path is another, or lies above it. -/
def IsAbove (above path : Path) : Prop :=
  above.anchor = path.anchor ∧ above.names <+: path.names

variable {path above other : Path}

theorem IsAbove.refl (path : Path) : path.IsAbove path :=
  ⟨rfl, List.prefix_refl _⟩

theorem IsAbove.trans (h : above.IsAbove other) (hother : other.IsAbove path) :
    above.IsAbove path :=
  ⟨h.1.trans hother.1, h.2.trans hother.2⟩

theorem isAbove_parent (path : Path) : path.parent.IsAbove path :=
  ⟨rfl, List.dropLast_prefix _⟩

/-- Nothing but the path itself is above a path and not above its parent. -/
theorem isAbove_iff_eq_or_parent :
    above.IsAbove path ↔ above = path ∨ above.IsAbove path.parent := by
  obtain ⟨anchor, names⟩ := path
  obtain ⟨otherAnchor, others⟩ := above
  rcases List.eq_nil_or_concat' names with rfl | ⟨front, last, rfl⟩
  · simp [IsAbove, parent]
  · simp only [IsAbove, parent, List.dropLast_concat, List.prefix_concat_iff, Path.mk.injEq]
    exact and_or_left

theorem IsAbove.eq_of_names_eq_nil (h : above.IsAbove path) (hnames : path.names = []) :
    above = path := by
  obtain ⟨anchor, names⟩ := path
  obtain ⟨_, others⟩ := above
  obtain ⟨rfl, hprefix⟩ := h
  obtain rfl : names = [] := hnames
  have hothers : others = [] := List.prefix_nil.mp hprefix
  rw [hothers]

theorem parent_eq_self_iff : path.parent = path ↔ path.names = [] := by
  obtain ⟨anchor, names⟩ := path
  cases names with
  | nil => simp [parent]
  | cons name rest =>
    simp only [parent, Path.mk.injEq, reduceCtorEq, iff_false, not_and]
    intro _ h
    simpa using congrArg List.length h

theorem length_names_parent (h : path.names ≠ []) :
    path.parent.names.length + 1 = path.names.length := by
  have := List.length_pos_iff.mpr h
  rw [parent, List.length_dropLast]
  omega

theorem IsAbove.antisymm (h : above.IsAbove other) (hother : other.IsAbove above) :
    above = other := by
  obtain ⟨anchor, names⟩ := above
  obtain ⟨_, others⟩ := other
  obtain ⟨rfl, hprefix⟩ := h
  have hnames : names = others := hprefix.eq_of_length_le hother.2.length_le
  rw [hnames]

theorem IsAbove.total (h : above.IsAbove path) (hother : other.IsAbove path) :
    above.IsAbove other ∨ other.IsAbove above :=
  (List.prefix_or_prefix_of_prefix h.2 hother.2).imp (⟨h.1.trans hother.1.symm, ·⟩)
    (⟨hother.1.trans h.1.symm, ·⟩)

theorem upward_of_names_eq_nil (h : path.names = []) : path.upward = [path] := by
  obtain ⟨anchor, names⟩ := path
  obtain rfl : names = [] := h
  rfl

/-- Upward from a path come the path itself and what is upward from its parent. -/
theorem upward_of_names_ne_nil (path : Path) (h : path.names ≠ []) :
    path.upward = path :: path.parent.upward := by
  have hlength := length_names_parent h
  rw [upward, ← hlength, List.range_succ_eq_map, List.map_cons, List.map_map, upward]
  congr 1
  · rw [Nat.sub_zero, hlength, List.take_length]
  · refine List.map_congr_left fun count _ => ?_
    simp only [Function.comp_apply, Nat.succ_eq_add_one, parent, List.dropLast_eq_take,
      List.take_take, List.length_take]
    congr 2
    omega

theorem mem_upward (h : above ∈ path.upward) : above.IsAbove path := by
  obtain ⟨count, -, rfl⟩ := List.mem_map.mp h
  exact ⟨rfl, List.take_prefix _ _⟩

end Path

namespace Workspace

variable {files : Files} {path start here : Path} {marker : String} {steps : Nat}
  {outcome : Option Path}

/-! ### The search as a run of steps -/

/-- The search for a root from a directory: it goes up by some steps, until a marker is there or
there is no directory above. -/
inductive Climbs (files : Files) (marker : String) : Path → Nat → Option Path → Prop
  | found {here : Path} : files.present (here.child marker) = true →
    Climbs files marker here 0 (some here)
  | top {here : Path} : files.present (here.child marker) = false → here.parent = here →
    Climbs files marker here 0 none
  | up {here : Path} {steps : Nat} {outcome : Option Path} :
    files.present (here.child marker) = false → here.parent ≠ here →
    Climbs files marker here.parent steps outcome → Climbs files marker here (steps + 1) outcome

theorem rootAbove?_eq (files : Files) (start : Path) (marker : String) :
    rootAbove? files start marker =
      if files.present (start.child marker) then some start
      else if start.parent = start then none else rootAbove? files start.parent marker := by
  by_cases hnames : start.names = []
  · rw [if_pos (Path.parent_eq_self_iff.mpr hnames), rootAbove?,
      Path.upward_of_names_eq_nil hnames, List.find?_singleton]
  · rw [if_neg (mt Path.parent_eq_self_iff.mp hnames), rootAbove?,
      start.upward_of_names_ne_nil hnames, List.find?_cons, rootAbove?]
    cases files.present (start.child marker) <;> rfl

/-- The search ends, after no more steps than the start has names. -/
theorem exists_climbs (files : Files) (marker : String) (start : Path) :
    ∃ steps ≤ start.names.length,
      Climbs files marker start steps (rootAbove? files start marker) := by
  induction hdepth : start.names.length generalizing start with
  | zero =>
    have htop := Path.parent_eq_self_iff.mpr (List.length_eq_zero_iff.mp hdepth)
    refine ⟨0, Nat.le_refl 0, ?_⟩
    rw [rootAbove?_eq, if_pos htop]
    cases hpresent : files.present (start.child marker) with
    | true => exact .found hpresent
    | false => exact .top hpresent htop
  | succ depth ih =>
    have hnames : start.names ≠ [] := List.ne_nil_of_length_eq_add_one hdepth
    rw [rootAbove?_eq, if_neg (mt Path.parent_eq_self_iff.mp hnames)]
    cases hpresent : files.present (start.child marker) with
    | true => exact ⟨0, Nat.zero_le _, .found hpresent⟩
    | false =>
      have hparent := Path.length_names_parent hnames
      obtain ⟨steps, hsteps, hclimbs⟩ := ih start.parent (by omega)
      exact ⟨steps + 1, by omega, .up hpresent (mt Path.parent_eq_self_iff.mp hnames) hclimbs⟩

theorem Climbs.unique {count : Nat} {other : Option Path}
    (h : Climbs files marker start steps outcome) (hother : Climbs files marker start count other) :
    count = steps ∧ other = outcome := by
  induction h generalizing count with
  | found hpresent =>
    cases hother with
    | found => exact ⟨rfl, rfl⟩
    | top habsent | up habsent => simp [hpresent] at habsent
  | top habsent htop =>
    cases hother with
    | found hpresent => simp [habsent] at hpresent
    | top => exact ⟨rfl, rfl⟩
    | up _ hnot => exact absurd htop hnot
  | up habsent hnot _ ih =>
    cases hother with
    | found hpresent => simp [habsent] at hpresent
    | top _ htop => exact absurd htop hnot
    | up _ _ hrest => exact (ih hrest).imp (congrArg (· + 1)) id

/-! ### What the search finds -/

/-- The nearest directory from a start upward that holds the marker. -/
structure IsNearestRoot (files : Files) (marker : String) (start root : Path) : Prop where
  above : root.IsAbove start
  marked : files.present (root.child marker) = true
  nearest : ∀ between : Path, between.IsAbove start → root.IsAbove between → between ≠ root →
    files.present (between.child marker) = false

theorem IsNearestRoot.unique {root other : Path} (h : IsNearestRoot files marker start root)
    (hother : IsNearestRoot files marker start other) : other = root := by
  by_contra hne
  rcases h.above.total hother.above with hbetween | hbetween
  · have habsent := h.nearest other hother.above hbetween hne
    rw [hother.marked] at habsent
    contradiction
  · have habsent := hother.nearest root h.above hbetween (Ne.symm hne)
    rw [h.marked] at habsent
    contradiction

/-- A search finds the nearest root, and finds nothing only where no directory holds the marker. -/
theorem Climbs.spec (h : Climbs files marker start steps outcome) :
    (∀ root, outcome = some root → IsNearestRoot files marker start root) ∧
    (outcome = none →
      ∀ above : Path, above.IsAbove start → files.present (above.child marker) = false) := by
  induction h with
  | @found here hpresent =>
    refine ⟨?_, fun hnone => by contradiction⟩
    rintro root ⟨⟩
    exact ⟨.refl here, hpresent, fun between hbetween habove hne =>
      absurd (hbetween.antisymm habove) hne⟩
  | top habsent htop =>
    refine ⟨fun root hsome => by contradiction, fun _ above habove => ?_⟩
    rwa [habove.eq_of_names_eq_nil (Path.parent_eq_self_iff.mp htop)]
  | @up here steps outcome habsent _ _ ih =>
    have hbetween : ∀ between : Path, between.IsAbove here →
        (between.IsAbove here.parent → files.present (between.child marker) = false) →
        files.present (between.child marker) = false := by
      intro between hbetween hparent
      rcases Path.isAbove_iff_eq_or_parent.mp hbetween with rfl | habove
      · exact habsent
      · exact hparent habove
    constructor
    · intro root hsome
      obtain ⟨habove, hmarked, hnearest⟩ := ih.1 root hsome
      exact ⟨Path.isAbove_iff_eq_or_parent.mpr (.inr habove), hmarked,
        fun between hhere hroot hne => hbetween between hhere fun hparent =>
          hnearest between hparent hroot hne⟩
    · exact fun hnone above habove => hbetween above habove (ih.2 hnone above)

theorem rootAbove?_eq_some_iff {root : Path} :
    rootAbove? files start marker = some root ↔ IsNearestRoot files marker start root := by
  obtain ⟨steps, -, hclimbs⟩ := exists_climbs files marker start
  refine ⟨hclimbs.spec.1 root, fun h => ?_⟩
  cases hfound : rootAbove? files start marker with
  | some other => rw [h.unique (hclimbs.spec.1 other hfound)]
  | none =>
    have habsent := hclimbs.spec.2 hfound root h.above
    rw [h.marked] at habsent
    contradiction

theorem rootAbove?_eq_none_iff : rootAbove? files start marker = none ↔
    ∀ above : Path, above.IsAbove start → files.present (above.child marker) = false := by
  obtain ⟨steps, -, hclimbs⟩ := exists_climbs files marker start
  refine ⟨hclimbs.spec.2, fun h => ?_⟩
  cases hfound : rootAbove? files start marker with
  | none => rfl
  | some root =>
    have hroot := hclimbs.spec.1 root hfound
    have habsent := h root hroot.above
    rw [hroot.marked] at habsent
    contradiction

/-! ### The root of a workspace -/

/-- Where the search starts: at what the start resolves to, or above it if that is a regular
file. -/
def searchStart (files : Files) (resolved : Path) : Path :=
  if files.isFile resolved then resolved.parent else resolved

variable {expanded resolved : Path}

theorem root_eq (marker : String) (hexpand : files.expandHome path = some expanded)
    (hresolve : files.resolve expanded = .ok resolved) : root files path marker =
      (rootAbove? files (searchStart files resolved) marker).elim
        (.error (.noWorkspace path.text marker)) .ok := by
  rw [root, hexpand, searchStart]
  simp only [hresolve, Except.mapError, bind, Except.bind]
  cases rootAbove? files (if files.isFile resolved then resolved.parent else resolved) marker <;>
    rfl

theorem searchStart_isAbove (files : Files) (resolved : Path) :
    (searchStart files resolved).IsAbove resolved := by
  rw [searchStart]
  split
  · exact resolved.isAbove_parent
  · exact .refl resolved

/-- A root is found upward from where a path resolves, and holds the marker. -/
theorem of_root_eq_ok {found : Path} (h : root files path marker = .ok found) :
    ∃ expanded resolved, files.resolve expanded = .ok resolved ∧ found.IsAbove resolved ∧
      files.present (found.child marker) = true := by
  cases hexpand : files.expandHome path with
  | none => simp [root, hexpand] at h
  | some expanded =>
    have hroot := h
    simp only [root, hexpand, bind_eq_ok_iff, mapError_eq_ok_iff] at hroot
    obtain ⟨resolved, hresolve, -⟩ := hroot
    rw [root_eq marker hexpand hresolve] at h
    cases habove : rootAbove? files (searchStart files resolved) marker with
    | none => simp [habove] at h
    | some other =>
      rw [habove] at h
      injection h with h
      subst h
      have hnearest := rootAbove?_eq_some_iff.mp habove
      exact ⟨expanded, resolved, hresolve,
        hnearest.above.trans (searchStart_isAbove files resolved), hnearest.marked⟩

theorem exists_absolute_of_resolve (h : files.resolve expanded = .ok resolved) :
    ∃ place, resolved = .absolute place := by
  rw [Files.resolve] at h
  split at h
  · contradiction
  split at h
  · contradiction
  · dsimp only at h
    split at h
    · contradiction
    · injection h with h
      exact ⟨_, h.symm⟩

/-- The search starts at a path that is spelled from the root of the tree. -/
theorem isAbove_searchStart (h : files.resolve expanded = .ok resolved) :
    (Path.absolute []).IsAbove (searchStart files resolved) := by
  obtain ⟨place, rfl⟩ := exists_absolute_of_resolve h
  have hanchor : (searchStart files (.absolute place)).anchor = .root := by
    rw [searchStart]
    split <;> rfl
  exact ⟨hanchor.symm, List.nil_prefix⟩

/-- Where the start has a home directory and resolves, the search for the root has one run, of no
more steps than there are names above its first directory. It answers with the nearest directory
that holds the marker, and fails only if none does up to the root of the tree. -/
theorem finds_nearest_root (marker : String) (hexpand : files.expandHome path = some expanded)
    (hresolve : files.resolve expanded = .ok resolved) :
    let start := searchStart files resolved
    (Path.absolute []).IsAbove start ∧
    (∃ steps ≤ start.names.length, ∀ count outcome, Climbs files marker start count outcome ↔
      count = steps ∧ outcome = (root files path marker).toOption) ∧
    (∀ found, root files path marker = .ok found ↔ IsNearestRoot files marker start found) ∧
    ∀ failure, root files path marker = .error failure ↔
      failure = .noWorkspace path.text marker ∧
        ∀ above : Path, above.IsAbove start → files.present (above.child marker) = false := by
  intro start
  have hroot := root_eq marker hexpand hresolve
  obtain ⟨steps, hsteps, hclimbs⟩ := exists_climbs files marker start
  have houtcome : rootAbove? files start marker = (root files path marker).toOption := by
    rw [hroot]
    cases rootAbove? files (searchStart files resolved) marker <;> rfl
  refine ⟨isAbove_searchStart hresolve, ⟨steps, hsteps, fun count outcome => ?_⟩,
    fun found => ?_, fun failure => ?_⟩
  · rw [← houtcome]
    constructor
    · exact hclimbs.unique
    · rintro ⟨rfl, rfl⟩
      exact hclimbs
  · rw [← rootAbove?_eq_some_iff, hroot]
    cases rootAbove? files (searchStart files resolved) marker <;> simp
  · rw [← rootAbove?_eq_none_iff, hroot]
    cases rootAbove? files (searchStart files resolved) marker <;> simp [eq_comm]

/-- From a link in the home directory that leads to a file of a workspace, the root is the one above
that file, though the root of the tree holds a marker too. -/
theorem finds_nearest_root_link :
    let files : Files :=
      ⟨⟨[([defaultMarker], .file []), (["home"], .directory), (["w"], .directory),
          (["home", "run"], .link "../w/src/run.js"), (["w", defaultMarker], .file []),
          (["w", "src"], .directory), (["w", "src", "run.js"], .file [])], by decide⟩,
        ["w"], "/home"⟩
    let path := Path.ofString "~/run"
    let expanded := Path.absolute ["home", "run"]
    let resolved := Path.absolute ["w", "src", "run.js"]
    files.expandHome path = some expanded ∧ files.resolve expanded = .ok resolved ∧
    searchStart files resolved = resolved.parent ∧
    root files path defaultMarker = .ok (.absolute ["w"]) ∧
    IsNearestRoot files defaultMarker resolved.parent (.absolute ["w"]) ∧
    root files path "other" = .error (.noWorkspace "~/run" "other") ∧
    ∀ above : Path, above.IsAbove resolved.parent →
      files.present (above.child "other") = false := by
  intro files path expanded resolved
  have hexpand : files.expandHome path = some expanded := by decide +kernel
  have hresolve : files.resolve expanded = .ok resolved := by decide +kernel
  have hstart : searchStart files resolved = resolved.parent := by decide +kernel
  have hroot : root files path defaultMarker = .ok (.absolute ["w"]) := by decide +kernel
  have hother : root files path "other" = .error (.noWorkspace "~/run" "other") := by
    decide +kernel
  obtain ⟨-, -, hfound, -⟩ := finds_nearest_root defaultMarker hexpand hresolve
  obtain ⟨-, -, -, hfails⟩ := finds_nearest_root "other" hexpand hresolve
  rw [hstart] at hfound hfails
  exact ⟨hexpand, hresolve, hstart, hroot, (hfound _).mp hroot, hother, ((hfails _).mp hother).2⟩

end Workspace

theorem Files.SameBut.root {files later : Files} {places : List Location}
    (h : files.SameBut places later) (path : Path) (marker : String) :
    Workspace.root later path marker = Workspace.root files path marker := by
  have hpresent : later.present = files.present := funext h.present
  rw [Workspace.root, Workspace.root, h.expandHome]
  simp only [h.resolve, h.isFile, Workspace.rootAbove?, hpresent]

end SdkCatalog
