import SdkCatalog.Proofs.Files.Tree

/-! Trees in which every entry stands in a directory, as the files of a machine do. A location that
is spelled out from the root leads to what stands there. -/

namespace SdkCatalog.FileTree

variable {tree : FileTree} {place : Location} {entry : Entry}

theorem entry?_targetStart {here : Location} (h : tree.entry? here = some .directory)
    (target : Path) : tree.entry? (targetStart here target) = some .directory := by
  rw [targetStart]
  split
  · exact h
  · rfl

/-- Every entry of a tree stands in a directory, under a name that is no pair of dots. -/
def Grounded (tree : FileTree) : Prop :=
  ∀ place name entry, tree.entry? (place ++ [name]) = some entry →
    tree.entry? place = some .directory ∧ name ≠ ".."

theorem grounded_iff : tree.Grounded ↔ ∀ place ∈ tree.entries.map (·.1), place = [] ∨
    (tree.entry? place.dropLast = some .directory ∧ place.getLast? ≠ some "..") := by
  constructor
  · intro h place hplace
    rcases List.eq_nil_or_concat' place with rfl | ⟨parent, name, rfl⟩
    · exact .inl rfl
    · obtain ⟨entry, hentry⟩ := (exists_entry?_iff (by simp)).mpr hplace
      obtain ⟨hparent, hname⟩ := h _ _ _ hentry
      exact .inr ⟨by simpa using hparent, by simpa using hname⟩
  · intro h place name entry hentry
    have hlisted := (exists_entry?_iff (by simp)).mp ⟨entry, hentry⟩
    obtain ⟨hparent, hname⟩ := (h _ hlisted).resolve_left (by simp)
    rw [List.dropLast_concat] at hparent
    exact ⟨hparent, by simpa using hname⟩

instance (tree : FileTree) : Decidable tree.Grounded :=
  decidable_of_iff _ grounded_iff.symm

namespace Grounded

theorem not_dots (h : tree.Grounded) (hentry : tree.entry? place = some entry) : ".." ∉ place := by
  induction hlength : place.length generalizing place entry with
  | zero => simp [List.eq_nil_of_length_eq_zero hlength]
  | succ n ih =>
    obtain ⟨parent, name, rfl⟩ : ∃ parent name, place = parent ++ [name] :=
      ⟨_, _, (List.dropLast_concat_getLast (List.ne_nil_of_length_eq_add_one hlength)).symm⟩
    obtain ⟨hparent, hname⟩ := h parent name entry hentry
    have := ih hparent (by simpa using hlength)
    simp [this, hname.symm]

theorem directory_above (h : tree.Grounded) {rest : List String}
    (hentry : tree.entry? (place ++ rest) = some entry) (hrest : rest ≠ []) :
    tree.entry? place = some .directory := by
  induction hlength : rest.length generalizing rest entry with
  | zero => exact absurd (List.eq_nil_of_length_eq_zero hlength) hrest
  | succ n ih =>
    obtain ⟨initial, name, rfl⟩ : ∃ initial name, rest = initial ++ [name] :=
      ⟨_, _, (List.dropLast_concat_getLast hrest).symm⟩
    rw [← List.append_assoc] at hentry
    have hinitial := (h _ _ _ hentry).1
    by_cases hnil : initial = []
    · rwa [hnil, List.append_nil] at hinitial
    · exact ih hinitial hnil (by simpa using hlength)

theorem directory_dropLast (h : tree.Grounded) (hplace : tree.entry? place = some .directory) :
    tree.entry? place.dropLast = some .directory := by
  rcases List.eq_nil_or_concat' place with rfl | ⟨parent, name, rfl⟩
  · rfl
  · rw [List.dropLast_concat]
    exact (h _ _ _ hplace).1

/-- Names without pairs of dots lead to what stands at the location that they spell, unless that is
a link. -/
theorem leads (h : tree.Grounded) {last : Bool} {links : Nat} {here : Location}
    {names : List String} (hhere : tree.entry? here = some .directory) (hdots : ".." ∉ names)
    (hentry : tree.entry? (here ++ names) = some entry) (hlink : ∀ target, entry ≠ .link target) :
    Leads tree last links here names (.entry (here ++ names) entry) := by
  induction names generalizing here with
  | nil =>
    rw [List.append_nil] at hentry ⊢
    rw [hhere] at hentry
    injection hentry with hentry
    exact hentry ▸ .here
  | cons name rest ih =>
    have hname : name ≠ ".." := fun heq => hdots (heq ▸ List.mem_cons_self)
    rw [← List.singleton_append, ← List.append_assoc] at hentry ⊢
    by_cases hrest : rest = []
    · subst hrest
      simp only [List.append_nil] at hentry ⊢
      cases entry with
      | file content => exact .file hname hentry
      | directory => exact .directory hname hentry .here
      | link target => exact absurd rfl (hlink target)
    · have hdirectory := h.directory_above hentry hrest
      exact .directory hname hdirectory
        (ih hdirectory (fun hmem => hdots (List.mem_cons_of_mem _ hmem)) hentry)

/-- What names lead to, their last link followed, stands at its location and is no link. -/
theorem stands (h : tree.Grounded) {links : Nat} {here : Location} {names : List String}
    (hhere : tree.entry? here = some .directory)
    (hleads : Leads tree true links here names (.entry place entry)) :
    tree.entry? place = some entry ∧ ∀ target, entry ≠ .link target := by
  generalize hfound : Found.entry place entry = found at hleads
  induction hleads with
  | here =>
    injection hfound with hplace hentry
    subst hplace hentry
    exact ⟨hhere, by simp⟩
  | dots _ ih => exact ih (h.directory_dropLast hhere) hfound
  | vacant => simp at hfound
  | file _ hfile =>
    injection hfound with hplace hentry
    subst hplace hentry
    exact ⟨hfile, by simp⟩
  | directory _ hdirectory _ ih => exact ih hdirectory hfound
  | lastLink _ _ hlast => simp at hlast
  | link _ _ _ _ ih => exact ih (entry?_targetStart hhere _) hfound

end Grounded

end SdkCatalog.FileTree
