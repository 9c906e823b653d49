import SdkCatalog.Proofs.Source.Declaration

/-! Lists that are given place by place. Lines of a source that each give at most one entry give a
list in which the entries stand in the order of their lines, one for each line that gives any. The
list is determined by what is given at each place. -/

namespace SdkCatalog

variable {α β : Type} {given : Nat → α → Prop} {count : Nat} {items others : List α} {item : α}

/-- The items are given at the places below the count: one at each place where any is given, in the
order of the places. -/
def Lists (count : Nat) (given : Nat → α → Prop) (items : List α) : Prop :=
  ∃ places : List Nat, places.Pairwise (· < ·) ∧
    (∀ place, place ∈ places ↔ place < count ∧ ∃ item, given place item) ∧
    List.Forall₂ given places items

namespace Lists

theorem zero (given : Nat → α → Prop) : Lists 0 given [] :=
  ⟨[], .nil, fun place => by simp, .nil⟩

theorem of_none (h : Lists count given items) (hnone : ∀ item, ¬given count item) :
    Lists (count + 1) given items := by
  obtain ⟨places, hsorted, hplaces, hitems⟩ := h
  refine ⟨places, hsorted, fun place => ?_, hitems⟩
  rw [hplaces place]
  constructor
  · rintro ⟨hlt, hgiven⟩
    exact ⟨by omega, hgiven⟩
  · rintro ⟨hlt, item, hgiven⟩
    have hne : place ≠ count := fun heq => hnone item (heq ▸ hgiven)
    exact ⟨by omega, item, hgiven⟩

theorem concat (h : Lists count given items) (hitem : given count item) :
    Lists (count + 1) given (items ++ [item]) := by
  obtain ⟨places, hsorted, hplaces, hitems⟩ := h
  refine ⟨places ++ [count], ?_, fun place => ?_,
    List.rel_append hitems (List.Forall₂.cons hitem .nil)⟩
  · refine List.pairwise_append.mpr ⟨hsorted, List.pairwise_singleton _ _, ?_⟩
    intro place hplace last hlast
    rw [List.mem_singleton.mp hlast]
    exact ((hplaces place).mp hplace).1
  · rw [List.mem_append, List.mem_singleton, hplaces place]
    constructor
    · rintro (⟨hlt, hgiven⟩ | rfl)
      · exact ⟨by omega, hgiven⟩
      · exact ⟨by omega, item, hitem⟩
    · rintro ⟨hlt, hgiven⟩
      by_cases heq : place = count
      · exact .inr heq
      · exact .inl ⟨by omega, hgiven⟩

theorem congr {given' : Nat → α → Prop} (h : Lists count given items)
    (hsame : ∀ place item, given place item ↔ given' place item) : Lists count given' items := by
  have heq : given = given' := funext fun place => funext fun item => propext (hsame place item)
  exact heq ▸ h

theorem eq_of_unique (hunique : Relator.RightUnique given) (h : Lists count given items)
    (h' : Lists count given others) : others = items := by
  obtain ⟨places, hsorted, hplaces, hitems⟩ := h
  obtain ⟨places', hsorted', hplaces', hothers⟩ := h'
  have hsame : places' = places :=
    hsorted'.eq_of_mem_iff hsorted fun place => (hplaces' place).trans (hplaces place).symm
  rw [hsame] at hothers
  exact List.right_unique_forall₂' hunique hothers hitems

theorem mem_iff (hunique : Relator.RightUnique given) (h : Lists count given items) :
    item ∈ items ↔ ∃ place < count, given place item := by
  obtain ⟨places, -, hplaces, hitems⟩ := h
  constructor
  · intro hmem
    obtain ⟨n, hn, rfl⟩ := List.getElem_of_mem hmem
    have hplace : n < places.length := hitems.length_eq ▸ hn
    have hgiven : given (places.get ⟨n, hplace⟩) (items.get ⟨n, hn⟩) := hitems.get hplace hn
    exact ⟨_, ((hplaces _).mp (List.get_mem places ⟨n, hplace⟩)).1, hgiven⟩
  · rintro ⟨place, hlt, hgiven⟩
    obtain ⟨n, hn, hplace⟩ := List.getElem_of_mem ((hplaces place).mpr ⟨hlt, item, hgiven⟩)
    have hitem : n < items.length := hitems.length_eq ▸ hn
    have hthere : given (places.get ⟨n, hn⟩) (items.get ⟨n, hitem⟩) := hitems.get hn hitem
    rw [List.get_eq_getElem, hplace] at hthere
    exact hunique hgiven hthere ▸ List.get_mem items ⟨n, hitem⟩

end Lists

theorem filterMap_take_add_one (give : β → Option α) (sources : List β) (count : Nat) :
    (sources.take (count + 1)).filterMap give =
      (sources.take count).filterMap give ++ (sources[count]?.bind give).toList := by
  rw [List.take_add_one, List.filterMap_append]
  cases sources[count]? with
  | none => rfl
  | some source =>
    rw [Option.toList_some, Option.bind_some, List.filterMap_cons, List.filterMap_nil]
    cases give source <;> rfl

theorem lists_take_filterMap (give : β → Option α) (sources : List β) (count : Nat) :
    Lists count (fun index value => sources[index]?.bind give = some value)
      ((sources.take count).filterMap give) := by
  induction count with
  | zero => exact .zero _
  | succ count ih =>
    rw [filterMap_take_add_one]
    cases hgive : sources[count]?.bind give with
    | none =>
      rw [Option.toList_none, List.append_nil]
      exact ih.of_none fun value hvalue => by simp [hgive] at hvalue
    | some value => exact ih.concat hgive

theorem rightUnique_bind (give : β → Option α) (sources : List β) :
    Relator.RightUnique fun (index : Nat) value => sources[index]?.bind give = some value :=
  fun _ _ _ hvalue hother => Option.some_inj.mp (hvalue.symm.trans hother)

theorem mem_take_filterMap {give : β → Option α} {sources : List β} :
    item ∈ (sources.take count).filterMap give ↔
      ∃ index < count, sources[index]?.bind give = some item :=
  (lists_take_filterMap give sources count).mem_iff (rightUnique_bind give sources)

theorem DocComment.length_attach (lines : List (List Char)) :
    (attach lines).length = lines.length := by
  rw [attach, List.length_map, List.length_zipIdx]

/-- What the lines of a text give, each with the comment attached to it, is listed by their
indices. -/
theorem lists_attach (give : List Char × Option String → Option α) (lines : List (List Char)) :
    Lists lines.length
      (fun index value => ∃ line, lines[index]? = some line ∧
        give (line, DocComment.attached lines index) = some value)
      ((DocComment.attach lines).filterMap give) := by
  have h := lists_take_filterMap give (DocComment.attach lines) lines.length
  rw [← DocComment.length_attach, List.take_length, DocComment.length_attach] at h
  refine h.congr fun index value => ?_
  rw [DocComment.getElem?_attach, Option.bind_map, Option.bind_eq_some_iff]
  rfl

end SdkCatalog
