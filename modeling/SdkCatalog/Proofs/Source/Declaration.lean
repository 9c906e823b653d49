import Mathlib
import SdkCatalog.Proofs.Registry.Table
import SdkCatalog.Proofs.Text.Scan
import SdkCatalog.Proofs.Text.Word
import SdkCatalog.Source.Line

/-! Declarations in a source, line by line: which line declares what, with the comment attached to
that line. -/

namespace SdkCatalog

open Text

variable {α : Type}

def DocComment.attached (lines : List (List Char)) (index : Nat) : Option String :=
  (find lines index).map String.ofList

theorem DocComment.getElem?_attach (lines : List (List Char)) (index : Nat) :
    (attach lines)[index]? =
      lines[index]?.map fun line => (line, DocComment.attached lines index) := by
  rw [attach, List.getElem?_map, List.getElem?_zipIdx, Option.map_map]
  simp only [Nat.zero_add]
  rfl

/-- What the lines of a source declare, one by one, is declared at their indices. -/
theorem inOrder_attach (give : List Char × Option String → Option α) (lines : List (List Char)) :
    InOrder (fun a b : Nat => a < b)
      (fun index value => ∃ line, lines[index]? = some line ∧
        give (line, DocComment.attached lines index) = some value)
      ((DocComment.attach lines).filterMap give) := by
  refine (InOrder.filterMap give (DocComment.attach lines)).congr fun index value => ?_
  simp only [DocComment.getElem?_attach, Option.map_eq_some_iff]
  constructor
  · rintro ⟨_, ⟨line, hline, rfl⟩, hgive⟩
    exact ⟨line, hline, hgive⟩
  · rintro ⟨line, hline, hgive⟩
    exact ⟨_, ⟨line, hline, rfl⟩, hgive⟩

/-! ### Constants -/

namespace Constant

/-- The line of an index declares a constant with a clean numeral. -/
def DeclaredAt (source : String) (index : Nat) (constant : Constant) : Prop :=
  ∃ line, (lines source.toList)[index]? = some line ∧
    ofLine line (DocComment.attached (lines source.toList) index) = .ok (some constant)

/-- The constant of a line with its comment, none if the line has no numeral or too long a one. -/
def given (line : List Char × Option String) : Option Constant :=
  match ofLine line.1 line.2 with
  | .ok constant => constant
  | .error _ => none

theorem given_eq_some_iff {line : List Char × Option String} {constant : Constant} :
    given line = some constant ↔ ofLine line.1 line.2 = .ok (some constant) := by
  rw [given]
  split
  · next h => simp [h]
  · next h => simp [h]

/-- The constants that the lines of a source give, each line for itself. -/
def declared (source : String) : List Constant :=
  (DocComment.attach (lines source.toList)).filterMap given

/-- Either every line can be read and gives its own, or one cannot and no line gives any. -/
theorem mapM_ofLine_cases (attached : List (List Char × Option String)) :
    (attached.mapM (fun (line, doc) => ofLine line doc) = .ok (attached.map given) ∧
      ∀ line ∈ attached, ∀ fault, ofLine line.1 line.2 ≠ .error fault) ∨
    ∃ line ∈ attached, ∃ fault, ofLine line.1 line.2 = .error fault ∧
      attached.mapM (fun (line, doc) => ofLine line doc) = .error fault := by
  induction attached with
  | nil => exact .inl ⟨rfl, by simp⟩
  | cons first rest ih =>
    rw [List.mapM_cons]
    cases hfirst : ofLine first.1 first.2 with
    | error fault =>
      exact .inr ⟨first, List.mem_cons_self, fault, hfirst,
        by simp only [hfirst, bind, Except.bind]⟩
    | ok constant =>
      rcases ih with ⟨hrest, hlines⟩ | ⟨line, hline, fault, hfault, hrest⟩
      · refine .inl ⟨?_, ?_⟩
        · rw [List.map_cons, given, hfirst]
          simp only [hfirst, hrest, bind, Except.bind, pure, Except.pure]
        · rintro line hline fault hfault
          rcases List.mem_cons.mp hline with rfl | hline
          · simp [hfirst] at hfault
          · exact hlines line hline fault hfault
      · exact .inr ⟨line, List.mem_cons_of_mem _ hline, fault, hfault,
          by simp only [hfirst, hrest, bind, Except.bind]⟩

/-- A source has constants exactly if every line of it can be read. -/
theorem ofSource_eq_ok_iff_lines {source : String} {constants : List Constant} :
    ofSource source = .ok constants ↔ constants = declared source ∧
      ∀ line ∈ DocComment.attach (lines source.toList), ∀ fault,
        ofLine line.1 line.2 ≠ .error fault := by
  rw [ofSource, declared]
  rcases mapM_ofLine_cases (DocComment.attach (lines source.toList)) with
    ⟨hfound, hread⟩ | ⟨line, hline, fault, hfault, hfound⟩
  · rw [hfound]
    simp only [bind, Except.bind, pure, Except.pure, List.filterMap_map, Except.ok.injEq]
    exact ⟨fun h => ⟨h.symm, hread⟩, fun h => h.1.symm⟩
  · rw [hfound]
    refine ⟨?_, fun h => absurd hfault (h.2 line hline fault)⟩
    rintro ⟨⟩

/-- A source gives the constants of its lines, unless a line cannot be read. -/
theorem ofSource_cases (source : String) :
    (ofSource source = .ok (declared source) ∧
      ∀ (index : Nat) line, (lines source.toList)[index]? = some line →
        ∀ fault, ofLine line (DocComment.attached (lines source.toList) index) ≠ .error fault) ∨
    ∃ (index : Nat) (line : List Char) (fault : Numeral.TooLong),
      (lines source.toList)[index]? = some line ∧
      ofLine line (DocComment.attached (lines source.toList) index) = .error fault ∧
      ofSource source = .error fault := by
  rcases mapM_ofLine_cases (DocComment.attach (lines source.toList)) with
    ⟨hfound, hlines⟩ | ⟨line, hline, fault, hfault, hfound⟩
  · refine .inl ⟨ofSource_eq_ok_iff_lines.mpr ⟨rfl, hlines⟩, fun index line hindex => ?_⟩
    refine hlines (line, DocComment.attached (lines source.toList) index)
      (List.mem_iff_getElem?.mpr ⟨index, ?_⟩)
    rw [DocComment.getElem?_attach, hindex]
    rfl
  · obtain ⟨index, hindex⟩ := List.mem_iff_getElem?.mp hline
    rw [DocComment.getElem?_attach, Option.map_eq_some_iff] at hindex
    obtain ⟨_, hindex, rfl⟩ := hindex
    exact .inr ⟨index, _, fault, hindex, hfault, by rw [ofSource, hfound]; rfl⟩

/-- The last constant of a name in a source is declared by the last line that declares one under
that name. -/
theorem lastOf_ofSource {source : String} {constants : List Constant}
    (h : ofSource source = .ok constants) (key : String) :
    LastOf (fun a b : Nat => a < b) (DeclaredAt source) Constant.name key
      (lastNamed Constant.name key constants) := by
  have horder := inOrder_attach given (lines source.toList)
  simp only [given_eq_some_iff] at horder
  rw [(ofSource_eq_ok_iff_lines.mp h).1]
  exact horder.lastOf (fun _ _ => Nat.lt_asymm) key

theorem all_name {source : String} {index : Nat} {constant : Constant}
    (h : DeclaredAt source index constant) : constant.name.toList.all isWordChar = true := by
  obtain ⟨line, -, h⟩ := h
  rw [ofLine] at h
  split at h
  · simp at h
  · next name initializer hfield =>
    obtain ⟨start, hfield, -⟩ := leftmost?_eq_some_iff.mp hfield
    have hname : name.all isWordChar = true := by
      simp only [field?, Option.bind_eq_bind, Option.bind_eq_some_iff] at hfield
      obtain ⟨_, -, _, -, ⟨word, _⟩, hrun, _, -, _, -, hfield⟩ := hfield
      injection hfield with hfield
      injection hfield with hfield
      exact hfield ▸ List.all_eq_true.mpr (run?_eq_some_iff.mp hrun).2.1
    cases hparse : Numeral.parse initializer with
    | error => simp [hparse, Except.map] at h
    | ok value? =>
      simp only [hparse, Except.map, Except.ok.injEq, Option.map_eq_some_iff] at h
      obtain ⟨value, -, rfl⟩ := h
      rw [String.toList_ofList]
      exact hname

end Constant

/-! ### Classes -/

namespace ClassDeclaration

/-- The line of an index in a file declares a class. -/
def DeclaredAt (file source : String) (index : Nat) (entry : ClassDeclaration) : Prop :=
  ∃ line, (lines source.toList)[index]? = some line ∧
    ofLine? file line (DocComment.attached (lines source.toList) index) = some entry

/-- The classes of a file stand in the order of the lines that declare them. -/
theorem inOrder_ofSource (file source : String) :
    InOrder (fun a b : Nat => a < b) (DeclaredAt file source) (ofSource file source) :=
  inOrder_attach (fun (line, doc) => ofLine? file line doc) (lines source.toList)

end ClassDeclaration

end SdkCatalog
