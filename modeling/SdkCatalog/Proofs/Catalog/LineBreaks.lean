import SdkCatalog.Catalog.Generation
import SdkCatalog.Proofs.Files.Related
import SdkCatalog.Proofs.Registry.Join
import SdkCatalog.Proofs.Text.Lines

/-! Line breaks and byte-order marks do not matter. Two workspaces in which the sources are spelled
with other line breaks, or with a mark in front, give the same extract. Both runs are followed step
by step, since each writes to its own log files, and these may be among what is read. -/

namespace SdkCatalog

open Files Text

variable {α : Type}

/-! ### Spellings of a file -/

/-- A later content spells the text of a content with other line breaks, or with a byte-order mark
in front. The text itself has no returns and no mark. -/
inductive Workspace.Respelled : List UInt8 → List UInt8 → Prop
  | intro (cs : List Char) (sort : LineBreak) (mark : List UInt8) :
    '\r' ∉ cs → cs.head? ≠ some '\uFEFF' → mark = [] ∨ mark = Utf8.mark →
    Respelled (Utf8.encode cs) (mark ++ Utf8.encode (respell sort cs))

/-- A text that can be put after others: it begins neither with a line feed, which a return before
it would take, nor with a mark. -/
def Text.Continues (cs : List Char) : Prop :=
  cs.head? ≠ some '\n' ∧ cs.head? ≠ some '\uFEFF'

theorem Text.continues_append {cs more : List Char} (hcs : Continues cs) (hmore : Continues more) :
    Continues (cs ++ more) := by
  cases cs with
  | nil => exact hmore
  | cons c cs => exact hcs

namespace Workspace

/-- Two spellings of one text after which the same was appended. -/
def RespelledThen (content new : List UInt8) : Prop :=
  ∃ old later more, Respelled old later ∧ Continues more ∧
    content = old ++ Utf8.encode more ∧ new = later ++ Utf8.encode more

theorem respelledThen_append {content new : List UInt8} {more : List Char}
    (hmore : Continues more) (h : RespelledThen content new) :
    RespelledThen (content ++ Utf8.encode more) (new ++ Utf8.encode more) := by
  obtain ⟨old, later, first, hrespelled, hfirst, rfl, rfl⟩ := h
  refine ⟨old, later, first ++ more, hrespelled, continues_append hfirst hmore, ?_, ?_⟩
  · rw [Utf8.encode_append, List.append_assoc]
  · rw [Utf8.encode_append, List.append_assoc]

variable {files later : Files} {path : Path} {cs : List Char} {mark : List UInt8}

/-- A file with or without a mark in front has the text after the mark. -/
theorem unmarkedText_of_bytes (hhead : cs.head? ≠ some '\uFEFF')
    (hmark : mark = [] ∨ mark = Utf8.mark)
    (hbytes : files.bytes path = .ok (mark ++ Utf8.encode cs)) :
    files.unmarkedText path = .ok (unifyBreaks cs) := by
  have hread : textOf (Utf8.encode cs) = .ok (unifyBreaks cs) := by
    rw [textOf, Utf8.decode_encode]
    rfl
  rw [unmarkedText, hbytes]
  simp only [Except.mapError, bind, Except.bind]
  rcases hmark with rfl | rfl
  · rw [List.nil_append, if_neg (Utf8.encode_ne_part cs), Utf8.dropMark_encode hhead, hread]
  · rw [if_neg (by simp [Utf8.mark])]
    exact hread

/-- The text of a source does not tell how it is spelled. -/
theorem unmarkedText_of_related (h : files.Related RespelledThen later) (path : Path) :
    later.unmarkedText path = files.unmarkedText path := by
  rcases h.bytes path with hsame | ⟨_, _, hcontent, hnew, old, new, more, hspelled, hmore, rfl, rfl⟩
  · rw [unmarkedText, unmarkedText, hsame]
  · obtain ⟨cs, sort, mark, hreturn, hhead, hmark⟩ := hspelled
    have hold : (cs ++ more).head? ≠ some '\uFEFF' := by
      cases cs with
      | nil => exact hmore.2
      | cons c cs => exact hhead
    have hnewHead : (respell sort cs ++ more).head? ≠ some '\uFEFF' := by
      cases cs with
      | nil => exact hmore.2
      | cons c cs =>
        rw [respell_cons]
        split
        · cases sort <;> exact fun heq => absurd heq (by simp [LineBreak.chars])
        · exact hhead
    rw [← Utf8.encode_append] at hcontent
    rw [List.append_assoc, ← Utf8.encode_append] at hnew
    have hfeed := unifyBreaks_respell .feed hreturn hmore.1
    rw [respell_feed] at hfeed
    rw [unmarkedText_of_bytes hold (.inl rfl) hcontent, hfeed,
      unmarkedText_of_bytes hnewHead hmark hnew, unifyBreaks_respell sort hreturn hmore.1]

end Workspace

/-! ### Sessions that are alike -/

/-- Two sessions with the same journal and time in which the files are respelled. -/
structure Session.Alike (before later : Session) : Prop where
  files : before.files.Related Workspace.RespelledThen later.files
  journal : later.journal = before.journal
  time : later.time = before.time
  continues : Continues before.time.toList

/-- The bytes of a line in a log file begin with the time. -/
theorem Record.exists_encode_of_fileText {time : String} {record : Record} {content : List UInt8}
    (h : (record.fileText time).encode? = some content) :
    ∃ cs, content = Utf8.encode (time.toList ++ ' ' :: cs) := by
  rw [fileText, List.append_assoc] at h
  obtain ⟨cs, hcs⟩ := RawText.exists_encode_of_append h
  exact ⟨cs, by simpa using hcs⟩

theorem Session.Alike.deliver {before later : Session} (h : before.Alike later) (record : Record)
    (outlet : Outlet) : (before.deliver record outlet).Alike (later.deliver record outlet) := by
  cases outlet with
  | console verbose =>
    exact ⟨h.files, by simp only [Session.deliver, h.journal], h.time, h.continues⟩
  | file place =>
    refine ⟨?_, h.journal, h.time, h.continues⟩
    simp only [Session.deliver, h.time]
    cases hcontent : (record.fileText before.time).encode? with
    | none => exact h.files
    | some content =>
      obtain ⟨cs, rfl⟩ := Record.exists_encode_of_fileText hcontent
      exact h.files.append fun _ _ => Workspace.respelledThen_append
        (continues_append h.continues (by simp [Continues]))

theorem Session.parallel_alike : Session.Parallel Session.Alike where
  journal h := h.journal
  note h _ := ⟨h.files, rfl, h.time, h.continues⟩
  deliver h := h.deliver
  isFile h := h.files.sameBut.isFile
  unmarkedText h := Workspace.unmarkedText_of_related h.files
  sourceFiles h := h.files.sameBut.sourceFiles

/-! ### Extractions that agree -/

open SdkCatalog.Action Workspace

variable {related : Session → Session → Prop}

theorem Constant.agreesIn_ofFile (hparallel : Session.Parallel related) (path : Path) :
    AgreesIn related (ofFile path) :=
  agreesIn_bind (agreesIn_readSource hparallel path) fun _ =>
    agreesIn_bind (agreesIn_orFail _ _) fun _ => agreesIn_pure _

theorem MessageType.agreesIn_ofSources (hparallel : Session.Parallel related) (paths : SourcePaths)
    (suffixes : List String) (typeNamespace : String) :
    AgreesIn related (ofSources paths suffixes typeNamespace) := by
  refine agreesIn_bind (agreesIn_readSource hparallel _) fun configuration => ?_
  split
  · exact agreesIn_bind (agreesIn_report hparallel _ _ _) fun _ => agreesIn_pure _
  · exact agreesIn_bind (Constant.agreesIn_ofFile hparallel _) fun _ =>
      agreesIn_bind (Constant.agreesIn_ofFile hparallel _) fun _ =>
      agreesIn_bind (ClassDeclaration.agreesIn_ofDirectory hparallel _ _) fun _ =>
      agreesIn_bind (agreesIn_report hparallel _ _ _) fun _ => agreesIn_pure _

theorem Extract.agreesIn_ofSettings (hparallel : Session.Parallel related) (settings : Settings)
    (root : Path) : AgreesIn related (ofSettings settings root) :=
  agreesIn_bind (agreesIn_report hparallel _ _ _) fun _ =>
    agreesIn_bind (agreesIn_readSource hparallel _) fun _ =>
    agreesIn_bind (agreesIn_readSource hparallel _) fun _ =>
    agreesIn_bind (MessageType.agreesIn_ofSources hparallel _ _ _) fun _ =>
    agreesIn_pure _

/-- A source cut into lines gives the same entries when a return stands before every line feed. And
an extraction has the same outcome, an extract or a failure, in two workspaces of which the second
has some files with other line breaks or with a byte-order mark in front. The time that log lines
begin with must not itself begin like the second half of a line break, or with a mark. -/
theorem Extract.ofSettings_respelled :
    (∀ source : String, '\r' ∉ source.toList →
      let returned := String.ofList (respell .returnFeed source.toList)
      Interface.ofSource returned = Interface.ofSource source ∧
      Constant.ofSource returned = Constant.ofSource source ∧
      ∀ file, ClassDeclaration.ofSource file returned = ClassDeclaration.ofSource file source) ∧
    ∀ (settings : Settings) (root : Path) (session : Session) (later : Files),
      Continues session.time.toList → session.files.Related Respelled later →
      ((ofSettings settings root).run.run { session with files := later }).1 =
        ((ofSettings settings root).run.run session).1 := by
  refine ⟨fun source hreturn => ?_, fun settings root session later htime hfiles => ?_⟩
  · intro returned
    have hlines : lines returned.toList = lines source.toList := by
      rw [String.toList_ofList, lines_respell hreturn]
    refine ⟨?_, ?_, fun file => ?_⟩
    · rw [Interface.ofSource, Interface.ofSource, Interface.declarations, Interface.declarations,
        hlines]
    · rw [Constant.ofSource, Constant.ofSource, hlines]
    · rw [ClassDeclaration.ofSource, ClassDeclaration.ofSource, hlines]
  · have hthen : ∀ content new, Respelled content new → RespelledThen content new :=
      fun content new h => ⟨content, new, [], h, by simp [Continues], by simp [Utf8.encode],
        by simp [Utf8.encode]⟩
    have halike : session.Alike { session with files := later } :=
      ⟨hfiles.mono hthen, rfl, rfl, htime⟩
    exact (agreesIn_ofSettings Session.parallel_alike settings root _ _ halike).1

/-- A client class with returns and a mark gives the extract that it gives without them. -/
theorem Extract.ofSettings_respelled_single :
    let cs := "/** Doc */\nrun(a) \x7b".toList
    let workspace := fun content : List UInt8 => Files.mk
      ⟨[(["client.js"], .file content)], by simp⟩ [] "/"
    let session : Session := ⟨workspace (Utf8.encode cs), {}, ""⟩
    let later := workspace (Utf8.mark ++ Utf8.encode (respell .returnFeed cs))
    let settings : Settings := { root := .absolute [], sdkDirectory := "/", client := "client.js" }
    Continues session.time.toList ∧ session.files.Related Respelled later ∧
      ((ofSettings settings (.absolute [])).run.run { session with files := later }).1 =
        ((ofSettings settings (.absolute [])).run.run session).1 := by
  intro cs workspace session later settings
  have htime : Continues session.time.toList := ⟨by decide, by decide⟩
  have hfiles : session.files.Related Respelled later :=
    { workingDirectory := rfl
      home := rfl
      locations := rfl
      entry := fun place => by
        by_cases hplace : place = ["client.js"]
        · subst hplace
          exact .inr ⟨_, _, rfl, rfl, .intro cs .returnFeed Utf8.mark (by decide) (by decide)
            (.inr rfl)⟩
        · exact .inl (by simp [session, later, workspace, FileTree.entry?, Ne.symm hplace]) }
  exact ⟨htime, hfiles, ofSettings_respelled.2 settings (.absolute []) session later htime hfiles⟩

end SdkCatalog
