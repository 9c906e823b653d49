import SdkCatalog.Proofs.Files.Contents
import SdkCatalog.Session

/-! Runs of actions: what each kind of step answers and changes, and what reports leave as it
was. -/

namespace SdkCatalog

variable {α β ε : Type} {before after : Session}

namespace Action

theorem run_pure {value : α} : (pure value : Action α).run.run before = (.ok value, before) := rfl

theorem run_bind_ok_iff {action : Action α} {next : α → Action β} {answer : β} :
    (action >>= next).run.run before = (.ok answer, after) ↔
      ∃ value between, action.run.run before = (.ok value, between) ∧
        (next value).run.run between = (.ok answer, after) := by
  rw [ExceptT.run_bind, StateT.run_bind]
  obtain ⟨outcome, between⟩ := action.run.run before
  cases outcome with
  | ok value =>
    constructor
    · exact fun h => ⟨value, between, rfl, h⟩
    · rintro ⟨_, _, heq, h⟩
      injection heq with hvalue hbetween
      injection hvalue with hvalue
      subst hvalue hbetween
      exact h
  | error failure =>
    constructor
    · intro h
      injection h with h
      injection h
    · rintro ⟨_, _, heq, -⟩
      injection heq with h
      injection h

theorem run_bind_of_ok {action : Action α} {next : α → Action β} {value : α} {between : Session}
    (h : action.run.run before = (.ok value, between)) :
    (action >>= next).run.run before = (next value).run.run between := by
  rw [ExceptT.run_bind, StateT.run_bind, h]
  rfl

theorem run_bind_of_error {action : Action α} {next : α → Action β} {failure : Failure}
    (h : action.run.run before = (.error failure, after)) :
    (action >>= next).run.run before = (.error failure, after) := by
  rw [ExceptT.run_bind, StateT.run_bind, h]
  rfl

theorem run_bind_congr {action : Action α} {next : α → Action β} {other : Session}
    (h : action.run.run before = action.run.run other) :
    (action >>= next).run.run before = (action >>= next).run.run other := by
  simp only [ExceptT.run_bind, StateT.run_bind, h]

/-- A run of two steps fails in the first, or in the second after the first has answered. -/
theorem run_bind_error_iff {action : Action α} {next : α → Action β} {failure : Failure} :
    (action >>= next).run.run before = (.error failure, after) ↔
      action.run.run before = (.error failure, after) ∨
      ∃ value between, action.run.run before = (.ok value, between) ∧
        (next value).run.run between = (.error failure, after) := by
  cases hfirst : action.run.run before with
  | mk outcome between =>
    cases outcome with
    | ok value =>
      rw [run_bind_of_ok hfirst]
      constructor
      · exact fun h => .inr ⟨value, between, rfl, h⟩
      · rintro (h | ⟨_, _, heq, h⟩)
        · injection h with h
          injection h
        · injection heq with hvalue hbetween
          injection hvalue with hvalue
          exact hvalue ▸ hbetween ▸ h
    | error first =>
      rw [run_bind_of_error hfirst]
      constructor
      · intro h
        injection h with houtcome hbetween
        injection houtcome with hfailure
        exact .inl (by rw [hfailure, hbetween])
      · rintro (h | ⟨_, _, heq, -⟩)
        · injection h with houtcome hbetween
          injection houtcome with hfailure
          rw [hfailure, hbetween]
        · injection heq with heq
          injection heq

theorem run_modify (change : Session → Session) :
    (modify change : Action Unit).run.run before = (.ok (), change before) := rfl

theorem run_report (level : Level) (part message : String) :
    (report level part message).run.run before =
      (.ok (), before.report (.plain level part message)) :=
  rfl

theorem run_ask (question : Files → α) :
    (ask question).run.run before = (.ok (question before.files), before) := rfl

theorem run_orFail_ok_iff {failure : ε → Failure} {outcome : Except ε α} {value : α} :
    (orFail failure outcome).run.run before = (.ok value, after) ↔
      outcome = .ok value ∧ after = before := by
  cases outcome with
  | ok other =>
    constructor
    · intro h
      injection h with hvalue hafter
      injection hvalue with hvalue
      exact ⟨by rw [hvalue], hafter.symm⟩
    · rintro ⟨h, rfl⟩
      injection h with h
      rw [h]
      rfl
  | error fault =>
    constructor
    · intro h
      injection h with h
      injection h
    · rintro ⟨h, -⟩
      simp at h

theorem run_inquire_ok_iff {question : Files → Except Failure α} {value : α} :
    (inquire question).run.run before = (.ok value, after) ↔
      question before.files = .ok value ∧ after = before :=
  run_orFail_ok_iff

/-- An answer of the files is asked for before the rest runs on. -/
theorem run_inquire_bind_ok_iff {question : Files → Except Failure α} {next : α → Action β}
    {answer : β} : (inquire question >>= next).run.run before = (.ok answer, after) ↔
      ∃ value, question before.files = .ok value ∧
        (next value).run.run before = (.ok answer, after) := by
  rw [run_bind_ok_iff]
  constructor
  · rintro ⟨value, between, hinquire, hrest⟩
    obtain ⟨hvalue, hbetween⟩ := run_inquire_ok_iff.mp hinquire
    exact ⟨value, hvalue, hbetween ▸ hrest⟩
  · rintro ⟨value, hvalue, hrest⟩
    exact ⟨value, before, run_inquire_ok_iff.mpr ⟨hvalue, rfl⟩, hrest⟩

theorem run_change_ok_iff {failure : FileFault → Failure}
    {update : Files → Except FileFault Files} :
    (change failure update).run.run before = (.ok (), after) ↔
      ∃ files, update before.files = .ok files ∧ after = { before with files } := by
  constructor
  · intro h
    obtain ⟨session, between, hget, h⟩ := run_bind_ok_iff.mp h
    injection hget with hget hbetween
    injection hget with hget
    subst hget hbetween
    obtain ⟨files, _, hupdate, hmodify⟩ := run_bind_ok_iff.mp h
    obtain ⟨hupdate, rfl⟩ := run_orFail_ok_iff.mp hupdate
    rw [run_modify] at hmodify
    injection hmodify with _ hmodify
    exact ⟨files, hupdate, hmodify.symm⟩
  · rintro ⟨files, hupdate, rfl⟩
    exact run_bind_ok_iff.mpr ⟨before, before, rfl,
      run_bind_ok_iff.mpr ⟨files, before, run_orFail_ok_iff.mpr ⟨hupdate, rfl⟩, rfl⟩⟩

theorem run_ensureDirectory {failure : FileFault → Failure} {path : Path} :
    (ensureDirectory failure path).run.run before =
      ((before.files.ensureDirectory path).1.mapError failure,
        { before with files := (before.files.ensureDirectory path).2 }) := by
  have hrun : (ensureDirectory failure path).run.run before =
      (orFail failure (before.files.ensureDirectory path).1).run.run
        { before with files := (before.files.ensureDirectory path).2 } := rfl
  rw [hrun]
  cases (before.files.ensureDirectory path).1 <;> rfl

theorem run_ensureDirectory_ok_iff {failure : FileFault → Failure} {path : Path} :
    (ensureDirectory failure path).run.run before = (.ok (), after) ↔
      ∃ files, before.files.ensureDirectory path = (.ok (), files) ∧
        after = { before with files } := by
  rw [run_ensureDirectory]
  constructor
  · intro h
    injection h with houtcome hafter
    refine ⟨_, Prod.ext ?_ rfl, hafter.symm⟩
    cases hensure : (before.files.ensureDirectory path).1 with
    | ok => rfl
    | error fault => simp [hensure, Except.mapError] at houtcome
  · rintro ⟨files, hensure, rfl⟩
    rw [hensure]
    rfl

theorem run_change_error {failure : FileFault → Failure} {update : Files → Except FileFault Files}
    {fault : Failure} (h : (change failure update).run.run before = (.error fault, after)) :
    after = before := by
  have hrun : (change failure update).run.run before =
      (orFail failure (update before.files) >>= fun files =>
        modify fun session => { session with files }).run.run before := rfl
  rw [hrun] at h
  cases hupdate : update before.files with
  | ok files =>
    rw [hupdate] at h
    injection h with h
    injection h
  | error other =>
    rw [hupdate] at h
    injection h with _ h
    exact h.symm

end Action

/-! ### Failures of actions -/

namespace Action

variable {allowed : Failure → Prop}

/-- Whenever an action fails, it is with a failure of a kind. -/
def FailsOnly (allowed : Failure → Prop) (action : Action α) : Prop :=
  ∀ before after failure, action.run.run before = (.error failure, after) → allowed failure

theorem failsOnly_pure (value : α) : FailsOnly allowed (pure value) := by
  intro before after failure h
  rw [run_pure] at h
  injection h with h
  injection h

theorem failsOnly_bind {action : Action α} {next : α → Action β} (h : FailsOnly allowed action)
    (hnext : ∀ value, FailsOnly allowed (next value)) : FailsOnly allowed (action >>= next) := by
  intro before after failure hrun
  rcases run_bind_error_iff.mp hrun with hfirst | ⟨value, between, -, hrest⟩
  · exact h _ _ _ hfirst
  · exact hnext value _ _ _ hrest

theorem failsOnly_of_answers {action : Action α}
    (h : ∀ before, ∃ value after, action.run.run before = (.ok value, after)) :
    FailsOnly allowed action := by
  intro before after failure hrun
  obtain ⟨value, between, hanswer⟩ := h before
  rw [hanswer] at hrun
  injection hrun with hrun
  injection hrun

theorem failsOnly_report (level : Level) (part message : String) :
    FailsOnly allowed (report level part message) :=
  failsOnly_of_answers fun _ => ⟨(), _, run_report level part message⟩

theorem failsOnly_orFail {failure : ε → Failure} {outcome : Except ε α}
    (h : ∀ fault, outcome = .error fault → allowed (failure fault)) :
    FailsOnly allowed (orFail failure outcome) := by
  cases outcome with
  | ok value => exact failsOnly_pure value
  | error fault =>
    intro before after failure hrun
    injection hrun with hrun
    injection hrun with hrun
    exact hrun ▸ h fault rfl

end Action

/-! ### Reports -/

def Journal.logs (journal : Journal) : List Location :=
  journal.outlets.filterMap fun
    | .file place => some place
    | .console _ => none

namespace Session

/-- Every log file of a session is there, as it is from when it is opened. -/
def LogsThere (session : Session) : Prop :=
  ∀ place ∈ session.journal.logs, ∃ content, session.files.tree.entry? place = some (.file content)

/-- A session after another in which nothing but reports was made. -/
structure Reported (before after : Session) : Prop where
  outlets : after.journal.outlets = before.journal.outlets
  files : before.files.SameBut before.journal.logs after.files
  kept : before.journal.logs = [] → after.files = before.files

theorem Reported.logs (h : Reported before after) : after.journal.logs = before.journal.logs := by
  rw [Journal.logs, Journal.logs, h.outlets]

theorem Reported.logsThere (h : Reported before after) : after.LogsThere := by
  intro place hplace
  rw [h.logs] at hplace
  exact h.files.tree.after place hplace

theorem Reported.refl (h : before.LogsThere) : Reported before before :=
  ⟨rfl, ⟨.refl h, rfl, rfl⟩, fun _ => rfl⟩

theorem Reported.trans {last : Session} (h : Reported before after)
    (hlast : Reported after last) : Reported before last :=
  ⟨hlast.outlets.trans h.outlets, h.files.trans (h.logs ▸ hlast.files),
    fun hnone => (hlast.kept (h.logs.trans hnone)).trans (h.kept hnone)⟩

theorem reported_deliver {outlet : Outlet} (record : Record) (h : Reported before after)
    (houtlet : outlet ∈ before.journal.outlets) :
    Reported before (after.deliver record outlet) := by
  cases outlet with
  | console verbose => exact ⟨h.outlets, h.files, h.kept⟩
  | file place =>
    have hplace : place ∈ before.journal.logs := List.mem_filterMap.mpr ⟨_, houtlet, rfl⟩
    rw [deliver]
    cases (record.fileText after.time).encode? with
    | none => exact ⟨h.outlets, h.files, h.kept⟩
    | some content =>
      exact ⟨h.outlets, ⟨h.files.tree.put hplace, h.files.workingDirectory, h.files.home⟩,
        fun hnone => by simp [hnone] at hplace⟩

theorem reported_report (record : Record) (h : before.LogsThere) :
    Reported before (before.report record) := by
  have hfold : ∀ takers : List Outlet, (∀ outlet ∈ takers, outlet ∈ before.journal.outlets) →
      ∀ session, Reported before session →
        Reported before (takers.foldl (deliver record) session) := by
    intro takers htakers
    induction takers with
    | nil => exact fun session hsession => hsession
    | cons taker rest ih =>
      intro session hsession
      rw [List.foldl_cons]
      exact ih (fun outlet hmem => htakers outlet (List.mem_cons_of_mem _ hmem)) _
        (reported_deliver record hsession (htakers taker List.mem_cons_self))
  refine hfold _ (fun outlet hmem => ?_) _
    ⟨rfl, ⟨.refl h, rfl, rfl⟩, fun _ => rfl⟩
  rw [Journal.takers] at hmem
  split at hmem
  · exact (List.mem_filter.mp hmem).1
  · simp at hmem

/-- A session comes from another by reports alone. -/
def ByReports (before after : Session) : Prop :=
  ∃ records : List Record, after = records.foldl Session.report before

theorem ByReports.refl (session : Session) : ByReports session session := ⟨[], rfl⟩

theorem ByReports.trans {last : Session} (h : ByReports before after)
    (hlast : ByReports after last) : ByReports before last := by
  obtain ⟨records, rfl⟩ := h
  obtain ⟨others, rfl⟩ := hlast
  exact ⟨records ++ others, List.foldl_append.symm⟩

theorem byReports_report (session : Session) (record : Record) :
    ByReports session (session.report record) := ⟨[record], rfl⟩

theorem ByReports.reported (h : ByReports before after) (hlogs : before.LogsThere) :
    Reported before after := by
  obtain ⟨records, rfl⟩ := h
  induction records generalizing before with
  | nil => exact .refl hlogs
  | cons record rest ih =>
    have hfirst := reported_report record hlogs
    exact hfirst.trans (ih hfirst.logsThere)

/-- The log files of a session are there, and none of the paths leads to one. -/
structure LogsApart (session : Session) (paths : List Path) : Prop where
  there : session.LogsThere
  avoids : ∀ path ∈ paths, session.files.Avoids session.journal.logs path

theorem LogsApart.mono {paths others : List Path} (h : before.LogsApart paths)
    (hothers : others ⊆ paths) : before.LogsApart others :=
  ⟨h.there, fun path hpath => h.avoids path (hothers hpath)⟩

theorem LogsApart.of_reported {paths : List Path} (h : before.LogsApart paths)
    (hreported : Reported before after) : after.LogsApart paths := by
  refine ⟨hreported.logsThere, fun path hpath => ?_⟩
  rw [hreported.logs]
  exact hreported.files.avoids (h.avoids path hpath)

theorem logsApart_of_logs_eq_nil (h : before.journal.logs = []) (paths : List Path) :
    before.LogsApart paths :=
  ⟨fun place hplace => by simp [h] at hplace, fun _ _ _ _ _ => by simp [h]⟩

end Session

/-! ### Actions that only report -/

namespace Action

open Session

/-- An action that leaves nothing but reports behind whenever it answers. -/
def OnlyReports (action : Action α) : Prop :=
  ∀ before after answer, before.LogsThere → action.run.run before = (.ok answer, after) →
    Reported before after

theorem onlyReports_pure (value : α) : OnlyReports (pure value) := by
  intro before after answer hlogs h
  rw [run_pure] at h
  injection h with _ h
  exact h ▸ .refl hlogs

theorem onlyReports_bind {action : Action α} {next : α → Action β} (h : OnlyReports action)
    (hnext : ∀ value, OnlyReports (next value)) : OnlyReports (action >>= next) := by
  intro before after answer hlogs hrun
  obtain ⟨value, between, hfirst, hrest⟩ := run_bind_ok_iff.mp hrun
  have hbetween := h _ _ _ hlogs hfirst
  exact hbetween.trans (hnext value _ _ _ hbetween.logsThere hrest)

theorem onlyReports_report (level : Level) (part message : String) :
    OnlyReports (report level part message) := by
  intro before after answer hlogs h
  rw [run_report] at h
  injection h with _ h
  exact h ▸ reported_report _ hlogs

theorem onlyReports_orFail (failure : ε → Failure) (outcome : Except ε α) :
    OnlyReports (orFail failure outcome) := by
  intro before after answer hlogs h
  obtain ⟨-, rfl⟩ := run_orFail_ok_iff.mp h
  exact .refl hlogs

end Action

end SdkCatalog
