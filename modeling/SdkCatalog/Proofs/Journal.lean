import SdkCatalog.Proofs.Session

/-! A journal that is taken up anew. Whatever was done to it before, it then has one console, and
one log file if one is named. From then on every record is shown and logged once or not at all, as
its level tells, and no other file gets it. -/

namespace SdkCatalog

open FileTree

variable {verbose : Bool} {logFile : Option Path} {log? : Option Location} {place : Location}
  {before after session : Session} {record : Record} {records : List Record} {count : Nat}

/-! ### Which outlets take a record -/

theorem Outlet.least_console (verbose : Bool) :
    (console verbose).least = if verbose then .debug else .info := by
  cases verbose <;> rfl

@[simp] theorem Outlet.least_file (place : Location) : (file place).least = .debug := rfl

/-- What a console takes, a log file takes too. -/
theorem Outlet.atLeast_debug {level : Level} (h : level.atLeast (console verbose).least = true) :
    level.atLeast .debug = true := by
  have hleast : Level.debug.rank ≤ (console verbose).least.rank := by cases verbose <;> decide
  simp only [Level.atLeast, decide_eq_true_eq] at h ⊢
  omega

/-- The outlets of a session are a console, and a log file that is there if one is given. -/
structure Session.Feeds (verbose : Bool) (log? : Option Location) (session : Session) : Prop where
  outlets : session.journal.outlets = .console verbose :: log?.toList.map .file
  threshold : session.journal.threshold =
    if log?.isSome then .debug else (Outlet.console verbose).least
  there : ∀ place ∈ log?, ∃ content, session.files.tree.entry? place = some (.file content)

namespace Session

theorem Feeds.takers (h : session.Feeds verbose log?) (record : Record) :
    session.journal.takers record =
      (if record.level.atLeast (Outlet.console verbose).least then [.console verbose] else []) ++
      if record.level.atLeast .debug then log?.toList.map .file else [] := by
  rw [Journal.takers, h.threshold, h.outlets]
  cases hconsole : record.level.atLeast (Outlet.console verbose).least with
  | true =>
    have hdebug := Outlet.atLeast_debug hconsole
    cases log? <;> simp [hconsole, hdebug]
  | false => cases hdebug : record.level.atLeast .debug <;> cases log? <;> simp [hconsole, hdebug]

theorem Feeds.report_eq (h : session.Feeds verbose log?) (record : Record) :
    session.report record =
      { session with
        files := if record.level.atLeast .debug then
            log?.elim session.files fun place =>
              (record.fileText session.time).encode?.elim session.files (session.files.append place)
          else session.files
        journal := { session.journal.note record with
          shown := session.journal.shown ++
            if record.level.atLeast (Outlet.console verbose).least then
              record.consoleText verbose
            else "" } } := by
  rw [Session.report, h.takers]
  cases record.level.atLeast (Outlet.console verbose).least <;>
    cases record.level.atLeast .debug <;> cases log? <;>
      simp [deliver, Journal.note]

/-! ### Records, one after another -/

/-- What a console shows of records. -/
def shownText (verbose : Bool) (records : List Record) : String :=
  String.join ((records.filter (·.level.atLeast (if verbose then .debug else .info))).map
    (·.consoleText verbose))

/-- What a log file gets of records that are reported at a time: the lines of those that have
bytes. -/
def loggedBytes (time : String) (records : List Record) : List UInt8 :=
  ((records.filter (·.level.atLeast .debug)).filterMap fun record =>
    (record.fileText time).encode?).flatten

theorem shownText_singleton : shownText verbose [record] =
    if record.level.atLeast (Outlet.console verbose).least then record.consoleText verbose
    else "" := by
  rw [shownText, ← Outlet.least_console]
  cases h : record.level.atLeast (Outlet.console verbose).least <;> simp [h]

theorem loggedBytes_singleton {time : String} : loggedBytes time [record] =
    if record.level.atLeast .debug then (record.fileText time).encode?.getD [] else [] := by
  rw [loggedBytes]
  cases h : record.level.atLeast .debug with
  | false => simp [h]
  | true => cases hcontent : (record.fileText time).encode? <;> simp [h, hcontent]

/-- Records have been reported: the console shows their texts and the log file has got their lines,
and there is no change at any other location. -/
structure Recorded (verbose : Bool) (log? : Option Location) (records : List Record)
    (before after : Session) : Prop where
  shown : after.journal.shown = before.journal.shown ++ shownText verbose records
  logged : ∀ place ∈ log?, after.files.tree.entry? place =
    some (.file (before.files.contentAt place ++ loggedBytes before.time records))
  elsewhere : ∀ place, log? ≠ some place →
    after.files.tree.entry? place = before.files.tree.entry? place
  time : after.time = before.time

theorem contentAt_of_file {files : Files} {content : List UInt8}
    (h : files.tree.entry? place = some (.file content)) : files.contentAt place = content := by
  rw [Files.contentAt, h]

theorem Feeds.recorded_nil (h : session.Feeds verbose log?) :
    Recorded verbose log? [] session session := by
  refine ⟨String.append_empty.symm, fun place hplace => ?_, fun _ _ => rfl, rfl⟩
  obtain ⟨content, hcontent⟩ := h.there place hplace
  rw [contentAt_of_file hcontent, hcontent, loggedBytes, List.filter_nil, List.filterMap_nil,
    List.flatten_nil, List.append_nil]

theorem Recorded.append {others : List Record} {last : Session}
    (h : Recorded verbose log? records before after)
    (hlater : Recorded verbose log? others after last) :
    Recorded verbose log? (records ++ others) before last where
  shown := by
    rw [hlater.shown, h.shown, shownText, shownText, shownText, List.filter_append,
      List.map_append, String.join_append, String.append_assoc]
  logged place hplace := by
    rw [hlater.logged place hplace, contentAt_of_file (h.logged place hplace), h.time,
      loggedBytes, loggedBytes, loggedBytes, List.filter_append, List.filterMap_append,
      List.flatten_append, List.append_assoc]
  elsewhere place hplace := (hlater.elsewhere place hplace).trans (h.elsewhere place hplace)
  time := hlater.time.trans h.time

/-- A report shows and logs its record once, or leaves it out. -/
theorem Feeds.recorded_report (h : session.Feeds verbose log?) (record : Record) :
    Recorded verbose log? [record] session (session.report record) := by
  rw [h.report_eq]
  refine ⟨by rw [shownText_singleton], fun place hplace => ?_, fun place hplace => ?_, rfl⟩
  · obtain rfl := Option.mem_def.mp hplace
    obtain ⟨content, hcontent⟩ := h.there place hplace
    rw [loggedBytes_singleton]
    have hkept : session.files.tree.entry? place =
        some (.file (session.files.contentAt place ++ [])) := by
      rw [List.append_nil, contentAt_of_file hcontent, hcontent]
    split
    · have hopen : session.files.tree.Open place := .inr ⟨content, hcontent⟩
      cases (record.fileText session.time).encode? with
      | none => exact hkept
      | some line => exact entry?_put_same hopen.ne_nil
    · exact hkept
  · split
    · cases log? with
      | none => rfl
      | some other =>
        cases (record.fileText session.time).encode? with
        | none => rfl
        | some line => exact entry?_put_other fun heq => hplace (congrArg some heq.symm)
    · rfl

theorem Feeds.report (h : session.Feeds verbose log?) (record : Record) :
    (session.report record).Feeds verbose log? := by
  refine ⟨?_, ?_, fun place hplace => ⟨_, (h.recorded_report record).logged place hplace⟩⟩
  · rw [h.report_eq]
    exact h.outlets
  · rw [h.report_eq]
    exact h.threshold

theorem Feeds.recorded (h : session.Feeds verbose log?) (records : List Record) :
    Recorded verbose log? records session (records.foldl Session.report session) := by
  induction records generalizing session with
  | nil => exact h.recorded_nil
  | cons record rest ih => exact (h.recorded_report record).append (ih (h.report record))

/-- A session comes after another without its journal being taken up in between: records are
reported, time passes, and files change, but not those that the journal logs to. -/
inductive Follows (first : Session) : Session → Prop
  | refl : Follows first first
  | report {session : Session} (record : Record) :
    Follows first session → Follows first (session.report record)
  | change {session : Session} (files : Files) (time : String) :
    (∀ place ∈ session.journal.logs,
      files.tree.entry? place = session.files.tree.entry? place) →
    Follows first session → Follows first { session with files, time }

theorem Feeds.logs_eq (h : session.Feeds verbose log?) : session.journal.logs = log?.toList := by
  rw [Journal.logs, h.outlets]
  cases log? <;> rfl

theorem Feeds.of_follows (h : before.Feeds verbose log?) (hfollows : Follows before session) :
    session.Feeds verbose log? := by
  induction hfollows with
  | refl => exact h
  | report record _ ih => exact ih.report record
  | @change session files time hlogs _ ih =>
    refine ⟨ih.outlets, ih.threshold, fun place hplace => ?_⟩
    obtain ⟨content, hcontent⟩ := ih.there place hplace
    exact ⟨content, (hlogs place (by simpa [ih.logs_eq] using hplace)).trans hcontent⟩

end Session

/-! ### Taking up a journal -/

namespace Journal

/-- The log file that is named, if one is, is the regular file at a location. It is the one that its
path spells, which need not be the one that the path leads to. -/
inductive LogsTo (files : Files) : Option Path → Option Location → Prop
  | nowhere : LogsTo files none none
  | file {path spelled : Path} {place : Location} {content : List UInt8} :
    files.spelled path = .ok spelled → files.find spelled = .ok (.entry place (.file content)) →
    LogsTo files (some path) (some place)

variable {path : Path} {made : Files}

theorem find_of_openForAppending {files : Files}
    (h : files.openForAppending path = .ok (place, made)) :
    ∃ spelled content, made.spelled path = .ok spelled ∧
      made.find spelled = .ok (.entry place (.file content)) := by
  simp only [Files.openForAppending, bind_eq_ok_iff] at h
  obtain ⟨spelled, hspelled, other, hplace, h⟩ := h
  injection h with h
  injection h with hother hmade
  subst hother hmade
  have hgrows : files.Grows (files.append other []) :=
    .file .refl (Files.fileLocation_ok hplace).1
  exact ⟨spelled, _, hgrows.spelled hspelled, Files.find_put_of_fileLocation hplace _⟩

/-- The answer is what the journal then is, whatever it was before. -/
theorem of_configure_eq_ok
    (h : (configure verbose logFile).run.run before = (.ok count, after)) :
    ∃ log?, LogsTo after.files logFile log? ∧ after.Feeds verbose log? ∧
      count = after.journal.outlets.length := by
  rw [configure] at h
  obtain ⟨_, begun, hbegun, h⟩ := Action.run_bind_ok_iff.mp h
  rw [Action.run_modify] at hbegun
  injection hbegun with _ hbegun
  subst hbegun
  cases logFile with
  | none =>
    injection h with hcount hafter
    injection hcount with hcount
    subst hcount hafter
    exact ⟨none, .nowhere, ⟨rfl, rfl, by simp⟩, rfl⟩
  | some path =>
    obtain ⟨_, _, hensure, h⟩ := Action.run_bind_ok_iff.mp h
    obtain ⟨above, -, rfl⟩ := Action.run_ensureDirectory_ok_iff.mp hensure
    obtain ⟨_, _, hget, h⟩ := Action.run_bind_ok_iff.mp h
    injection hget with hget hbetween
    injection hget with hget
    subst hget hbetween
    obtain ⟨⟨place, made⟩, _, hopen, h⟩ := Action.run_bind_ok_iff.mp h
    rw [Action.run_orFail_ok_iff] at hopen
    obtain ⟨hopen, rfl⟩ := hopen
    injection h with hcount hafter
    injection hcount with hcount
    subst hcount hafter
    obtain ⟨spelled, content, hspelled, hfind⟩ := find_of_openForAppending hopen
    have hthere := (Files.find_eq_ok_iff.mp hfind).2.stands
    refine ⟨some place, .file hspelled hfind, ⟨rfl, rfl, ?_⟩, rfl⟩
    rintro _ ⟨⟩
    exact ⟨content, hthere⟩

/-- The session after a journal is taken up anew by one request after another, some of which may
fail. -/
def takenUp (first : Session) (requests : List (Bool × Option Path)) : Session :=
  requests.foldl (fun session request => ((configure request.1 request.2).run.run session).2) first

/-- Taking up a journal forgets what it was: its threshold and its outlets do not matter. -/
theorem run_configure_congr (verbose : Bool) (logFile : Option Path) (before : Session)
    (threshold : Level) (outlets : List Outlet) :
    (configure verbose logFile).run.run
        { before with journal := { before.journal with threshold, outlets } } =
      (configure verbose logFile).run.run before :=
  rfl

/-- Whatever requests to take up a journal came before, done or failed, one that is done leaves one
console, and one log file if it names one, as it would have without them. From then on, however
many records are reported and whatever else is done to other files, the console and the log file
get every record once that their level admits, and no report changes a file at another location. -/
theorem recorded_of_configure {first : Session} (requests : List (Bool × Option Path))
    (h : (configure verbose logFile).run.run (takenUp first requests) = (.ok count, after)) :
    (∀ threshold outlets, (configure verbose logFile).run.run
        { takenUp first requests with
          journal := { (takenUp first requests).journal with threshold, outlets } } =
      (.ok count, after)) ∧
    ∃ log?, LogsTo after.files logFile log? ∧
      after.journal.outlets = .console verbose :: log?.toList.map .file ∧
      count = after.journal.outlets.length ∧
      ∀ now : Session, after.Follows now → ∀ records,
        now.journal.outlets = after.journal.outlets ∧
        Session.Recorded verbose log? records now (records.foldl Session.report now) := by
  obtain ⟨log?, hlog, hfeeds, hcount⟩ := of_configure_eq_ok h
  refine ⟨fun threshold outlets => (run_configure_congr _ _ _ threshold outlets).trans h,
    log?, hlog, hfeeds.outlets, hcount, fun now hnow records => ?_⟩
  have hfeedsNow := hfeeds.of_follows hnow
  exact ⟨hfeedsNow.outlets.trans hfeeds.outlets.symm, hfeedsNow.recorded records⟩

/-- After a verbose journal with a log file and a request that failed, a journal with another log
file: what is below the level of the console is told to that file alone. -/
theorem recorded_of_configure_again :
    let first : Session := ⟨⟨⟨[(["blocked"], .file [])], by decide⟩, [], "/"⟩, {}, "now"⟩
    let requests := [(true, some (Path.ofString "old.log")),
      (false, some (Path.ofString "blocked/run.log"))]
    let record : Record := .plain .debug "sources" "read"
    ∃ after : Session, (configure false (some (.ofString "new.log"))).run.run
        (takenUp first requests) = (.ok 2, after) ∧
      after.journal.outlets = [.console false, .file ["new.log"]] ∧
      (after.report record).journal.shown = "" ∧
      (after.report record).files.tree.entry? ["new.log"] =
        some (.file (Utf8.encode "now DEBUG wfcdocs.sources: read\n".toList)) ∧
      (after.report record).files.tree.entry? ["old.log"] = some (.file []) := by
  intro first requests record
  let run := (configure false (some (.ofString "new.log"))).run.run (takenUp first requests)
  have hanswer : run.1 = .ok 2 := by decide +kernel
  have houtlets : run.2.journal.outlets = [.console false, .file ["new.log"]] := by decide +kernel
  have hshown : run.2.journal.shown = "" := by decide +kernel
  have hnew : run.2.files.contentAt ["new.log"] = [] := by decide +kernel
  have hold : run.2.files.tree.entry? ["old.log"] = some (.file []) := by decide +kernel
  have hlines : Session.loggedBytes run.2.time [record] =
      Utf8.encode "now DEBUG wfcdocs.sources: read\n".toList := by decide +kernel
  have htexts : Session.shownText false [record] = "" := by decide +kernel
  generalize hrun : run = answer at *
  obtain ⟨outcome, after⟩ := answer
  subst hanswer
  obtain ⟨-, log?, -, hlog, -, hlater⟩ := recorded_of_configure requests hrun
  obtain rfl : log? = some ["new.log"] := by
    rw [houtlets] at hlog
    cases log? with
    | none => simp at hlog
    | some place => simpa [eq_comm] using hlog
  obtain ⟨-, hreport⟩ := hlater after .refl [record]
  refine ⟨after, hrun, houtlets, ?_, ?_, ?_⟩
  · rw [← hshown]
    exact hreport.shown.trans (by rw [htexts, String.append_empty])
  · rw [← hlines]
    exact (hreport.logged _ rfl).trans (by rw [hnew, List.nil_append])
  · exact (hreport.elsewhere _ (by decide)).trans hold

/-- A path through a link names one log file and leads to another, and a record with a half in it
is in neither. -/
theorem unlogged_records :
    let first : Session := ⟨⟨⟨[(["dir"], .directory), (["dir", "sub"], .directory),
      (["link"], .link "dir/sub")], by decide⟩, [], "/"⟩, {}, "now"⟩
    let path := Path.ofString "link/../run.log"
    let run := (configure false (some path)).run.run first
    let records : List Record :=
      [.plain .debug "sources" "read", ⟨.debug, .ofString "sources", [.half 0x4FF]⟩]
    let last := records.foldl Session.report run.2
    run.1 = .ok 2 ∧ last.files.find path = .ok (.vacant ["dir", "run.log"]) ∧
    last.files.tree.entry? ["run.log"] =
      some (.file (Utf8.encode "now DEBUG wfcdocs.sources: read\n".toList)) := by
  decide +kernel

end Journal

end SdkCatalog
