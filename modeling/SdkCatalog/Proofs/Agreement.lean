import SdkCatalog.Proofs.Workspace

/-! Actions followed in two sessions at once. Where sessions are related so that reports keep them
related and sources read alike, an action has the same outcome in both. -/

namespace SdkCatalog

variable {α β ε : Type} {related : Session → Session → Prop} {before later : Session}

/-- Sessions are related so that they have the same journal, stay related when outlets take a
record, and read the same in every source. -/
structure Session.Parallel (related : Session → Session → Prop) : Prop where
  journal : ∀ {before later}, related before later → later.journal = before.journal
  note : ∀ {before later}, related before later → ∀ journal,
    related { before with journal } { later with journal }
  deliver : ∀ {before later}, related before later → ∀ record outlet,
    related (before.deliver record outlet) (later.deliver record outlet)
  isFile : ∀ {before later}, related before later → ∀ path,
    later.files.isFile path = before.files.isFile path
  unmarkedText : ∀ {before later}, related before later → ∀ path,
    later.files.unmarkedText path = before.files.unmarkedText path
  sourceFiles : ∀ {before later}, related before later → ∀ directory suffixes,
    Workspace.sourceFiles later.files directory suffixes =
      Workspace.sourceFiles before.files directory suffixes

theorem Session.Parallel.report (hparallel : Parallel related) (h : related before later)
    (record : Record) : related (before.report record) (later.report record) := by
  have hfold : ∀ (takers : List Outlet) (before later : Session), related before later →
      related (takers.foldl (Session.deliver record) before)
        (takers.foldl (Session.deliver record) later) := by
    intro takers
    induction takers with
    | nil => exact fun _ _ h => h
    | cons taker rest ih => exact fun _ _ h => ih _ _ (hparallel.deliver h record taker)
  rw [Session.report, Session.report, hparallel.journal h]
  exact hfold _ _ _ (hparallel.note h _)

namespace Action

/-- An action has one outcome in sessions that are related, and leaves them related. -/
def AgreesIn (related : Session → Session → Prop) (action : Action α) : Prop :=
  ∀ before later : Session, related before later →
    (action.run.run later).1 = (action.run.run before).1 ∧
    related (action.run.run before).2 (action.run.run later).2

theorem agreesIn_pure (value : α) : AgreesIn related (pure value) :=
  fun _ _ h => ⟨rfl, h⟩

theorem agreesIn_bind {action : Action α} {next : α → Action β} (h : AgreesIn related action)
    (hnext : ∀ value, AgreesIn related (next value)) : AgreesIn related (action >>= next) := by
  intro before later hrelated
  obtain ⟨houtcome, hafter⟩ := h before later hrelated
  generalize hlater : action.run.run later = ranLater at houtcome hafter
  generalize hbefore : action.run.run before = ranBefore at houtcome hafter
  obtain ⟨outcome, middleLater⟩ := ranLater
  obtain ⟨_, middle⟩ := ranBefore
  obtain rfl := houtcome
  cases outcome with
  | ok value =>
    rw [run_bind_of_ok hlater, run_bind_of_ok hbefore]
    exact hnext value middle middleLater hafter
  | error failure =>
    rw [run_bind_of_error hlater, run_bind_of_error hbefore]
    exact ⟨rfl, hafter⟩

theorem agreesIn_report (hparallel : Session.Parallel related) (level : Level)
    (part message : String) : AgreesIn related (report level part message) :=
  fun _ _ h => ⟨rfl, hparallel.report h _⟩

theorem agreesIn_ask {question : Files → α}
    (h : ∀ before later, related before later → question later.files = question before.files) :
    AgreesIn related (ask question) :=
  fun before later hrelated => ⟨congrArg Except.ok (h before later hrelated), hrelated⟩

theorem agreesIn_orFail (failure : ε → Failure) (outcome : Except ε α) :
    AgreesIn related (orFail failure outcome) := by
  cases outcome with
  | ok value => exact agreesIn_pure value
  | error fault => exact fun _ _ h => ⟨rfl, h⟩

theorem agreesIn_foldlM {step : β → α → Action β}
    (hstep : ∀ value item, AgreesIn related (step value item)) (items : List α) (value : β) :
    AgreesIn related (items.foldlM step value) := by
  induction items generalizing value with
  | nil => exact agreesIn_pure value
  | cons item rest ih =>
    rw [List.foldlM_cons]
    exact agreesIn_bind (hstep value item) ih

end Action

open SdkCatalog.Action

theorem Workspace.agreesIn_readSource (hparallel : Session.Parallel related) (path : Path) :
    AgreesIn related (readSource path) := by
  refine agreesIn_bind (agreesIn_ask fun _ _ h => hparallel.isFile h path) fun isFile => ?_
  split
  · refine agreesIn_bind (agreesIn_ask fun _ _ h => hparallel.unmarkedText h path)
      fun outcome => ?_
    split
    · exact agreesIn_pure _
    · exact agreesIn_bind (agreesIn_report hparallel _ _ _) fun _ => agreesIn_pure _
  · exact agreesIn_bind (agreesIn_report hparallel _ _ _) fun _ => agreesIn_pure _

end SdkCatalog
