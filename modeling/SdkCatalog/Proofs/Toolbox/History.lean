import SdkCatalog.Proofs.Toolbox

/-! A toolbox in service. Its clients load the store, register tools, look tools up and call them,
in any order, while the files change. A tool once registered stays under its name, what is refused
leaves nothing behind, and the tools over the catalogs answer for the lists of the time. -/

namespace SdkCatalog

/-! ### One toolbox -/

namespace Toolbox

variable {box other : Toolbox} {tool : Tool} {name : String}

/-- A name that is taken is refused, and any other is added at the end. -/
theorem register_cases (box : Toolbox) (tool : Tool) :
    (tool.name ∈ box.tools.map Tool.name ∧ box.register tool = .error (.toolTaken tool.name)) ∨
    (tool.name ∉ box.tools.map Tool.name ∧ ∃ longer, box.register tool = .ok longer ∧
      longer.tools = box.tools ++ [tool]) := by
  by_cases h : tool.name ∈ box.tools.map Tool.name
  · exact .inl ⟨h, by rw [register, dif_pos h]⟩
  · exact .inr ⟨h, _, by rw [register, dif_neg h], rfl⟩

theorem get?_eq_none_iff : box.get? name = none ↔ name ∉ box.tools.map Tool.name := by
  simp [get?]

/-- A name that is taken has the tool that was first offered under it. -/
theorem get?_of_tools_eq {offered : List Tool} (h : other.tools = box.tools ++ offered) :
    other.get? name = (box.get? name).or (offered.find? (·.name = name)) := by
  rw [get?, h, List.find?_append, get?]

theorem get_of_get?_eq (h : other.get? name = box.get? name) : other.get name = box.get name := by
  rw [get, get, h]

theorem get_of_get?_eq_none (h : box.get? name = none) :
    box.get name = .error (.unknownTool name) := by
  rw [get, h]

theorem run_call_of_unknown (h : box.get? name = none) (catalogs : Catalogs)
    (arguments : Json.Members) (session : Session) :
    (box.call catalogs name arguments).run.run session =
      (.error (.unknownTool name), session) := by
  rw [call, get_of_get?_eq_none h]
  rfl

end Toolbox

/-! ### Requests -/

/-- A toolbox over a store, in a session. -/
structure Service where
  box : Toolbox
  store : Store
  session : Session

/-- What can happen to a service. -/
inductive Request where
  /-- The files are changed from outside. -/
  | edit (files : Files)
  | load
  | register (tool : Tool)
  | get (name : String)
  | call (name : String) (arguments : Json.Members)

inductive Answer where
  /-- Nothing but whether it was done. -/
  | done (outcome : Except Failure Unit)
  | tool (outcome : Except Failure Tool)
  | text (outcome : Except Failure String)

/-- The tool that a request offers for registration. -/
def Request.offered? : Request → Option Tool
  | .register tool => some tool
  | _ => none

/-- The tool that an answered request has registered. -/
def Request.registered? : Request × Answer → Option Tool
  | (.register tool, .done (.ok ())) => some tool
  | _ => none

namespace Service

/-- A service with the tools over the catalogs and no others. -/
def fresh (store : Store) (session : Session) : Service :=
  ⟨.standard, store, session⟩

/-- The answer to a request, and the service afterwards. -/
def step (service : Service) : Request → Answer × Service
  | .edit files => (.done (.ok ()), { service with session.files := files })
  | .load =>
    let ((outcome, store), session) := service.store.load.run service.session
    (.done outcome, { service with store, session })
  | .register tool =>
    match service.box.register tool with
    | .ok box => (.done (.ok ()), { service with box })
    | .error failure => (.done (.error failure), service)
  | .get name => (.tool (service.box.get name), service)
  | .call name arguments =>
    let (outcome, session) :=
      (service.box.call service.store.catalogs name arguments).run.run service.session
    (.text outcome, { service with session })

def after (service : Service) (requests : List Request) : Service :=
  requests.foldl (fun service request => (service.step request).2) service

/-- Requests with the answers that they get one after another. -/
def answered (service : Service) : List Request → List (Request × Answer)
  | [] => []
  | request :: rest =>
    (request, (service.step request).1) :: (service.step request).2.answered rest

variable {service : Service} {tool : Tool} {name : String}

@[simp] theorem after_nil (service : Service) : service.after [] = service := rfl

@[simp] theorem after_cons (service : Service) (request : Request) (rest : List Request) :
    service.after (request :: rest) = (service.step request).2.after rest := rfl

/-! ### Steps -/

theorem step_register_of_mem (h : tool.name ∈ service.box.tools.map Tool.name) :
    service.step (.register tool) = (.done (.error (.toolTaken tool.name)), service) := by
  rcases service.box.register_cases tool with ⟨-, hrefused⟩ | ⟨hfree, -⟩
  · rw [step, hrefused]
  · exact absurd h hfree

theorem step_register_of_not_mem (h : tool.name ∉ service.box.tools.map Tool.name) :
    ∃ longer : Toolbox, longer.tools = service.box.tools ++ [tool] ∧
      service.step (.register tool) = (.done (.ok ()), { service with box := longer }) := by
  rcases service.box.register_cases tool with ⟨htaken, -⟩ | ⟨-, longer, hlonger, htools⟩
  · exact absurd htaken h
  · exact ⟨longer, htools, by rw [step, hlonger]⟩

/-- A request adds the tool that it registers, and takes no tool away. -/
theorem tools_step (service : Service) (request : Request) :
    (service.step request).2.box.tools = service.box.tools ++
      (Request.registered? (request, (service.step request).1)).toList := by
  cases request with
  | register tool =>
    by_cases h : tool.name ∈ service.box.tools.map Tool.name
    · rw [step_register_of_mem h]
      exact (List.append_nil _).symm
    · obtain ⟨longer, htools, hstep⟩ := step_register_of_not_mem h
      rw [hstep]
      exact htools
  | edit | load | get | call => exact (List.append_nil _).symm

/-- A request leaves every name with its tool, and a tool that it offers gets a name that was
free. -/
theorem get?_step (service : Service) (request : Request) (name : String) :
    (service.step request).2.box.get? name =
      (service.box.get? name).or (request.offered?.toList.find? (·.name = name)) := by
  cases request with
  | register tool =>
    by_cases h : tool.name ∈ service.box.tools.map Tool.name
    · rw [step_register_of_mem h]
      cases hget : service.box.get? name with
      | some other => rfl
      | none =>
        have hne : tool.name ≠ name := fun heq =>
          Toolbox.get?_eq_none_iff.mp hget (heq ▸ h)
        simp [Request.offered?, hne]
    · obtain ⟨longer, htools, hstep⟩ := step_register_of_not_mem h
      rw [hstep]
      exact Toolbox.get?_of_tools_eq htools
  | edit | load | get | call => exact Option.or_none.symm

/-! ### Histories -/

theorem tools_after (service : Service) (history : List Request) :
    (service.after history).box.tools =
      service.box.tools ++ (service.answered history).filterMap Request.registered? := by
  induction history generalizing service with
  | nil => simp [answered]
  | cons request rest ih =>
    rw [after_cons, ih, tools_step, answered, List.filterMap_cons]
    cases Request.registered? (request, (service.step request).1) <;> simp

/-- After a history a name has the tool it had before, or else the first that was offered. -/
theorem get?_after (service : Service) (history : List Request) (name : String) :
    (service.after history).box.get? name = (service.box.get? name).or
      ((history.filterMap Request.offered?).find? (·.name = name)) := by
  induction history generalizing service with
  | nil => simp
  | cons request rest ih =>
    rw [after_cons, ih, get?_step, Option.or_assoc, ← List.find?_append, List.filterMap_cons]
    cases request.offered? <;> rfl

theorem get?_after_of_some (h : service.box.get? name = some tool) (history : List Request) :
    (service.after history).box.get? name = some tool := by
  rw [get?_after, h, Option.some_or]

/-- What a call answers depends on the tool of the name and on the lists, and on nothing else. -/
theorem answer_congr {other : Service} (hget : service.box.get? name = other.box.get? name)
    (hcatalogs : service.store.catalogs = other.store.catalogs) (arguments : Json.Members) :
    (service.step (.call name arguments)).1 = (other.step (.call name arguments)).1 := by
  have hanswer : ∀ service : Service, (service.step (.call name arguments)).1 =
      .text ((service.box.call service.store.catalogs name arguments).run.run service.session).1 :=
    fun _ => rfl
  rw [hanswer, hanswer, Toolbox.outcome_of_call, Toolbox.outcome_of_call,
    Toolbox.get_of_get?_eq hget, hcatalogs]

/-- What holds of a service with the tools over the catalogs, whatever it was asked for. -/
structure Lasting (store : Store) (session : Session) (history : List Request) (now : Service) :
    Prop where
  /-- No two tools have one name. -/
  distinct : (now.box.tools.map Tool.name).Nodup
  /-- The tools over the catalogs come first, and then those that were registered, in order. -/
  listed : now.box.tools = Toolbox.standard.tools ++
    ((fresh store session).answered history).filterMap Request.registered?
  /-- A registration under a name that is taken is refused and changes nothing. -/
  refused : ∀ tool : Tool, tool.name ∈ now.box.tools.map Tool.name →
    now.step (.register tool) = (.done (.error (.toolTaken tool.name)), now)
  /-- A name has the tool that was first offered under it. -/
  first : ∀ name, now.box.get? name =
    (Toolbox.standard.tools ++ history.filterMap Request.offered?).find? (·.name = name)
  /-- A name that has a tool keeps it. -/
  kept : ∀ name tool, now.box.get? name = some tool →
    ∀ later, (now.after later).step (.get name) = (.tool (.ok tool), now.after later)
  /-- A name without a tool is refused, and nothing is changed. -/
  unknown : ∀ name, name ∉ now.box.tools.map Tool.name →
    now.step (.get name) = (.tool (.error (.unknownTool name)), now) ∧
    ∀ arguments, now.step (.call name arguments) = (.text (.error (.unknownTool name)), now)
  /-- A tool over the catalogs answers as it does for a new service with the lists of the time. -/
  live : ∀ name ∈ Toolbox.standard.tools.map Tool.name, ∀ arguments directory other,
    (now.step (.call name arguments)).1 =
      ((fresh ⟨directory, now.store.catalogs⟩ other).step (.call name arguments)).1

/-- Whatever is asked of a service and however the files change meanwhile, its tools are told by
what was registered, and what the tools over the catalogs answer by the lists of the time. -/
theorem lasting_after (store : Store) (session : Session) (history : List Request) :
    Lasting store session history ((fresh store session).after history) where
  distinct := Toolbox.distinct _
  listed := tools_after _ history
  refused _ := step_register_of_mem
  first name := by
    rw [get?_after, List.find?_append]
    rfl
  kept name tool h later := by
    have hget := get?_after_of_some h later
    rw [step, Toolbox.get, hget]
  unknown name h := by
    have hnone := Toolbox.get?_eq_none_iff.mpr h
    refine ⟨by rw [step, Toolbox.get_of_get?_eq_none hnone], fun arguments => ?_⟩
    rw [step, Toolbox.run_call_of_unknown hnone]
  live name hname arguments directory other := by
    have htaken : Toolbox.standard.get? name ≠ none :=
      mt Toolbox.get?_eq_none_iff.mp (not_not_intro hname)
    obtain ⟨tool, htool⟩ := Option.ne_none_iff_exists.mp htaken
    refine answer_congr ?_ ?_ arguments
    · exact (get?_after_of_some htool.symm history).trans htool
    · rfl

end Service

end SdkCatalog
