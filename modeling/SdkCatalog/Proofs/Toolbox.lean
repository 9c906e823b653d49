import SdkCatalog.Proofs.Session
import SdkCatalog.Toolbox

/-! Calls of tools: which arguments a tool accepts, and what a call answers. -/

namespace SdkCatalog

/-- A tool without arguments accepts any call, and nothing of what it is given. -/
theorem Tool.accept_of_emptySchema {tool : Tool} (h : tool.schema = emptySchema)
    (arguments : Json.Members) : tool.accept arguments = .ok [] := by
  have hproperties : tool.properties = [] := by
    rw [properties, h]
    rfl
  have hrequired : tool.required = [] := by
    rw [required, h]
    rfl
  have hdemand : ∀ key, tool.demand key = .undeclared := by
    intro key
    rw [demand, hproperties]
    rfl
  have hmissing : tool.missing? arguments = none := by
    rw [missing?, hrequired]
    rfl
  have hmistyped : tool.mistyped? arguments = none := by
    rw [mistyped?, Option.map_eq_none_iff, List.find?_eq_none]
    simp [hdemand]
  rw [accept, hmissing, hmistyped]
  simp [hdemand]

/-- The outcome of a call is what the tool of the name makes of the arguments that it accepts,
whatever the session. -/
theorem Toolbox.outcome_of_call (box : Toolbox) (catalogs : Catalogs) (name : String)
    (arguments : Json.Members) (session : Session) :
    ((box.call catalogs name arguments).run.run session).1 =
      (box.get name).bind fun tool =>
        (tool.accept arguments).bind fun accepted => tool.handler catalogs accepted := by
  rw [call]
  cases box.get name with
  | error failure => rfl
  | ok tool =>
    rw [Action.run_bind_of_ok (Action.run_orFail_ok_iff.mpr ⟨rfl, rfl⟩)]
    cases haccept : tool.accept arguments with
    | error failure => simp only [Except.bind, haccept]; rfl
    | ok accepted =>
      rw [Action.run_bind_of_ok (Action.run_orFail_ok_iff.mpr ⟨rfl, rfl⟩)]
      simp only [Except.bind, haccept]
      rw [Action.run_bind_of_ok (Action.run_report _ _ _)]
      cases tool.handler catalogs accepted <;> rfl

/-- A call of a tool that is there answers what its handler makes of the accepted arguments. -/
theorem Toolbox.run_call {box : Toolbox} {tool : Tool} {name : String}
    {arguments accepted : Json.Members} (hget : box.get name = .ok tool)
    (haccept : tool.accept arguments = .ok accepted) (catalogs : Catalogs) (session : Session) :
    ((box.call catalogs name arguments).run.run session).1 = tool.handler catalogs accepted := by
  rw [outcome_of_call, hget]
  simp only [Except.bind, haccept]

theorem Toolbox.run_interfaceList (catalogs : Catalogs) (arguments : Json.Members)
    (session : Session) :
    ((standard.call catalogs "get-interface-list" arguments).run.run session).1 =
      Tool.recordsText catalogs.interfaces :=
  run_call (show standard.get "get-interface-list" = .ok Tool.interfaceList from rfl)
    (Tool.accept_of_emptySchema rfl arguments) catalogs session

theorem Toolbox.run_eventList (catalogs : Catalogs) (arguments : Json.Members)
    (session : Session) :
    ((standard.call catalogs "get-event-list" arguments).run.run session).1 =
      Tool.recordsText catalogs.events :=
  run_call (show standard.get "get-event-list" = .ok Tool.eventList from rfl)
    (Tool.accept_of_emptySchema rfl arguments) catalogs session

theorem Toolbox.run_messageTypes (catalogs : Catalogs) (arguments : Json.Members)
    (session : Session) :
    ((standard.call catalogs "get-message-types" arguments).run.run session).1 =
      Tool.recordsText catalogs.sortedMessageTypes :=
  run_call (show standard.get "get-message-types" = .ok Tool.messageTypes from rfl)
    (Tool.accept_of_emptySchema rfl arguments) catalogs session

end SdkCatalog
