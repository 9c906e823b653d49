import SdkCatalog.Proofs.Toolbox

/-! The arguments of a call, judged by the schema of its tool. Required arguments come before types,
and the first fault is told. Arguments that the schema does not declare play no part: two calls that
differ in nothing else go the same way. -/

namespace SdkCatalog

open Json

theorem Json.Value.string?_eq_some_iff {value : Value} {text : String} :
    value.string? = some text ↔ value = .str text := by
  cases value <;> simp [Value.string?]

theorem Json.Members.mem_of_get? {members : Members} {key : String} {value : Value}
    (h : members.get? key = some value) : (key, value) ∈ members := by
  unfold Members.get? at h
  obtain ⟨member, hfind, rfl⟩ := Option.map_eq_some_iff.mp h
  have hkey : member.1 = key := by simpa using List.find?_some hfind
  exact hkey ▸ List.mem_of_find?_eq_some hfind

namespace Tool

variable {tool : Tool} {properties arguments one other : Members} {required : List String}
  {key : String}

/-- A tool declares properties by object schemas, or by null, and requires a list of names. Its
schema may leave out either. -/
structure HasSchema (tool : Tool) (properties : Members) (required : List String) : Prop where
  objects : ∀ property ∈ properties, property.2 = .null ∨ ∃ schema, property.2 = .obj schema
  properties : (tool.schema.get? "properties").getD (.obj []) = .obj properties
  required : (tool.schema.get? "required").getD (.arr []) = .arr (required.map .str)

/-- A property is declared if an object schema stands under its name. -/
def declares (properties : Members) (key : String) : Bool :=
  ((properties.get? key).bind Value.members?).isSome

/-- The argument is declared as a string and is none. -/
def Mistyped (properties : Members) (argument : String × Value) : Prop :=
  (∃ schema, properties.get? argument.1 = some (.obj schema) ∧
    Members.get? schema "type" = some (.str "string")) ∧
  ∀ text, argument.2 ≠ .str text

/-- No required argument is missing. -/
def Complete (required : List String) (arguments : Members) : Prop :=
  ∀ key ∈ required, arguments.get? key ≠ none

/-- The outcome of judging arguments by a schema. -/
inductive Judges (tool : Tool) (properties : Members) (required : List String)
    (arguments : Members) : Except Failure Members → Prop
  | missing {before after : List String} {key : String} : required = before ++ key :: after →
    Complete before arguments → arguments.get? key = none →
    Judges tool properties required arguments (.error (.missingArgument tool.name key))
  | mistyped {before after : Members} {key : String} {value : Value} :
    Complete required arguments → arguments = before ++ (key, value) :: after →
    (∀ argument ∈ before, ¬Mistyped properties argument) → Mistyped properties (key, value) →
    Judges tool properties required arguments (.error (.argumentNotString key tool.name))
  | accepted : Complete required arguments →
    (∀ argument ∈ arguments, ¬Mistyped properties argument) →
    Judges tool properties required arguments
      (.ok (arguments.filter fun argument => declares properties argument.1))

/-! ### Missing arguments -/

theorem missing?_eq_none_iff : tool.missing? arguments = none ↔
    Complete tool.required arguments := by
  simp [missing?, Complete, List.find?_eq_none]

theorem missing?_eq_some_iff : tool.missing? arguments = some key ↔
    arguments.get? key = none ∧ ∃ before after, tool.required = before ++ key :: after ∧
      Complete before arguments := by
  simp only [missing?, List.find?_eq_some_iff_append, Option.isNone_iff_eq_none, Complete,
    Bool.not_eq_true', Option.isNone_eq_false_iff, Option.isSome_iff_ne_none, exists_and_right]

theorem missing?_congr (h : ∀ key ∈ tool.required, one.get? key = none ↔ other.get? key = none) :
    tool.missing? one = tool.missing? other := by
  unfold missing?
  apply List.find?_congr
  intro key hkey
  rw [Bool.eq_iff_iff, Option.isNone_iff_eq_none, Option.isNone_iff_eq_none]
  exact h key hkey

namespace HasSchema

variable (h : tool.HasSchema properties required)
include h

theorem properties_eq : tool.properties = properties := by
  have hproperties := h.properties
  unfold Tool.properties
  cases hget : tool.schema.get? "properties" with
  | none =>
    rw [hget] at hproperties
    injection hproperties
  | some value =>
    rw [hget, Option.getD_some] at hproperties
    subst hproperties
    rfl

theorem required_eq : tool.required = required := by
  have hrequired := h.required
  unfold Tool.required
  cases hget : tool.schema.get? "required" with
  | none =>
    rw [hget] at hrequired
    injection hrequired with hrequired
    rw [List.map_eq_nil_iff.mp hrequired.symm]
    rfl
  | some value =>
    rw [hget, Option.getD_some] at hrequired
    subst hrequired
    show (required.map Value.str).filterMap Value.string? = required
    rw [List.filterMap_map]
    exact List.filterMap_some

theorem demand_ne_undeclared_iff (key : String) :
    tool.demand key ≠ .undeclared ↔ declares properties key = true := by
  unfold demand declares
  rw [h.properties_eq]
  cases hget : properties.get? key with
  | none => simp
  | some value =>
    rcases h.objects _ (Members.mem_of_get? hget) with hnull | ⟨schema, hschema⟩
    · obtain rfl : value = .null := hnull
      simp [Value.members?]
    · obtain rfl : value = .obj schema := hschema
      simp only [Option.bind_some, Value.members?, Option.isSome_some, iff_true]
      split <;> simp

theorem demand_eq_string_iff (key : String) : tool.demand key = .string ↔
    ∃ schema, properties.get? key = some (.obj schema) ∧
      Members.get? schema "type" = some (.str "string") := by
  unfold demand
  rw [h.properties_eq]
  cases hget : properties.get? key with
  | none => simp
  | some value =>
    rcases h.objects _ (Members.mem_of_get? hget) with hnull | ⟨schema, hschema⟩
    · obtain rfl : value = .null := hnull
      simp
    · obtain rfl : value = .obj schema := hschema
      have htype : (Members.get? schema "type").bind Value.string? = some "string" ↔
          Members.get? schema "type" = some (.str "string") := by
        simp [Option.bind_eq_some_iff, Value.string?_eq_some_iff]
      by_cases hstring : Members.get? schema "type" = some (.str "string")
      · simp only [if_pos (htype.mpr hstring), true_iff]
        exact ⟨schema, rfl, hstring⟩
      · simp [mt htype.mp hstring, hstring]

/-! ### Types -/

theorem mistyped_iff (argument : String × Value) :
    (tool.demand argument.1 = .string && argument.2.string?.isNone) = true ↔
      Mistyped properties argument := by
  rw [Bool.and_eq_true, decide_eq_true_eq, h.demand_eq_string_iff, Option.isNone_iff_eq_none,
    Option.eq_none_iff_forall_ne_some, Mistyped]
  simp only [ne_eq, Value.string?_eq_some_iff]

theorem mistyped?_eq_none_iff : tool.mistyped? arguments = none ↔
    ∀ argument ∈ arguments, ¬Mistyped properties argument := by
  simp only [mistyped?, Option.map_eq_none_iff, List.find?_eq_none, h.mistyped_iff]

theorem mistyped?_eq_some_iff : tool.mistyped? arguments = some key ↔
    ∃ before value after, arguments = before ++ (key, value) :: after ∧
      (∀ argument ∈ before, ¬Mistyped properties argument) ∧ Mistyped properties (key, value) := by
  simp only [mistyped?, Option.map_eq_some_iff, List.find?_eq_some_iff_append, h.mistyped_iff,
    Bool.not_eq_true', Bool.eq_false_iff, ne_eq]
  constructor
  · rintro ⟨⟨name, value⟩, ⟨hmistyped, before, after, harguments, hbefore⟩, rfl⟩
    exact ⟨before, value, after, harguments, hbefore, hmistyped⟩
  · rintro ⟨before, value, after, harguments, hbefore, hmistyped⟩
    exact ⟨(key, value), ⟨hmistyped, before, after, harguments, hbefore⟩, rfl⟩

/-- Whether an argument has its type is asked of the declared ones only. -/
theorem mistyped?_filter : tool.mistyped? (arguments.filter fun argument =>
    declares properties argument.1) = tool.mistyped? arguments := by
  unfold mistyped?
  rw [List.find?_filter]
  congr 2
  funext argument
  cases hdeclares : declares properties argument.1 with
  | true => simp only [true_and, Bool.decide_eq_true]
  | false =>
    have hdemand : tool.demand argument.1 = .undeclared := by
      by_contra hne
      rw [(h.demand_ne_undeclared_iff argument.1).mp hne] at hdeclares
      contradiction
    simp [hdemand]

/-! ### Judgements -/

theorem accept_eq : tool.accept arguments =
    match tool.missing? arguments, tool.mistyped? arguments with
    | some key, _ => .error (.missingArgument tool.name key)
    | none, some key => .error (.argumentNotString key tool.name)
    | none, none => .ok (arguments.filter fun argument => declares properties argument.1) := by
  have hdeclared : ∀ argument : String × Value,
      (tool.demand argument.1 != .undeclared) = declares properties argument.1 := by
    intro argument
    rw [Bool.eq_iff_iff, bne_iff_ne]
    exact h.demand_ne_undeclared_iff argument.1
  unfold accept
  cases tool.missing? arguments with
  | some key => cases tool.mistyped? arguments <;> rfl
  | none =>
    cases tool.mistyped? arguments with
    | some key => rfl
    | none => simp only [hdeclared]

theorem judges_accept : Judges tool properties required arguments (tool.accept arguments) := by
  rw [h.accept_eq]
  cases hmissing : tool.missing? arguments with
  | some key =>
    obtain ⟨hnone, before, after, hrequired, hbefore⟩ := missing?_eq_some_iff.mp hmissing
    exact .missing (h.required_eq ▸ hrequired) hbefore hnone
  | none =>
    have hcomplete : Complete required arguments :=
      h.required_eq ▸ missing?_eq_none_iff.mp hmissing
    cases hmistyped : tool.mistyped? arguments with
    | some key =>
      obtain ⟨before, value, after, harguments, hbefore, hkey⟩ :=
        h.mistyped?_eq_some_iff.mp hmistyped
      exact .mistyped hcomplete harguments hbefore hkey
    | none => exact .accepted hcomplete (h.mistyped?_eq_none_iff.mp hmistyped)

/-- A judgement leaves no choice. -/
theorem accept_eq_iff {outcome : Except Failure Members} :
    tool.accept arguments = outcome ↔ Judges tool properties required arguments outcome := by
  constructor
  · rintro rfl
    exact h.judges_accept
  · intro hjudges
    rw [h.accept_eq]
    cases hjudges with
    | missing hrequired hbefore hnone =>
      rw [missing?_eq_some_iff.mpr ⟨hnone, _, _, h.required_eq.trans hrequired, hbefore⟩]
    | mistyped hcomplete harguments hbefore hmistyped =>
      rw [missing?_eq_none_iff.mpr (h.required_eq.symm ▸ hcomplete),
        h.mistyped?_eq_some_iff.mpr ⟨_, _, _, harguments, hbefore, hmistyped⟩]
    | accepted hcomplete htypes =>
      rw [missing?_eq_none_iff.mpr (h.required_eq.symm ▸ hcomplete),
        h.mistyped?_eq_none_iff.mpr htypes]

/-- Arguments that agree where the schema looks are judged alike. -/
theorem accept_congr
    (hdeclared : (one.filter fun argument => declares properties argument.1) =
      other.filter fun argument => declares properties argument.1)
    (hrequired : ∀ key ∈ required, one.get? key = none ↔ other.get? key = none) :
    tool.accept one = tool.accept other := by
  have hmistyped : tool.mistyped? one = tool.mistyped? other := by
    rw [← h.mistyped?_filter, hdeclared, h.mistyped?_filter]
  rw [h.accept_eq, h.accept_eq, missing?_congr (h.required_eq.symm ▸ hrequired), hmistyped,
    hdeclared]

end HasSchema

/-- Arguments are judged exactly as the schema says: the first of the required arguments that is
missing is refused, else the first argument that should be a string and is none, and else the
declared arguments are accepted as they are given. So what the schema does not look at, the values
and the presence of undeclared arguments, makes no difference to a call. -/
theorem judges_declared_arguments (h : tool.HasSchema properties required) :
    (∀ arguments outcome, tool.accept arguments = outcome ↔
      Judges tool properties required arguments outcome) ∧
    (∀ arguments, (∃ failure, tool.accept arguments = .error failure) ↔
      (∃ key ∈ required, arguments.get? key = none) ∨
        ∃ argument ∈ arguments, Mistyped properties argument) ∧
    ∀ (box : Toolbox) (name : String) (one other : Members), box.get? name = some tool →
      (one.filter fun argument => declares properties argument.1) =
        (other.filter fun argument => declares properties argument.1) →
      (∀ key ∈ required, one.get? key = none ↔ other.get? key = none) →
      ∀ catalogs, box.call catalogs name one = box.call catalogs name other := by
  refine ⟨fun arguments outcome => h.accept_eq_iff, fun arguments => ?_, ?_⟩
  · constructor
    · rintro ⟨failure, hfailure⟩
      cases h.accept_eq_iff.mp hfailure with
      | @missing before after key hrequired _ hnone =>
        exact .inl ⟨key, by simp [hrequired], hnone⟩
      | @mistyped before after key value _ harguments _ hmistyped =>
        exact .inr ⟨(key, value), by simp [harguments], hmistyped⟩
    · intro hfault
      cases houtcome : tool.accept arguments with
      | error failure => exact ⟨failure, rfl⟩
      | ok accepted =>
        cases h.accept_eq_iff.mp houtcome with
        | accepted hcomplete htypes =>
          rcases hfault with ⟨key, hkey, hnone⟩ | ⟨argument, hargument, hmistyped⟩
          · exact absurd hnone (hcomplete key hkey)
          · exact absurd hmistyped (htypes argument hargument)
  · intro box name one other hget hdeclared hrequired catalogs
    have htool : box.get name = .ok tool := by
      unfold Toolbox.get
      rw [hget]
    have hfound : ∀ next : Tool → Action String,
        (Action.orFail id (Except.ok tool) >>= next) = next tool := fun _ => rfl
    unfold Toolbox.call
    rw [htool, hfound, hfound, h.accept_congr hdeclared hrequired]

/-- A tool that takes a string and any value, and requires a name that it does not declare. -/
theorem judges_declared_arguments_echo :
    let properties : Members :=
      [("a", .obj [("type", .str "string")]), ("b", .null), ("c", .obj [])]
    let echo : Tool := ⟨"echo", "", schemaOf properties ["z", "a"],
      fun _ arguments => textOf (.obj arguments)⟩
    let box : Toolbox := ⟨[echo], List.nodup_singleton _⟩
    echo.HasSchema properties ["z", "a"] ∧
    echo.accept [("a", .null)] = .error (.missingArgument "echo" "z") ∧
    echo.accept [("z", .null), ("b", .null), ("a", .null)] =
      .error (.argumentNotString "a" "echo") ∧
    ∀ catalogs,
      box.call catalogs "echo" [("z", .null), ("c", .null), ("b", .null), ("a", .str "")] =
        box.call catalogs "echo" [("c", .null), ("y", .null), ("a", .str ""), ("z", .arr [])] := by
  intro properties echo box
  have hschema : echo.HasSchema properties ["z", "a"] := ⟨by simp [properties], rfl, rfl⟩
  obtain ⟨hjudges, -, hcall⟩ := judges_declared_arguments hschema
  have hmissing : ["z", "a"] = [] ++ "z" :: ["a"] := rfl
  have hmistyped : [("z", Value.null), ("b", .null), ("a", .null)] =
      [("z", .null), ("b", .null)] ++ ("a", .null) :: [] := rfl
  refine ⟨hschema, (hjudges _ _).mpr (.missing hmissing (by simp [Complete]) rfl),
    (hjudges _ _).mpr (.mistyped ?_ hmistyped ?_ ?_), hcall box "echo" _ _ rfl rfl ?_⟩
  · simp [Complete, Members.get?]
  · simp [Mistyped, Members.get?, properties]
  · simp [Mistyped, Members.get?, properties]
  · simp [Members.get?]

end Tool

end SdkCatalog
