import SdkCatalog.Yaml.Implicit
import SdkCatalog.Yaml.Token

/-! The document that tokens describe. Nodes get their numbers in the order in which they begin, so
that an anchor can be referred to from inside its own node. -/

namespace SdkCatalog.Yaml.Document

structure Builder where
  tokens : List Token
  nodes : Array Node := #[]
  anchors : List (String × Nat) := []
  /-- What tag handles stand for. -/
  handles : List (String × String)

abbrev Build := StateT Builder (Except Fault)

def refuse {α : Type} : Build α :=
  fun _ => .error .malformed

def peek : Build (Option Token) :=
  fun builder => .ok (builder.tokens.head?, builder)

def drop : Build Unit :=
  fun builder => .ok ((), { builder with tokens := builder.tokens.tail })

def add (node : Node) : Build Nat :=
  fun builder => .ok (builder.nodes.size, { builder with nodes := builder.nodes.push node })

def finish (id : Nat) (node : Node) : Build Nat :=
  fun builder => .ok (id, { builder with nodes := builder.nodes.setIfInBounds id node })

/-- The anchor and the tag of a node, as far as they are written. -/
structure Properties where
  anchor : Option String := none
  tag : Option String := none

/-- The tag leaves the choice to the node: there is none, or it is a single exclamation mark. -/
def Properties.isOpen (properties : Properties) : Bool :=
  properties.tag.isNone || properties.tag == some "!"

/-- Adds a node with properties; its anchor must be new. -/
def addNode (properties : Properties) (node : Node) : Build Nat := do
  match properties.anchor with
  | none => add node
  | some name =>
    fun builder =>
      if builder.anchors.any (·.1 = name) then .error .malformed
      else
        .ok (builder.nodes.size, { builder with
          nodes := builder.nodes.push node
          anchors := (name, builder.nodes.size) :: builder.anchors })

/-- Adds the scalar that stands where nothing is written. -/
def addEmpty : Build Nat :=
  add (.scalar .null "")

/-- The text of a tag as its handle expands it. -/
def expand (tag : TagText.Tag) : Build String :=
  match tag.handle with
  | none => pure tag.suffix
  | some name => fun builder =>
    match builder.handles.find? (·.1 = name) with
    | some (_, text) => .ok (text ++ tag.suffix, builder)
    | none => .error .malformed

def anchor? : Build (Option String) := do
  match ← peek with
  | some (.anchor name) => drop; pure (some name)
  | _ => pure none

def tag? : Build (Option TagText.Tag) := do
  match ← peek with
  | some (.tag found) => drop; pure (some found)
  | _ => pure none

def properties : Build Properties := do
  let first ← anchor?
  let tag ← tag?
  let anchor ← if first.isNone && tag.isSome then anchor? else pure first
  match tag with
  | none => pure ⟨anchor, none⟩
  | some found => pure ⟨anchor, some (← expand found)⟩

/-- The tag of a node, where its properties leave it to the node. -/
def Properties.tagOr (properties : Properties) (default : Tag) : Tag :=
  match properties.tag with
  | none => default
  | some text => if text = "!" then default else Tag.ofText text

/-- The tag of a scalar: a plain one, and one with the open tag, is told by its text. -/
def scalarTag (properties : Properties) (text : String) (plain : Bool) : Tag :=
  match properties.tag with
  | none => if plain then Implicit.tag text else .str
  | some tag => if tag = "!" then Implicit.tag text else Tag.ofText tag

/-- Where a node stands, and what may therefore begin it. -/
inductive Place where
  | flow
  | block
  /-- In a block mapping, where the entries of a sequence need not be indented. -/
  | inMapping
  deriving DecidableEq

/-- The next token is none that begins a node after a key or an entry mark. -/
def endsPart (ends : Token → Bool) : Build Bool := do
  match ← peek with
  | some token => pure (ends token)
  | none => pure false

/-- The token closes a block or stands before another part of a block mapping. -/
def endsMappingPart : Token → Bool
  | .key => true
  | .value => true
  | .blockEnd => true
  | _ => false

/-- The token closes a block sequence or begins its next entry. -/
def endsEntry : Token → Bool
  | .entry => true
  | .blockEnd => true
  | _ => false

/-- The token ends an entry of a sequence that is not indented. -/
def endsLooseEntry : Token → Bool
  | .entry => true
  | token => endsMappingPart token

/-- The token ends a part of a pair between brackets. -/
def endsSequencePart : Token → Bool
  | .flowEntry => true
  | .flowSequenceEnd => true
  | _ => false

/-- The token ends a part of a pair between braces. -/
def endsBracePart : Token → Bool
  | .flowEntry => true
  | .flowMappingEnd => true
  | _ => false

mutual

/-- The number of the node here. Every step uses a token, or stands for nothing written. -/
def node : Nat → Place → Build Nat
  | 0, _ => refuse
  | steps + 1, place => do
    match ← peek with
    | some (.alias name) =>
      drop
      fun builder =>
        match builder.anchors.find? (·.1 = name) with
        | some (_, id) => .ok (id, builder)
        | none => .error .malformed
    | _ =>
      let found ← properties
      match ← peek, place with
      | some .entry, .inMapping =>
        let id ← addNode found (.sequence .seq [])
        finish id (.sequence (found.tagOr .seq) (← looseEntries steps))
      | some (.scalar text plain), _ =>
        drop
        addNode found (.scalar (scalarTag found text plain) text)
      -- A collection has its number before its items do, since they may refer to it.
      | some .flowSequenceStart, _ =>
        drop
        let id ← addNode found (.sequence .seq [])
        finish id (.sequence (found.tagOr .seq) (← flowItems steps true))
      | some .flowMappingStart, _ =>
        drop
        let id ← addNode found (.mapping .map [])
        finish id (.mapping (found.tagOr .map) (← flowPairs steps true))
      | some .sequenceStart, .block | some .sequenceStart, .inMapping =>
        drop
        let id ← addNode found (.sequence .seq [])
        finish id (.sequence (found.tagOr .seq) (← entries steps))
      | some .mappingStart, .block | some .mappingStart, .inMapping =>
        drop
        let id ← addNode found (.mapping .map [])
        finish id (.mapping (found.tagOr .map) (← pairs steps))
      | _, _ =>
        if found.anchor.isSome || found.tag.isSome then
          addNode found (.scalar (if found.isOpen then .null else found.tagOr .null) "")
        else refuse

/-- The node here, or the empty one where a token ends the part. -/
def part : Nat → Place → (Token → Bool) → Build Nat
  | 0, _, _ => refuse
  | steps + 1, place, ends => do
    if ← endsPart ends then addEmpty else node steps place

/-- The value after its mark, or the empty one where there is no mark. -/
def valuePart : Nat → Place → (Token → Bool) → Build Nat
  | 0, _, _ => refuse
  | steps + 1, place, ends => do
    match ← peek with
    | some .value =>
      drop
      part steps place ends
    | _ => addEmpty

def entries : Nat → Build (List Nat)
  | 0 => refuse
  | steps + 1 => do
    match ← peek with
    | some .entry =>
      drop
      let first ← part steps .block endsEntry
      return first :: (← entries steps)
    | some .blockEnd =>
      drop
      pure []
    | _ => refuse

/-- The entries of a sequence that is not indented. -/
def looseEntries : Nat → Build (List Nat)
  | 0 => refuse
  | steps + 1 => do
    match ← peek with
    | some .entry =>
      drop
      let first ← part steps .block endsLooseEntry
      return first :: (← looseEntries steps)
    | _ => pure []

def pairs : Nat → Build (List (Nat × Nat))
  | 0 => refuse
  | steps + 1 => do
    match ← peek with
    | some .key =>
      drop
      let key ← part steps .inMapping endsMappingPart
      let value ← valuePart steps .inMapping endsMappingPart
      return (key, value) :: (← pairs steps)
    | some .blockEnd =>
      drop
      pure []
    | _ => refuse

/-- The items between brackets, after the opening bracket or after an item. -/
def flowItems : Nat → Bool → Build (List Nat)
  | 0, _ => refuse
  | steps + 1, first => do
    match ← peek with
    | some .flowSequenceEnd =>
      drop
      pure []
    | next =>
      match first, next with
      | false, some .flowEntry => drop
      | false, _ => refuse
      | true, _ => pure ()
      match ← peek with
      | some .flowSequenceEnd =>
        drop
        pure []
      | some .key =>
        drop
        let id ← add (.mapping .map [])
        let key ← part steps .flow fun token =>
          match token with
          | .value => true
          | _ => endsSequencePart token
        let value ← valuePart steps .flow endsSequencePart
        let id ← finish id (.mapping .map [(key, value)])
        return id :: (← flowItems steps false)
      | _ =>
        let item ← node steps .flow
        return item :: (← flowItems steps false)

/-- The pairs between braces, after the opening brace or after a pair. -/
def flowPairs : Nat → Bool → Build (List (Nat × Nat))
  | 0, _ => refuse
  | steps + 1, first => do
    match ← peek with
    | some .flowMappingEnd =>
      drop
      pure []
    | next =>
      match first, next with
      | false, some .flowEntry => drop
      | false, _ => refuse
      | true, _ => pure ()
      match ← peek with
      | some .flowMappingEnd =>
        drop
        pure []
      | some .key =>
        drop
        let key ← part steps .flow fun token =>
          match token with
          | .value => true
          | _ => endsBracePart token
        let value ← valuePart steps .flow endsBracePart
        return (key, value) :: (← flowPairs steps false)
      | _ =>
        let key ← node steps .flow
        let value ← addEmpty
        return (key, value) :: (← flowPairs steps false)

end

/-- What tag handles stand for when no directive tells. -/
def defaultHandles : List (String × String) :=
  [("!", "!"), ("!!", tagBase)]

/-- What directives say so far. -/
structure Declared where
  versioned : Bool := false
  handles : List (String × String) := []

/-- What one more directive says. Neither the version nor a handle may be declared twice, and the
version must begin with one. -/
def Declared.declare (declared : Declared) : TagText.Directive → Except Fault Declared
  | .other => .ok declared
  | .version major =>
    if declared.versioned || major != 1 then .error .malformed
    else .ok { declared with versioned := true }
  | .handle name text =>
    if declared.handles.any (·.1 = name) then .error .malformed
    else .ok { declared with handles := declared.handles ++ [(name, text)] }

/-- What the directives at the head of the tokens say, and the tokens after them. -/
def directives : Declared → List Token → Except Fault (Declared × List Token)
  | declared, .directive found :: rest => do directives (← declared.declare found) rest
  | declared, tokens => .ok (declared, tokens)

/-- The token ends a document, or begins the next one. -/
def endsDocument : Token → Bool
  | .directive _ => true
  | .documentStart => true
  | .documentEnd => true
  | _ => false

/-- The graph of the document whose content begins with the given tokens, and the tokens after
it. -/
def content (handles : List (String × String)) (tokens : List Token) :
    Except Fault (Graph × List Token) := do
  let (root, builder) ← (part (4 * tokens.length + 4) .block endsDocument).run { tokens, handles }
  .ok (⟨builder.nodes, root⟩, builder.tokens)

/-- The graph of the document at the head of the tokens, and the tokens after it. -/
def first (tokens : List Token) : Except Fault (Graph × List Token) := do
  match tokens with
  | .directive _ :: _ | .documentStart :: _ =>
    let (declared, rest) ← directives {} tokens
    match rest with
    | [.documentStart] => .ok (⟨#[.scalar .null ""], 0⟩, [])
    | .documentStart :: rest => content (declared.handles ++ defaultHandles) rest
    | _ => .error .malformed
  | .documentEnd :: _ => .error .malformed
  | _ => content defaultHandles tokens

/-- The graph of the only document of a text; there is none if nothing is written. -/
def ofText (cs : List Char) : Except Fault (Option Graph) := do
  let tokens ← Token.ofText cs
  if tokens.isEmpty then .ok none
  else
    let (graph, rest) ← first tokens
    let marks := rest.dropWhile fun token =>
      match token with
      | .documentEnd => true
      | _ => false
    if marks.isEmpty then .ok (some graph) else .error .malformed

end SdkCatalog.Yaml.Document
