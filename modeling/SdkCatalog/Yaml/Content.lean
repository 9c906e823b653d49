import SdkCatalog.Yaml.Document
import SdkCatalog.Yaml.Scalar

/-! What the nodes of a document stand for. A mapping takes in the pairs of the mappings under its
merge keys, which its own pairs override. Nodes are looked at level by level from the root; the
first that stands for nothing is the fault. -/

namespace SdkCatalog.Yaml.Graph

/-- The pairs of a mapping that are not under a merge key. -/
def ownPairs (graph : Graph) (pairs : List (Nat × Nat)) : List (Nat × Nat) :=
  pairs.filter fun (key, _) => (graph.node key).tag != .merge

/-- The mappings whose pairs a node under a merge key gives, the ones that count less first: a
mapping itself, or those of a sequence from the last to the first. -/
def mergeSources (graph : Graph) (id : Nat) : Except Fault (List Nat) :=
  match graph.node id with
  | .mapping _ _ => .ok [id]
  | .sequence _ items =>
    if items.all fun item => graph.node item matches .mapping _ _ then .ok items.reverse
    else .error .malformed
  | .scalar _ _ => .error .malformed

/-- The pairs of a mapping node, those taken in before its own. A mapping that is reached again
from inside itself gives its own pairs only. -/
def pairsWithin (graph : Graph) : Nat → List Nat → Nat → Except Fault (List (Nat × Nat))
  | 0, _, _ => .error .malformed
  | depth + 1, path, id =>
    match graph.node id with
    | .mapping _ pairs =>
      if path.contains id then .ok (graph.ownPairs pairs)
      else do
        let merged := pairs.filter fun (key, _) => (graph.node key).tag == .merge
        let sources ← merged.mapM fun (_, value) => graph.mergeSources value
        let taken ← sources.flatten.mapM (graph.pairsWithin depth (id :: path))
        .ok (taken.flatten ++ graph.ownPairs pairs)
    | _ => .error .malformed

def pairs (graph : Graph) (id : Nat) : Except Fault (List (Nat × Nat)) :=
  graph.pairsWithin (graph.nodes.size + 2) [] id

/-- The text of a node where a scalar is asked for. A mapping may hold it under the value key. -/
def textWithin (graph : Graph) : Nat → Nat → Except Fault String
  | 0, _ => .error .malformed
  | depth + 1, id =>
    match graph.node id with
    | .scalar _ text => .ok text
    | .mapping _ pairs =>
      match pairs.find? fun (key, _) => (graph.node key).tag == .value with
      | some (_, value) => graph.textWithin depth value
      | none => .error .malformed
    | .sequence _ _ => .error .malformed

def text (graph : Graph) (id : Nat) : Except Fault String :=
  graph.textWithin (graph.nodes.size + 1) id

/-- The tag of a node that is used as a key, where the value key is an ordinary text. -/
def keyTag (tag : Tag) : Tag :=
  if tag = .value then .str else tag

def isCollection (tag : Tag) : Bool :=
  [Tag.seq, .map, .set, .omap, .pairs].contains tag

/-- The key and the value of a node that is to be a mapping of one pair. -/
def singlePair (graph : Graph) (id : Nat) : Except Fault (Nat × Nat) :=
  match graph.node id with
  | .mapping _ [pair] => .ok pair
  | _ => .error .malformed

/-- The value of a node whose tag asks for a scalar. A date is looked for in the node's own text,
which a mapping does not have. -/
def scalar (graph : Graph) (tag : Tag) (id : Nat) : Except Fault Value := do
  let text ← graph.text id
  match tag, graph.node id with
  | .timestamp, .mapping _ _ => .error (.scalar .notText)
  | _, _ => Scalar.value tag text

/-- How far the nodes have been looked at. -/
structure Survey where
  /-- The nodes that are known to stand for something, or will be looked into later. -/
  done : List Nat := []
  /-- The collections to be looked into later, the last first. -/
  later : List (Tag × Nat) := []

/-- A step of looking at the nodes. -/
abbrev Look := StateT Survey (Except Fault)

/-- A fault, or nothing. -/
def check {α : Type} (result : Except Fault α) : Look α :=
  fun survey => result.map (·, survey)

/-- Looks at a node with a tag. What is in a collection is left for later. -/
def visit (graph : Graph) (tag : Tag) (id : Nat) : Look Unit := do
  if (← get).done.contains id then pure ()
  else
    if isCollection tag then modify fun survey => { survey with later := (tag, id) :: survey.later }
    else discard (check (graph.scalar tag id))
    modify fun survey => { survey with done := id :: survey.done }

/-- Looks at what is in a collection. A collection can be no key of a mapping, whatever is in it. -/
def visitInside (graph : Graph) (tag : Tag) (id : Nat) : Look Unit :=
  match tag, graph.node id with
  | .seq, .sequence _ items => items.forM fun item => graph.visit (graph.node item).tag item
  | .map, .mapping _ _ | .set, .mapping _ _ => do
    let pairs ← check (graph.pairs id)
    pairs.forM fun (key, value) => do
      let tag := keyTag (graph.node key).tag
      if isCollection tag then check (.error .malformed)
      graph.visit tag key
      graph.visit (graph.node value).tag value
  | .omap, .sequence _ items | .pairs, .sequence _ items =>
    items.forM fun item => do
      let (key, value) ← check (graph.singlePair item)
      graph.visit (graph.node key).tag key
      graph.visit (graph.node value).tag value
  | _, _ => check (.error .malformed)

/-- Looks into the collections left for later, in the order in which they were met, until none is
left. -/
def visitLater (graph : Graph) : Nat → Look Unit
  | 0 => check (.error .malformed)
  | rounds + 1 => do
    let survey ← get
    if survey.later.isEmpty then pure ()
    else
      set { survey with later := [] }
      survey.later.reverse.forM fun (tag, id) => graph.visitInside tag id
      visitLater graph rounds

/-- The fault of a document, if there is one. -/
def survey (graph : Graph) : Except Fault Unit := do
  let look : Look Unit := do
    graph.visit (graph.node graph.root).tag graph.root
    graph.visitLater (graph.nodes.size + 2)
  let _ ← look.run {}
  .ok ()

/-- The value of a node with a tag, to a depth. A node that stands for nothing is shown as null,
which no document without a fault holds. -/
def unfold (graph : Graph) : Nat → Tag → Nat → Value
  | 0, _, _ => .deeper
  | depth + 1, tag, id =>
    let part := fun (other : Nat) => graph.unfold depth (graph.node other).tag other
    let keyPart := fun (other : Nat) => graph.unfold depth (keyTag (graph.node other).tag) other
    match tag, graph.node id with
    | .seq, .sequence _ items => .sequence (items.map part)
    | .map, .mapping _ _ =>
      .mapping (((graph.pairs id).toOption.getD []).map fun (key, value) =>
        (keyPart key, part value))
    | .set, .mapping _ _ =>
      .set (((graph.pairs id).toOption.getD []).map fun (key, _) => keyPart key)
    | .omap, .sequence _ items | .pairs, .sequence _ items =>
      .pairs (items.filterMap fun item =>
        (graph.singlePair item).toOption.map fun (key, value) => (part key, part value))
    | tag, _ => (graph.scalar tag id).toOption.getD .null

end Graph

/-- A reader of documents: the value of a text, or why it has none. -/
abbrev Reader := List Char → Except Fault Value

/-- Reads the only document of a text, to a depth; an empty text has the value null. -/
def read (depth : Nat) : Reader := fun cs => do
  match ← Document.ofText cs with
  | none => .ok .null
  | some graph =>
    graph.survey
    .ok (graph.unfold depth (graph.node graph.root).tag graph.root)

end SdkCatalog.Yaml
