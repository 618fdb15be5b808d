import SignalAudit.Yaml.Tag

/-!
A YAML document as a graph of nodes. A node is known by its number, so that an alias can lead to any node, also to
one that it is part of.
-/

namespace SignalAudit.Yaml

/-- The number of a node in its document. -/
abbrev NodeId := Nat

inductive Content where
  | scalar (value : Text)
  | sequence (items : List NodeId)
  | mapping (pairs : List (NodeId × NodeId))
  | reference (name : Text) (target : NodeId)
  deriving Repr, DecidableEq

/-- Every node that is no alias has a tag, given or resolved. -/
structure Node where
  content : Content
  tag : Text
  /-- The line it begins on, counted from one. -/
  line : Nat
  deriving Repr, DecidableEq

namespace Node

/-- The text of a scalar or the name of an alias. -/
def value (n : Node) : Text :=
  match n.content with
  | .scalar value => value
  | .reference name _ => name
  | .sequence _ | .mapping _ => []

/-- Nodes of one kind and with the same text; all sequences and all mappings are alike. -/
def isLike (a b : Node) : Bool :=
  match a.content, b.content with
  | .scalar x, .scalar y => x == y
  | .reference x _, .reference y _ => x == y
  | .sequence _, .sequence _ | .mapping _, .mapping _ => true
  | _, _ => false

/-- The key that merges other mappings into its own. -/
def isMerge (n : Node) : Bool :=
  match n.content with
  | .scalar value => value == text "<<" && n.tag == Tag.merge
  | _ => false

end Node

structure Document where
  nodes : Array Node
  root : NodeId
  deriving Repr

def Document.node? (d : Document) (id : NodeId) : Option Node := d.nodes[id]?

end SignalAudit.Yaml
