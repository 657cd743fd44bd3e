import Winnow.Yaml.Tag
/-! # Nodes of a document

A document is a graph: aliases make a node a part of several others, and even of itself. Nodes are known
by number. -/

namespace Winnow.Yaml

abbrev NodeId := Nat

inductive Shape
  | scalar (text : String)
  | list (items : List NodeId)
  | mapping (entries : List (NodeId × NodeId))
deriving Repr, Inhabited

structure Node where
  tag : Tag
  shape : Shape
deriving Repr

instance : Inhabited Node := ⟨⟨.null, .scalar ""⟩⟩

abbrev Graph := Array Node

namespace Graph

def node (g : Graph) (id : NodeId) : Node := g[id]?.getD default

def tag (g : Graph) (id : NodeId) : Tag := (g.node id).tag

def shape (g : Graph) (id : NodeId) : Shape := (g.node id).shape

/-- The entries of a mapping. -/
def entries? (g : Graph) (id : NodeId) : Option (List (NodeId × NodeId)) :=
  match g.shape id with
  | .mapping entries => some entries
  | _ => none

def items? (g : Graph) (id : NodeId) : Option (List NodeId) :=
  match g.shape id with
  | .list items => some items
  | _ => none

def setShape (g : Graph) (id : NodeId) (shape : Shape) : Graph :=
  g.modify id fun n => { n with shape }

def setTag (g : Graph) (id : NodeId) (tag : Tag) : Graph := g.modify id fun n => { n with tag }

end Graph
end Winnow.Yaml
