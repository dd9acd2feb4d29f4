import Orphans.Ascending
import Orphans.Edge

/-! The import graph. -/

set_option autoImplicit false

namespace Orphans

structure Graph where
  nodes : List String
  edges : List Edge
  deriving DecidableEq, Repr

namespace Graph

/-- The graph of some files and edges. The ends of an edge are files of the graph too. -/
def build (files : List String) (edges : List Edge) : Graph where
  nodes := Ascending.ofList (files ++ edges.flatMap fun edge => [edge.importer, edge.imported])
  edges := Ascending.ofList edges

def inbound (graph : Graph) (node : String) : Nat :=
  (graph.edges.filter fun edge => edge.imported = node).length

def inboundCounts (graph : Graph) : List (String × Nat) :=
  graph.nodes.map fun node => (node, graph.inbound node)

@[simp] theorem map_fst_inboundCounts (graph : Graph) :
    graph.inboundCounts.map Prod.fst = graph.nodes := by
  simp [inboundCounts, Function.comp_def]

end Graph

end Orphans
