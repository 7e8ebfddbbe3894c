import TensorKernel.Graph.Basic

/-! The dataflow view of a graph: a vertex per node and per output, an edge from
each operand to its user, its drawing, and the search for a cycle in it. -/
namespace TensorKernel.Graph

def vertexLabels (g : Graph) : List String :=
  let nodes := g.nodes.toList.mapIdx fun i node =>
    "e" ++ toString i ++ ": " ++ node.op.label ++ " " ++ node.type.name
  let outputs := g.outputs.mapIdx fun j type => "out" ++ toString j ++ ": " ++ type.text
  nodes ++ outputs

/-- Edges in the order of their users; stores come last. -/
def edges (g : Graph) : List (Nat × Nat) :=
  let operands := (List.range g.nodes.size).flatMap fun i =>
    (g.operands i).map fun operand => (operand, i)
  let stores := (storesOfBlock g.body).map fun (output, value) =>
    (value, g.nodes.size + output)
  operands ++ stores

def escapeMark (c : Char) : List Char := if c = '\\' ∨ c = '"' then ['\\', c] else [c]

/-- The drawing quotes labels twice: once as text and once as an attribute. -/
def vertexLine (i : Nat) (label : String) : String :=
  let escaped := String.ofList ((Dump.quoted label).toList.flatMap escapeMark)
  "    " ++ toString i ++ " [ label = \"" ++ escaped ++ "\" ]\n"

def edgeLine (edge : Nat × Nat) : String :=
  "    " ++ toString edge.1 ++ " -> " ++ toString edge.2 ++ " [ ]\n"

def dot (g : Graph) : String :=
  "digraph \x7b\n" ++ String.join (g.vertexLabels.mapIdx vertexLine)
    ++ String.join (g.edges.map edgeLine) ++ "\x7d\n"

def settleOnce (g : Graph) (settled : Array Bool) : Array Bool :=
  (List.range g.nodes.size).foldl
    (fun settled e =>
      if (g.operands e).all fun operand => settled[operand]?.getD false then
        settled.setIfInBounds e true
      else settled)
    settled

def settle (g : Graph) : Nat → Array Bool → Array Bool
  | 0, settled => settled
  | rounds + 1, settled =>
    if settled.all id then settled else g.settle rounds (g.settleOnce settled)

/-- A vertex that never gets all of its operands, if there is one. -/
def cycle? (g : Graph) : Option Nat :=
  let settled := g.settle g.nodes.size (Array.replicate g.nodes.size false)
  (List.range g.nodes.size).find? fun e => !(settled[e]?.getD false)

end TensorKernel.Graph
