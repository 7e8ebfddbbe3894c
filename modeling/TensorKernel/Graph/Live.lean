import TensorKernel.Graph.Basic

/-! Liveness: which node values reach a statement. Operands precede their users,
so one backward sweep over the nodes is enough. -/
namespace TensorKernel

def markAll (marks : Array Bool) (nodes : List NodeId) : Array Bool :=
  nodes.foldl (fun marks e => marks.setIfInBounds e true) marks

namespace Graph

def sweepNode (g : Graph) (marks : Array Bool) (e : NodeId) : Array Bool :=
  if marks[e]?.getD false then markAll marks (g.operands e) else marks

def live (g : Graph) : Array Bool :=
  let used := markAll (Array.replicate g.nodes.size false) (usesOfBlock g.body)
  (List.range g.nodes.size).reverse.foldl g.sweepNode used

def liveNodes (g : Graph) : List NodeId :=
  (List.range g.nodes.size).filter fun e => g.live[e]?.getD false

end Graph
end TensorKernel
