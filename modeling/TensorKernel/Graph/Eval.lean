import TensorKernel.Graph.Basic
import TensorKernel.Tensor

/-! Evaluation of a graph: at every position of the domain, row-major, the body
runs once on buffers that start out zero. -/
namespace TensorKernel

instance : Inhabited Value := ⟨.int 0⟩

abbrev Buffer := Array Value

namespace Buffer

/-- Reads outside of the buffer have no meaning; they give a zero. -/
def load (b : Buffer) (offset : Int) : Value :=
  if offset < 0 then default else b.getD offset.toNat default

def put (b : Buffer) (offset : Int) (v : Value) : Buffer :=
  if offset < 0 then b else b.setIfInBounds offset.toNat v

@[simp] theorem size_put (b : Buffer) (offset : Int) (v : Value) :
    (b.put offset v).size = b.size := by
  unfold put; split <;> simp

end Buffer

/-- What the body of one position reads and writes. -/
structure Frame where
  values : Array Value
  slots : Array Value
  outputs : Array Buffer

/-- What the body of one position only reads. -/
structure Surroundings where
  graph : Graph
  inputs : Array Buffer
  position : List Nat

namespace Surroundings

variable (s : Surroundings)

def value (f : Frame) (e : NodeId) : Value :=
  match s.graph.nodes[e]? with
  | some ⟨.constant v, type, _⟩ => Value.ofLiteral v type
  | some ⟨.position axis, _, _⟩ => .int (s.position[axis]?.getD 0)
  | _ => f.values.getD e default

/-- The value of a node in another type. Constants are converted as literals. -/
def valueAs (f : Frame) (e : NodeId) (t : ElementType) : Value :=
  match s.graph.nodes[e]? with
  | some ⟨.constant v, _, _⟩ => Value.ofLiteral v t
  | some ⟨_, type, _⟩ => if type = t then s.value f e else (s.value f e).convert t
  | none => default

def offset (f : Frame) (type : TensorType) (indices : List NodeId) : Int :=
  Shape.offset type.shape.strides (indices.map fun i => (s.valueAs f i .i64).toInt)

def compute (f : Frame) (node : Node) : Value :=
  match node.op with
  | .input k indices =>
    match s.graph.inputs[k]? with
    | some type => Buffer.load (s.inputs.getD k #[]) (s.offset f type indices)
    | none => default
  | .constant v => Value.ofLiteral v node.type
  | .position axis => .int (s.position[axis]?.getD 0)
  | .unary op arg =>
    let operand := op.operandType (s.graph.nodeType arg)
    op.apply operand (s.valueAs f arg operand)
  | .binary op lhs rhs =>
    let operand := op.operandType (s.graph.nodeType lhs) (s.graph.nodeType rhs)
    op.apply operand (s.valueAs f lhs operand) (s.valueAs f rhs operand)
  | .cast arg => (s.value f arg).convert node.type
  | .read slot => f.slots.getD slot default

def setVariable (f : Frame) (slot : VarId) (e : NodeId) : Frame :=
  let type := s.graph.slots[slot]?.getD .bool
  { f with slots := f.slots.setIfInBounds slot (s.valueAs f e type) }

mutual

def step (f : Frame) : Stmt → Frame
  | .bind e =>
    match s.graph.nodes[e]? with
    | some node => { f with values := f.values.setIfInBounds e (s.compute f node) }
    | none => f
  | .declare slot init => s.setVariable f slot init
  | .assign slot value => s.setVariable f slot value
  | .store output indices value =>
    match s.graph.outputs[output]? with
    | some type =>
      let offset := s.offset f type indices
      let v := s.valueAs f value type.element
      { f with outputs := f.outputs.modify output fun b => Buffer.put b offset v }
    | none => f
  | .cond branches => stepBranches f branches

def stepBlock (f : Frame) : List Stmt → Frame
  | [] => f
  | stmt :: rest => stepBlock (step f stmt) rest

def stepBranches (f : Frame) : List Branch → Frame
  | [] => f
  | .mk none body :: _ => stepBlock f body
  | .mk (some guard) body :: rest =>
    if (s.valueAs f guard .bool).isTrue then stepBlock f body else stepBranches f rest

end

end Surroundings

namespace Graph

def zeroBuffers (g : Graph) : Array Buffer :=
  (g.outputs.map fun type =>
    Array.replicate type.shape.count (Value.zero type.element)).toArray

/-- The body at one position. Nodes and variables do not outlive it. -/
def runAt (g : Graph) (inputs : Array Buffer) (outputs : Array Buffer) (position : List Nat) :
    Array Buffer :=
  let frame : Frame :=
    { values := Array.replicate g.nodes.size default
      slots := Array.replicate g.slots.length default
      outputs }
  (Surroundings.stepBlock ⟨g, inputs, position⟩ frame g.body).outputs

def run (g : Graph) (inputs : Array Buffer) : Array Buffer :=
  g.domain.foldPositions (g.runAt inputs) g.zeroBuffers

theorem run_eq_foldl (g : Graph) (inputs : Array Buffer) :
    g.run inputs = g.domain.positions.foldl (g.runAt inputs) g.zeroBuffers :=
  Shape.foldPositions_eq _ _ _

end Graph
end TensorKernel
