import TensorKernel.Literal
import TensorKernel.Operation
import TensorKernel.Shape

/-! Captured operator bodies: a list of nodes, each naming its operands by
number, and a tree of statements that orders the effects. -/
namespace TensorKernel

abbrev NodeId := Nat
abbrev VarId := Nat
abbrev ScopeId := Nat

inductive Op where
  | input (index : Nat) (indices : List NodeId)
  | constant (value : Literal)
  | position (axis : Nat)
  | unary (op : UnaryOp) (arg : NodeId)
  | binary (op : BinaryOp) (lhs rhs : NodeId)
  | cast (arg : NodeId)
  /-- The value a variable holds where it is read. -/
  | read (slot : VarId)

namespace Op

def operands : Op → List NodeId
  | input _ indices => indices
  | constant _ | position _ | read _ => []
  | unary _ arg | cast arg => [arg]
  | binary _ lhs rhs => [lhs, rhs]

/-- Spelled out at every use instead of being bound to a name. -/
def isInline : Op → Bool
  | constant _ | position _ => true
  | _ => false

def isRead : Op → Bool
  | read _ => true
  | _ => false

def label : Op → String
  | input k _ => "in" ++ toString k ++ "[..]"
  | constant v => v.dump
  | position axis => "p" ++ toString axis
  | unary op _ => op.name
  | binary op _ _ => op.name
  | cast _ => "cast"
  | read slot => "v" ++ toString slot

end Op

structure Node where
  op : Op
  type : ElementType
  /-- The block in which the node may be used. -/
  scope : ScopeId

mutual

inductive Stmt where
  /-- Binds a node's value at this point of the block. -/
  | bind (node : NodeId)
  | declare (slot : VarId) (init : NodeId)
  | assign (slot : VarId) (value : NodeId)
  | store (output : Nat) (indices : List NodeId) (value : NodeId)
  /-- The first branch whose guard holds runs. -/
  | cond (branches : List Branch)

/-- A branch without a guard always runs. -/
inductive Branch where
  | mk (guard : Option NodeId) (body : List Stmt)

end

namespace Branch

def guard : Branch → Option NodeId
  | mk g _ => g

def body : Branch → List Stmt
  | mk _ b => b

end Branch

namespace Stmt

def isBind : Stmt → Bool
  | bind _ => true
  | _ => false

def bound? : Stmt → Option NodeId
  | bind e => some e
  | _ => none

def uses : Stmt → List NodeId
  | bind _ => []
  | declare _ init => [init]
  | assign _ value => [value]
  | store _ indices value => indices ++ [value]
  | cond branches => branches.filterMap Branch.guard

end Stmt

mutual

def Stmt.mapOutputs (f : Nat → Nat) : Stmt → Stmt
  | .bind e => .bind e
  | .declare slot init => .declare slot init
  | .assign slot value => .assign slot value
  | .store output indices value => .store (f output) indices value
  | .cond branches => .cond (mapOutputsBranches f branches)

def mapOutputsBlock (f : Nat → Nat) : List Stmt → List Stmt
  | [] => []
  | s :: rest => s.mapOutputs f :: mapOutputsBlock f rest

def mapOutputsBranches (f : Nat → Nat) : List Branch → List Branch
  | [] => []
  | .mk guard body :: rest => .mk guard (mapOutputsBlock f body) :: mapOutputsBranches f rest

end

mutual

def Stmt.allUses : Stmt → List NodeId
  | .bind _ => []
  | .declare _ init => [init]
  | .assign _ value => [value]
  | .store _ indices value => indices ++ [value]
  | .cond branches => usesOfBranches branches

def usesOfBlock : List Stmt → List NodeId
  | [] => []
  | s :: rest => s.allUses ++ usesOfBlock rest

def usesOfBranches : List Branch → List NodeId
  | [] => []
  | .mk guard body :: rest => guard.toList ++ usesOfBlock body ++ usesOfBranches rest

end

mutual

def Stmt.stores : Stmt → List (Nat × NodeId)
  | .store output _ value => [(output, value)]
  | .cond branches => storesOfBranches branches
  | _ => []

def storesOfBlock : List Stmt → List (Nat × NodeId)
  | [] => []
  | s :: rest => s.stores ++ storesOfBlock rest

def storesOfBranches : List Branch → List (Nat × NodeId)
  | [] => []
  | .mk _ body :: rest => storesOfBlock body ++ storesOfBranches rest

end

structure Graph where
  name : String
  nodes : Array Node
  body : List Stmt
  inputs : List TensorType
  outputs : List TensorType
  slots : List ElementType
  domain : Shape

namespace Graph

def operands (g : Graph) (e : NodeId) : List NodeId :=
  match g.nodes[e]? with
  | some node => node.op.operands
  | none => []

def nodeType (g : Graph) (e : NodeId) : ElementType :=
  match g.nodes[e]? with
  | some node => node.type
  | none => .bool

end Graph
end TensorKernel
