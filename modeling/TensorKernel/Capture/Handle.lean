import TensorKernel.Graph.Basic

/-! Handles to the parts of a recording. Each carries the number of the recording
it belongs to, so that mixing two recordings is noticed. -/
namespace TensorKernel

abbrev RecordingId := Nat

structure Expr where
  owner : RecordingId
  id : NodeId
  type : ElementType
deriving DecidableEq

namespace Expr

def dump (x : Expr) : String := "Expr(e" ++ toString x.id ++ ": " ++ x.type.name ++ ")"

end Expr

inductive Operand where
  | expr (x : Expr)
  | literal (value : Literal)

structure Position where
  indices : List Expr
  shape : Shape

namespace Position

def operands (p : Position) : List Operand := p.indices.map .expr

def dump (p : Position) : String :=
  Dump.record "Position"
    [("indices", Dump.list (p.indices.map Expr.dump)), ("shape", p.shape.dump)]

end Position

structure InputTensor where
  owner : RecordingId
  index : Nat
  type : TensorType

namespace InputTensor

def dump (t : InputTensor) : String :=
  "InputTensor(" ++ toString t.index ++ ": " ++ t.type.text ++ ")"

end InputTensor

structure OutputTensor where
  owner : RecordingId
  index : Nat
  type : TensorType

namespace OutputTensor

def dump (t : OutputTensor) : String :=
  "OutputTensor(" ++ toString t.index ++ ": " ++ t.type.text ++ ")"

end OutputTensor

structure Variable where
  owner : RecordingId
  id : VarId
  type : ElementType

namespace Variable

def dump (v : Variable) : String :=
  "Variable(v" ++ toString v.id ++ ": " ++ v.type.name ++ ")"

end Variable

/-- A conditional chain that may get further branches: the depth of its block, its
place among the statements there, and whether its last branch is unguarded. -/
structure Chain where
  owner : RecordingId
  depth : Nat
  index : Nat
  closed : Bool

end TensorKernel
