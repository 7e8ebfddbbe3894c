import TensorKernel.Capture.Finish

/-! Operators as data: the instructions that describe a computation once per
position. Instructions name the handles they make and use by registers. -/
namespace TensorKernel

/-- A register of the running script, or of the guest script that ran before it. -/
structure Register where
  guest : Bool
  name : String

inductive Argument where
  | register (r : Register)
  | literal (value : Literal)

inductive Subscript where
  | position (r : Register)
  | indices (args : List Argument)

/-- A tensor that a script is given: an input, or the gradient of an output. -/
inductive Given where
  | input (index : Nat)
  | gradient (index : Nat)

inductive Model where
  | given (tensor : Given)
  | output (r : Register)
  | type (type : TensorType)

mutual

inductive Step where
  /-- A tolerant step ignores its own failure. -/
  | mk (result : Option String) (tolerant : Bool) (action : Action)

inductive Action where
  | inspect (tensor : Given)
  | describe
  | element (tensor : Given) (place : Subscript)
  | constant (value : Literal) (type : ElementType)
  | unary (op : UnaryOp) (arg : Register)
  | binary (op : BinaryOp) (lhs rhs : Argument)
  | cast (arg : Register) (type : ElementType)
  | axis (position : Register) (axis : Nat)
  | output (type : TensorType)
  | outputLike (model : Model)
  | positionIn (shape : Shape)
  | declare (init : Argument) (type : ElementType)
  | get (slot : Register)
  | assign (slot : Register) (value : Argument)
  | update (slot : Register) (op : BinaryOp) (value : Argument)
  | store (output : Register) (place : Subscript) (value : Argument)
  | branch (cond : Register) (body : List Step)
  | elif (chain cond : Register) (body : List Step)
  | otherwise (chain : Register) (body : List Step)
  | ensure (holds : Bool) (text : String)
  | fail (error : Error)

end

structure Script where
  body : List Step
  returns : List Register

structure Operator where
  name : String
  forward : Script
  gradient : Option Script

end TensorKernel
