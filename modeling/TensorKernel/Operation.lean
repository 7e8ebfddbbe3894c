import TensorKernel.ElementType

/-! Unary and binary operations of the expression language and their typing:
the type operands are converted to and the type of the result. -/
namespace TensorKernel

inductive BinaryOp where
  | add | sub | mul | div | mod
  | eq | ne | lt | le | gt | ge
  | and | or
  | min | max | pow | atan2
deriving DecidableEq

namespace BinaryOp

def all : List BinaryOp :=
  [add, sub, mul, div, mod, eq, ne, lt, le, gt, ge, and, or, min, max, pow, atan2]

def name : BinaryOp → String
  | add => "add"
  | sub => "sub"
  | mul => "mul"
  | div => "div"
  | mod => "mod"
  | eq => "eq"
  | ne => "ne"
  | lt => "lt"
  | le => "le"
  | gt => "gt"
  | ge => "ge"
  | and => "logical_and"
  | or => "logical_or"
  | min => "minimum"
  | max => "maximum"
  | pow => "power"
  | atan2 => "arctan2"

def ofName? (s : String) : Option BinaryOp := all.find? (·.name == s)

def symbol? : BinaryOp → Option String
  | add => some "+"
  | sub => some "-"
  | mul => some "*"
  | div => some "/"
  | mod => some "%"
  | eq => some "=="
  | ne => some "!="
  | lt => some "<"
  | le => some "<="
  | gt => some ">"
  | ge => some ">="
  | and => some "&&"
  | or => some "||"
  | min | max | pow | atan2 => none

def isComparison : BinaryOp → Bool
  | eq | ne | lt | le | gt | ge => true
  | _ => false

def isLogical : BinaryOp → Bool
  | and | or => true
  | _ => false

def operandType (op : BinaryOp) (a b : ElementType) : ElementType :=
  match op with
  | and | or => .bool
  | pow | atan2 => (a.promote b).floatOf
  | _ => a.promote b

/-- Type of the result; arithmetic on `bool` operands has none. -/
def resultType? (op : BinaryOp) (a b : ElementType) : Option ElementType :=
  if op.isComparison || op.isLogical then some .bool
  else
    let operand := op.operandType a b
    if operand.isBool then none else some operand

theorem resultType?_eq_none_iff (op : BinaryOp) (a b : ElementType) :
    op.resultType? a b = none ↔
      (op.isComparison || op.isLogical) = false ∧ (op.operandType a b).isBool = true := by
  unfold resultType?
  cases op.isComparison || op.isLogical <;> cases h : (op.operandType a b).isBool <;> simp [h]

end BinaryOp

inductive UnaryOp where
  | neg | not | abs
  | exp | log | sqrt | sin | cos | tan | asin | acos | atan | sinh | cosh | tanh
  | floor | ceil
  | isInf | isNan | isFinite
deriving DecidableEq

namespace UnaryOp

def all : List UnaryOp :=
  [neg, not, abs, exp, log, sqrt, sin, cos, tan, asin, acos, atan, sinh, cosh, tanh, floor,
    ceil, isInf, isNan, isFinite]

def name : UnaryOp → String
  | neg => "neg"
  | not => "logical_not"
  | abs => "abs"
  | exp => "exp"
  | log => "log"
  | sqrt => "sqrt"
  | sin => "sin"
  | cos => "cos"
  | tan => "tan"
  | asin => "asin"
  | acos => "acos"
  | atan => "atan"
  | sinh => "sinh"
  | cosh => "cosh"
  | tanh => "tanh"
  | floor => "floor"
  | ceil => "ceil"
  | isInf => "isinf"
  | isNan => "isnan"
  | isFinite => "isfinite"

def ofName? (s : String) : Option UnaryOp := all.find? (·.name == s)

def isTranscendental : UnaryOp → Bool
  | exp | log | sqrt | sin | cos | tan | asin | acos | atan | sinh | cosh | tanh => true
  | _ => false

def operandType (op : UnaryOp) (a : ElementType) : ElementType :=
  match op with
  | not => .bool
  | _ => if op.isTranscendental then a.floatOf else a

/-- Type of the result; sign, magnitude and rounding are not defined on `bool`. -/
def resultType? (op : UnaryOp) (a : ElementType) : Option ElementType :=
  match op with
  | not | isInf | isNan | isFinite => some .bool
  | neg | abs | floor | ceil => if a.isBool then none else some a
  | _ => some a.floatOf

theorem resultType?_transcendental {op : UnaryOp} (h : op.isTranscendental) (a : ElementType) :
    op.resultType? a = some a.floatOf := by
  revert h; cases op <;> simp [isTranscendental, resultType?]

end UnaryOp
end TensorKernel
