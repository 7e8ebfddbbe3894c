import TensorKernel.Literal
import TensorKernel.Operation

/-! Run-time values of kernel expressions. Conversions truncate and wrap,
integer arithmetic is carried out in an unsigned carrier and wrapped back, and
floats keep the precision of their type. A float is held by its bits, so a NaN
that is only moved stays what it was. -/
namespace TensorKernel

inductive Value where
  | bool (value : Bool)
  | int (value : Int)
  | single (bits : UInt32)
  | double (bits : UInt64)
deriving DecidableEq

namespace Value

def ofFloat32 (x : Float32) : Value := single x.toBits

def ofFloat (x : Float) : Value := double x.toBits

def isTrue : Value → Bool
  | bool b => b
  | int z => z != 0
  | single b => Float32.ofBits b != 0
  | double b => Float.ofBits b != 0

def toInt : Value → Int
  | bool b => b.toNat
  | int z => z
  | single b => (BinaryFormat.single.decode b.toNat).truncate
  | double b => (BinaryFormat.double.decode b.toNat).truncate

def toSingle : Value → Float32
  | bool b => singleOfInt b.toNat
  | int z => singleOfInt z
  | single b => Float32.ofBits b
  | double b => (Float.ofBits b).toFloat32

def toDouble : Value → Float
  | bool b => doubleOfInt b.toNat
  | int z => doubleOfInt z
  | single b => (Float32.ofBits b).toFloat
  | double b => Float.ofBits b

def convert (t : ElementType) (v : Value) : Value :=
  match t with
  | .bool => bool v.isTrue
  | .f32 => ofFloat32 v.toSingle
  | .f64 => ofFloat v.toDouble
  | t => int (t.fastWrap v.toInt)

def zero : ElementType → Value
  | .bool => bool false
  | .f32 => single 0
  | .f64 => double 0
  | _ => int 0

def ofLiteral (v : Literal) (t : ElementType) : Value :=
  match v.cast t with
  | .bool b => bool b
  | .int z => int z.toInt
  | .uint n => int n.toNat
  | .float x => if t = .f32 then ofFloat32 x.toFloat32 else ofFloat x

/-- Equality as the element type compares: floats by value, so a NaN differs
from itself. -/
def same : Value → Value → Bool
  | bool a, bool b => a == b
  | int a, int b => a == b
  | single a, single b => Float32.ofBits a == Float32.ofBits b
  | double a, double b => Float.ofBits a == Float.ofBits b
  | _, _ => false

end Value

structure Comparator (α : Type) where
  eq : α → α → Bool
  lt : α → α → Bool
  le : α → α → Bool

namespace Comparator

def int : Comparator Int := ⟨(· == ·), fun a b => a < b, fun a b => a ≤ b⟩
def single : Comparator Float32 := ⟨(· == ·), fun a b => a < b, fun a b => a ≤ b⟩
def double : Comparator Float := ⟨(· == ·), fun a b => a < b, fun a b => a ≤ b⟩

def decide (c : Comparator α) (op : BinaryOp) (a b : α) : Bool :=
  match op with
  | .eq => c.eq a b
  | .ne => !c.eq a b
  | .lt => c.lt a b
  | .le => c.le a b
  | .gt => c.lt b a
  | .ge => c.le b a
  | _ => false

def least (c : Comparator α) (a b : α) : α := if c.lt b a then b else a

def greatest (c : Comparator α) (a b : α) : α := if c.lt a b then b else a

end Comparator

namespace BinaryOp

/-- Integers of type `t`: sums, differences and products in the unsigned carrier,
quotients toward zero. -/
def onInts (op : BinaryOp) (t : ElementType) (a b : Int) : Int :=
  let c := t.carrier
  match op with
  | add => t.fastWrap (c.fastWrap (c.fastWrap a + c.fastWrap b))
  | sub => t.fastWrap (c.fastWrap (c.fastWrap a - c.fastWrap b))
  | mul => t.fastWrap (c.fastWrap (c.fastWrap a * c.fastWrap b))
  | div => t.fastWrap (a.tdiv b)
  | mod => t.fastWrap (a.tmod b)
  | min => Comparator.int.least a b
  | max => Comparator.int.greatest a b
  | _ => 0

def onSingles (op : BinaryOp) (a b : Float32) : Float32 :=
  match op with
  | add => a + b
  | sub => a - b
  | mul => a * b
  | div => a / b
  | mod => remainderSingle a b
  | min => Comparator.single.least a b
  | max => Comparator.single.greatest a b
  | pow => a.pow b
  | atan2 => a.atan2 b
  | _ => 0

def onDoubles (op : BinaryOp) (a b : Float) : Float :=
  match op with
  | add => a + b
  | sub => a - b
  | mul => a * b
  | div => a / b
  | mod => remainderDouble a b
  | min => Comparator.double.least a b
  | max => Comparator.double.greatest a b
  | pow => a.pow b
  | atan2 => a.atan2 b
  | _ => 0

def comparison (op : BinaryOp) (operand : ElementType) (a b : Value) : Bool :=
  match operand with
  | .f32 => Comparator.single.decide op a.toSingle b.toSingle
  | .f64 => Comparator.double.decide op a.toDouble b.toDouble
  | _ => Comparator.int.decide op a.toInt b.toInt

def apply (op : BinaryOp) (operand : ElementType) (a b : Value) : Value :=
  match op with
  | and => .bool (a.isTrue && b.isTrue)
  | or => .bool (a.isTrue || b.isTrue)
  | _ =>
    if op.isComparison then .bool (op.comparison operand a b)
    else match operand with
      | .f32 => .ofFloat32 (op.onSingles a.toSingle b.toSingle)
      | .f64 => .ofFloat (op.onDoubles a.toDouble b.toDouble)
      | t => .int (op.onInts t a.toInt b.toInt)

end BinaryOp

namespace UnaryOp

def onSingle (op : UnaryOp) (x : Float32) : Float32 :=
  match op with
  | neg => -x
  | abs => x.abs
  | exp => x.exp
  | log => x.log
  | sqrt => x.sqrt
  | sin => x.sin
  | cos => x.cos
  | tan => x.tan
  | asin => x.asin
  | acos => x.acos
  | atan => x.atan
  | sinh => x.sinh
  | cosh => x.cosh
  | tanh => x.tanh
  | floor => x.floor
  | ceil => x.ceil
  | _ => x

def onDouble (op : UnaryOp) (x : Float) : Float :=
  match op with
  | neg => -x
  | abs => x.abs
  | exp => x.exp
  | log => x.log
  | sqrt => x.sqrt
  | sin => x.sin
  | cos => x.cos
  | tan => x.tan
  | asin => x.asin
  | acos => x.acos
  | atan => x.atan
  | sinh => x.sinh
  | cosh => x.cosh
  | tanh => x.tanh
  | floor => x.floor
  | ceil => x.ceil
  | _ => x

/-- Integers of type `t`: negation in the unsigned carrier; rounding changes
nothing. -/
def onInt (op : UnaryOp) (t : ElementType) (z : Int) : Int :=
  let c := t.carrier
  match op with
  | neg => t.fastWrap (c.fastWrap (c.fastWrap 0 - c.fastWrap z))
  | abs => if z < 0 then t.fastWrap (-z) else z
  | _ => z

/-- Classification of a value; everything that is not a float is finite. -/
def classify (op : UnaryOp) (v : Value) : Bool :=
  let number : Binary := match v with
    | .single b => BinaryFormat.single.decode b.toNat
    | .double b => BinaryFormat.double.decode b.toNat
    | _ => .finite false 0 0
  match op, number with
  | isNan, .nan => true
  | isInf, .infinite _ => true
  | isFinite, .finite .. => true
  | _, _ => false

def apply (op : UnaryOp) (operand : ElementType) (v : Value) : Value :=
  match op with
  | not => .bool (!v.isTrue)
  | isInf | isNan | isFinite => .bool (op.classify v)
  | _ =>
    match operand with
    | .f32 => .ofFloat32 (op.onSingle v.toSingle)
    | .f64 => .ofFloat (op.onDouble v.toDouble)
    | t => .int (op.onInt t v.toInt)

end UnaryOp
end TensorKernel
