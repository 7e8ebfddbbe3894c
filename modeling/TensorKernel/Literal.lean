import TensorKernel.Number.Decimal
import TensorKernel.Text.Dump

/-! Literal values of the expression language: the type a literal takes beside
an expression, its conversion to a type and its spelling in generated sources. -/
namespace TensorKernel

inductive Literal where
  | bool (value : Bool)
  | int (value : Int64)
  | uint (value : UInt64)
  | float (value : Float)

namespace Literal

def naturalType : Literal → ElementType
  | bool _ => .bool
  | int _ => .i64
  | uint _ => .u64
  | float _ => .f64

/-- The type a literal takes beside an expression of type `other`. Float literals
adopt only float types, the rest adopt any type but `bool`. -/
def weakType (other : ElementType) : Literal → ElementType
  | float _ => if other.isFloat then other else .f64
  | bool _ => other
  | v => if other.isBool then v.naturalType else other

def toDouble : Literal → Float
  | bool b => if b then 1.0 else 0.0
  | int v => v.toFloat
  | uint v => v.toFloat
  | float x => x

def toSigned : Literal → Int
  | bool b => b.toNat
  | int v => v.toInt
  | uint v => ElementType.i64.fastWrap v.toNat
  | float x => (decodeDouble x).saturate .i64

def toUnsigned : Literal → Int
  | bool b => b.toNat
  | int v => ElementType.u64.fastWrap v.toInt
  | uint v => v.toNat
  | float x => (decodeDouble x).saturate .u64

def cast (v : Literal) (t : ElementType) : Literal :=
  match t with
  | .bool => bool (v.toDouble != 0.0)
  | .i8 | .i16 | .i32 | .i64 => int (Int64.ofInt (t.fastWrap v.toSigned))
  | .u8 | .u16 | .u32 | .u64 => uint (UInt64.ofInt (t.fastWrap v.toUnsigned))
  | .f32 => float v.toDouble.toFloat32.toFloat
  | .f64 => float v.toDouble

/-- Decimal digits of a signed value. The least one has no positive counterpart
of its type, so it is written as a difference. -/
def signedDigits (z : Int) : String :=
  if z = ElementType.i64.minValue then "(-9223372036854775807LL - 1)" else toString z ++ "LL"

def floatSpelling (t : ElementType) (x : Float) : String :=
  match decodeDouble x with
  | .nan => "static_cast<" ++ t.spelling ++ ">(NAN)"
  | .infinite negative =>
    (if negative then "-" else "") ++ "static_cast<" ++ t.spelling ++ ">(INFINITY)"
  | .finite .. => if t = .f32 then singleText x.toFloat32 ++ "f" else doubleText x

def spelling (v : Literal) (t : ElementType) : String :=
  match v.cast t with
  | bool b => toString b
  | int z => "static_cast<" ++ t.spelling ++ ">(" ++ signedDigits z.toInt ++ ")"
  | uint n => "static_cast<" ++ t.spelling ++ ">(" ++ toString n.toNat ++ "ULL)"
  | float x => floatSpelling t x

def dump : Literal → String
  | bool b => Dump.tuple "Bool" [toString b]
  | int v => Dump.tuple "Int" [toString v.toInt]
  | uint v => Dump.tuple "UInt" [toString v.toNat]
  | float x => Dump.tuple "Float" [doubleText x]

end Literal
end TensorKernel
