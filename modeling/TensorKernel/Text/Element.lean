import TensorKernel.Text.Sha256
import TensorKernel.Value

/-! Values as text: integers in decimal, floats as the hexadecimal digits of their
bits. All NaNs are written alike. -/
namespace TensorKernel.Text

def hexValue? (c : Char) : Option Nat :=
  if c.isDigit then some (c.toNat - 48)
  else if 'a' ≤ c && c ≤ 'f' then some (c.toNat - 87)
  else none

def hexNumber? (s : String) : Option Nat :=
  s.toList.foldlM (fun n c => (hexValue? c).map (16 * n + ·)) 0

def integer? (s : String) : Option Int :=
  match s.toList with
  | '-' :: digits => (String.ofList digits).toNat?.map fun n => -(n : Int)
  | '+' :: digits => (String.ofList digits).toNat?.map Int.ofNat
  | _ => s.toNat?.map Int.ofNat

def doubleBits? (s : String) : Option UInt64 :=
  if s = "nan" then some 0x7ff8000000000000 else (hexNumber? s).map UInt64.ofNat

def singleBits? (s : String) : Option UInt32 :=
  if s = "nan" then some 0x7fc00000 else (hexNumber? s).map UInt32.ofNat

def double? (s : String) : Option Float := (doubleBits? s).map Float.ofBits

def single? (s : String) : Option Float32 := (singleBits? s).map Float32.ofBits

def ofDouble (x : Float) : String :=
  if x.isNaN then "nan" else Sha256.hex (Sha256.bigEndian 8 x.toBits.toNat)

def ofSingle (x : Float32) : String :=
  if x.isNaN then "nan" else Sha256.hex (Sha256.bigEndian 4 x.toBits.toNat)

end Text

namespace Value

def text : Value → String
  | bool b => toString b
  | int z => toString z
  | single b => Text.ofSingle (Float32.ofBits b)
  | double b => Text.ofDouble (Float.ofBits b)

def ofText? (t : ElementType) (s : String) : Option Value :=
  match t with
  | .bool => some (bool (s = "true" || s = "1"))
  | .f32 => (Text.singleBits? s).map single
  | .f64 => (Text.doubleBits? s).map double
  | _ => (Text.integer? s).map int

end Value

namespace Literal

/-- Reads a literal by the name of its kind; words as wide as an address have 64 bits. -/
def ofText? (kind s : String) : Option Literal :=
  match kind with
  | "bool" => some (bool (s = "true"))
  | "f32" => (Text.single? s).map fun x => float x.toFloat
  | "f64" => (Text.double? s).map float
  | "i8" | "i16" | "i32" | "i64" | "isize" => (Text.integer? s).map fun z => int (Int64.ofInt z)
  | "u8" | "u16" | "u32" | "u64" | "usize" => (Text.integer? s).map fun z => uint (UInt64.ofInt z)
  | _ => none

end Literal
end TensorKernel
